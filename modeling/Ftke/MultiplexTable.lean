import Ftke.Run
import Ftke.Words
import Mathlib.Data.List.Nodup

/-!
# Ftke.MultiplexTable

The multiplex-table signalling entity of H.245 (`mt.cpp`, class `MT`), outgoing side:
the managers of the outstanding requests, the T104 timers and their counting down in
`OsclTimer`.

`OutSqc` counts the requests; it is the key of the request and the number of its
timer, but the wire has its low 8 bits only.  A manager also has the number of the
request that made it, which stands for its address: it says whose answer a primitive
is.  The map and the timer list are lists in order of insertion; only the first entry
of a key is ever found, as there is only one.
-/

namespace Ftke.MultiplexTable

variable {δ κ : Type}

/-! ## Data -/

/-- `S_MuxDescriptor`: entry numbers with their elements, at most 15. -/
structure MuxDescriptor (δ : Type) where
  descriptors : List (UInt32 × δ)
  size_le : descriptors.length ≤ 15

/-- What is sent to the peer. -/
inductive Message (δ : Type)
  | multiplexEntrySend (sequenceNumber : UInt8) (descriptors : List (UInt32 × δ))
  | multiplexEntrySendRelease (multiplexTableEntryNumber : List UInt32)
  deriving DecidableEq

inductive Source
  | user
  | protocol
  deriving DecidableEq

/-- What is sent to the user: TRANSFER.confirm and REJECT.indication. -/
inductive Primitive (κ : Type)
  | transferConfirm (sn : Int32)
  | rejectIndication (source : Source) (cause : Option κ) (sn : Int32)
  deriving DecidableEq

/-- `MultiplexEntrySendMgr`. -/
structure MultiplexEntrySendMgr where
  iSn : Int32
  iOutMTEntries : List UInt32
  request : Nat
  deriving DecidableEq

/-- An entry of `OsclTimer`; T104 timers do not recur. -/
structure TimerEntry where
  iCounter : Int
  iTimerID : Int32
  deriving DecidableEq

/-- `T104_TIMER_DURATION`. -/
def t104TimerDuration : Int := 30

/-- `MT`, with what it has sent so far. -/
structure MT (δ κ : Type) where
  outSqc : Int32
  iPendingMtSend : List (Int32 × MultiplexEntrySendMgr)
  iTimer : List TimerEntry
  requests : Nat
  messages : List (Message δ)
  primitives : List (Nat × Primitive κ)

/-- The state after `Reset`. -/
def newMT : MT δ κ := ⟨0, [], [], 0, [], []⟩

/-! ## Operations -/

/-- `(uint8)iSn`. -/
def wireNumber (sn : Int32) : UInt8 := sn.toUInt32.toUInt8

/-- The key that an 8-bit sequence number is looked up as. -/
def keyOf (sequenceNumber : UInt8) : Int32 := Int32.ofNat sequenceNumber.toNat

/-- `iPendingMtSend.find`. -/
def find (key : Int32) (m : List (Int32 × MultiplexEntrySendMgr)) : Option MultiplexEntrySendMgr :=
  m.lookup key

/-- `iPendingMtSend.insert`: an old entry stays. -/
def insert (key : Int32) (mgr : MultiplexEntrySendMgr) (m : List (Int32 × MultiplexEntrySendMgr)) :
    List (Int32 × MultiplexEntrySendMgr) :=
  if key ∈ m.map Prod.fst then m else m ++ [(key, mgr)]

/-- `iPendingMtSend.erase`. -/
def erase (key : Int32) (m : List (Int32 × MultiplexEntrySendMgr)) :
    List (Int32 × MultiplexEntrySendMgr) :=
  m.filter fun entry => entry.1 ≠ key

/-- `OsclTimer::Cancel`: the first timer of this number. -/
def cancel (timerID : Int32) (timers : List TimerEntry) : List TimerEntry :=
  timers.eraseP fun entry => entry.iTimerID = timerID

/-- `MT::TransferRequest`. -/
def transferRequest (p_MuxDescriptor : MuxDescriptor δ) (s : MT δ κ) : MT δ κ :=
  let mgr : MultiplexEntrySendMgr := ⟨s.outSqc, p_MuxDescriptor.descriptors.map Prod.fst, s.requests⟩
  { s with
    iPendingMtSend := insert s.outSqc mgr s.iPendingMtSend
    messages := s.messages ++ [.multiplexEntrySend (wireNumber mgr.iSn) p_MuxDescriptor.descriptors]
    iTimer := s.iTimer ++ [⟨t104TimerDuration, mgr.iSn⟩]
    outSqc := s.outSqc + 1
    requests := s.requests + 1 }

/-- A manager answers its request and is deleted. -/
def answer (key : Int32) (mgr : MultiplexEntrySendMgr) (primitive : Primitive κ) (s : MT δ κ) : MT δ κ :=
  { s with
    primitives := s.primitives ++ [(mgr.request, primitive)]
    iPendingMtSend := erase key s.iPendingMtSend }

/-- `MT::MultiplexEntrySendAck`. -/
def multiplexEntrySendAck (sequenceNumber : UInt8) (s : MT δ κ) : MT δ κ :=
  match find (keyOf sequenceNumber) s.iPendingMtSend with
  | none => s
  | some mgr =>
    answer (keyOf sequenceNumber) mgr (.transferConfirm (keyOf sequenceNumber))
      { s with iTimer := cancel mgr.iSn s.iTimer }

/-- `MT::MultiplexEntrySendReject`. -/
def multiplexEntrySendReject (sequenceNumber : UInt8) (cause : κ) (s : MT δ κ) : MT δ κ :=
  match find (keyOf sequenceNumber) s.iPendingMtSend with
  | none => s
  | some mgr =>
    answer (keyOf sequenceNumber) mgr (.rejectIndication .user (some cause) (keyOf sequenceNumber))
      { s with iTimer := cancel mgr.iSn s.iTimer }

/-- `MT::TimeoutOccurred`. -/
def timeoutOccurred (timerID : Int32) (s : MT δ κ) : MT δ κ :=
  match find timerID s.iPendingMtSend with
  | none => s
  | some mgr =>
    answer timerID mgr (.rejectIndication .protocol none mgr.iSn)
      { s with messages := s.messages ++ [.multiplexEntrySendRelease mgr.iOutMTEntries] }

/-- The first loop of `OsclTimer::TimerBaseElapsed`: every timer counts down, and the
observer is called for those that have expired. -/
def countDown : List TimerEntry → MT δ κ → List TimerEntry × MT δ κ
  | [], s => ([], s)
  | entry :: timers, s =>
    let entry := { entry with iCounter := entry.iCounter - 1 }
    let s := if entry.iCounter ≤ 0 then timeoutOccurred entry.iTimerID s else s
    let r := countDown timers s
    (entry :: r.1, r.2)

/-- `OsclTimer::TimerBaseElapsed`: the expired timers are removed afterwards. -/
def timerBaseElapsed (s : MT δ κ) : MT δ κ :=
  let r := countDown s.iTimer s
  { r.2 with iTimer := r.1.filter fun entry => 0 < entry.iCounter }

/-- What the entity receives. -/
inductive Event (δ κ : Type)
  | transferRequest (p_MuxDescriptor : MuxDescriptor δ)
  | multiplexEntrySendAck (sequenceNumber : UInt8)
  | multiplexEntrySendReject (sequenceNumber : UInt8) (cause : κ)
  | timerBaseElapsed

def handle (s : MT δ κ) : Event δ κ → MT δ κ
  | .transferRequest p_MuxDescriptor => transferRequest p_MuxDescriptor s
  | .multiplexEntrySendAck sequenceNumber => multiplexEntrySendAck sequenceNumber s
  | .multiplexEntrySendReject sequenceNumber cause => multiplexEntrySendReject sequenceNumber cause s
  | .timerBaseElapsed => timerBaseElapsed s

/-- Runs of the entity. -/
def step (s : MT δ κ) (event : Event δ κ) (t : MT δ κ) : Prop := handle s event = t

/-! ## The map -/

def keys (m : List (Int32 × MultiplexEntrySendMgr)) : List Int32 := m.map Prod.fst

variable {key : Int32} {m : List (Int32 × MultiplexEntrySendMgr)} {mgr : MultiplexEntrySendMgr}

theorem keys_insert (h : key ∉ keys m) : insert key mgr m = m ++ [(key, mgr)] := if_neg h

theorem mem_erase
    {entry : Int32 × MultiplexEntrySendMgr} : entry ∈ erase key m ↔ entry ∈ m ∧ entry.1 ≠ key := by
  simp [erase]

theorem mem_keys_erase {key k : Int32} :
    k ∈ keys (erase key m) ↔ k ∈ keys m ∧ k ≠ key := by
  simp only [keys, List.mem_map, mem_erase]
  constructor
  · rintro ⟨entry, ⟨hmem, hne⟩, rfl⟩
    exact ⟨⟨entry, hmem, rfl⟩, hne⟩
  · rintro ⟨⟨entry, hmem, rfl⟩, hne⟩
    exact ⟨entry, ⟨hmem, hne⟩, rfl⟩

theorem find_eq_none :
    find key m = none ↔ key ∉ keys m := by
  rw [find, List.lookup_eq_none_iff, keys]
  simp only [List.mem_map, bne_iff_ne, not_exists, not_and]
  constructor
  · intro h entry hmem heq
    exact h entry hmem heq.symm
  · intro h entry hmem heq
    exact h entry hmem heq.symm

theorem mem_of_find (h : find key m = some mgr) : (key, mgr) ∈ m := by
  obtain ⟨l, r, rfl, -⟩ := List.lookup_eq_some_iff.mp h
  simp

theorem find_of_mem (hnodup : (keys m).Nodup) (h : (key, mgr) ∈ m) : find key m = some mgr := by
  cases hfind : find key m with
  | none => exact absurd (List.mem_map_of_mem h) (find_eq_none.mp hfind)
  | some mgr' =>
    have heq := List.inj_on_of_nodup_map hnodup (mem_of_find hfind) h rfl
    exact congrArg some (congrArg Prod.snd heq)

/-! ## The invariant -/

/-- The outstanding requests have the keys `ids`, and none of them is answered. -/
structure Outstanding (ids : List Int32) (s : MT δ κ) : Prop where
  ids_nodup : ids.Nodup
  keys_nodup : (keys s.iPendingMtSend).Nodup
  mem_iff : ∀ k, k ∈ keys s.iPendingMtSend ↔ k ∈ ids
  iSn : ∀ entry ∈ s.iPendingMtSend, entry.2.iSn = entry.1
  request_lt : ∀ entry ∈ s.iPendingMtSend, entry.2.request < s.requests
  request_inj : ∀ entry ∈ s.iPendingMtSend, ∀ entry' ∈ s.iPendingMtSend,
    entry.2.request = entry'.2.request → entry = entry'
  answered_lt : ∀ answered ∈ s.primitives, answered.1 < s.requests
  unanswered : ∀ entry ∈ s.iPendingMtSend, entry.2.request ∉ s.primitives.map Prod.fst
  answered_nodup : (s.primitives.map Prod.fst).Nodup

theorem Outstanding.of_eq {ids : List Int32} {s t : MT δ κ} (h : Outstanding ids s)
    (hpending : t.iPendingMtSend = s.iPendingMtSend) (hrequests : t.requests = s.requests)
    (hprimitives : t.primitives = s.primitives) : Outstanding ids t := by
  constructor
  · exact h.ids_nodup
  · rw [hpending]
    exact h.keys_nodup
  · rw [hpending]
    exact h.mem_iff
  · rw [hpending]
    exact h.iSn
  · rw [hpending, hrequests]
    exact h.request_lt
  · rw [hpending]
    exact h.request_inj
  · rw [hprimitives, hrequests]
    exact h.answered_lt
  · rw [hpending, hprimitives]
    exact h.unanswered
  · rw [hprimitives]
    exact h.answered_nodup

variable {s : MT δ κ}

/-- **An answer** takes its request out. -/
theorem Outstanding.answer {ids : List Int32} (h : Outstanding ids s)
    (hmem : (key, mgr) ∈ s.iPendingMtSend) (primitive : Primitive κ) :
    Outstanding (ids.erase key) (answer key mgr primitive s) := by
  have hsub : ∀ entry ∈ erase key s.iPendingMtSend, entry ∈ s.iPendingMtSend :=
    fun entry he => (mem_erase.mp he).1
  constructor
  · exact h.ids_nodup.erase key
  · exact h.keys_nodup.sublist (List.filter_sublist.map _)
  · intro k
    rw [MultiplexTable.answer, mem_keys_erase, h.mem_iff, h.ids_nodup.mem_erase_iff, and_comm]
  · exact fun entry he => h.iSn entry (hsub entry he)
  · exact fun entry he => h.request_lt entry (hsub entry he)
  · exact fun entry he entry' he' => h.request_inj entry (hsub entry he) entry' (hsub entry' he')
  · intro answered ha
    rcases List.mem_append.mp ha with hold | hnew
    · exact h.answered_lt answered hold
    · rw [List.mem_singleton.mp hnew]
      exact h.request_lt (key, mgr) hmem
  · intro entry he hanswered
    rw [MultiplexTable.answer, List.map_append, List.mem_append] at hanswered
    rcases hanswered with hold | hnew
    · exact h.unanswered entry (hsub entry he) hold
    · have hsame := h.request_inj entry (hsub entry he) (key, mgr) hmem (List.mem_singleton.mp hnew)
      exact (mem_erase.mp he).2 (congrArg Prod.fst hsame)
  · rw [MultiplexTable.answer, List.map_append, List.nodup_append]
    refine ⟨h.answered_nodup, List.nodup_singleton _, fun r hr r' hr' heq => ?_⟩
    rw [List.map_singleton, List.mem_singleton] at hr'
    rw [heq, hr'] at hr
    exact h.unanswered (key, mgr) hmem hr

/-- The numbers of the timers. -/
def timerIDs (timers : List TimerEntry) : List Int32 := timers.map TimerEntry.iTimerID

/-- The timers are those of the outstanding requests. -/
def Inv (s : MT δ κ) : Prop := Outstanding (timerIDs s.iTimer) s

theorem inv_new : Inv (newMT : MT δ κ) := by
  constructor <;> simp [newMT, timerIDs, keys]

theorem timerIDs_cancel (sn : Int32) (timers : List TimerEntry) :
    timerIDs (cancel sn timers) = (timerIDs timers).erase sn := by
  induction timers with
  | nil => rfl
  | cons entry timers ih =>
    rw [cancel] at ih ⊢
    rw [List.eraseP_cons]
    by_cases h : entry.iTimerID = sn
    · simp [timerIDs, h]
    · simp only [h, decide_false, cond_false, timerIDs, List.map_cons]
      rw [List.erase_cons_tail (by simpa using h)]
      exact congrArg _ ih

/-- No request is outstanding under the number of the next one. -/
def Fresh (s : MT δ κ) : Event δ κ → Prop
  | .transferRequest _ => s.outSqc ∉ keys s.iPendingMtSend
  | _ => True

theorem inv_transferRequest (h : Inv s) (hfresh : s.outSqc ∉ keys s.iPendingMtSend)
    (p_MuxDescriptor : MuxDescriptor δ) : Inv (transferRequest p_MuxDescriptor s) := by
  have hids : s.outSqc ∉ timerIDs s.iTimer := fun hmem => hfresh ((h.mem_iff _).mpr hmem)
  rw [Inv, transferRequest]
  simp only [keys_insert hfresh]
  constructor
  · simp only [timerIDs, List.map_append, List.map_cons, List.map_nil]
    exact List.nodup_append.mpr ⟨h.ids_nodup, List.nodup_singleton _, by
      intro a ha b hb heq
      rw [List.mem_singleton.mp hb] at heq
      exact hids (heq ▸ ha)⟩
  · simp only [keys, List.map_append, List.map_cons, List.map_nil]
    exact List.nodup_append.mpr ⟨h.keys_nodup, List.nodup_singleton _, by
      intro a ha b hb heq
      rw [List.mem_singleton.mp hb] at heq
      exact hfresh (heq ▸ ha)⟩
  · intro k
    have hk := h.mem_iff k
    simp only [keys, timerIDs, List.map_append, List.map_cons, List.map_nil, List.mem_append] at hk ⊢
    rw [hk]
  · intro entry he
    rcases List.mem_append.mp he with hold | hnew
    · exact h.iSn entry hold
    · rw [List.mem_singleton.mp hnew]
  · intro entry he
    rcases List.mem_append.mp he with hold | hnew
    · exact Nat.lt_succ_of_lt (h.request_lt entry hold)
    · rw [List.mem_singleton.mp hnew]
      exact Nat.lt_succ_self _
  · intro entry he entry' he' heq
    rcases List.mem_append.mp he with hold | hnew
    · have hlt := h.request_lt entry hold
      rcases List.mem_append.mp he' with hold' | hnew'
      · exact h.request_inj entry hold entry' hold' heq
      · rw [heq, List.mem_singleton.mp hnew'] at hlt
        exact absurd hlt (Nat.lt_irrefl _)
    · rcases List.mem_append.mp he' with hold' | hnew'
      · have hlt := h.request_lt entry' hold'
        rw [← heq, List.mem_singleton.mp hnew] at hlt
        exact absurd hlt (Nat.lt_irrefl _)
      · rw [List.mem_singleton.mp hnew, List.mem_singleton.mp hnew']
  · exact fun answered ha => Nat.lt_succ_of_lt (h.answered_lt answered ha)
  · intro entry he
    rcases List.mem_append.mp he with hold | hnew
    · exact h.unanswered entry hold
    · rw [List.mem_singleton.mp hnew]
      intro hmem
      obtain ⟨answered, ha, heq⟩ := List.mem_map.mp hmem
      have hlt := h.answered_lt answered ha
      rw [heq] at hlt
      exact absurd hlt (Nat.lt_irrefl _)
  · exact h.answered_nodup

theorem inv_answer (h : Inv s) (hfind : find key s.iPendingMtSend = some mgr) (primitive : Primitive κ) :
    Inv (answer key mgr primitive { s with iTimer := cancel mgr.iSn s.iTimer }) := by
  have hmem := mem_of_find hfind
  have hiSn : mgr.iSn = key := h.iSn (key, mgr) hmem
  have hanswer := h.answer hmem primitive
  rw [Inv]
  refine Outstanding.of_eq (s := answer key mgr primitive s) ?_ rfl rfl rfl
  rw [answer, timerIDs_cancel, hiSn]
  exact hanswer

theorem inv_multiplexEntrySendAck (h : Inv s) (sequenceNumber : UInt8) :
    Inv (multiplexEntrySendAck sequenceNumber s) := by
  rw [multiplexEntrySendAck]
  cases hfind : find (keyOf sequenceNumber) s.iPendingMtSend with
  | none => exact h
  | some mgr => exact inv_answer h hfind _

theorem inv_multiplexEntrySendReject (h : Inv s) (sequenceNumber : UInt8) (cause : κ) :
    Inv (multiplexEntrySendReject sequenceNumber cause s) := by
  rw [multiplexEntrySendReject]
  cases hfind : find (keyOf sequenceNumber) s.iPendingMtSend with
  | none => exact h
  | some mgr => exact inv_answer h hfind _

theorem outstanding_timeoutOccurred {ids : List Int32} (h : Outstanding ids s)
    {timerID : Int32} (hmem : timerID ∈ ids) : Outstanding (ids.erase timerID) (timeoutOccurred timerID s) := by
  rw [timeoutOccurred]
  cases hfind : find timerID s.iPendingMtSend with
  | none => exact absurd ((h.mem_iff timerID).mpr hmem) (find_eq_none.mp hfind)
  | some mgr => exact (h.answer (mem_of_find hfind) _).of_eq rfl rfl rfl

/-- The timers that are left of a list. -/
def running (timers : List TimerEntry) : List TimerEntry := timers.filter fun entry => 0 < entry.iCounter

/-- **The countdown**: of the timers not yet reached all are outstanding, of those
behind only what still runs. -/
theorem outstanding_countDown : ∀ (timers : List TimerEntry) (done : List Int32) {s : MT δ κ},
    Outstanding (done ++ timerIDs timers) s →
    Outstanding (done ++ timerIDs (running (countDown timers s).1)) (countDown timers s).2
  | [], done, s, h => h
  | entry :: timers, done, s, h => by
    have hsplit : done ++ timerIDs (entry :: timers) = done ++ entry.iTimerID :: timerIDs timers := rfl
    rw [hsplit] at h
    rw [countDown]
    by_cases hexpired : entry.iCounter - 1 ≤ 0
    · have hnot : entry.iTimerID ∉ done := fun hmem =>
        (List.nodup_append.mp h.ids_nodup).2.2 _ hmem _ List.mem_cons_self rfl
      have htimeout := outstanding_timeoutOccurred h (List.mem_append_right done List.mem_cons_self)
      rw [List.erase_append_right _ hnot, List.erase_cons_head] at htimeout
      have hrest := outstanding_countDown timers _ htimeout
      simp only [if_pos hexpired]
      rw [running, List.filter_cons_of_neg (by simp; omega)]
      exact hrest
    · have hmove : done ++ entry.iTimerID :: timerIDs timers =
          (done ++ [entry.iTimerID]) ++ timerIDs timers := by simp
      rw [hmove] at h
      have hrest := outstanding_countDown timers _ h
      simp only [if_neg hexpired]
      rw [running, List.filter_cons_of_pos (by simp; omega)]
      simpa [timerIDs, running] using hrest

theorem inv_timerBaseElapsed (h : Inv s) : Inv (timerBaseElapsed s) :=
  (outstanding_countDown s.iTimer [] h).of_eq rfl rfl rfl

/-- **Every event keeps the invariant** if the number of a request is fresh. -/
theorem inv_handle (h : Inv s) {event : Event δ κ} (hfresh : Fresh s event) :
    Inv (handle s event) := by
  cases event with
  | transferRequest p_MuxDescriptor => exact inv_transferRequest h hfresh p_MuxDescriptor
  | multiplexEntrySendAck sequenceNumber => exact inv_multiplexEntrySendAck h sequenceNumber
  | multiplexEntrySendReject sequenceNumber cause => exact inv_multiplexEntrySendReject h sequenceNumber cause
  | timerBaseElapsed => exact inv_timerBaseElapsed h

theorem inv_of_run {events : List (Event δ κ)} (h : Run (guarded Fresh step) newMT events s) : Inv s :=
  h.invariant inv_new fun _ _ _ hinv hstep => hstep.2 ▸ inv_handle hinv hstep.1

/-! ## What is claimed of a state -/

/-- The keys of the map are the numbers of the running timers. -/
def KeysRun (s : MT δ κ) : Prop := (keys s.iPendingMtSend).Perm (timerIDs s.iTimer)

/-- No request is answered twice. -/
def AnsweredOnce (s : MT δ κ) : Prop := ∀ request, (s.primitives.map Prod.fst).count request ≤ 1

/-- No other outstanding request has the same number on the wire. -/
def Alone (s : MT δ κ) (key : Int32) : Prop :=
  ∀ other ∈ keys s.iPendingMtSend, wireNumber other = wireNumber key → other = key

/-- The request is answered, its timer is stopped, and the others are as before. -/
structure Completed (s t : MT δ κ) (key : Int32) (mgr : MultiplexEntrySendMgr) (primitive : Primitive κ) :
    Prop where
  primitives : t.primitives = s.primitives ++ [(mgr.request, primitive)]
  pending : t.iPendingMtSend = erase key s.iPendingMtSend
  timers : timerIDs t.iTimer = (timerIDs s.iTimer).erase key

/-- An answer that echoes the number of a request completes the request. -/
def EchoCompletes (s : MT δ κ) : Prop :=
  ∀ key mgr, (key, mgr) ∈ s.iPendingMtSend → Alone s key →
    Completed s (multiplexEntrySendAck (wireNumber key) s) key mgr (.transferConfirm (keyOf (wireNumber key))) ∧
    ∀ cause, Completed s (multiplexEntrySendReject (wireNumber key) cause s) key mgr
      (.rejectIndication .user (some cause) (keyOf (wireNumber key)))

/-- The property of a state. -/
structure Good (s : MT δ κ) : Prop where
  keysRun : KeysRun s
  answeredOnce : AnsweredOnce s
  echoCompletes : EchoCompletes s

/-- The number of a request fits in 8 bits. -/
def Narrow (key : Int32) : Prop := 0 ≤ key.toInt ∧ key.toInt < 256

theorem toNat_wireNumber (key : Int32) : ((wireNumber key).toNat : Int) = key.toInt % 256 :=
  Words.toNat_low8 key

theorem toInt_keyOf (n : UInt8) : (keyOf n).toInt = n.toNat :=
  Int32.toInt_ofNat_of_lt (Nat.lt_trans n.toNat_lt (by decide))

theorem keyOf_wireNumber : keyOf (wireNumber key) = key ↔ Narrow key := by
  rw [← Int32.toInt_inj, toInt_keyOf, toNat_wireNumber, Narrow]
  omega

theorem wireNumber_keyOf (n : UInt8) : wireNumber (keyOf n) = n := by
  have hlt := n.toNat_lt
  have h := toNat_wireNumber (keyOf n)
  rw [toInt_keyOf] at h
  exact UInt8.toNat_inj.mp (by omega)

theorem keysRun_of_inv (h : Inv s) : KeysRun s :=
  (List.perm_ext_iff_of_nodup h.keys_nodup h.ids_nodup).mpr h.mem_iff

theorem answeredOnce_of_inv (h : Inv s) : AnsweredOnce s :=
  List.nodup_iff_count_le_one.mp h.answered_nodup

theorem completed_answer (h : Inv s) (hmem : (key, mgr) ∈ s.iPendingMtSend) (primitive : Primitive κ) :
    Completed s (answer key mgr primitive { s with iTimer := cancel mgr.iSn s.iTimer }) key mgr primitive := by
  have hiSn : mgr.iSn = key := h.iSn (key, mgr) hmem
  refine ⟨rfl, rfl, ?_⟩
  rw [answer, timerIDs_cancel, hiSn]

/-- **Echoes complete** exactly the requests whose number fits in 8 bits. -/
theorem echoCompletes_iff (h : Inv s) :
    EchoCompletes s ↔ ∀ key ∈ keys s.iPendingMtSend, Alone s key → Narrow key := by
  constructor
  · intro hecho key hkey halone
    obtain ⟨entry, hmem, rfl⟩ := List.mem_map.mp hkey
    by_contra hwide
    obtain ⟨hack, -⟩ := hecho entry.1 entry.2 hmem halone
    -- nothing is found under the low 8 bits
    have hnone : find (keyOf (wireNumber entry.1)) s.iPendingMtSend = none :=
      find_eq_none.mpr fun hfound =>
        hwide (keyOf_wireNumber.mp (halone _ hfound (wireNumber_keyOf _)))
    have hlog := hack.primitives
    rw [multiplexEntrySendAck, hnone] at hlog
    simp at hlog
  · intro hnarrow key mgr hmem halone
    have hkey := keyOf_wireNumber.mpr (hnarrow key (List.mem_map_of_mem hmem) halone)
    have hfind : find (keyOf (wireNumber key)) s.iPendingMtSend = some mgr := by
      rw [hkey]
      exact find_of_mem h.keys_nodup hmem
    constructor
    · rw [multiplexEntrySendAck, hfind, hkey]
      exact completed_answer h hmem _
    · intro cause
      rw [multiplexEntrySendReject, hfind, hkey]
      exact completed_answer h hmem _

/-- **The outgoing side.**  In every run in which no request is made while its number
is outstanding, the keys are those of the running timers and no request is answered
twice; an echo completes its request if and only if the number fits in 8 bits. -/
theorem good_iff_of_run {events : List (Event δ κ)} {s : MT δ κ}
    (h : Run (guarded Fresh step) newMT events s) :
    Good s ↔ ∀ key ∈ keys s.iPendingMtSend, Alone s key → Narrow key := by
  have hinv := inv_of_run h
  rw [← echoCompletes_iff hinv]
  exact ⟨Good.echoCompletes, fun hecho => ⟨keysRun_of_inv hinv, answeredOnce_of_inv hinv, hecho⟩⟩

/-! ## The 257th request -/

/-- A table of one entry. -/
def oneEntry : MuxDescriptor Unit := ⟨[(1, ())], by decide⟩

/-- Requests that are acknowledged at once. -/
def acknowledged : Nat → List (Event Unit Unit)
  | 0 => []
  | n + 1 => acknowledged n ++ [.transferRequest oneEntry, .multiplexEntrySendAck (UInt8.ofNat n)]

theorem run_acknowledged : ∀ n ≤ 256, ∃ s, Run (guarded Fresh step) newMT (acknowledged n) s ∧
    s.outSqc = Int32.ofNat n ∧ s.iPendingMtSend = [] ∧ s.iTimer = []
  | 0, _ => ⟨newMT, .nil _, rfl, rfl, rfl⟩
  | n + 1, hn => by
    obtain ⟨s, hrun, hcount, hpending, htimer⟩ := run_acknowledged n (by omega)
    have hfresh : Fresh s (.transferRequest oneEntry) := by
      rw [Fresh, hpending]
      exact List.not_mem_nil
    have hfirst : Run (guarded Fresh step) newMT (acknowledged n ++ [.transferRequest oneEntry])
        (transferRequest oneEntry s) := hrun.snoc ⟨hfresh, rfl⟩
    have hboth : Run (guarded Fresh step) newMT
        (acknowledged n ++ [.transferRequest oneEntry] ++ [.multiplexEntrySendAck (UInt8.ofNat n)])
        (multiplexEntrySendAck (UInt8.ofNat n) (transferRequest oneEntry s)) := hfirst.snoc ⟨trivial, rfl⟩
    rw [List.append_assoc] at hboth
    have hkey : keyOf (UInt8.ofNat n) = Int32.ofNat n := by
      rw [keyOf, UInt8.toNat_ofNat', Nat.mod_eq_of_lt (by omega)]
    refine ⟨_, hboth, ?_⟩
    rw [transferRequest, hpending, htimer, keys_insert List.not_mem_nil, multiplexEntrySendAck, hkey]
    simp [find, hcount, answer, erase, cancel, Int32.ofNat_add]

/-- After 256 requests the next one has the number 0 on the wire and the key 256, and an
answer to it is not recognised. -/
theorem echo_unrecognised : ∃ s, Run (guarded Fresh step) newMT
    (acknowledged 256 ++ [.transferRequest oneEntry]) s ∧ ¬Good s := by
  obtain ⟨s, hrun, hcount, hpending, htimer⟩ := run_acknowledged 256 (le_refl _)
  have hfresh : Fresh s (.transferRequest oneEntry) := by
    rw [Fresh, hpending]
    exact List.not_mem_nil
  have hnext : Run (guarded Fresh step) newMT (acknowledged 256 ++ [.transferRequest oneEntry])
      (transferRequest oneEntry s) := hrun.snoc ⟨hfresh, rfl⟩
  have hkeys : keys (transferRequest oneEntry s).iPendingMtSend = [256] := by
    rw [transferRequest, hpending, keys_insert List.not_mem_nil, hcount]
    rfl
  refine ⟨_, hnext, fun hgood => ?_⟩
  have hnarrow := (echoCompletes_iff (inv_of_run hnext)).mp hgood.echoCompletes 256
  rw [hkeys] at hnarrow
  have halone : Alone (transferRequest oneEntry s) 256 := fun other hother _ => by
    rw [hkeys] at hother
    exact List.mem_singleton.mp hother
  have hwide := (hnarrow (List.mem_singleton_self _) halone).2
  exact absurd hwide (by decide)

/-- One request that is acknowledged, and one that is outstanding. -/
theorem good_iff_of_run_two :
    Good (handle (handle (handle (newMT : MT Unit Unit) (.transferRequest oneEntry))
      (.multiplexEntrySendAck 0)) (.transferRequest oneEntry)) := by
  have hfirst : Run (guarded Fresh step) (newMT : MT Unit Unit) [.transferRequest oneEntry]
      (handle newMT (.transferRequest oneEntry)) := (Run.nil newMT).snoc ⟨List.not_mem_nil, rfl⟩
  have hsecond : Run (guarded Fresh step) newMT [.transferRequest oneEntry, .multiplexEntrySendAck 0]
      (handle (handle newMT (.transferRequest oneEntry)) (.multiplexEntrySendAck 0)) :=
    hfirst.snoc ⟨trivial, rfl⟩
  have hrun : Run (guarded Fresh step) newMT
      [.transferRequest oneEntry, .multiplexEntrySendAck 0, .transferRequest oneEntry]
      (handle (handle (handle newMT (.transferRequest oneEntry)) (.multiplexEntrySendAck 0))
        (.transferRequest oneEntry)) := hsecond.snoc ⟨List.not_mem_nil, rfl⟩
  refine (good_iff_of_run hrun).mpr fun key hkey _ => ?_
  rw [List.mem_singleton.mp hkey]
  exact ⟨by decide, by decide⟩

end Ftke.MultiplexTable
