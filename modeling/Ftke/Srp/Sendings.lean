import Ftke.Srp.Timers

/-!
# Ftke.Srp.Sendings

The commands that the sending half hands to the lower layer, and for each of
them whether its timer starts with it or sends it again.

The counters of the timers follow these lists, but for one case: `N400Counter`
is set to zero when a timer is started anew, and so it is for a command that is
sent again because of a later response, before it is counted.
-/

namespace Ftke.Srp

/-- The timers: the one of the SRP command and those of the WNSRP commands. -/
inductive TimerName
  | srp
  | wnsrp (timerID : Nat)
  deriving DecidableEq

/-- A command handed to the lower layer. -/
inductive Sending
  | first (timer : TimerName) (pPkt : MediaData)
  | again (timer : TimerName) (pPkt : MediaData)

namespace Sending

/-- The command. -/
def packet : Sending → MediaData
  | first _ pPkt => pPkt
  | again _ pPkt => pPkt

/-- One more entry of the log, for one timer. -/
def count (name : TimerName) (n : Nat) : Sending → Nat
  | first timer _ => if timer = name then 0 else n
  | again timer _ => if timer = name then n + 1 else n

end Sending

/-- How often the command of a timer has been sent again, since the timer was
started with it. -/
def retransmissions (name : TimerName) (log : List Sending) : Nat := log.foldl (Sending.count name) 0

namespace Sender

/-! ## What a call sends -/

/-- The timer of a name. -/
def timer (s : Sender) : TimerName → RespTimer
  | .srp => s.iSrpCommandSave
  | .wnsrp timerID => s.iWnsrpCommandSave timerID

/-- What `wnsrpLoop` sends. -/
def wnsrpSends : List Nat → Nat → Sender → List Sending
  | [], _, _ => []
  | pTimer :: free, avail, s =>
    match s.srpSendWaitGet s.iActiveWnsrpCommandSave.length, avail with
    | none, _ => []
    | some _, 0 => []
    | some pPkt, avail + 1 =>
      .first (.wnsrp pTimer) (srpCommandCreate pPkt .wnsrpCommand) ::
        wnsrpSends free avail (s.sendWnsrp pTimer pPkt)

/-- What `Srp_0_1` sends. -/
def srp_0_1Sends (s : Sender) (avail : Nat) : List Sending :=
  match s.iCurWnsrpStatus with
  | .wnsrpFullSupport => wnsrpSends s.iFreeWnsrpCommandSave avail s
  | status =>
    match s.srpSendWaitGet 0, avail with
    | none, _ => []
    | some _, 0 => []
    | some pFirstPkt, avail + 1 =>
      .first .srp (srpCommandCreate pFirstPkt .srpCommand) ::
        if status = .noWnsrpSupport then []
        else wnsrpSends (s.sendSrp pFirstPkt).iFreeWnsrpCommandSave avail (s.sendSrp pFirstPkt)

/-- What `Srp_1_1` sends. -/
def srp_1_1Sends (s : Sender) (avail : Nat) : List Sending :=
  match s.iCurWnsrpStatus with
  | .noWnsrpSupport => []
  | _ => wnsrpSends s.iFreeWnsrpCommandSave avail s

/-- The commands that are sent again before the one acknowledged. -/
def resends (s : Sender) (earlier : List Nat) : List Sending :=
  earlier.filterMap fun t => (s.iWnsrpCommandSave t).pPkt.map (.again (.wnsrp t))

/-- What the first part of `Srp_1_3` sends. -/
def acknowledgeSends (s : Sender) (seqNum : UInt8) : Event → List Sending
  | .wnsrpResponse =>
    match (s.srpCommandClear seqNum).waitingFor seqNum s.iActiveWnsrpCommandSave with
    | .ok (some (earlier, _)) => s.resends earlier
    | _ => []
  | _ => []

/-- The next WNSRP command, in `Srp_1_3`. -/
def sendNextWnsrpSends (s : Sender) (avail : Nat) : List Sending :=
  match s.srpSendWaitGet s.iActiveWnsrpCommandSave.length, avail, s.getFreeWnsrpTimer with
  | some pPkt, _ + 1, some (pTimer, _) =>
    [.first (.wnsrp pTimer) (srpCommandCreate pPkt .wnsrpCommand)]
  | _, _, _ => []

/-- What the second part of `Srp_1_3` sends. -/
def sendNextSends (s : Sender) (avail : Nat) : List Sending :=
  match s.iCurWnsrpStatus with
  | .wnsrpFullSupport => s.sendNextWnsrpSends avail
  | status =>
    match s.srpSendWaitGet 0, avail with
    | none, _ => if status = .noWnsrpSupport then [] else s.sendNextWnsrpSends avail
    | some _, 0 => []
    | some pFirstPkt, avail + 1 =>
      .first .srp (srpCommandCreate pFirstPkt .srpCommand) ::
        if status = .noWnsrpSupport then [] else (s.sendSrp pFirstPkt).sendNextWnsrpSends avail

/-- What `Srp_1_3` sends. -/
def srp_1_3Sends (s : Sender) (seqNum : UInt8) (event : Event) (avail : Nat) : List Sending :=
  s.acknowledgeSends seqNum event ++
    match s.acknowledge seqNum event with
    | .ok (t, _, true) => t.sendNextSends avail
    | _ => []

/-- What `Srp_1_4` sends: the command of this timer, while it may be sent. -/
def srp_1_4Sends (s : Sender) (id : Nat) : List Sending :=
  if id = s.iWNSRPTxWindow then
    match s.iSrpCommandSave.pPkt with
    | some pPkt => if s.srpN400Check s.iSrpCommandSave then [.again .srp pPkt] else []
    | none => []
  else
    match s.findActiveWnsrpTimer id with
    | some timer =>
      match (s.iWnsrpCommandSave timer).pPkt with
      | some pPkt =>
        if id < s.iWNSRPTxWindow ∧ s.srpN400Check (s.iWnsrpCommandSave timer) then
          [.again (.wnsrp timer) pPkt]
        else []
      | none => []
    | none => []

/-! ## The counters and the log -/

/-- From `s` to `t`, where these commands are sent: each counter counts what is
sent again, and stays within the maximum; and no timer is lost or doubled. -/
structure Follows (s : Sender) (log : List Sending) (t : Sender) : Prop where
  counter : ∀ name, (t.timer name).N400Counter = log.foldl (Sending.count name) (s.timer name).N400Counter
  bound : ∀ name, (s.timer name).N400Counter ≤ s.iN400MaxCounter →
    (t.timer name).N400Counter ≤ s.iN400MaxCounter
  max : t.iN400MaxCounter = s.iN400MaxCounter
  lists : (t.iActiveWnsrpCommandSave ++ t.iFreeWnsrpCommandSave).Perm
    (s.iActiveWnsrpCommandSave ++ s.iFreeWnsrpCommandSave)

variable {s t u : Sender} {log log' : List Sending}

theorem Follows.trans (h : s.Follows log t) (h' : t.Follows log' u) : s.Follows (log ++ log') u where
  counter name := by rw [List.foldl_append, ← h.counter name, h'.counter name]
  bound name hle := by
    have hmax := h.max
    have ht := h'.bound name (by rw [hmax]; exact h.bound name hle)
    rwa [hmax] at ht
  max := h'.max.trans h.max
  lists := h'.lists.trans h.lists

theorem follows_nil (hcounter : ∀ name, (t.timer name).N400Counter = (s.timer name).N400Counter)
    (hmax : t.iN400MaxCounter = s.iN400MaxCounter)
    (hlists : (t.iActiveWnsrpCommandSave ++ t.iFreeWnsrpCommandSave).Perm
      (s.iActiveWnsrpCommandSave ++ s.iFreeWnsrpCommandSave)) : s.Follows [] t where
  counter name := hcounter name
  bound name hle := by rw [hcounter name]; exact hle
  max := hmax
  lists := hlists

theorem Follows.refl (s : Sender) : s.Follows [] s := follows_nil (fun _ => rfl) rfl (.refl _)

theorem Follows.setStatus (h : s.Follows log t) (status : SrpStatus) :
    s.Follows log { t with iStatus := status } := ⟨h.counter, h.bound, h.max, h.lists⟩

theorem timer_setTimer (s : Sender) (pTimer : Nat) (new : RespTimer) (name : TimerName) :
    (s.setTimer pTimer new).timer name = if name = .wnsrp pTimer then new else s.timer name := by
  cases name with
  | srp => simp [timer, setTimer]
  | wnsrp timerID => simp only [timer, setTimer, TimerName.wnsrp.injEq]

theorem follows_clear (seqNum : UInt8) : s.Follows [] (s.srpCommandClear seqNum) :=
  follows_nil (fun _ => rfl) rfl (.refl _)

theorem follows_idleIfDone (s : Sender) : s.Follows [] s.idleIfDone := by
  unfold idleIfDone
  split
  · exact (Follows.refl s).setStatus _
  · exact .refl s

theorem follows_giveUp (s : Sender) : s.Follows [] s.giveUp := by
  unfold giveUp
  split
  · exact .refl s
  · split
    · exact (Follows.refl s).setStatus _
    · split
      · exact .refl s
      · exact (Follows.refl s).setStatus _

theorem follows_release (s : Sender) (pTimer : Nat) : s.Follows [] (s.release pTimer) := by
  have hcounter (name : TimerName) :
      ((s.setTimer pTimer (s.iWnsrpCommandSave pTimer).srpT401Stop).timer name).N400Counter =
        (s.timer name).N400Counter := by
    rw [timer_setTimer]
    split
    · next heq =>
      rw [heq]
      rfl
    · rfl
  by_cases hmem : pTimer ∈ s.iActiveWnsrpCommandSave
  · rw [release_eq hmem]
    refine follows_nil hcounter rfl ?_
    have hperm := List.perm_cons_erase hmem
    calc s.iActiveWnsrpCommandSave.erase pTimer ++ (s.iFreeWnsrpCommandSave ++ [pTimer])
        = (s.iActiveWnsrpCommandSave.erase pTimer ++ s.iFreeWnsrpCommandSave) ++ [pTimer] :=
          (List.append_assoc ..).symm
      _ |>.Perm (pTimer :: (s.iActiveWnsrpCommandSave.erase pTimer ++ s.iFreeWnsrpCommandSave)) :=
          List.perm_append_singleton ..
      _ |>.Perm (s.iActiveWnsrpCommandSave ++ s.iFreeWnsrpCommandSave) :=
          (hperm.append_right _).symm
  · rw [release_of_not_mem hmem]
    exact follows_nil hcounter rfl (.refl _)

theorem follows_foldl_release (l : List Nat) : ∀ s : Sender, s.Follows [] (l.foldl release s) := by
  induction l with
  | nil => exact Follows.refl
  | cons pTimer l ih => exact fun s => (follows_release s pTimer).trans (ih _)

theorem follows_stopSrp (s : Sender) :
    s.Follows [] { s with iSrpCommandSave := s.iSrpCommandSave.srpT401Stop } := by
  refine follows_nil (fun name => ?_) rfl (.refl _)
  cases name <;> rfl

theorem follows_wnsrpStatusSet (s : Sender) (status : WnsrpStatus) :
    s.Follows [] (s.wnsrpStatusSet status) := by
  have hset : s.Follows [] { s with iCurWnsrpStatus := status } :=
    follows_nil (fun _ => rfl) rfl (.refl _)
  unfold wnsrpStatusSet
  cases status with
  | noWnsrpSupport => exact hset.trans (follows_foldl_release _ _)
  | wnsrpTxSupport => exact hset
  | wnsrpFullSupport =>
    simp only
    split
    · exact hset.trans (follows_stopSrp _)
    · exact hset

/-! ## Commands sent for the first time -/

theorem follows_sendSrp (s : Sender) (pPkt : MediaData) :
    s.Follows [.first .srp (srpCommandCreate pPkt .srpCommand)] (s.sendSrp pPkt) := by
  refine ⟨fun name => ?_, fun name hle => ?_, rfl, .refl _⟩
  · cases name <;> rfl
  · cases name with
    | srp => exact Nat.zero_le _
    | wnsrp timerID => exact hle

theorem follows_sendWnsrp {pTimer : Nat} {free : List Nat} (pPkt : MediaData)
    (hfree : s.iFreeWnsrpCommandSave = pTimer :: free) :
    s.Follows [.first (.wnsrp pTimer) (srpCommandCreate pPkt .wnsrpCommand)]
      { s.sendWnsrp pTimer pPkt with iFreeWnsrpCommandSave := free } := by
  have htimer (name : TimerName) :
      ({ s.sendWnsrp pTimer pPkt with iFreeWnsrpCommandSave := free } : Sender).timer name =
        if name = .wnsrp pTimer then .srpT401Start (srpCommandCreate pPkt .wnsrpCommand)
        else s.timer name := timer_setTimer s pTimer _ name
  refine ⟨fun name => ?_, fun name hle => ?_, rfl, ?_⟩
  · rw [htimer, List.foldl_cons, List.foldl_nil, Sending.count]
    by_cases heq : name = .wnsrp pTimer
    · rw [if_pos heq, if_pos heq.symm]
      rfl
    · rw [if_neg heq, if_neg fun h => heq h.symm]
  · rw [htimer]
    split
    · exact Nat.zero_le _
    · exact hle
  · show ((s.iActiveWnsrpCommandSave ++ [pTimer]) ++ free).Perm _
    rw [List.append_assoc, hfree]
    exact .refl _

theorem follows_wnsrpLoop : ∀ (free : List Nat) (avail : Nat) (s : Sender),
    Follows { s with iFreeWnsrpCommandSave := free } (wnsrpSends free avail s) (wnsrpLoop free avail s).1 ∧
      (wnsrpLoop free avail s).2.1 = (wnsrpSends free avail s).map Sending.packet
  | [], _, _ => ⟨.refl _, rfl⟩
  | pTimer :: free, avail, s => by
    cases hget : s.srpSendWaitGet s.iActiveWnsrpCommandSave.length with
    | none =>
      simp only [wnsrpLoop, wnsrpSends, hget]
      exact ⟨.refl _, rfl⟩
    | some pPkt =>
      cases avail with
      | zero =>
        simp only [wnsrpLoop, wnsrpSends, hget]
        exact ⟨.refl _, rfl⟩
      | succ avail =>
        have hsend := @follows_sendWnsrp { s with iFreeWnsrpCommandSave := pTimer :: free } pTimer free
          pPkt rfl
        obtain ⟨hloop, hlower⟩ := follows_wnsrpLoop free avail (s.sendWnsrp pTimer pPkt)
        simp only [wnsrpLoop, wnsrpSends, hget]
        refine ⟨hsend.trans hloop, ?_⟩
        rw [hlower, List.map_cons]
        rfl

variable {avail : Nat} {lower : List MediaData}

theorem follows_srp_0_1_first
    (hmode : s.iCurWnsrpStatus ≠ .wnsrpFullSupport) (h : s.srp_0_1 avail = .ok (t, lower)) :
    s.Follows (s.srp_0_1Sends avail) t ∧ lower = (s.srp_0_1Sends avail).map Sending.packet := by
  cases hget : s.srpSendWaitGet 0 with
  | none =>
    cases hstatus : s.iCurWnsrpStatus with
    | wnsrpFullSupport => exact absurd hstatus hmode
    | noWnsrpSupport | wnsrpTxSupport => simp [srp_0_1, hstatus, hget] at h
  | some pFirstPkt =>
    have hsend := follows_sendSrp s pFirstPkt
    cases avail with
    | zero =>
      cases hstatus : s.iCurWnsrpStatus with
      | wnsrpFullSupport => exact absurd hstatus hmode
      | noWnsrpSupport | wnsrpTxSupport =>
        simp only [srp_0_1, hstatus, hget] at h
        cases h
        simp only [srp_0_1Sends, hstatus, hget]
        exact ⟨.refl s, rfl⟩
    | succ avail =>
      obtain ⟨hloop, hlower⟩ := follows_wnsrpLoop (s.sendSrp pFirstPkt).iFreeWnsrpCommandSave avail
        (s.sendSrp pFirstPkt)
      cases hstatus : s.iCurWnsrpStatus with
      | wnsrpFullSupport => exact absurd hstatus hmode
      | noWnsrpSupport =>
        simp only [srp_0_1, hstatus, hget, if_true] at h
        cases h
        simp only [srp_0_1Sends, hstatus, hget, if_true]
        exact ⟨hsend.setStatus _, rfl⟩
      | wnsrpTxSupport =>
        simp only [srp_0_1, hstatus, hget, reduceCtorEq, if_false] at h
        simp only [srp_0_1Sends, hstatus, hget, reduceCtorEq, if_false, List.map_cons, ← hlower]
        split at h
        · cases h
          exact ⟨(hsend.trans hloop).setStatus _, rfl⟩
        · cases h
          exact ⟨hsend.trans hloop, rfl⟩

/-- **`Srp_0_1`** sends commands for the first time. -/
theorem follows_srp_0_1 (h : s.srp_0_1 avail = .ok (t, lower)) :
    s.Follows (s.srp_0_1Sends avail) t ∧ lower = (s.srp_0_1Sends avail).map Sending.packet := by
  by_cases hmode : s.iCurWnsrpStatus = .wnsrpFullSupport
  · obtain ⟨hloop, hlower⟩ := follows_wnsrpLoop s.iFreeWnsrpCommandSave avail s
    simp only [srp_0_1, hmode] at h
    simp only [srp_0_1Sends, hmode]
    split at h
    · cases h
      exact ⟨hloop.setStatus _, hlower⟩
    · cases h
      exact ⟨hloop, hlower⟩
  · exact follows_srp_0_1_first hmode h

/-- **`Srp_1_1`** sends commands for the first time. -/
theorem follows_srp_1_1 (s : Sender) (avail : Nat) :
    s.Follows (s.srp_1_1Sends avail) (s.srp_1_1 avail).1 ∧
      (s.srp_1_1 avail).2 = (s.srp_1_1Sends avail).map Sending.packet := by
  have hloop := follows_wnsrpLoop s.iFreeWnsrpCommandSave avail s
  cases hmode : s.iCurWnsrpStatus with
  | noWnsrpSupport =>
    simp only [srp_1_1, srp_1_1Sends, hmode]
    exact ⟨.refl s, rfl⟩
  | wnsrpTxSupport | wnsrpFullSupport =>
    simp only [srp_1_1, srp_1_1Sends, hmode]
    exact hloop

/-! ## Commands sent again -/

variable {seqNum : UInt8}

theorem waitingFor_ok : ∀ {l earlier : List Nat} {pTimer : Nat},
    s.waitingFor seqNum l = .ok (some (earlier, pTimer)) → ∃ later pPkt, l = earlier ++ pTimer :: later ∧
      (s.iWnsrpCommandSave pTimer).pPkt = some pPkt ∧ pPkt.seqNum = seqNum ∧
      ∀ t ∈ earlier, ∃ p, (s.iWnsrpCommandSave t).pPkt = some p ∧ p.seqNum ≠ seqNum
  | [], _, _, h => by simp [waitingFor] at h
  | t :: l, earlier, pTimer, h => by
    unfold waitingFor at h
    cases hpkt : (s.iWnsrpCommandSave t).pPkt with
    | none => simp [hpkt] at h
    | some pPkt =>
      simp only [hpkt] at h
      by_cases hseq : pPkt.seqNum = seqNum
      · simp only [if_pos hseq, Except.ok.injEq, Option.some.injEq, Prod.mk.injEq] at h
        obtain ⟨rfl, rfl⟩ := h
        exact ⟨l, pPkt, rfl, hpkt, hseq, by simp⟩
      · rw [if_neg hseq] at h
        cases hrest : s.waitingFor seqNum l with
        | error e => simp [hrest, bind, Except.bind] at h
        | ok found =>
          cases found with
          | none => simp [hrest, bind, Except.bind, pure, Except.pure] at h
          | some found =>
            obtain ⟨earlier', pTimer'⟩ := found
            simp only [hrest, bind, Except.bind, pure, Except.pure, Option.map_some,
              Except.ok.injEq, Option.some.injEq, Prod.mk.injEq] at h
            obtain ⟨rfl, rfl⟩ := h
            obtain ⟨later, p, rfl, hp, hps, hall⟩ := waitingFor_ok hrest
            refine ⟨later, p, rfl, hp, hps, fun t' ht' => ?_⟩
            rcases List.mem_cons.mp ht' with rfl | ht'
            · exact ⟨pPkt, hpkt, hseq⟩
            · exact hall t' ht'

theorem follows_resend {pTimer : Nat} (pPkt : MediaData)
    (hzero : (s.iWnsrpCommandSave pTimer).N400Counter = 0) (hmax : 0 < s.iN400MaxCounter) :
    s.Follows [.again (.wnsrp pTimer) pPkt] (s.resend pTimer) := by
  refine ⟨fun name => ?_, fun name hle => ?_, rfl, .refl _⟩
  · rw [resend, timer_setTimer, List.foldl_cons, List.foldl_nil, Sending.count]
    by_cases heq : name = .wnsrp pTimer
    · rw [if_pos heq, if_pos heq.symm, heq]
      exact congrArg (· + 1) hzero.symm
    · rw [if_neg heq, if_neg fun h => heq h.symm]
  · rw [resend, timer_setTimer]
    split
    · exact hmax
    · exact hle

theorem resend_of_ne {pTimer t : Nat} (hne : t ≠ pTimer) :
    (s.resend pTimer).iWnsrpCommandSave t = s.iWnsrpCommandSave t := if_neg hne

theorem follows_resends (hmax : 0 < s.iN400MaxCounter) : ∀ (earlier : List Nat), earlier.Nodup →
    (∀ t ∈ earlier, (∃ p, (s.iWnsrpCommandSave t).pPkt = some p) ∧ (s.iWnsrpCommandSave t).N400Counter = 0) →
    s.Follows (s.resends earlier) (earlier.foldl resend s) := by
  intro earlier
  induction earlier generalizing s with
  | nil => exact fun _ _ => .refl s
  | cons pTimer earlier ih =>
    intro hnodup hall
    obtain ⟨hnot, hnodup⟩ := List.nodup_cons.mp hnodup
    obtain ⟨⟨pPkt, hpkt⟩, hzero⟩ := hall pTimer List.mem_cons_self
    have hsame (t : Nat) (ht : t ∈ earlier) :
        (s.resend pTimer).iWnsrpCommandSave t = s.iWnsrpCommandSave t :=
      resend_of_ne fun heq => hnot (heq ▸ ht)
    have hrest := @ih (s.resend pTimer) hmax hnodup fun t ht => by
      rw [hsame t ht]
      exact hall t (List.mem_cons_of_mem _ ht)
    have hlog : s.resends (pTimer :: earlier) =
        .again (.wnsrp pTimer) pPkt :: (s.resend pTimer).resends earlier := by
      rw [resends, List.filterMap_cons_some (by rw [hpkt]; rfl)]
      refine congrArg _ (List.filterMap_congr fun t ht => ?_)
      rw [hsame t ht]
    rw [hlog]
    exact (follows_resend pPkt hzero hmax).trans hrest

/-! ## Responses -/

/-- The commands before the one that is acknowledged have not been sent again. -/
def Once (s : Sender) (seqNum : UInt8) : Prop :=
  ∀ earlier pTimer later pPkt, s.iActiveWnsrpCommandSave = earlier ++ pTimer :: later →
    (s.iWnsrpCommandSave pTimer).pPkt = some pPkt → pPkt.seqNum = seqNum →
    (∀ t ∈ earlier, ∃ p, (s.iWnsrpCommandSave t).pPkt = some p ∧ p.seqNum ≠ seqNum) →
    ∀ t ∈ earlier, (s.iWnsrpCommandSave t).N400Counter = 0 ∧ 0 < s.iN400MaxCounter

theorem follows_acknowledge_wnsrp {go : Bool} (h : s.acknowledge seqNum .wnsrpResponse = .ok (t, lower, go)) :
    (s.iActiveWnsrpCommandSave.Nodup → s.Once seqNum →
      s.Follows (s.acknowledgeSends seqNum .wnsrpResponse) t) ∧
      lower = (s.acknowledgeSends seqNum .wnsrpResponse).map Sending.packet := by
  have hact : (s.srpCommandClear seqNum).iActiveWnsrpCommandSave = s.iActiveWnsrpCommandSave := rfl
  have hclear := follows_clear (s := s) seqNum
  simp only [acknowledge, hact] at h
  simp only [acknowledgeSends]
  cases hw : (s.srpCommandClear seqNum).waitingFor seqNum s.iActiveWnsrpCommandSave with
  | error e =>
    rw [hw] at h
    cases h
  | ok found =>
    rw [hw] at h
    cases found with
    | none =>
      cases h
      exact ⟨fun _ _ => hclear, rfl⟩
    | some found =>
      obtain ⟨earlier, pTimer⟩ := found
      cases h
      refine ⟨fun hnodup honce => ?_, ?_⟩
      · obtain ⟨later, pPkt, hactive, hpkt, hseq, hall⟩ := waitingFor_ok hw
        have hzero := honce earlier pTimer later pPkt hactive hpkt hseq hall
        rw [hactive] at hnodup
        have hmax : earlier = [] ∨ 0 < s.iN400MaxCounter := by
          cases earlier with
          | nil => exact .inl rfl
          | cons first _ => exact .inr (hzero first List.mem_cons_self).2
        have hagain : (s.srpCommandClear seqNum).Follows (s.resends earlier)
            (earlier.foldl resend (s.srpCommandClear seqNum)) := by
          rcases hmax with rfl | hmax
          · exact .refl _
          · refine follows_resends (s := s.srpCommandClear seqNum) hmax earlier
              (List.nodup_append.mp hnodup).1 fun t ht => ?_
            obtain ⟨p, hp, -⟩ := hall t ht
            exact ⟨⟨p, hp⟩, (hzero t ht).1⟩
        have hrelease := (hclear.trans hagain).trans (follows_release _ pTimer)
        rwa [List.nil_append, List.append_nil] at hrelease
      · show _ = (s.resends earlier).map Sending.packet
        rw [resends, List.map_filterMap]
        refine List.filterMap_congr fun t _ => ?_
        cases hpkt : (s.iWnsrpCommandSave t).pPkt <;> simp [srpCommandClear, hpkt, Sending.packet]

theorem acknowledge_nsrp_null {found : Option (List Nat × Nat)}
    (hfound : (s.srpCommandClear seqNum).waitingFor seqNum s.iActiveWnsrpCommandSave = .ok found)
    (hon : ((s.srpCommandClear seqNum).releaseFound found).iSrpCommandSave.isTimerActive = true)
    (hpkt : ((s.srpCommandClear seqNum).releaseFound found).iSrpCommandSave.pPkt = none) :
    s.acknowledge seqNum .nsrpResponse = .error .nullPacket := by
  have hact : (s.srpCommandClear seqNum).iActiveWnsrpCommandSave = s.iActiveWnsrpCommandSave := rfl
  simp only [acknowledge, hact, hfound]
  cases found with
  | none =>
    refine (if_pos hon).trans ?_
    rw [show (s.srpCommandClear seqNum).iSrpCommandSave.pPkt = none from hpkt]
  | some p =>
    refine (if_pos hon).trans ?_
    rw [show ((s.srpCommandClear seqNum).release p.2).iSrpCommandSave.pPkt = none from hpkt]

theorem follows_acknowledge_nsrp {go : Bool}
    (h : s.acknowledge seqNum .nsrpResponse = .ok (t, lower, go)) : s.Follows [] t ∧ lower = [] := by
  have hact : (s.srpCommandClear seqNum).iActiveWnsrpCommandSave = s.iActiveWnsrpCommandSave := rfl
  have hclear := follows_clear (s := s) seqNum
  cases hw : (s.srpCommandClear seqNum).waitingFor seqNum s.iActiveWnsrpCommandSave with
  | error e =>
    simp only [acknowledge, hact, hw] at h
    cases h
  | ok found =>
    have hfound : s.Follows [] ((s.srpCommandClear seqNum).releaseFound found) := by
      cases found with
      | none => exact hclear
      | some p => exact hclear.trans (follows_release _ p.2)
    cases hon : ((s.srpCommandClear seqNum).releaseFound found).iSrpCommandSave.isTimerActive with
    | false =>
      rw [acknowledge_nsrp_off hw hon] at h
      cases h
      exact ⟨hfound, rfl⟩
    | true =>
      cases hpkt : ((s.srpCommandClear seqNum).releaseFound found).iSrpCommandSave.pPkt with
      | none =>
        rw [acknowledge_nsrp_null hw hon hpkt] at h
        cases h
      | some pPkt =>
        rw [acknowledge_nsrp_on hw hon hpkt] at h
        split at h
        · cases h
          exact ⟨hfound.trans (follows_stopSrp _), rfl⟩
        · cases h
          exact ⟨hfound, rfl⟩

theorem follows_acknowledge_srp {go : Bool}
    (h : s.acknowledge seqNum .response = .ok (t, lower, go)) : s.Follows [] t ∧ lower = [] := by
  -- the packet of the SRP timer leaves the queue, after a timer has been released or not
  have hstop (u : Sender) (hu : s.Follows [] u) (seqNum : UInt8) :
      s.Follows [] { u.srpCommandClear seqNum with
        iSrpCommandSave := (u.srpCommandClear seqNum).iSrpCommandSave.srpT401Stop } :=
    (hu.trans (follows_clear seqNum)).trans (follows_stopSrp _)
  simp only [acknowledge] at h
  split at h
  · cases hactive : s.iActiveWnsrpCommandSave with
    | nil =>
      rw [hactive] at h
      cases hpkt : s.iSrpCommandSave.pPkt with
      | none =>
        simp only [hpkt] at h
        cases h
      | some pPkt =>
        simp only [hpkt] at h
        cases h
        exact ⟨hstop s (.refl s) _, rfl⟩
    | cons oldest active =>
      rw [hactive] at h
      cases hpkt : (s.release oldest).iSrpCommandSave.pPkt with
      | none =>
        simp only [hpkt] at h
        cases h
      | some pPkt =>
        simp only [hpkt] at h
        cases h
        exact ⟨hstop (s.release oldest) (follows_release s oldest) _, rfl⟩
  · cases h
    exact ⟨.refl s, rfl⟩

/-- **The first part of `Srp_1_3`** sends commands again. -/
theorem follows_acknowledge {event : Event} {go : Bool}
    (h : s.acknowledge seqNum event = .ok (t, lower, go)) :
    (s.iActiveWnsrpCommandSave.Nodup → (event = .wnsrpResponse → s.Once seqNum) →
      s.Follows (s.acknowledgeSends seqNum event) t) ∧
      lower = (s.acknowledgeSends seqNum event).map Sending.packet := by
  cases event with
  | wnsrpResponse =>
    obtain ⟨hfollows, hlower⟩ := follows_acknowledge_wnsrp h
    exact ⟨fun hnodup honce => hfollows hnodup (honce rfl), hlower⟩
  | nsrpResponse =>
    obtain ⟨hfollows, rfl⟩ := follows_acknowledge_nsrp h
    exact ⟨fun _ _ => hfollows, rfl⟩
  | response =>
    obtain ⟨hfollows, rfl⟩ := follows_acknowledge_srp h
    exact ⟨fun _ _ => hfollows, rfl⟩
  | nop | pdu | command | timeout | wnsrpCommand =>
    cases h
    exact ⟨fun _ _ => .refl s, rfl⟩

theorem follows_sendNextWnsrp (h : s.sendNextWnsrp avail = .ok (t, lower)) :
    s.Follows (s.sendNextWnsrpSends avail) t ∧ lower = (s.sendNextWnsrpSends avail).map Sending.packet := by
  cases hget : s.srpSendWaitGet s.iActiveWnsrpCommandSave.length with
  | none =>
    simp only [sendNextWnsrp, hget] at h
    cases h
    simp only [sendNextWnsrpSends, hget]
    exact ⟨follows_idleIfDone s, rfl⟩
  | some pPkt =>
    cases avail with
    | zero =>
      simp only [sendNextWnsrp, hget] at h
      cases h
      simp only [sendNextWnsrpSends, hget]
      exact ⟨.refl s, rfl⟩
    | succ avail =>
      cases hfree : s.iFreeWnsrpCommandSave with
      | nil =>
        simp only [sendNextWnsrp, hget, getFreeWnsrpTimer, hfree] at h
        cases h
      | cons pTimer free =>
        simp only [sendNextWnsrp, hget, getFreeWnsrpTimer, hfree] at h
        cases h
        simp only [sendNextWnsrpSends, hget, getFreeWnsrpTimer, hfree]
        exact ⟨(follows_sendWnsrp pPkt hfree).trans (follows_idleIfDone _), rfl⟩

theorem follows_sendNext_first
    (hmode : s.iCurWnsrpStatus ≠ .wnsrpFullSupport) (h : s.sendNext avail = .ok (t, lower)) :
    s.Follows (s.sendNextSends avail) t ∧ lower = (s.sendNextSends avail).map Sending.packet := by
  cases hget : s.srpSendWaitGet 0 with
  | none =>
    cases hstatus : s.iCurWnsrpStatus with
    | wnsrpFullSupport => exact absurd hstatus hmode
    | noWnsrpSupport =>
      simp only [sendNext, hstatus, hget, if_true] at h
      cases h
      simp only [sendNextSends, hstatus, hget, if_true]
      exact ⟨follows_idleIfDone s, rfl⟩
    | wnsrpTxSupport =>
      simp only [sendNext, hstatus, hget, reduceCtorEq, if_false] at h
      simp only [sendNextSends, hstatus, hget, reduceCtorEq, if_false]
      exact follows_sendNextWnsrp h
  | some pFirstPkt =>
    have hsend := follows_sendSrp s pFirstPkt
    cases avail with
    | zero =>
      cases hstatus : s.iCurWnsrpStatus with
      | wnsrpFullSupport => exact absurd hstatus hmode
      | noWnsrpSupport | wnsrpTxSupport =>
        simp only [sendNext, hstatus, hget] at h
        cases h
        simp only [sendNextSends, hstatus, hget]
        exact ⟨follows_nil (fun _ => rfl) rfl (.refl _), rfl⟩
    | succ avail =>
      cases hstatus : s.iCurWnsrpStatus with
      | wnsrpFullSupport => exact absurd hstatus hmode
      | noWnsrpSupport =>
        simp only [sendNext, hstatus, hget, if_true] at h
        cases h
        simp only [sendNextSends, hstatus, hget, if_true]
        exact ⟨hsend.trans (follows_idleIfDone _), rfl⟩
      | wnsrpTxSupport =>
        simp only [sendNext, hstatus, hget, reduceCtorEq, if_false] at h
        simp only [sendNextSends, hstatus, hget, reduceCtorEq, if_false]
        cases hnext : (s.sendSrp pFirstPkt).sendNextWnsrp avail with
        | error e =>
          simp only [hnext] at h
          cases h
        | ok result =>
          obtain ⟨u, lower'⟩ := result
          simp only [hnext] at h
          cases h
          obtain ⟨hfollows, rfl⟩ := follows_sendNextWnsrp hnext
          exact ⟨hsend.trans hfollows, rfl⟩

/-- **The second part of `Srp_1_3`** sends commands for the first time. -/
theorem follows_sendNext (h : s.sendNext avail = .ok (t, lower)) :
    s.Follows (s.sendNextSends avail) t ∧ lower = (s.sendNextSends avail).map Sending.packet := by
  by_cases hmode : s.iCurWnsrpStatus = .wnsrpFullSupport
  · simp only [sendNext, hmode] at h
    simp only [sendNextSends, hmode]
    exact follows_sendNextWnsrp h
  · exact follows_sendNext_first hmode h

/-- **`Srp_1_3`**. -/
theorem follows_srp_1_3 {event : Event} (h : s.srp_1_3 seqNum event avail = .ok (t, lower)) :
    (s.iActiveWnsrpCommandSave.Nodup → (event = .wnsrpResponse → s.Once seqNum) →
      s.Follows (s.srp_1_3Sends seqNum event avail) t) ∧
      lower = (s.srp_1_3Sends seqNum event avail).map Sending.packet := by
  unfold srp_1_3 at h
  unfold srp_1_3Sends
  cases hack : s.acknowledge seqNum event with
  | error e =>
    rw [hack] at h
    cases h
  | ok result =>
    obtain ⟨u, resent, go⟩ := result
    obtain ⟨hfollows, hresent⟩ := follows_acknowledge hack
    rw [hack] at h
    cases go with
    | false =>
      cases h
      simp only [List.append_nil]
      exact ⟨hfollows, hresent⟩
    | true =>
      cases hnext : u.sendNext avail with
      | error e =>
        simp [bind, Except.bind, hnext] at h
      | ok result =>
        obtain ⟨v, lower'⟩ := result
        obtain ⟨hnexts, hlower⟩ := follows_sendNext hnext
        simp only [bind, Except.bind, hnext, if_true] at h
        cases h
        refine ⟨fun hnodup honce => (hfollows hnodup honce).trans hnexts, ?_⟩
        rw [List.map_append, ← hresent, ← hlower]

/-! ## Timeouts -/

/-- **`Srp_1_4`** sends a command again while it may. -/
theorem follows_srp_1_4 {id : Nat} (h : s.srp_1_4 id = .ok (t, lower)) :
    s.Follows (s.srp_1_4Sends id) t ∧ lower = (s.srp_1_4Sends id).map Sending.packet := by
  unfold srp_1_4 at h
  unfold srp_1_4Sends
  split at h
  · next hid =>
    rw [if_pos hid]
    cases hpkt : s.iSrpCommandSave.pPkt with
    | none =>
      rw [hpkt] at h
      cases h
    | some pPkt =>
      simp only [hpkt] at h
      split at h
      · next hcheck =>
        cases h
        simp only [if_pos hcheck]
        refine ⟨⟨fun name => ?_, fun name hle => ?_, rfl, .refl _⟩, rfl⟩
        · cases name <;> rfl
        · cases name with
          | srp => exact of_decide_eq_true hcheck
          | wnsrp timerID => exact hle
      · next hcheck =>
        cases h
        simp only [if_neg hcheck]
        refine ⟨?_, rfl⟩
        exact ((follows_clear pPkt.seqNum).trans (follows_stopSrp _)).trans (follows_giveUp _)
  · next hid =>
    rw [if_neg hid]
    split at h
    · next hlt =>
      cases hfind : s.findActiveWnsrpTimer id with
      | none =>
        rw [hfind] at h
        cases h
      | some pTimer =>
        simp only [hfind] at h
        cases hpkt : (s.iWnsrpCommandSave pTimer).pPkt with
        | none =>
          rw [hpkt] at h
          cases h
        | some pPkt =>
          simp only [hpkt] at h
          simp only [hpkt]
          split at h
          · next hcheck =>
            cases h
            simp only [if_pos (And.intro hlt hcheck)]
            refine ⟨⟨fun name => ?_, fun name hle => ?_, rfl, .refl _⟩, rfl⟩
            · rw [timer_setTimer, List.foldl_cons, List.foldl_nil, Sending.count]
              by_cases heq : name = .wnsrp pTimer
              · rw [if_pos heq, if_pos heq.symm, heq]
                rfl
              · rw [if_neg heq, if_neg fun h => heq h.symm]
            · rw [timer_setTimer]
              split
              · exact of_decide_eq_true hcheck
              · exact hle
          · next hcheck =>
            cases h
            simp only [if_neg fun h : id < s.iWNSRPTxWindow ∧ _ => hcheck h.2]
            refine ⟨?_, rfl⟩
            exact ((follows_clear pPkt.seqNum).trans (follows_release _ _)).trans (follows_giveUp _)
    · next hlt =>
      cases h
      have hnot (p : Prop) : ¬ (id < s.iWNSRPTxWindow ∧ p) := fun h => hlt h.1
      cases hfind : s.findActiveWnsrpTimer id with
      | none => exact ⟨.refl s, rfl⟩
      | some pTimer =>
        simp only [if_neg (hnot _)]
        cases (s.iWnsrpCommandSave pTimer).pPkt <;> exact ⟨.refl s, rfl⟩

end Sender

end Ftke.Srp
