import Ftke.Run
import Ftke.Scheduler
import Mathlib.Algebra.BigOperators.Group.List.Basic

/-!
# Ftke.Scheduler.ReadyQ

The ready queue under every interleaving of its operations.

An operation that is atomic under `iCrit` is one action.  `WaitAndPopTop` and
`WaitForRequestComplete` take tokens from the request semaphore outside the
lock: such a call is kept in `System.calls` between two of its atomic parts,
together with the tokens it holds, and any number of calls may be under way at
once.  `AddToExecTimerQ` is cut in the same way between its check and its
insertion, because the ready queue may change in between.
-/

namespace Ftke.Scheduler

open PriQueue

variable {ι : Type*}

/-! ## Calls under way -/

/-- A call between two of its atomic parts. -/
inductive Call (ι : Type*)
  /-- `WaitAndPopTop`, after its wait. -/
  | popping
  /-- `WaitForRequestComplete`, about to wait. -/
  | waiting (pvbase : ι) (nwait : Nat)
  /-- `WaitForRequestComplete`, after a wait. -/
  | checking (pvbase : ι) (nwait : Nat)
  /-- `WaitForRequestComplete`, giving back the tokens it has taken. -/
  | restoring (nwait : Nat)
  /-- `AddToExecTimerQ`, after its check. -/
  | adding (a : ι) (aDelayMicrosec tickperiod timenow : UInt32)

/-- The tokens of the request semaphore a call holds. -/
def Call.tokens : Call ι → Nat
  | .popping => 1
  | .waiting _ nwait => nwait
  | .checking _ nwait => nwait
  | .restoring nwait => nwait
  | .adding _ _ _ _ => 0

/-- The tokens held by all calls under way. -/
def tokens (calls : List (Call ι)) : Nat := (calls.map Call.tokens).sum

/-- The scheduler's queues and the calls under way. -/
structure System (ι : Type*) where
  base : CommonBase ι
  calls : List (Call ι)

/-- The scheduler as constructed. -/
def System.start (iAOPriority : ι → Int) : System ι := ⟨.construct iAOPriority, []⟩

/-- The atomic actions; `i` is the position of a call under way. -/
inductive Act (ι : Type*)
  | pendComplete (pvbase : ι) (aReason : Int) (sys : SysCall)
  | popTop (sys : SysCall)
  | remove (a : ι) (sys : SysCall)
  | waitAndPopTop (sys : SysCall)
  | waitTimeout
  | popTopAfterWait (i : Nat)
  | waitForRequestComplete (pvbase : ι)
  | wait (i : Nat) (sys : SysCall)
  | check (i : Nat)
  | signal (i : Nat) (sys : SysCall)
  | addToExecTimerQ (a : ι) (aDelayMicrosec tickperiod timenow : UInt32)
  | queueTimer (i : Nat)
  | cancelTimer (a : ι)
  | timerPop
  | registerForCallback (aCallback : Bool)
  | request (a : ι) (iBusy : Bool) (iStatus : Int)

/-- The outcome of the semaphore call in an action. -/
def Act.sys : Act ι → SysCall
  | .pendComplete _ _ sys | .popTop sys | .remove _ sys | .waitAndPopTop sys => sys
  | .wait _ sys | .signal _ sys => sys
  | _ => .ok

namespace System

variable [DecidableEq ι]

/-- One atomic action; `none` where it blocks or is not enabled. -/
def step (t : System ι) : Act ι → Option (System ι)
  | .pendComplete pvbase aReason sys =>
    some ⟨(Scheduler.pendComplete sys t.base pvbase aReason).1, t.calls⟩
  | .popTop sys => (Scheduler.popTop sys t.base).map fun r => ⟨r.1, t.calls⟩
  | .remove a sys => (readyRemove sys t.base a).map fun r => ⟨r.1, t.calls⟩
  | .waitAndPopTop sys =>
    (semWait sys t.base.iReadyQ.iSem).map fun
      | (n, true) => ⟨t.base.setSem n, t.calls ++ [.popping]⟩
      | (n, false) => ⟨t.base.setSem n, t.calls⟩
  | .waitTimeout => some t
  | .popTopAfterWait i =>
    match t.calls[i]? with
    | some .popping =>
      (Scheduler.popTopAfterWait t.base).map fun r => ⟨r.1, t.calls.eraseIdx i⟩
    | _ => none
  | .waitForRequestComplete pvbase => some ⟨t.base, t.calls ++ [.waiting pvbase 0]⟩
  | .wait i sys =>
    match t.calls[i]? with
    | some (.waiting pvbase nwait) =>
      (semWait sys t.base.iReadyQ.iSem).map fun
        | (n, true) => ⟨t.base.setSem n, t.calls.set i (.checking pvbase (nwait + 1))⟩
        | (n, false) => ⟨t.base.setSem n, t.calls.eraseIdx i⟩
    | _ => none
  | .check i =>
    match t.calls[i]? with
    | some (.checking pvbase nwait) =>
      if t.base.isIn pvbase = some .ready then
        some ⟨t.base, t.calls.set i (.restoring nwait)⟩
      else some ⟨t.base, t.calls.set i (.waiting pvbase nwait)⟩
    | _ => none
  | .signal i sys =>
    match t.calls[i]? with
    | some (.restoring 0) => some ⟨t.base, t.calls.eraseIdx i⟩
    | some (.restoring (nwait + 1)) =>
      match semSignal sys t.base.iReadyQ.iSem with
      | (n, true) => some ⟨t.base.setSem n, t.calls.set i (.restoring nwait)⟩
      | (n, false) => some ⟨t.base.setSem n, t.calls.eraseIdx i⟩
    | _ => none
  | .addToExecTimerQ a aDelayMicrosec tickperiod timenow =>
    if t.base.isInAnyQ a then some t
    else some ⟨t.base, t.calls ++ [.adding a aDelayMicrosec tickperiod timenow]⟩
  | .queueTimer i =>
    match t.calls[i]? with
    | some (.adding a aDelayMicrosec tickperiod timenow) =>
      some ⟨Scheduler.queueTimer t.base a aDelayMicrosec tickperiod timenow,
        t.calls.eraseIdx i⟩
    | _ => none
  | .cancelTimer a =>
    if t.base.isIn a = some .timer then some ⟨timerRemove t.base a, t.calls⟩ else some t
  | .timerPop =>
    (top t.base.iExecTimerQ.c).map fun b => ⟨Scheduler.timerPop t.base b, t.calls⟩
  | .registerForCallback aCallback =>
    some ⟨Scheduler.registerForCallback t.base aCallback, t.calls⟩
  | .request a iBusy iStatus =>
    some ⟨t.base.setAO a { t.base.ao a with iBusy := iBusy, iStatus := iStatus }, t.calls⟩

/-- What `AddToExecTimerQ` has checked still holds when it inserts. -/
def Insertable (s : CommonBase ι) : Call ι → Prop
  | .adding a _ _ _ => s.isIn a = none
  | _ => True

instance (s : CommonBase ι) : (c : Call ι) → Decidable (Insertable s c)
  | .adding a _ _ _ => inferInstanceAs (Decidable (s.isIn a = none))
  | .popping | .waiting _ _ | .checking _ _ | .restoring _ => inferInstanceAs (Decidable True)

/-- How the callers use the queues: `Remove` is not called for an object in the
timer queue, and an object that `AddToExecTimerQ` has found in no queue is
still in none when it is inserted. -/
def InUse (t : System ι) : Act ι → Prop
  | .remove a _ => t.base.isIn a ≠ some .timer
  | .queueTimer i => ∀ c ∈ t.calls[i]?, Insertable t.base c
  | _ => True

instance (t : System ι) : (act : Act ι) → Decidable (t.InUse act)
  | .remove a _ => inferInstanceAs (Decidable (t.base.isIn a ≠ some .timer))
  | .queueTimer i => inferInstanceAs (Decidable (∀ c ∈ t.calls[i]?, Insertable t.base c))
  | .pendComplete _ _ _ | .popTop _ | .waitAndPopTop _ | .waitTimeout | .popTopAfterWait _
  | .waitForRequestComplete _ | .wait _ _ | .check _ | .signal _ _ | .addToExecTimerQ _ _ _ _
  | .cancelTimer _ | .timerPop | .registerForCallback _ | .request _ _ _ =>
    inferInstanceAs (Decidable True)

end System

/-! ## Links and vectors -/

section Links

variable {s : CommonBase ι} {a : ι}

/-- The links and the two vectors agree. -/
def CommonBase.Linked (s : CommonBase ι) : Prop := Ftke.Linked s.isIn s.vec

theorem construct_linked (pri : ι → Int) : (CommonBase.construct pri).Linked := by
  refine ⟨fun q => ?_, fun q a => ?_⟩
  · cases q <;> exact List.nodup_nil
  · cases q <;> simp [CommonBase.vec, CommonBase.construct, CommonBase.isIn]

theorem CommonBase.Linked.setSem (h : s.Linked) (n : Nat) : (s.setSem n).Linked :=
  h.congr (fun _ => rfl) fun r => by cases r <;> rfl

theorem isInAnyQ_eq_false : s.isInAnyQ a = false ↔ s.isIn a = none := by
  simp [CommonBase.isInAnyQ, CommonBase.isIn]

theorem readyCallback_linked (h : s.Linked) : (readyCallback s).Linked := by
  unfold readyCallback
  split
  · exact h.congr (fun _ => rfl) fun r => by cases r <;> rfl
  · exact h

theorem registerForCallback_linked (h : s.Linked) (aCallback : Bool) :
    (registerForCallback s aCallback).Linked := by
  unfold registerForCallback
  split <;> exact h.congr (fun _ => rfl) fun r => by cases r <;> rfl

variable [DecidableEq ι]

theorem isIn_setAO_of_ne {b : ι} (o : ActiveBase) (h : b ≠ a) :
    (s.setAO a o).isIn b = s.isIn b :=
  congrArg ActiveBase.iIsIn (s.setAO_ao_of_ne o h)

@[simp] theorem isIn_setAO_self (o : ActiveBase) : (s.setAO a o).isIn a = o.iIsIn :=
  congrArg ActiveBase.iIsIn (s.setAO_ao_self a o)

theorem isIn_setAO_congr {o : ActiveBase} (h : o.iIsIn = s.isIn a) (b : ι) :
    (s.setAO a o).isIn b = s.isIn b := by
  by_cases hb : b = a
  · rw [hb, isIn_setAO_self, h]
  · exact isIn_setAO_of_ne o hb

theorem CommonBase.Linked.setAO (h : s.Linked) {o : ActiveBase} (ho : o.iIsIn = s.isIn a) :
    (s.setAO a o).Linked :=
  h.congr (isIn_setAO_congr ho) fun r => by cases r <;> rfl

theorem readyEnqueue_linked (h : s.Linked) (ha : s.isIn a = none) : (readyEnqueue s a).Linked := by
  refine h.enter (q := .ready) ha ?_ (fun b hb => isIn_setAO_of_ne _ hb) ?_ fun r hr => ?_
  · exact isIn_setAO_self _
  · exact (push_perm _ _ _).trans (List.perm_append_singleton _ _)
  · cases r with
    | ready => contradiction
    | timer => rfl

theorem pendComplete_linked (sys : SysCall) (h : s.Linked) (aReason : Int) :
    (pendComplete sys s a aReason).1.Linked := by
  unfold pendComplete
  split
  · exact h
  · next hq =>
      split
      · exact h
      · have he := readyEnqueue_linked h (isInAnyQ_eq_false.mp (by simpa using hq))
        dsimp only
        split
        · exact he.setSem _
        · next n _ =>
            exact readyCallback_linked ((he.setSem n).setAO rfl)

theorem readyDequeue_linked (h : s.Linked) (ht : top s.iReadyQ.c = some a) :
    (readyDequeue s a).Linked := by
  refine h.leave (q := .ready) ?_ (fun b hb => isIn_setAO_of_ne _ hb) ?_ fun r hr => ?_
  · exact isIn_setAO_self _
  · exact pop_perm _ ht
  · cases r with
    | ready => contradiction
    | timer => rfl

theorem popTop_linked {sys : SysCall} {r : CommonBase ι × Except Int (Option ι)} (h : s.Linked)
    (hr : popTop sys s = some r) : r.1.Linked := by
  unfold popTop at hr
  split at hr
  · obtain rfl := Option.some.inj hr
    exact h
  · next elem ht =>
      obtain ⟨⟨n, ok⟩, -, rfl⟩ := Option.map_eq_some_iff.mp hr
      have hd := readyDequeue_linked h ht
      cases ok <;> exact hd.setSem n

theorem popTopAfterWait_linked {r : CommonBase ι × ι} (h : s.Linked)
    (hr : popTopAfterWait s = some r) : r.1.Linked := by
  unfold popTopAfterWait at hr
  split at hr
  · contradiction
  · next elem ht =>
      obtain rfl := Option.some.inj hr
      exact readyDequeue_linked h ht

theorem readyErase_linked (h : s.Linked) (ha : s.isIn a ≠ some .timer) :
    (readyErase s a).1.Linked := by
  by_cases hin : a ∈ s.iReadyQ.c
  · refine h.leave (q := .ready) ?_ (fun b hb => isIn_setAO_of_ne _ hb) ?_ fun r hr => ?_
    · exact isIn_setAO_self _
    · exact remove_perm _ hin
    · cases r with
      | ready => contradiction
      | timer => rfl
  · have hnone : s.isIn a = none := by
      cases hq : s.isIn a with
      | none => rfl
      | some q =>
        cases q with
        | ready => exact absurd ((h.mem_iff .ready a).mp hq) hin
        | timer => exact absurd hq ha
    refine h.congr (fun b => isIn_setAO_congr hnone.symm b) fun r => ?_
    cases r with
    | ready => exact congrArg Prod.fst (remove_of_not_mem hin)
    | timer => rfl

theorem readyRemove_linked {sys : SysCall} {r : CommonBase ι × Except Int Unit} (h : s.Linked)
    (ha : s.isIn a ≠ some .timer) (hr : readyRemove sys s a = some r) : r.1.Linked := by
  have he := readyErase_linked h ha
  simp only [readyRemove] at hr
  split at hr
  · obtain ⟨⟨n, ok⟩, -, rfl⟩ := Option.map_eq_some_iff.mp hr
    cases ok <;> exact he.setSem n
  · obtain rfl := Option.some.inj hr
    exact he

theorem timerAdd_linked (h : s.Linked) (ha : s.isIn a = none) : (timerAdd s a).Linked := by
  refine h.enter (q := .timer) ha ?_ (fun b hb => isIn_setAO_of_ne _ hb) ?_ fun r hr => ?_
  · exact isIn_setAO_self _
  · exact (push_perm _ _ _).trans (List.perm_append_singleton _ _)
  · cases r with
    | ready => rfl
    | timer => contradiction

theorem queueTimer_linked (h : s.Linked) (ha : s.isIn a = none)
    (aDelayMicrosec tickperiod timenow : UInt32) :
    (queueTimer s a aDelayMicrosec tickperiod timenow).Linked := by
  simp only [queueTimer]
  have hadd := timerAdd_linked (a := a) (h.setAO (a := a)
    (o := { s.ao a with iTimeToRunTicks := timenow + delayTicks aDelayMicrosec tickperiod }) rfl)
    ((isIn_setAO_self _).trans ha)
  split
  · unfold timerCallback
    split
    · exact hadd.congr (fun _ => rfl) fun r => by cases r <;> rfl
    · exact hadd
  · exact hadd

theorem timerPop_linked (h : s.Linked) (ht : top s.iExecTimerQ.c = some a) :
    (timerPop s a).Linked := by
  refine h.leave (q := .timer) ?_ (fun b hb => isIn_setAO_of_ne _ hb) ?_ fun r hr => ?_
  · exact isIn_setAO_self _
  · exact pop_perm _ ht
  · cases r with
    | ready => rfl
    | timer => contradiction

theorem timerRemove_linked (h : s.Linked) (ha : s.isIn a = some .timer) :
    (timerRemove s a).Linked := by
  refine h.leave (q := .timer) ?_ (fun b hb => isIn_setAO_of_ne _ hb) ?_ fun r hr => ?_
  · exact isIn_setAO_self _
  · exact remove_perm _ ((h.mem_iff .timer a).mp ha)
  · cases r with
    | ready => rfl
    | timer => contradiction

end Links

/-- **One action keeps the links and the vectors in agreement.** -/
theorem System.step_linked [DecidableEq ι] {t u : System ι} {act : Act ι} (h : t.base.Linked)
    (huse : t.InUse act) (hs : t.step act = some u) : u.base.Linked := by
  cases act with
  | pendComplete pvbase aReason sys =>
    obtain rfl := Option.some.inj hs
    exact pendComplete_linked sys h aReason
  | popTop sys =>
    obtain ⟨r, hr, rfl⟩ := Option.map_eq_some_iff.mp hs
    exact popTop_linked h hr
  | remove a sys =>
    obtain ⟨r, hr, rfl⟩ := Option.map_eq_some_iff.mp hs
    exact readyRemove_linked h huse hr
  | waitAndPopTop sys =>
    obtain ⟨⟨n, ok⟩, -, rfl⟩ := Option.map_eq_some_iff.mp hs
    cases ok <;> exact h.setSem n
  | waitTimeout =>
    obtain rfl := Option.some.inj hs
    exact h
  | popTopAfterWait i =>
    simp only [System.step] at hs
    split at hs
    · obtain ⟨r, hr, rfl⟩ := Option.map_eq_some_iff.mp hs
      exact popTopAfterWait_linked h hr
    · contradiction
  | waitForRequestComplete pvbase =>
    obtain rfl := Option.some.inj hs
    exact h
  | wait i sys =>
    simp only [System.step] at hs
    split at hs
    · obtain ⟨⟨n, ok⟩, -, rfl⟩ := Option.map_eq_some_iff.mp hs
      cases ok <;> exact h.setSem n
    · contradiction
  | check i =>
    simp only [System.step] at hs
    split at hs
    · split at hs <;> obtain rfl := Option.some.inj hs <;> exact h
    · contradiction
  | signal i sys =>
    simp only [System.step] at hs
    split at hs
    · obtain rfl := Option.some.inj hs
      exact h
    · split at hs <;> obtain rfl := Option.some.inj hs <;> exact h.setSem _
    · contradiction
  | addToExecTimerQ a aDelayMicrosec tickperiod timenow =>
    simp only [System.step] at hs
    split at hs <;> obtain rfl := Option.some.inj hs <;> exact h
  | queueTimer i =>
    simp only [System.step] at hs
    split at hs
    · next a d p n hi =>
        obtain rfl := Option.some.inj hs
        exact queueTimer_linked h (huse _ hi) d p n
    · contradiction
  | cancelTimer a =>
    simp only [System.step] at hs
    split at hs
    · next ha =>
        obtain rfl := Option.some.inj hs
        exact timerRemove_linked h ha
    · obtain rfl := Option.some.inj hs
      exact h
  | timerPop =>
    obtain ⟨b, hb, rfl⟩ := Option.map_eq_some_iff.mp hs
    exact timerPop_linked h hb
  | registerForCallback aCallback =>
    obtain rfl := Option.some.inj hs
    exact registerForCallback_linked h aCallback
  | request a iBusy iStatus =>
    obtain rfl := Option.some.inj hs
    exact h.setAO rfl

/-! ## Tokens -/

theorem tokens_perm {l l' : List (Call ι)} (h : l.Perm l') : tokens l = tokens l' :=
  (h.map Call.tokens).sum_eq

theorem tokens_concat (calls : List (Call ι)) (c : Call ι) :
    tokens (calls ++ [c]) = tokens calls + c.tokens := by
  simp [tokens]

theorem tokens_eraseIdx {calls : List (Call ι)} {i : Nat} {c : Call ι} (h : calls[i]? = some c) :
    c.tokens + tokens (calls.eraseIdx i) = tokens calls := by
  obtain ⟨hi, rfl⟩ := List.getElem?_eq_some_iff.mp h
  have hp := tokens_perm (List.getElem_cons_eraseIdx_perm hi)
  simpa [tokens] using hp

theorem tokens_set {calls : List (Call ι)} {i : Nat} {c : Call ι} (h : calls[i]? = some c)
    (c' : Call ι) : tokens (calls.set i c') + c.tokens = tokens calls + c'.tokens := by
  have hi := (List.getElem?_eq_some_iff.mp h).1
  have hset := tokens_perm (List.set_perm_cons_eraseIdx hi c')
  have herase := tokens_eraseIdx h
  have hcons : tokens (c' :: calls.eraseIdx i) = c'.tokens + tokens (calls.eraseIdx i) := by
    simp [tokens]
  omega

/-- Every queued object is matched by one token: in the semaphore or in the
hands of a call under way. -/
def System.Balanced (t : System ι) : Prop :=
  t.base.iReadyQ.iSem + tokens t.calls = t.base.iReadyQ.c.length

namespace System.Balanced

variable {t : System ι}

theorem top_isSome (h : t.Balanced) {i : Nat} (hi : t.calls[i]? = some .popping) :
    (top t.base.iReadyQ.c).isSome := by
  have htok := tokens_eraseIdx hi
  unfold System.Balanced at h
  have hpop : (Call.popping : Call ι).tokens = 1 := rfl
  have hlen : 0 < t.base.iReadyQ.c.length := by omega
  simp [top, hlen]

theorem sem_pos (h : t.Balanced) (hcalls : tokens t.calls = 0) (hc : t.base.iReadyQ.c ≠ []) :
    0 < t.base.iReadyQ.iSem := by
  have hlen := List.length_pos_iff.mpr hc
  unfold System.Balanced at h
  omega

end System.Balanced

section Counts

variable {s : CommonBase ι} {a : ι}

theorem semWait_ok {n m : Nat} {ok : Bool} (h : semWait .ok n = some (m, ok)) :
    m + 1 = n ∧ ok = true := by
  simp only [semWait] at h
  split at h
  · contradiction
  · obtain ⟨rfl, rfl⟩ := Prod.mk.inj (Option.some.inj h)
    exact ⟨by omega, rfl⟩

theorem registerForCallback_ready (s : CommonBase ι) (aCallback : Bool) :
    (registerForCallback s aCallback).iReadyQ.c = s.iReadyQ.c ∧
      (registerForCallback s aCallback).iReadyQ.iSem = s.iReadyQ.iSem := by
  unfold registerForCallback
  split <;> exact ⟨rfl, rfl⟩

variable [DecidableEq ι]

theorem length_readyEnqueue :
    (readyEnqueue s a).iReadyQ.c.length = s.iReadyQ.c.length + 1 := by
  have hp := (push_perm (readyCompare (Function.update s.ao a
    { s.ao a with iIsIn := some .ready, iSeqNum := s.iReadyQ.iSeqNumCounter + 1 }))
    s.iReadyQ.c a).length_eq
  rw [List.length_append, List.length_singleton] at hp
  exact hp

theorem length_readyDequeue (ht : top s.iReadyQ.c = some a) :
    (readyDequeue s a).iReadyQ.c.length + 1 = s.iReadyQ.c.length :=
  (pop_perm (readyCompare (s.unlink a).ao) ht).length_eq.symm

theorem length_readyErase :
    (readyErase s a).1.iReadyQ.c.length + (readyErase s a).2 = s.iReadyQ.c.length := by
  simp only [readyErase, CommonBase.setReady]
  rw [remove_snd]
  by_cases hin : a ∈ s.iReadyQ.c
  · rw [if_pos (by exact hin)]
    exact (remove_perm (readyCompare (s.unlink a).ao) hin).length_eq.symm
  · rw [if_neg (by exact hin)]
    exact congrArg (fun r => r.1.length) (remove_of_not_mem hin)

theorem pendComplete_count (a : ι) (aReason : Int) :
    (pendComplete .ok s a aReason).1.iReadyQ.iSem + s.iReadyQ.c.length =
      s.iReadyQ.iSem + (pendComplete .ok s a aReason).1.iReadyQ.c.length := by
  unfold pendComplete
  split
  · rfl
  · split
    · rfl
    · have hlen := length_readyEnqueue (s := s) (a := a)
      simp only [semSignal, readyCallback_c, readyCallback_sem]
      show s.iReadyQ.iSem + 1 + s.iReadyQ.c.length =
        s.iReadyQ.iSem + (readyEnqueue s a).iReadyQ.c.length
      omega

theorem popTop_count {r : CommonBase ι × Except Int (Option ι)} (hr : popTop .ok s = some r) :
    r.1.iReadyQ.iSem + s.iReadyQ.c.length = s.iReadyQ.iSem + r.1.iReadyQ.c.length := by
  unfold popTop at hr
  split at hr
  · obtain rfl := Option.some.inj hr
    rfl
  · next elem ht =>
      obtain ⟨⟨n, ok⟩, hw, rfl⟩ := Option.map_eq_some_iff.mp hr
      obtain ⟨hn, rfl⟩ := semWait_ok hw
      have hn' : n + 1 = s.iReadyQ.iSem := hn
      have hlen := length_readyDequeue ht
      show n + s.iReadyQ.c.length = s.iReadyQ.iSem + (readyDequeue s elem).iReadyQ.c.length
      omega

theorem readyRemove_count {r : CommonBase ι × Except Int Unit}
    (hr : readyRemove .ok s a = some r) :
    r.1.iReadyQ.iSem + s.iReadyQ.c.length = s.iReadyQ.iSem + r.1.iReadyQ.c.length := by
  have hlen := length_readyErase (s := s) (a := a)
  have hle : (readyErase s a).2 ≤ 1 := by
    simp only [readyErase, remove_snd]
    split <;> omega
  simp only [readyRemove] at hr
  split at hr
  · obtain ⟨⟨n, ok⟩, hw, rfl⟩ := Option.map_eq_some_iff.mp hr
    obtain ⟨hn, rfl⟩ := semWait_ok hw
    have hn' : n + 1 = s.iReadyQ.iSem := hn
    show n + s.iReadyQ.c.length = s.iReadyQ.iSem + (readyErase s a).1.iReadyQ.c.length
    omega
  · obtain rfl := Option.some.inj hr
    show s.iReadyQ.iSem + s.iReadyQ.c.length =
      s.iReadyQ.iSem + (readyErase s a).1.iReadyQ.c.length
    omega

theorem popTopAfterWait_count {r : CommonBase ι × ι} (hr : popTopAfterWait s = some r) :
    r.1.iReadyQ.iSem = s.iReadyQ.iSem ∧ r.1.iReadyQ.c.length + 1 = s.iReadyQ.c.length := by
  unfold popTopAfterWait at hr
  split at hr
  · contradiction
  · next elem ht =>
      obtain rfl := Option.some.inj hr
      exact ⟨rfl, length_readyDequeue ht⟩

theorem queueTimer_ready (s : CommonBase ι) (a : ι) (d p n : UInt32) :
    (queueTimer s a d p n).iReadyQ.c = s.iReadyQ.c ∧
      (queueTimer s a d p n).iReadyQ.iSem = s.iReadyQ.iSem := by
  simp only [queueTimer, timerCallback]
  split
  · split <;> exact ⟨rfl, rfl⟩
  · exact ⟨rfl, rfl⟩

end Counts

/-- **One action keeps every queued object matched by a token**, if no semaphore
call in it fails. -/
theorem System.step_balanced [DecidableEq ι] {t u : System ι} {act : Act ι} (h : t.Balanced)
    (hok : act.sys = .ok) (hs : t.step act = some u) : u.Balanced := by
  unfold System.Balanced at h ⊢
  cases act with
  | pendComplete pvbase aReason sys =>
    obtain rfl : sys = .ok := hok
    obtain rfl := Option.some.inj hs
    have hc := pendComplete_count (s := t.base) pvbase aReason
    dsimp only
    omega
  | popTop sys =>
    obtain rfl : sys = .ok := hok
    obtain ⟨r, hr, rfl⟩ := Option.map_eq_some_iff.mp hs
    have hc := popTop_count hr
    dsimp only
    omega
  | remove a sys =>
    obtain rfl : sys = .ok := hok
    obtain ⟨r, hr, rfl⟩ := Option.map_eq_some_iff.mp hs
    have hc := readyRemove_count hr
    dsimp only
    omega
  | waitAndPopTop sys =>
    obtain rfl : sys = .ok := hok
    obtain ⟨⟨n, ok⟩, hw, rfl⟩ := Option.map_eq_some_iff.mp hs
    obtain ⟨hn, rfl⟩ := semWait_ok hw
    show n + tokens (t.calls ++ [.popping]) = t.base.iReadyQ.c.length
    rw [tokens_concat, Call.tokens]
    omega
  | waitTimeout =>
    obtain rfl := Option.some.inj hs
    exact h
  | popTopAfterWait i =>
    simp only [System.step] at hs
    split at hs
    · next hi =>
        obtain ⟨r, hr, rfl⟩ := Option.map_eq_some_iff.mp hs
        obtain ⟨hsem, hlen⟩ := popTopAfterWait_count hr
        have htok := tokens_eraseIdx hi
        rw [Call.tokens] at htok
        dsimp only
        omega
    · contradiction
  | waitForRequestComplete pvbase =>
    obtain rfl := Option.some.inj hs
    rw [tokens_concat, Call.tokens]
    exact h
  | wait i sys =>
    obtain rfl : sys = .ok := hok
    simp only [System.step] at hs
    split at hs
    · next pvbase nwait hi =>
        obtain ⟨⟨n, ok⟩, hw, rfl⟩ := Option.map_eq_some_iff.mp hs
        obtain ⟨hn, rfl⟩ := semWait_ok hw
        have htok := tokens_set hi (.checking pvbase (nwait + 1))
        rw [Call.tokens, Call.tokens] at htok
        show n + tokens (t.calls.set i (.checking pvbase (nwait + 1))) = t.base.iReadyQ.c.length
        omega
    · contradiction
  | check i =>
    simp only [System.step] at hs
    split at hs
    · next pvbase nwait hi =>
        have hrest := tokens_set hi (.restoring nwait)
        have hwait := tokens_set hi (.waiting pvbase nwait)
        simp only [Call.tokens] at hrest hwait
        split at hs
        · obtain rfl := Option.some.inj hs
          dsimp only
          omega
        · obtain rfl := Option.some.inj hs
          dsimp only
          omega
    · contradiction
  | signal i sys =>
    obtain rfl : sys = .ok := hok
    simp only [System.step] at hs
    split at hs
    · next hi =>
        obtain rfl := Option.some.inj hs
        have htok := tokens_eraseIdx hi
        rw [Call.tokens] at htok
        dsimp only
        omega
    · next nwait hi =>
        simp only [semSignal] at hs
        obtain rfl := Option.some.inj hs
        have htok := tokens_set hi (.restoring nwait)
        rw [Call.tokens, Call.tokens] at htok
        show t.base.iReadyQ.iSem + 1 + tokens (t.calls.set i (.restoring nwait)) =
          t.base.iReadyQ.c.length
        omega
    · contradiction
  | addToExecTimerQ a aDelayMicrosec tickperiod timenow =>
    simp only [System.step] at hs
    split at hs
    · obtain rfl := Option.some.inj hs
      exact h
    · obtain rfl := Option.some.inj hs
      rw [tokens_concat, Call.tokens]
      exact h
  | queueTimer i =>
    simp only [System.step] at hs
    split at hs
    · next a d p n hi =>
        obtain rfl := Option.some.inj hs
        obtain ⟨hc, hsem⟩ := queueTimer_ready t.base a d p n
        have htok := tokens_eraseIdx hi
        rw [Call.tokens] at htok
        dsimp only
        rw [hc, hsem]
        omega
    · contradiction
  | cancelTimer a =>
    simp only [System.step] at hs
    split at hs <;> obtain rfl := Option.some.inj hs <;> exact h
  | timerPop =>
    obtain ⟨b, -, rfl⟩ := Option.map_eq_some_iff.mp hs
    exact h
  | registerForCallback aCallback =>
    obtain rfl := Option.some.inj hs
    obtain ⟨hc, hsem⟩ := registerForCallback_ready t.base aCallback
    dsimp only
    rw [hc, hsem]
    exact h
  | request a iBusy iStatus =>
    obtain rfl := Option.some.inj hs
    exact h

/-! ## Runs -/

/-- What holds of a scheduler between any two atomic parts of its operations. -/
structure System.Consistent (t : System ι) : Prop where
  /-- `iIsIn` names the ready queue exactly for the objects in its vector. -/
  ready_iff : ∀ a, t.base.isIn a = some .ready ↔ a ∈ t.base.iReadyQ.c
  /-- The vector holds no object twice. -/
  ready_nodup : t.base.iReadyQ.c.Nodup
  /-- No object is in both queues. -/
  disjoint : ∀ a, ¬ (a ∈ t.base.iReadyQ.c ∧ a ∈ t.base.iExecTimerQ.c)

theorem CommonBase.Linked.consistent {t : System ι} (h : t.base.Linked) : t.Consistent where
  ready_iff a := h.mem_iff .ready a
  ready_nodup := h.nodup .ready
  disjoint _ hboth := nomatch h.eq_of_mem (q := .ready) (r := .timer) hboth.1 hboth.2

/-- A `PendComplete` that reports an error, other than a failed semaphore call,
has changed nothing. -/
theorem pendComplete_error [DecidableEq ι] {sys : SysCall} {s : CommonBase ι} {a : ι}
    {aReason : Int} (h0 : (pendComplete sys s a aReason).2 ≠ OsclErrNone)
    (h1 : (pendComplete sys s a aReason).2 ≠ OsclErrSystemCallFailed) :
    (pendComplete sys s a aReason).1 = s := by
  unfold pendComplete at h0 h1 ⊢
  split
  · rfl
  · next hq =>
      rw [if_neg hq] at h0 h1
      split
      · rfl
      · next hr =>
          rw [if_neg hr] at h0 h1
          cases sys with
          | ok => exact absurd rfl h0
          | failed => exact absurd rfl h1
          | failedLate => exact absurd rfl h1

section Runs

variable [DecidableEq ι]

/-- **Links, tokens and vectors agree in every interleaving** in which `Remove`
is used as its caller uses it; the token count holds as long as no semaphore
call has failed. -/
theorem consistent_of_run {pri : ι → Int} {acts : List (Act ι)} {t : System ι}
    (h : Run (guarded System.InUse (stepOf System.step)) (System.start pri) acts t) :
    t.Consistent ∧ ((∀ act ∈ acts, act.sys = .ok) → t.Balanced) ∧
      ∀ sys a aReason, (pendComplete sys t.base a aReason).2 ≠ OsclErrNone →
        (pendComplete sys t.base a aReason).2 ≠ OsclErrSystemCallFailed →
        (pendComplete sys t.base a aReason).1 = t.base := by
  have hlinked : t.base.Linked :=
    h.invariant (construct_linked pri) fun _ _ _ ha hstep =>
      System.step_linked ha hstep.1 hstep.2
  refine ⟨hlinked.consistent, fun hok => ?_, fun _ _ _ => pendComplete_error⟩
  exact (h.guarded_of_forall hok).invariant rfl fun _ _ _ ha hstep =>
    System.step_balanced ha hstep.1 hstep.2.2

/-- A call that waits for object 1 takes the token of object 2, gives both back,
and object 2 is then cancelled. -/
theorem consistent_of_run_example :
    ∃ t : System Nat, t.base.iReadyQ.c = [1] ∧ t.base.iReadyQ.iSem = 1 ∧ t.Consistent ∧
      t.Balanced := by
  let acts : List (Act Nat) :=
    [.request 1 true OSCL_REQUEST_PENDING, .request 2 true OSCL_REQUEST_PENDING,
      .waitForRequestComplete 1, .pendComplete 2 0 .ok, .wait 0 .ok, .check 0,
      .pendComplete 1 0 .ok, .wait 0 .ok, .check 0, .signal 0 .ok, .signal 0 .ok, .signal 0 .ok,
      .remove 2 .ok]
  let run := acts.foldlM (fun t act => if t.InUse act then t.step act else none)
    (System.start fun _ => 0)
  have hrun : run.map (fun t => (t.base.iReadyQ.c, t.base.iReadyQ.iSem)) = some ([1], 1) := by
    decide
  obtain ⟨t, ht, hobs⟩ := Option.map_eq_some_iff.mp hrun
  obtain ⟨hcons, hbal, -⟩ := consistent_of_run (Run.of_foldlM_guarded ht)
  obtain ⟨hc, hsem⟩ := Prod.mk.inj hobs
  exact ⟨t, hc, hsem, hcons, hbal (by decide)⟩

/-- The three ways out: `Remove` for an object in the timer queue, a completion
between the check of `AddToExecTimerQ` and its insertion, and a failed signal.
After either of the first two an object is in both queues; after the last one a
queued object has no token. -/
theorem consistent_fails :
    (∃ acts, ∃ t : System Nat, Run (stepOf System.step) (System.start fun _ => 0) acts t ∧
      Act.remove 0 .ok ∈ acts ∧ 0 ∈ t.base.iReadyQ.c ∧ 0 ∈ t.base.iExecTimerQ.c) ∧
    (∃ acts, ∃ t : System Nat, Run (stepOf System.step) (System.start fun _ => 0) acts t ∧
      (∀ a sys, Act.remove a sys ∉ acts) ∧ 0 ∈ t.base.iReadyQ.c ∧ 0 ∈ t.base.iExecTimerQ.c) ∧
    ∃ t : System Nat, Run (stepOf System.step) (System.start fun _ => 0)
      [.request 0 true OSCL_REQUEST_PENDING, .pendComplete 0 0 .failed] t ∧ ¬ t.Balanced := by
  refine ⟨⟨[.addToExecTimerQ 0 1000 1 0, .queueTimer 0, .request 0 true OSCL_REQUEST_PENDING,
      .remove 0 .ok, .pendComplete 0 0 .ok], _, Run.of_foldlM rfl, ?_, ?_, ?_⟩,
    ⟨[.addToExecTimerQ 0 1000 1 0, .request 0 true OSCL_REQUEST_PENDING, .pendComplete 0 0 .ok,
      .queueTimer 0], _, Run.of_foldlM rfl, ?_, ?_, ?_⟩, _, Run.of_foldlM rfl, ?_⟩
  · simp
  · decide
  · decide
  · simp
  · decide
  · decide
  · unfold System.Balanced
    decide

end Runs

end Ftke.Scheduler
