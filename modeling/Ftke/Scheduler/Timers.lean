import Ftke.HalfRange
import Ftke.Run
import Ftke.Scheduler

/-!
# Ftke.Scheduler.Timers

The timer queue over whole runs: what one `UpdateTimers` call moves to the
ready queue, in which order, and the delay it answers.

`OsclTimerCompare` compares times circularly, so it orders the pending timers
only while their times lie in one half range of the tick count.  Inside such a
window it is `timerLe`, which does not mention the window: windows may change
from call to call while the heap stays in order.
-/

namespace Ftke.Scheduler

open PriQueue Heap HalfRange

variable {ι : Type*}

/-! ## The order of the timer queue -/

/-- `a` has at most the precedence of `b` in the timer queue. -/
def timerLe (ao : ι → ActiveBase) (a b : ι) : Prop :=
  if (ao a).iTimeToRunTicks = (ao b).iTimeToRunTicks then
    (ao a).iAOPriority < (ao b).iAOPriority ∨
      (ao a).iAOPriority = (ao b).iAOPriority ∧ (ao b).iSeqNum ≤ (ao a).iSeqNum
  else NotLater (ao b).iTimeToRunTicks (ao a).iTimeToRunTicks

variable {ao ao' : ι → ActiveBase}

theorem timerLe_iff {w : UInt32} {a b : ι}
    (ha : Within w (ao a).iTimeToRunTicks) (hb : Within w (ao b).iTimeToRunTicks) :
    timerLe ao a b ↔
      offset w (ao b).iTimeToRunTicks < offset w (ao a).iTimeToRunTicks ∨
      offset w (ao b).iTimeToRunTicks = offset w (ao a).iTimeToRunTicks ∧
        ((ao a).iAOPriority < (ao b).iAOPriority ∨
          (ao a).iAOPriority = (ao b).iAOPriority ∧
            (ao b).iSeqNum.toNat ≤ (ao a).iSeqNum.toNat) := by
  unfold timerLe
  split
  · next heq =>
      rw [heq, UInt32.le_iff_toNat_le]
      simp
  · next hne =>
      have hoff : offset w (ao b).iTimeToRunTicks ≠ offset w (ao a).iTimeToRunTicks := fun h =>
        hne (offset_inj.mp h).symm
      rw [notLater_iff hb ha]
      omega

theorem timerOrder (ao : ι → ActiveBase) (w : UInt32) :
    OrderOn (timerCompare ao) (timerLe ao) (fun a => Within w (ao a).iTimeToRunTicks) where
  le_of_lt {a b} ha hb h := by
    unfold timerCompare at h
    unfold timerLe
    split at h
    · next hne =>
        rw [if_neg hne]
        refine (notLater_total ha hb).resolve_left fun hab => ?_
        exact UInt32.not_lt.mpr hab (of_decide_eq_true h)
    · next heq =>
        rw [if_pos (not_not.mp heq)]
        unfold readyCompare at h
        split at h
        · exact Or.inl (of_decide_eq_true h)
        · next hp => exact Or.inr ⟨not_not.mp hp, of_decide_eq_true h⟩
  le_of_not_lt {a b} ha hb h := by
    unfold timerCompare at h
    unfold timerLe
    split at h
    · next hne =>
        rw [if_neg (Ne.symm hne)]
        exact UInt32.not_lt.mp (of_decide_eq_false h)
    · next heq =>
        rw [if_pos (not_not.mp heq).symm]
        unfold readyCompare at h
        split at h
        · next hp =>
            have hle := of_decide_eq_false h
            exact Or.inl (by omega)
        · next hp =>
            have hlt := UInt32.not_le.mp (of_decide_eq_false h)
            exact Or.inr ⟨(not_not.mp hp).symm, UInt32.le_of_lt hlt⟩
  trans {a b c} ha hb hc hab hbc := by
    rw [timerLe_iff ha hb] at hab
    rw [timerLe_iff hb hc] at hbc
    rw [timerLe_iff ha hc]
    omega

/-- The fields the comparisons read. -/
def ActiveBase.key (o : ActiveBase) : UInt32 × Int × UInt32 :=
  (o.iTimeToRunTicks, o.iAOPriority, o.iSeqNum)

theorem timerLe_congr {a b : ι} (ha : (ao' a).key = (ao a).key)
    (hb : (ao' b).key = (ao b).key) : timerLe ao' a b ↔ timerLe ao a b := by
  simp only [ActiveBase.key, Prod.mk.injEq] at ha hb
  unfold timerLe
  rw [ha.1, ha.2.1, ha.2.2, hb.1, hb.2.1, hb.2.2]

theorem timerCompare_congr (h : ∀ x, (ao' x).key = (ao x).key) :
    timerCompare ao' = timerCompare ao := by
  funext a b
  have ha := h a
  have hb := h b
  simp only [ActiveBase.key, Prod.mk.injEq] at ha hb
  unfold timerCompare readyCompare
  rw [ha.1, ha.2.1, ha.2.2, hb.1, hb.2.1, hb.2.2]

theorem shortestDelay_eq {deltaTicks : UInt32} (h : ¬ deltaTicks ≤ iTimeCompareThreshold) :
    shortestDelay deltaTicks = -deltaTicks := by
  have hneg : deltaTicks.toInt32 < 0 := by
    have hgt : 0x7fffffff < deltaTicks.toNat := UInt32.not_le.mp h
    have hlt := deltaTicks.toNat_lt
    rw [Int32.lt_iff_toInt_lt]
    show deltaTicks.toBitVec.toInt < 0
    rw [BitVec.toInt_eq_toNat_bmod]
    show Int.bmod (deltaTicks.toNat : Int) (2 ^ 32) < 0
    rw [Int.bmod_def]
    omega
  rw [shortestDelay, if_pos hneg, Int32.toUInt32_neg, UInt32.toUInt32_toInt32]

/-! ## One turn of `UpdateTimers` -/

section Turn

variable [DecidableEq ι] {s : CommonBase ι} {a : ι}

theorem key_unlink (s : CommonBase ι) (a x : ι) : ((s.unlink a).ao x).key = (s.ao x).key := by
  unfold CommonBase.unlink
  by_cases hx : x = a
  · rw [hx, CommonBase.setAO_ao_self]
    rfl
  · rw [CommonBase.setAO_ao_of_ne s _ hx]

@[simp] theorem timerCompare_unlink (s : CommonBase ι) (a : ι) :
    timerCompare (s.unlink a).ao = timerCompare s.ao :=
  timerCompare_congr (key_unlink s a)

theorem timerPop_c (s : CommonBase ι) (a : ι) :
    (timerPop s a).iExecTimerQ.c = pop (timerCompare s.ao) s.iExecTimerQ.c := by
  rw [← timerCompare_unlink s a]
  rfl

theorem timerRemove_c (s : CommonBase ι) (a : ι) :
    (timerRemove s a).iExecTimerQ.c = (remove (timerCompare s.ao) s.iExecTimerQ.c a).1 := by
  rw [← timerCompare_unlink s a]
  rfl

/-- The timer `a` has been taken off the timer queue and completed. -/
structure Completed (s s' : CommonBase ι) (a : ι) : Prop where
  self : s'.ao a = { s.ao a with
    iStatus := OSCL_REQUEST_ERR_NONE
    iSeqNum := s.iReadyQ.iSeqNumCounter + 1
    iIsIn := some .ready }
  other : ∀ b, b ≠ a → s'.ao b = s.ao b
  timers : s'.iExecTimerQ.c = pop (timerCompare s.ao) s.iExecTimerQ.c
  counter : s'.iExecTimerQ.iSeqNumCounter = s.iExecTimerQ.iSeqNumCounter
  ready : s'.iReadyQ.c.Perm (s.iReadyQ.c ++ [a])
  readyCounter : s'.iReadyQ.iSeqNumCounter = s.iReadyQ.iSeqNumCounter + 1
  sem : s'.iReadyQ.iSem = s.iReadyQ.iSem + 1

omit [DecidableEq ι] in
theorem Completed.perm {s' : CommonBase ι} (hc : Completed s s' a)
    (ht : top s.iExecTimerQ.c = some a) : s.iExecTimerQ.c.Perm (a :: s'.iExecTimerQ.c) := by
  rw [hc.timers]
  exact pop_perm _ ht

theorem pendComplete_ok (hq : s.isIn a = none) (hbusy : (s.ao a).iBusy = true)
    (hstatus : (s.ao a).iStatus = OSCL_REQUEST_PENDING) (aReason : Int) :
    pendComplete .ok s a aReason =
      (readyCallback (((readyEnqueue s a).setSem (s.iReadyQ.iSem + 1)).setAO a
        { (readyEnqueue s a).ao a with iStatus := aReason }), OsclErrNone) := by
  have hin : s.isInAnyQ a = false := by
    unfold CommonBase.isInAnyQ
    rw [show (s.ao a).iIsIn = none from hq]
    rfl
  unfold pendComplete
  rw [if_neg (by simp [hin]), if_neg (by simp [hbusy, hstatus])]
  rfl

/-- **One due timer**: popped and completed, it is in the ready queue. -/
theorem timerPop_completed (hbusy : (s.ao a).iBusy = true)
    (hstatus : (s.ao a).iStatus = OSCL_REQUEST_PENDING) :
    ∃ s', pendCompleteInThread .ok (timerPop s a) a OSCL_REQUEST_ERR_NONE = (s', .ok ()) ∧
      Completed s s' a := by
  have hpop : (timerPop s a).ao a = { s.ao a with iIsIn := none } := CommonBase.setAO_ao_self _ _ _
  have hq : (timerPop s a).isIn a = none := congrArg ActiveBase.iIsIn hpop
  have hpend := pendComplete_ok hq (by rw [hpop]; exact hbusy) (by rw [hpop]; exact hstatus)
    OSCL_REQUEST_ERR_NONE
  have henq : (readyEnqueue (timerPop s a) a).ao a =
      { (timerPop s a).ao a with
        iIsIn := some .ready, iSeqNum := s.iReadyQ.iSeqNumCounter + 1 } :=
    CommonBase.setAO_ao_self _ _ _
  have hrun : pendCompleteInThread .ok (timerPop s a) a OSCL_REQUEST_ERR_NONE =
      (readyCallback (((readyEnqueue (timerPop s a) a).setSem (s.iReadyQ.iSem + 1)).setAO a
        { (readyEnqueue (timerPop s a) a).ao a with iStatus := OSCL_REQUEST_ERR_NONE }),
        .ok ()) := by
    unfold pendCompleteInThread
    rw [if_neg (by rw [hq]; exact nofun)]
    dsimp only
    rw [hpend]
    rfl
  refine ⟨_, hrun, ⟨?_, fun b hb => ?_, ?_, ?_, ?_, ?_, ?_⟩⟩
  · rw [readyCallback_ao, CommonBase.setAO_ao_self, henq, hpop]
  · rw [readyCallback_ao, CommonBase.setAO_ao_of_ne _ _ hb]
    show (((timerPop s a).setAO a _).ao b) = s.ao b
    rw [CommonBase.setAO_ao_of_ne _ _ hb]
    exact CommonBase.setAO_ao_of_ne s _ hb
  · rw [readyCallback_timers]
    exact timerPop_c s a
  · rw [readyCallback_timers]
    rfl
  · rw [readyCallback_c]
    exact push_perm _ _ _
  · rw [readyCallback_counter]
    rfl
  · rw [readyCallback_sem]
    rfl

/-- The timers that may run their course: linked, active and in heap order. -/
structure Timers (s : CommonBase ι) : Prop where
  nodup : s.iExecTimerQ.c.Nodup
  isIn_iff : ∀ a, s.isIn a = some .timer ↔ a ∈ s.iExecTimerQ.c
  busy : ∀ a ∈ s.iExecTimerQ.c, (s.ao a).iBusy = true
  pending : ∀ a ∈ s.iExecTimerQ.c, (s.ao a).iStatus = OSCL_REQUEST_PENDING
  heap : IsHeap (timerLe s.ao) s.iExecTimerQ.c

/-- The pending timers lie in the half range that starts at `w`. -/
def Window (w : UInt32) (s : CommonBase ι) : Prop :=
  ∀ a ∈ s.iExecTimerQ.c, Within w (s.ao a).iTimeToRunTicks

theorem Timers.sub {s' : CommonBase ι} (h : Timers s)
    (hperm : s.iExecTimerQ.c.Perm (a :: s'.iExecTimerQ.c))
    (hother : ∀ b, b ≠ a → s'.ao b = s.ao b) (hself : s'.isIn a ≠ some .timer)
    (hheap : IsHeap (timerLe s.ao) s'.iExecTimerQ.c) : Timers s' := by
  have hnodup : (a :: s'.iExecTimerQ.c).Nodup := hperm.nodup_iff.mp h.nodup
  have hnot : a ∉ s'.iExecTimerQ.c := (List.nodup_cons.mp hnodup).1
  have hne : ∀ b ∈ s'.iExecTimerQ.c, b ≠ a := fun b hb heq => hnot (heq ▸ hb)
  have hmem : ∀ b ∈ s'.iExecTimerQ.c, b ∈ s.iExecTimerQ.c := fun b hb =>
    hperm.mem_iff.mpr (List.mem_cons_of_mem a hb)
  constructor
  · exact (List.nodup_cons.mp hnodup).2
  · intro b
    by_cases hb : b = a
    · rw [hb]
      exact iff_of_false hself hnot
    · have hlink : s'.isIn b = s.isIn b := congrArg ActiveBase.iIsIn (hother b hb)
      rw [hlink, h.isIn_iff, hperm.mem_iff]
      simp [hb]
  · intro b hb
    rw [hother b (hne b hb)]
    exact h.busy b (hmem b hb)
  · intro b hb
    rw [hother b (hne b hb)]
    exact h.pending b (hmem b hb)
  · refine hheap.congr fun x hx y hy hxy => ?_
    rw [timerLe_congr (by rw [hother x (hne x hx)]) (by rw [hother y (hne y hy)])]
    exact hxy

theorem Completed.timers_sub {s' : CommonBase ι} {w : UInt32} (hc : Completed s s' a)
    (h : Timers s) (hw : Window w s) (ht : top s.iExecTimerQ.c = some a) : Timers s' := by
  refine h.sub (hc.perm ht) hc.other ?_ ?_
  · have hlink : s'.isIn a = some .ready := congrArg ActiveBase.iIsIn hc.self
    rw [hlink]
    decide
  · rw [hc.timers]
    have hlen : 0 < s.iExecTimerQ.c.length := by
      obtain ⟨hpos, -⟩ := List.getElem?_eq_some_iff.mp ht
      exact hpos
    exact pop_isHeap (timerOrder s.ao w) hw h.heap hlen

end Turn

/-! ## The loop of `UpdateTimers` -/

/-- The timer `a` is due at `timenow`: its time is not later, in the half range. -/
def CommonBase.Due (s : CommonBase ι) (timenow : UInt32) (a : ι) : Prop :=
  NotLater (s.ao a).iTimeToRunTicks timenow

instance (s : CommonBase ι) (timenow : UInt32) (a : ι) : Decidable (s.Due timenow a) :=
  inferInstanceAs (Decidable (NotLater _ _))

theorem notDue_of_timerLe {s : CommonBase ι} {w timenow : UInt32} {a b : ι}
    (ha : Within w (s.ao a).iTimeToRunTicks) (hb : Within w (s.ao b).iTimeToRunTicks)
    (hnow : Within w timenow) (hle : timerLe s.ao b a) (hdue : ¬ s.Due timenow a) :
    ¬ s.Due timenow b := by
  unfold CommonBase.Due at hdue ⊢
  rw [notLater_iff ha hnow] at hdue
  rw [notLater_iff hb hnow]
  rw [timerLe_iff hb ha] at hle
  omega

/-- What the loop has done when it stops: `moved` are the timers it completed,
`first` and `delay` its answer. -/
structure Expired (timenow : UInt32) (s s' : CommonBase ι) (first : Option ι) (delay : UInt32)
    (moved : List ι) : Prop where
  perm : s.iExecTimerQ.c.Perm (moved ++ s'.iExecTimerQ.c)
  due : ∀ a ∈ moved, s.Due timenow a
  notDue : ∀ a ∈ s'.iExecTimerQ.c, ¬ s.Due timenow a
  order : moved.Pairwise fun a b => timerLe s.ao b a
  ready : s'.iReadyQ.c.Perm (s.iReadyQ.c ++ moved)
  completed : ∀ i a, moved[i]? = some a → s'.ao a = { s.ao a with
    iStatus := OSCL_REQUEST_ERR_NONE
    iSeqNum := s.iReadyQ.iSeqNumCounter + 1 + UInt32.ofNat i
    iIsIn := some .ready }
  other : ∀ b, b ∉ moved → s'.ao b = s.ao b
  sem : s'.iReadyQ.iSem = s.iReadyQ.iSem + moved.length
  counter : s'.iExecTimerQ.iSeqNumCounter = s.iExecTimerQ.iSeqNumCounter
  timers : Timers s'
  answer : match first with
    | none => s'.iExecTimerQ.c = [] ∧ delay = 0
    | some a => a ∈ s'.iExecTimerQ.c ∧ delay = (s.ao a).iTimeToRunTicks - timenow ∧
        ∀ b ∈ s'.iExecTimerQ.c, timerLe s.ao b a

theorem Expired.stop {timenow : UInt32} {s : CommonBase ι} {first : Option ι} {delay : UInt32}
    (h : Timers s) (hdue : ∀ a ∈ s.iExecTimerQ.c, ¬ s.Due timenow a)
    (hanswer : match first with
      | none => s.iExecTimerQ.c = [] ∧ delay = 0
      | some a => a ∈ s.iExecTimerQ.c ∧ delay = (s.ao a).iTimeToRunTicks - timenow ∧
          ∀ b ∈ s.iExecTimerQ.c, timerLe s.ao b a) :
    Expired timenow s s first delay [] where
  perm := List.Perm.refl _
  due := nofun
  notDue := hdue
  order := List.Pairwise.nil
  ready := by simp
  completed := by simp
  other _ _ := rfl
  sem := rfl
  counter := rfl
  timers := h
  answer := hanswer

theorem Expired.cons {timenow w : UInt32} {s t u : CommonBase ι} {a : ι} {first : Option ι}
    {delay : UInt32} {moved : List ι} (hs : Timers s) (hw : Window w s)
    (ht : top s.iExecTimerQ.c = some a) (hdue : s.Due timenow a) (hc : Completed s t a)
    (he : Expired timenow t u first delay moved) :
    Expired timenow s u first delay (a :: moved) := by
  have hperm := hc.perm ht
  have hnodup : (a :: t.iExecTimerQ.c).Nodup := hperm.nodup_iff.mp hs.nodup
  have hnot : a ∉ t.iExecTimerQ.c := (List.nodup_cons.mp hnodup).1
  -- nothing that happens after the first turn concerns `a`
  have hmoved : ∀ b ∈ moved, b ∈ t.iExecTimerQ.c := fun b hb =>
    he.perm.mem_iff.mpr (List.mem_append_left _ hb)
  have hleft : ∀ b ∈ u.iExecTimerQ.c, b ∈ t.iExecTimerQ.c := fun b hb =>
    he.perm.mem_iff.mpr (List.mem_append_right _ hb)
  have hao : ∀ b ∈ t.iExecTimerQ.c, t.ao b = s.ao b := fun b hb =>
    hc.other b fun heq => hnot (heq ▸ hb)
  have hle : ∀ b ∈ t.iExecTimerQ.c, ∀ c ∈ t.iExecTimerQ.c, timerLe t.ao b c ↔ timerLe s.ao b c :=
    fun b hb c hc => timerLe_congr (by rw [hao b hb]) (by rw [hao c hc])
  have hdueIff : ∀ b ∈ t.iExecTimerQ.c, t.Due timenow b ↔ s.Due timenow b := fun b hb => by
    unfold CommonBase.Due
    rw [hao b hb]
  have htop : ∀ b ∈ s.iExecTimerQ.c, timerLe s.ao b a :=
    IsHeap.le_top (timerOrder s.ao w) hw hs.heap ht
  constructor
  · exact hperm.trans (he.perm.cons a)
  · intro b hb
    rcases List.mem_cons.mp hb with rfl | hb
    · exact hdue
    · exact (hdueIff b (hmoved b hb)).mp (he.due b hb)
  · intro b hb
    rw [← hdueIff b (hleft b hb)]
    exact he.notDue b hb
  · refine List.Pairwise.cons (fun b hb => ?_) ?_
    · exact htop b (hperm.mem_iff.mpr (List.mem_cons_of_mem a (hmoved b hb)))
    · refine he.order.imp_of_mem fun {b c} hb hc hbc => ?_
      exact (hle c (hmoved c hc) b (hmoved b hb)).mp hbc
  · calc
      u.iReadyQ.c.Perm (t.iReadyQ.c ++ moved) := he.ready
      _ |>.Perm (s.iReadyQ.c ++ [a] ++ moved) := hc.ready.append_right moved
      _ = s.iReadyQ.c ++ a :: moved := List.append_cons _ _ _ |>.symm
  · intro i b hi
    cases i with
    | zero =>
      obtain rfl : a = b := Option.some.inj hi
      rw [he.other a fun hmem => hnot (hmoved a hmem), hc.self]
      simp
    | succ i =>
      have hi' : moved[i]? = some b := hi
      have hb := hmoved b (List.mem_of_getElem? hi')
      have hseq : t.iReadyQ.iSeqNumCounter + 1 + UInt32.ofNat i =
          s.iReadyQ.iSeqNumCounter + 1 + UInt32.ofNat (i + 1) := by
        rw [hc.readyCounter, UInt32.ofNat_add, UInt32.add_assoc _ 1, UInt32.add_comm 1]
        rfl
      rw [he.completed i b hi', hao b hb, hseq]
  · intro b hb
    have hba : b ≠ a := fun heq => hb (heq ▸ List.mem_cons_self)
    rw [he.other b fun hmem => hb (List.mem_cons_of_mem a hmem), hc.other b hba]
  · rw [he.sem, hc.sem, List.length_cons]
    omega
  · rw [he.counter, hc.counter]
  · exact he.timers
  · have hanswer := he.answer
    cases first with
    | none => exact hanswer
    | some f =>
      obtain ⟨hf, hdelay, hfirst⟩ := hanswer
      refine ⟨hf, ?_, fun b hb => (hle b (hleft b hb) f (hleft f hf)).mp (hfirst b hb)⟩
      rw [hdelay, hao f (hleft f hf)]

section Loop

variable [DecidableEq ι]

/-- **The loop of `UpdateTimers`** completes the due timers in the order of the queue. -/
theorem updateTimersLoop_expired {sig : ι → SysCall} {timenow w : UInt32} (hnow : Within w timenow) :
    ∀ (fuel : Nat) (s : CommonBase ι), s.iExecTimerQ.c.length ≤ fuel → Timers s → Window w s →
      (∀ a ∈ s.iExecTimerQ.c, sig a = .ok) →
      ∃ s' first delay moved, updateTimersLoop sig timenow fuel s = (s', .ok (first, delay)) ∧
        Expired timenow s s' first delay moved
  | 0, s, hfuel, hs, hw, hsig => by
    have hnil : s.iExecTimerQ.c = [] := List.length_eq_zero_iff.mp (Nat.le_zero.mp hfuel)
    refine ⟨s, none, 0, [], rfl, Expired.stop hs ?_ ⟨hnil, rfl⟩⟩
    rw [hnil]
    nofun
  | fuel + 1, s, hfuel, hs, hw, hsig => by
    cases ht : top s.iExecTimerQ.c with
    | none =>
      have hnil : s.iExecTimerQ.c = [] := by
        unfold top at ht
        exact List.length_eq_zero_iff.mp (Nat.le_zero.mp (List.getElem?_eq_none_iff.mp ht))
      refine ⟨s, none, 0, [], ?_, Expired.stop hs ?_ ⟨hnil, rfl⟩⟩
      · rw [updateTimersLoop, ht]
      · rw [hnil]
        nofun
    | some a =>
      have ha : a ∈ s.iExecTimerQ.c := List.mem_of_getElem? ht
      by_cases hdue : s.Due timenow a
      · obtain ⟨t, hrun, hc⟩ := timerPop_completed (hs.busy a ha) (hs.pending a ha)
        have hperm := hc.perm ht
        have hsub : ∀ b ∈ t.iExecTimerQ.c, b ∈ s.iExecTimerQ.c := fun b hb =>
          hperm.mem_iff.mpr (List.mem_cons_of_mem a hb)
        have hnot : a ∉ t.iExecTimerQ.c :=
          (List.nodup_cons.mp (hperm.nodup_iff.mp hs.nodup)).1
        have hlen : t.iExecTimerQ.c.length + 1 = s.iExecTimerQ.c.length :=
          hperm.length_eq.symm
        have hwt : Window w t := fun b hb => by
          rw [hc.other b fun heq => hnot (heq ▸ hb)]
          exact hw b (hsub b hb)
        obtain ⟨u, first, delay, moved, hloop, he⟩ :=
          updateTimersLoop_expired hnow fuel t (by omega) (hc.timers_sub hs hw ht) hwt
            fun b hb => hsig b (hsub b hb)
        refine ⟨u, first, delay, a :: moved, ?_, he.cons hs hw ht hdue hc⟩
        rw [updateTimersLoop, ht]
        dsimp only
        rw [if_pos (show timenow - (s.ao a).iTimeToRunTicks ≤ iTimeCompareThreshold from hdue),
          hsig a ha, hrun]
        exact hloop
      · have htop : ∀ b ∈ s.iExecTimerQ.c, timerLe s.ao b a :=
          IsHeap.le_top (timerOrder s.ao w) hw hs.heap ht
        refine ⟨s, some a, shortestDelay (timenow - (s.ao a).iTimeToRunTicks), [], ?_,
          Expired.stop hs (fun b hb => ?_) ⟨ha, ?_, htop⟩⟩
        · rw [updateTimersLoop, ht]
          dsimp only
          rw [if_neg (show ¬ timenow - (s.ao a).iTimeToRunTicks ≤ iTimeCompareThreshold from hdue)]
        · exact notDue_of_timerLe (hw a ha) (hw b hb) hnow (htop b hb) hdue
        · rw [shortestDelay_eq hdue]
          exact UInt32.neg_sub

end Loop

/-! ## Runs -/

/-- The timer queue with the pending timers in the order in which they were added. -/
structure Session (ι : Type*) where
  base : CommonBase ι
  added : List ι

/-- The operations on the timer queue; `others` is anything else the scheduler,
the active objects and other threads do. -/
inductive Op (ι : Type*)
  | after (a : ι) (aDelayMicrosec tickperiod timenow : UInt32)
  | remove (a : ι)
  | pop
  | updateTimers (timenow : UInt32) (sig : ι → SysCall)
  | others (base : CommonBase ι)

/-- The scheduler as constructed. -/
def Session.start (iAOPriority : ι → Int) : Session ι := ⟨.construct iAOPriority, []⟩

/-- What leaves the timer queue alone: the queue and the objects in it are
untouched, and no other object comes to name the queue. -/
structure Others (s s' : CommonBase ι) : Prop where
  timers : s'.iExecTimerQ = s.iExecTimerQ
  ao : ∀ a ∈ s.iExecTimerQ.c, s'.ao a = s.ao a
  isIn : ∀ a, a ∉ s.iExecTimerQ.c → s'.isIn a ≠ some .timer

/-- The times of the pending timers. -/
def Session.times (t : Session ι) : List UInt32 := t.added.map fun a => (t.base.ao a).iTimeToRunTicks

/-- `a` has to run before `b`: it is earlier, or at the same time it has the
higher priority, or on a tie it was added before. -/
def Session.Before (t : Session ι) (a b : ι) : Prop :=
  (t.base.ao a).iTimeToRunTicks ≠ (t.base.ao b).iTimeToRunTicks ∧
      NotLater (t.base.ao a).iTimeToRunTicks (t.base.ao b).iTimeToRunTicks ∨
    (t.base.ao a).iTimeToRunTicks = (t.base.ao b).iTimeToRunTicks ∧
      ((t.base.ao b).iAOPriority < (t.base.ao a).iAOPriority ∨
        (t.base.ao a).iAOPriority = (t.base.ao b).iAOPriority ∧ [a, b].Sublist t.added)

/-- The invariant of the timer queue. -/
structure Session.Good (t : Session ι) : Prop where
  timers : Timers t.base
  perm : t.base.iExecTimerQ.c.Perm t.added
  fifo : t.added.Pairwise fun a b => (t.base.ao a).iSeqNum < (t.base.ao b).iSeqNum
  seq_le : ∀ a ∈ t.added, (t.base.ao a).iSeqNum ≤ t.base.iExecTimerQ.iSeqNumCounter
  window : ∃ w, Window w t.base

theorem Session.start_good (pri : ι → Int) : (Session.start pri).Good where
  timers :=
    { nodup := List.nodup_nil
      isIn_iff := by
        intro a
        simp [CommonBase.isIn, Session.start, CommonBase.construct]
      busy := nofun
      pending := nofun
      heap := fun i _ hin => absurd hin (Nat.not_lt_zero i) }
  perm := List.Perm.refl _
  fifo := List.Pairwise.nil
  seq_le := nofun
  window := ⟨0, nofun⟩

theorem pair_sublist_or {l : List ι} {a b : ι} (ha : a ∈ l) (hb : b ∈ l) :
    a = b ∨ [a, b].Sublist l ∨ [b, a].Sublist l := by
  refine List.Pairwise.forall_of_forall_of_flip (R := fun a b =>
    a = b ∨ [a, b].Sublist l ∨ [b, a].Sublist l) (fun _ _ => Or.inl rfl) ?_ ?_ ha hb
  · exact List.pairwise_iff_forall_sublist.mpr fun h => Or.inr (Or.inl h)
  · exact List.pairwise_iff_forall_sublist.mpr fun h => Or.inr (Or.inr h)

namespace Session.Good

variable {t : Session ι}

theorem nodup (h : t.Good) : t.added.Nodup := h.perm.nodup_iff.mp h.timers.nodup

theorem before (h : t.Good) {a b : ι} (ha : a ∈ t.added) (hb : b ∈ t.added) (hab : a ≠ b)
    (hle : timerLe t.base.ao b a) : t.Before a b := by
  unfold timerLe at hle
  unfold Session.Before
  split at hle
  · next htime =>
      refine Or.inr ⟨htime.symm, ?_⟩
      rcases hle with hp | ⟨hp, hseq⟩
      · exact Or.inl hp
      · refine Or.inr ⟨hp.symm, ?_⟩
        refine (pair_sublist_or ha hb).resolve_left hab |>.resolve_right fun hba => ?_
        have hlt := List.pairwise_iff_forall_sublist.mp h.fifo hba
        exact UInt32.not_lt.mpr hseq hlt
  · next htime => exact Or.inl ⟨Ne.symm htime, hle⟩

end Session.Good

section Session

variable [DecidableEq ι]

/-- The session whose pending timers are those of `l` that are in the queue. -/
def Session.track (base : CommonBase ι) (l : List ι) : Session ι :=
  ⟨base, l.filter (· ∈ base.iExecTimerQ.c)⟩

/-- One operation; `pop` is not called on an empty queue. -/
def Session.step (t : Session ι) : Op ι → Option (Session ι)
  | .after a aDelayMicrosec tickperiod timenow =>
    let r := Scheduler.after t.base a aDelayMicrosec tickperiod timenow
    some (track r.1 (if r.2.isOk then t.added ++ [a] else t.added))
  | .remove a => some (track (timerRemove t.base a) t.added)
  | .pop => (top t.base.iExecTimerQ.c).map fun a => track (timerPop t.base a) t.added
  | .updateTimers timenow sig =>
    some (track (Scheduler.updateTimers sig timenow t.base).1 t.added)
  | .others base => some (track base t.added)

/-- The step relation: everything else that goes on leaves the timer queue alone. -/
def Session.Step (t : Session ι) (op : Op ι) (u : Session ι) : Prop :=
  t.step op = some u ∧ ∀ base, op = .others base → Others t.base base

/-- Where the order of the timer queue can be relied on: whenever a timer is
added or `UpdateTimers` runs, the pending times (and the new time, or the
tick) lie in one half range; the sequence counter does not wrap; a removal's
sub-range sift goes right; the signals of `UpdateTimers` succeed. -/
def Session.Meets (t : Session ι) : Op ι → Prop
  | .after a aDelayMicrosec tickperiod timenow =>
    (Scheduler.after t.base a aDelayMicrosec tickperiod timenow).2.isOk = true →
      t.base.iExecTimerQ.iSeqNumCounter ≠ 0xffffffff ∧
        InHalfRange ((timenow + delayTicks aDelayMicrosec tickperiod) :: t.times)
  | .remove a => RemoveInOrder (timerCompare t.base.ao) t.base.iExecTimerQ.c a
  | .updateTimers timenow sig => InHalfRange (timenow :: t.times) ∧ ∀ a ∈ t.added, sig a = .ok
  | .pop | .others _ => True

namespace Session.Good

variable {t : Session ι}

theorem shrink (h : t.Good) {base : CommonBase ι} (ht : Timers base)
    (hsub : ∀ a ∈ base.iExecTimerQ.c, a ∈ t.base.iExecTimerQ.c)
    (hao : ∀ a ∈ base.iExecTimerQ.c, base.ao a = t.base.ao a)
    (hcounter : base.iExecTimerQ.iSeqNumCounter = t.base.iExecTimerQ.iSeqNumCounter) :
    (Session.track base t.added).Good := by
  have hmem : ∀ a ∈ (Session.track base t.added).added, a ∈ base.iExecTimerQ.c := fun a ha => by
    simpa using (List.mem_filter.mp ha).2
  refine ⟨ht, ?_, ?_, ?_, ?_⟩
  · refine (List.perm_ext_iff_of_nodup ht.nodup (h.nodup.filter _)).mpr fun a => ?_
    rw [List.mem_filter]
    constructor
    · intro ha
      exact ⟨h.perm.mem_iff.mp (hsub a ha), by simpa using ha⟩
    · rintro ⟨-, ha⟩
      simpa using ha
  · refine (h.fifo.filter _).imp_of_mem fun {a b} ha hb hab => ?_
    show (base.ao a).iSeqNum < (base.ao b).iSeqNum
    rw [hao a (hmem a ha), hao b (hmem b hb)]
    exact hab
  · intro a ha
    show (base.ao a).iSeqNum ≤ base.iExecTimerQ.iSeqNumCounter
    rw [hao a (hmem a ha), hcounter]
    exact h.seq_le a (List.mem_filter.mp ha).1
  · obtain ⟨w, hw⟩ := h.window
    refine ⟨w, fun a ha => ?_⟩
    rw [show (Session.track base t.added).base.ao a = base.ao a from rfl, hao a ha]
    exact hw a (hsub a ha)

theorem others (h : t.Good) {base : CommonBase ι} (ho : Others t.base base) :
    (Session.track base t.added).Good := by
  have hc : base.iExecTimerQ.c = t.base.iExecTimerQ.c := by rw [ho.timers]
  have ht : Timers base := by
    constructor
    · rw [hc]
      exact h.timers.nodup
    · intro a
      rw [hc]
      by_cases ha : a ∈ t.base.iExecTimerQ.c
      · rw [← h.timers.isIn_iff]
        unfold CommonBase.isIn
        rw [ho.ao a ha]
      · exact iff_of_false (ho.isIn a ha) ha
    · intro a ha
      rw [hc] at ha
      rw [ho.ao a ha]
      exact h.timers.busy a ha
    · intro a ha
      rw [hc] at ha
      rw [ho.ao a ha]
      exact h.timers.pending a ha
    · rw [hc]
      refine h.timers.heap.congr fun a ha b hb hab => ?_
      rw [timerLe_congr (by rw [ho.ao a ha]) (by rw [ho.ao b hb])]
      exact hab
  refine h.shrink ht (fun a ha => hc ▸ ha) (fun a ha => ho.ao a (hc ▸ ha)) ?_
  rw [ho.timers]

end Session.Good

/-- The timer `a` has been added, to run at `time`. -/
structure Added (s s' : CommonBase ι) (a : ι) (time : UInt32) : Prop where
  self : s'.ao a = { s.ao a with
    iBusy := true
    iStatus := OSCL_REQUEST_PENDING
    iTimeToRunTicks := time
    iSeqNum := s.iExecTimerQ.iSeqNumCounter + 1
    iIsIn := some .timer }
  other : ∀ b, b ≠ a → s'.ao b = s.ao b
  timers : s'.iExecTimerQ.c = push (timerCompare s'.ao) s.iExecTimerQ.c a
  counter : s'.iExecTimerQ.iSeqNumCounter = s.iExecTimerQ.iSeqNumCounter + 1

theorem queueTimer_frame (s : CommonBase ι) (a : ι) (d p n : UInt32) :
    (queueTimer s a d p n).ao =
        (timerAdd (s.setAO a { s.ao a with iTimeToRunTicks := n + delayTicks d p }) a).ao ∧
      (queueTimer s a d p n).iExecTimerQ =
        (timerAdd (s.setAO a { s.ao a with iTimeToRunTicks := n + delayTicks d p }) a).iExecTimerQ := by
  simp only [queueTimer]
  split
  · rw [timerCallback_ao, timerCallback_timers]
    exact ⟨rfl, rfl⟩
  · exact ⟨rfl, rfl⟩

theorem queueTimer_added {s : CommonBase ι} {a : ι} (d p n : UInt32) :
    Added s (queueTimer (s.setAO a
      { s.ao a with iBusy := true, iStatus := OSCL_REQUEST_PENDING }) a d p n) a
      (n + delayTicks d p) := by
  obtain ⟨hao, htimers⟩ := queueTimer_frame
    (s.setAO a { s.ao a with iBusy := true, iStatus := OSCL_REQUEST_PENDING }) a d p n
  constructor
  · rw [hao]
    simp only [timerAdd, CommonBase.setAO_ao_self]
    rfl
  · intro b hb
    rw [hao]
    simp only [timerAdd]
    rw [CommonBase.setAO_ao_of_ne _ _ hb, CommonBase.setAO_ao_of_ne _ _ hb,
      CommonBase.setAO_ao_of_ne _ _ hb]
  · rw [htimers, hao]
    rfl
  · rw [htimers]
    rfl

theorem Session.Good.add {t : Session ι} (h : t.Good) {base : CommonBase ι} {a : ι} {time : UInt32}
    (ha : t.base.isIn a = none) (hadd : Added t.base base a time)
    (hcounter : t.base.iExecTimerQ.iSeqNumCounter ≠ 0xffffffff)
    (hrange : InHalfRange (time :: t.times)) : (track base (t.added ++ [a])).Good := by
  have hnot : a ∉ t.base.iExecTimerQ.c := fun hmem => by
    rw [(h.timers.isIn_iff a).mpr hmem] at ha
    contradiction
  have hne : ∀ b ∈ t.base.iExecTimerQ.c, b ≠ a := fun b hb heq => hnot (heq ▸ hb)
  have hao : ∀ b ∈ t.base.iExecTimerQ.c, base.ao b = t.base.ao b := fun b hb =>
    hadd.other b (hne b hb)
  have hperm : base.iExecTimerQ.c.Perm (t.base.iExecTimerQ.c ++ [a]) := by
    rw [hadd.timers]
    exact push_perm _ _ _
  have hmem : ∀ b, b ∈ base.iExecTimerQ.c ↔ b ∈ t.base.iExecTimerQ.c ∨ b = a := fun b => by
    rw [hperm.mem_iff, List.mem_append, List.mem_singleton]
  obtain ⟨w, -, hw⟩ := hrange
  have hself : Within w (base.ao a).iTimeToRunTicks := by
    rw [hadd.self]
    exact hw _ List.mem_cons_self
  have hold : ∀ b ∈ t.base.iExecTimerQ.c, Within w (base.ao b).iTimeToRunTicks := fun b hb => by
    rw [hao b hb]
    exact hw _ (List.mem_cons_of_mem _ (List.mem_map_of_mem (h.perm.mem_iff.mp hb)))
  have htimers : Timers base := by
    constructor
    · rw [hperm.nodup_iff]
      exact List.nodup_append.mpr ⟨h.timers.nodup, List.nodup_singleton a, fun b hb c hc =>
        List.mem_singleton.mp hc ▸ hne b hb⟩
    · intro b
      rw [hmem]
      by_cases hb : b = a
      · rw [hb]
        exact iff_of_true (congrArg ActiveBase.iIsIn hadd.self) (Or.inr rfl)
      · have hlink : base.isIn b = t.base.isIn b := congrArg ActiveBase.iIsIn (hadd.other b hb)
        rw [hlink, h.timers.isIn_iff]
        simp [hb]
    · intro b hb
      rcases (hmem b).mp hb with hb | rfl
      · rw [hao b hb]
        exact h.timers.busy b hb
      · rw [hadd.self]
    · intro b hb
      rcases (hmem b).mp hb with hb | rfl
      · rw [hao b hb]
        exact h.timers.pending b hb
      · rw [hadd.self]
    · rw [hadd.timers]
      refine push_isHeap (timerOrder base.ao w) hold hself (h.timers.heap.congr ?_)
      intro b hb c hc hbc
      rw [timerLe_congr (by rw [hao b hb]) (by rw [hao c hc])]
      exact hbc
  have htrack : (track base (t.added ++ [a])).added = t.added ++ [a] := by
    refine List.filter_eq_self.mpr fun b hb => ?_
    rw [decide_eq_true_iff, hmem]
    rcases List.mem_append.mp hb with hb | hb
    · exact Or.inl (h.perm.mem_iff.mpr hb)
    · exact Or.inr (List.mem_singleton.mp hb)
  have hcount : base.iExecTimerQ.iSeqNumCounter.toNat =
      t.base.iExecTimerQ.iSeqNumCounter.toNat + 1 := by
    have hlt := t.base.iExecTimerQ.iSeqNumCounter.toNat_lt
    have hmax : t.base.iExecTimerQ.iSeqNumCounter.toNat ≠ 0xffffffff := fun heq =>
      hcounter (UInt32.toNat_inj.mp heq)
    have hone : (1 : UInt32).toNat = 1 := rfl
    rw [hadd.counter, UInt32.toNat_add, hone]
    omega
  have hseq : (base.ao a).iSeqNum = base.iExecTimerQ.iSeqNumCounter := by
    rw [hadd.self, hadd.counter]
  have hbelow : ∀ b ∈ t.added, (base.ao b).iSeqNum < base.iExecTimerQ.iSeqNumCounter := by
    intro b hb
    have hle := UInt32.le_iff_toNat_le.mp (h.seq_le b hb)
    rw [hao b (h.perm.mem_iff.mpr hb), UInt32.lt_iff_toNat_lt, hcount]
    omega
  refine ⟨htimers, ?_, ?_, ?_, w, fun b hb => ?_⟩
  · rw [htrack]
    exact hperm.trans (h.perm.append_right [a])
  · rw [htrack]
    refine List.pairwise_append.mpr ⟨?_, List.pairwise_singleton _ a, fun b hb c hc => ?_⟩
    · refine h.fifo.imp_of_mem fun {b c} hb hc hbc => ?_
      show (base.ao b).iSeqNum < (base.ao c).iSeqNum
      rw [hao b (h.perm.mem_iff.mpr hb), hao c (h.perm.mem_iff.mpr hc)]
      exact hbc
    · rw [List.mem_singleton.mp hc]
      show (base.ao b).iSeqNum < (base.ao a).iSeqNum
      rw [hseq]
      exact hbelow b hb
  · intro b hb
    rw [htrack] at hb
    show (base.ao b).iSeqNum ≤ base.iExecTimerQ.iSeqNumCounter
    rcases List.mem_append.mp hb with hb | hb
    · exact UInt32.le_of_lt (hbelow b hb)
    · rw [List.mem_singleton.mp hb, hseq]
      exact UInt32.le_refl _
  · rcases (hmem b).mp hb with hb | rfl
    · exact hold b hb
    · exact hself

theorem after_cases (s : CommonBase ι) (a : ι) (d p n : UInt32) :
    Scheduler.after s a d p n = (s, .error OsclErrInvalidState) ∨
    ((s.ao a).iBusy = false ∧ Scheduler.after s a d p n = (s.setAO a
      { s.ao a with iBusy := true, iStatus := OSCL_REQUEST_PENDING }, .error OsclErrInvalidState)) ∨
    (s.isIn a = none ∧ Scheduler.after s a d p n = (queueTimer (s.setAO a
      { s.ao a with iBusy := true, iStatus := OSCL_REQUEST_PENDING }) a d p n, .ok ())) := by
  unfold Scheduler.after
  split
  · exact Or.inl rfl
  · next hbusy =>
      dsimp only [addToExecTimerQ]
      split
      · exact Or.inr (Or.inl ⟨by simpa using hbusy, rfl⟩)
      · next hq =>
          refine Or.inr (Or.inr ⟨?_, rfl⟩)
          unfold CommonBase.isInAnyQ at hq
          rw [CommonBase.setAO_ao_self] at hq
          show (s.ao a).iIsIn = none
          simpa using hq

theorem Session.Good.after {t u : Session ι} (h : t.Good) {a : ι} {d p n : UInt32}
    (hmeets : t.Meets (.after a d p n)) (hs : t.step (.after a d p n) = some u) : u.Good := by
  obtain rfl := Option.some.inj hs
  simp only [Session.Meets] at hmeets
  rcases after_cases t.base a d p n with hafter | ⟨hbusy, hafter⟩ | ⟨hq, hafter⟩
  · rw [hafter]
    exact h.others ⟨rfl, fun _ _ => rfl, fun b hb => by rwa [ne_eq, h.timers.isIn_iff]⟩
  · -- left in the middle: the object is active but not in the timer queue
    rw [hafter]
    have hnot : a ∉ t.base.iExecTimerQ.c := fun hmem => by
      rw [h.timers.busy a hmem] at hbusy
      contradiction
    refine h.others ⟨rfl, fun b hb => ?_, fun b hb => ?_⟩
    · exact CommonBase.setAO_ao_of_ne _ _ fun heq => hnot (heq ▸ hb)
    · rw [← h.timers.isIn_iff] at hb
      unfold CommonBase.isIn at hb ⊢
      by_cases hba : b = a
      · subst hba
        rw [CommonBase.setAO_ao_self]
        exact hb
      · rw [CommonBase.setAO_ao_of_ne _ _ hba]
        exact hb
  · rw [hafter] at hmeets ⊢
    obtain ⟨hcounter, hrange⟩ := hmeets rfl
    exact h.add hq (queueTimer_added d p n) hcounter hrange

theorem Session.Good.remove {t u : Session ι} (h : t.Good) {a : ι} (hmeets : t.Meets (.remove a))
    (hs : t.step (.remove a) = some u) : u.Good := by
  obtain rfl := Option.some.inj hs
  obtain ⟨w, hw⟩ := h.window
  have hother : ∀ b, b ≠ a → (timerRemove t.base a).ao b = t.base.ao b := fun b hb =>
    CommonBase.setAO_ao_of_ne _ _ hb
  have hself : (timerRemove t.base a).isIn a = none :=
    congrArg ActiveBase.iIsIn (CommonBase.setAO_ao_self _ _ _)
  have hc := timerRemove_c t.base a
  by_cases hin : a ∈ t.base.iExecTimerQ.c
  · have hperm : t.base.iExecTimerQ.c.Perm (a :: (timerRemove t.base a).iExecTimerQ.c) := by
      rw [hc]
      exact remove_perm _ hin
    have hnot : a ∉ (timerRemove t.base a).iExecTimerQ.c :=
      (List.nodup_cons.mp (hperm.nodup_iff.mp h.timers.nodup)).1
    refine h.shrink (h.timers.sub hperm hother ?_ ?_) (fun b hb => ?_) (fun b hb => ?_) rfl
    · rw [hself]
      exact nofun
    · rw [hc]
      exact remove_isHeap (timerOrder t.base.ao w) hw h.timers.heap hmeets
    · exact hperm.mem_iff.mpr (List.mem_cons_of_mem a hb)
    · exact hother b fun heq => hnot (heq ▸ hb)
  · have hsame : (timerRemove t.base a).iExecTimerQ = t.base.iExecTimerQ := by
      show OsclTimerQ.mk (timerRemove t.base a).iExecTimerQ.c t.base.iExecTimerQ.iSeqNumCounter = _
      rw [hc, remove_of_not_mem hin]
    refine h.others ⟨hsame, fun b hb => hother b fun heq => hin (heq ▸ hb), fun b hb => ?_⟩
    by_cases hba : b = a
    · rw [hba, hself]
      exact nofun
    · have hlink : (timerRemove t.base a).isIn b = t.base.isIn b :=
        congrArg ActiveBase.iIsIn (hother b hba)
      rwa [hlink, ne_eq, h.timers.isIn_iff]

theorem Session.Good.pop {t u : Session ι} (h : t.Good) (hs : t.step .pop = some u) : u.Good := by
  obtain ⟨a, ht, rfl⟩ := Option.map_eq_some_iff.mp hs
  obtain ⟨w, hw⟩ := h.window
  have hother : ∀ b, b ≠ a → (timerPop t.base a).ao b = t.base.ao b := fun b hb =>
    CommonBase.setAO_ao_of_ne _ _ hb
  have hself : (timerPop t.base a).isIn a = none :=
    congrArg ActiveBase.iIsIn (CommonBase.setAO_ao_self _ _ _)
  have hc := timerPop_c t.base a
  have hperm : t.base.iExecTimerQ.c.Perm (a :: (timerPop t.base a).iExecTimerQ.c) := by
    rw [hc]
    exact pop_perm _ ht
  have hnot : a ∉ (timerPop t.base a).iExecTimerQ.c :=
    (List.nodup_cons.mp (hperm.nodup_iff.mp h.timers.nodup)).1
  refine h.shrink (h.timers.sub hperm hother ?_ ?_) (fun b hb => ?_) (fun b hb => ?_) rfl
  · rw [hself]
    exact nofun
  · rw [hc]
    exact pop_isHeap (timerOrder t.base.ao w) hw h.timers.heap
      (List.getElem?_eq_some_iff.mp ht).1
  · exact hperm.mem_iff.mpr (List.mem_cons_of_mem a hb)
  · exact hother b fun heq => hnot (heq ▸ hb)

variable {sig : ι → SysCall}

theorem Session.Good.expired {t : Session ι} (h : t.Good) {timenow : UInt32}
    (hmeets : t.Meets (.updateTimers timenow sig)) :
    ∃ s' first delay moved, updateTimers sig timenow t.base = (s', .ok (first, delay)) ∧
      Expired timenow t.base s' first delay moved := by
  obtain ⟨⟨w, -, hw⟩, hsig⟩ := hmeets
  have hwindow : Window w t.base := fun a ha =>
    hw _ (List.mem_cons_of_mem _ (List.mem_map_of_mem (h.perm.mem_iff.mp ha)))
  exact updateTimersLoop_expired (hw _ List.mem_cons_self) _ t.base (Nat.le_refl _) h.timers
    hwindow fun a ha => hsig a (h.perm.mem_iff.mp ha)

theorem Session.Good.update {t u : Session ι} (h : t.Good) {timenow : UInt32}
    (hmeets : t.Meets (.updateTimers timenow sig))
    (hs : t.step (.updateTimers timenow sig) = some u) : u.Good := by
  obtain rfl := Option.some.inj hs
  obtain ⟨s', first, delay, moved, hrun, he⟩ := h.expired hmeets
  rw [hrun]
  have hnodup : (moved ++ s'.iExecTimerQ.c).Nodup := he.perm.nodup_iff.mp h.timers.nodup
  refine h.shrink he.timers (fun a ha => ?_) (fun a ha => ?_) he.counter
  · exact he.perm.mem_iff.mpr (List.mem_append_right _ ha)
  · refine he.other a fun hmem => ?_
    exact (List.nodup_append.mp hnodup).2.2 a hmem a ha rfl

/-- **One operation keeps the invariant.** -/
theorem Session.step_good {t u : Session ι} {op : Op ι} (h : t.Good) (hmeets : t.Meets op)
    (hs : t.Step op u) : u.Good := by
  obtain ⟨hstep, hothers⟩ := hs
  cases op with
  | after a d p n => exact h.after hmeets hstep
  | remove a => exact h.remove hmeets hstep
  | pop => exact h.pop hstep
  | updateTimers timenow sig => exact h.update hmeets hstep
  | others base =>
    obtain rfl := Option.some.inj hstep
    exact h.others (hothers base rfl)

/-- What `UpdateTimers` has to do at the tick `timenow`: `moved` are the timers
it completes, `first` and `delay` its answer. -/
structure Session.Updates (t : Session ι) (timenow : UInt32) (s' : CommonBase ι) (first : Option ι)
    (delay : UInt32) (moved : List ι) : Prop where
  /-- Exactly the due timers are completed, and exactly the others stay. -/
  moved_perm : moved.Perm (t.added.filter (t.base.Due timenow ·))
  left_perm : s'.iExecTimerQ.c.Perm (t.added.filter (¬ t.base.Due timenow ·))
  /-- They are completed in order of time, priority and age. -/
  order : moved.Pairwise t.Before
  ready : s'.iReadyQ.c.Perm (t.base.iReadyQ.c ++ moved)
  completed : ∀ i a, moved[i]? = some a → s'.ao a = { t.base.ao a with
    iStatus := OSCL_REQUEST_ERR_NONE
    iSeqNum := t.base.iReadyQ.iSeqNumCounter + 1 + UInt32.ofNat i
    iIsIn := some .ready }
  other : ∀ b, b ∉ moved → s'.ao b = t.base.ao b
  sem : s'.iReadyQ.iSem = t.base.iReadyQ.iSem + moved.length
  /-- The answer is the earliest timer that is left and its distance. -/
  answer : match first with
    | none => s'.iExecTimerQ.c = [] ∧ delay = 0
    | some a => a ∈ s'.iExecTimerQ.c ∧ delay = (t.base.ao a).iTimeToRunTicks - timenow ∧
        ∀ b ∈ s'.iExecTimerQ.c, delay ≤ (t.base.ao b).iTimeToRunTicks - timenow ∧
          (b ≠ a → t.Before a b)

theorem Session.Good.updates {t : Session ι} (h : t.Good) {timenow : UInt32}
    (hmeets : t.Meets (.updateTimers timenow sig)) :
    ∃ s' first delay moved, updateTimers sig timenow t.base = (s', .ok (first, delay)) ∧
      t.Updates timenow s' first delay moved := by
  obtain ⟨s', first, delay, moved, hrun, he⟩ := h.expired hmeets
  obtain ⟨⟨w, -, hw⟩, -⟩ := hmeets
  have hnow : Within w timenow := hw _ List.mem_cons_self
  have hnodup : (moved ++ s'.iExecTimerQ.c).Nodup := he.perm.nodup_iff.mp h.timers.nodup
  have hmem : ∀ a, a ∈ t.added ↔ a ∈ moved ∨ a ∈ s'.iExecTimerQ.c := fun a => by
    rw [← h.perm.mem_iff, he.perm.mem_iff, List.mem_append]
  have hwithin : ∀ a ∈ t.added, Within w (t.base.ao a).iTimeToRunTicks := fun a ha =>
    hw _ (List.mem_cons_of_mem _ (List.mem_map_of_mem ha))
  have hnodupMoved : moved.Nodup := (List.nodup_append.mp hnodup).1
  refine ⟨s', first, delay, moved, hrun, ?_, ?_, ?_, he.ready, he.completed, he.other, he.sem, ?_⟩
  · refine (List.perm_ext_iff_of_nodup hnodupMoved (h.nodup.filter _)).mpr fun a => ?_
    rw [List.mem_filter, hmem, decide_eq_true_iff]
    constructor
    · intro ha
      exact ⟨Or.inl ha, he.due a ha⟩
    · rintro ⟨ha, hdue⟩
      exact ha.resolve_right fun hleft => he.notDue a hleft hdue
  · refine (List.perm_ext_iff_of_nodup (List.nodup_append.mp hnodup).2.1
      (h.nodup.filter _)).mpr fun a => ?_
    rw [List.mem_filter, hmem, decide_eq_true_iff]
    constructor
    · intro ha
      exact ⟨Or.inr ha, he.notDue a ha⟩
    · rintro ⟨ha, hdue⟩
      exact ha.resolve_left fun hmoved => hdue (he.due a hmoved)
  · refine List.Pairwise.imp_of_mem ?_ (he.order.and hnodupMoved)
    intro a b ha hb hab
    exact h.before ((hmem a).mpr (Or.inl ha)) ((hmem b).mpr (Or.inl hb)) hab.2 hab.1
  · have hanswer := he.answer
    cases first with
    | none => exact hanswer
    | some a =>
      obtain ⟨ha, hdelay, hfirst⟩ := hanswer
      refine ⟨ha, hdelay, fun b hb => ⟨?_, fun hba => ?_⟩⟩
      · have haw := hwithin a ((hmem a).mpr (Or.inr ha))
        have hbw := hwithin b ((hmem b).mpr (Or.inr hb))
        have hna := (notLater_total haw hnow).resolve_left (he.notDue a ha)
        have hnb := (notLater_total hbw hnow).resolve_left (he.notDue b hb)
        have hle := (timerLe_iff hbw haw).mp (hfirst b hb)
        rw [hdelay, UInt32.le_iff_toNat_le, toNat_sub_of_notLater hnow haw hna,
          toNat_sub_of_notLater hnow hbw hnb]
        omega
      · exact h.before ((hmem a).mpr (Or.inr ha)) ((hmem b).mpr (Or.inr hb)) (Ne.symm hba)
          (hfirst b hb)

/-- **`UpdateTimers` after any run** in which the order of the queue can be
relied on moves the due timers, and only those, in order. -/
theorem updateTimers_of_run {pri : ι → Int} {ops : List (Op ι)} {t : Session ι}
    (h : Run (guarded Session.Meets Session.Step) (Session.start pri) ops t) (timenow : UInt32)
    (sig : ι → SysCall) (hmeets : t.Meets (.updateTimers timenow sig)) :
    ∃ s' first delay moved, updateTimers sig timenow t.base = (s', .ok (first, delay)) ∧
      t.Updates timenow s' first delay moved := by
  have hgood : t.Good := h.invariant (Session.start_good pri) fun _ _ _ ha hstep =>
    Session.step_good ha hstep.1 hstep.2
  exact hgood.updates hmeets

/-- Three timers, the tick count rolls over, one is cancelled: at tick 3 the two
timers due at tick 1 are completed by priority, and the answer is 6 ticks. -/
theorem updateTimers_of_run_example :
    ∃ (t : Session Nat) (s' : CommonBase Nat) (moved : List Nat), t.added = [0, 1, 2] ∧
      updateTimers (fun _ => .ok) 3 t.base = (s', .ok (some 2, 6)) ∧ s'.iReadyQ.c = [1, 0] ∧
      s'.iExecTimerQ.c = [2] ∧ t.Updates 3 s' (some 2) 6 moved := by
  have hrun : Run (guarded Session.Meets Session.Step)
      (Session.start fun a : Nat => if a = 1 then 5 else 0)
      ([] ++ [.after 0 3 1 0xfffffffe] ++ [.after 3 1 1 0xffffffff] ++ [.after 1 2 1 0xffffffff] ++
        [.remove 3] ++ [.after 2 10 1 0xffffffff]) _ :=
    ((((Run.nil _).snoc ⟨by simp only [Session.Meets]; decide, rfl, nofun⟩).snoc
      ⟨by simp only [Session.Meets]; decide, rfl, nofun⟩).snoc
      ⟨by simp only [Session.Meets]; decide, rfl, nofun⟩).snoc
      ⟨by simp only [Session.Meets]; decide, rfl, nofun⟩ |>.snoc
      ⟨by simp only [Session.Meets]; decide, rfl, nofun⟩
  obtain ⟨s', first, delay, moved, hupdate, hspec⟩ :=
    updateTimers_of_run hrun 3 (fun _ => .ok) ⟨by decide, fun _ _ => rfl⟩
  obtain ⟨rfl, hanswer⟩ := Prod.mk.inj hupdate
  obtain ⟨rfl, rfl⟩ := Prod.mk.inj (Except.ok.inj hanswer)
  exact ⟨_, _, moved, rfl, hupdate, rfl, rfl, hspec⟩

/-- The scheduler with no timer pending and `n` timers added so far. -/
def Session.idle (n : UInt32) : Session Nat :=
  ⟨{ CommonBase.construct fun _ => 0 with iExecTimerQ := ⟨[], n⟩ }, []⟩

theorem Session.reach_idle (n : Nat) :
    ∃ ops, Run Session.Step (Session.start fun _ : Nat => 0) ops (Session.idle (UInt32.ofNat n)) := by
  induction n with
  | zero => exact ⟨[], Run.nil _⟩
  | succ n ih =>
    obtain ⟨ops, hrun⟩ := ih
    refine ⟨ops ++ [.after 0 0 1 0] ++ [.remove 0] ++ [.others (Session.idle
      (UInt32.ofNat (n + 1))).base], ((hrun.snoc ⟨rfl, by simp⟩).snoc ⟨rfl, by simp⟩).snoc ⟨rfl, ?_⟩⟩
    rintro base hbase
    obtain rfl := Op.others.inj hbase
    refine ⟨?_, nofun, fun a _ => nofun⟩
    rw [UInt32.ofNat_add]
    rfl

/-- Two ways out of order.  With timers at 10 and 20, a tick of `2 ^ 31 + 15`
makes the second one due while it stays behind the first, which is not.  After
`2 ^ 32 - 2` timers have been added, of two more that run at the same time the
one added later is completed first. -/
theorem updateTimers_fails :
    (∃ (t : Session Nat) (ops : List (Op Nat)) (s' : CommonBase Nat),
      Run Session.Step (Session.start fun _ => 0) ops t ∧
      updateTimers (fun _ => .ok) 0x8000000f t.base = (s', .ok (some 0, 0x7ffffffb)) ∧
      ¬ t.base.Due 0x8000000f 0 ∧ t.base.Due 0x8000000f 1 ∧ s'.iExecTimerQ.c = [0, 1]) ∧
    ∃ (t : Session Nat) (ops : List (Op Nat)) (s' : CommonBase Nat),
      Run Session.Step (Session.start fun _ => 0) ops t ∧ t.added = [0, 1] ∧ t.times = [5, 5] ∧
      updateTimers (fun _ => .ok) 5 t.base = (s', .ok (none, 0)) ∧
      (s'.ao 1).iSeqNum < (s'.ao 0).iSeqNum := by
  constructor
  · have hrun : Run Session.Step (Session.start fun _ : Nat => 0)
        ([] ++ [.after 0 10 1 0] ++ [.after 1 20 1 0]) _ :=
      ((Run.nil _).snoc ⟨rfl, by simp⟩).snoc ⟨rfl, by simp⟩
    exact ⟨_, _, _, hrun, rfl, by decide, by decide, rfl⟩
  · obtain ⟨ops, hreach⟩ := Session.reach_idle 0xfffffffe
    have hrun : Run Session.Step (Session.start fun _ : Nat => 0)
        (ops ++ [.after 0 5 1 0] ++ [.after 1 5 1 0]) _ :=
      (hreach.snoc ⟨rfl, by simp⟩).snoc ⟨rfl, by simp⟩
    exact ⟨_, _, _, hrun, rfl, rfl, rfl, by decide⟩

end Session

end Ftke.Scheduler
