import Ftke.PvmfSyncUtil
import Ftke.Run
import Ftke.Transfer
import Mathlib.Algebra.Order.Ring.Int

/-!
# Ftke.PvmfSyncUtil.HandOut

What becomes of the messages of the queue, and of the steps asked for.

* `Synchronizes`, `synchronizeData_spec` — what one call of `SynchronizeData` may do;
* `Session` — the queue with a log of its messages and a count of the frames stepped;
* `contract` — the messages are handed out once each and in order, no command is lost, and
  as many frames are released as steps were asked for;
* `front_and_eos` — a message queued at the front overtakes, and an EOS takes a step.
-/

namespace Ftke.PvmfSyncUtil

namespace DataQueue

/-! ## One call of SynchronizeData -/

/-- The steps asked for and not yet made. -/
def stepsLeft (s : DataQueue) : Nat := (s.iClockFrameCount - s.iSyncFrameCount).natAbs

/-- Is the release of `msg`, found to be `syncStatus`, left to the frame-step rules?  So are data and EOS; not
commands, nor an EOS that is late, nor what is skipped and rendered. -/
def byFrameStep (s : DataQueue) (msg : MediaMsg) (syncStatus : PvmfSyncStatus) : Bool :=
  s.frameStepMode &&
    match syncStatus with
    | .onTime => !msg.isMediaCmd || msg.isEOS
    | .early => !msg.isMediaCmd || msg.isEOS
    | .late => !msg.isMediaCmd
    | _ => false

/-- The clock is the same, and the count read from it. -/
structure SameClock (s t : DataQueue) : Prop where
  iClock : t.iClock = s.iClock
  iClockOwner : t.iClockOwner = s.iClockOwner
  iClockFrameCount : t.iClockFrameCount = s.iClockFrameCount

theorem SameClock.refl (s : DataQueue) : s.SameClock s := ⟨rfl, rfl, rfl⟩

theorem SameClock.trans {s t u : DataQueue} (h : s.SameClock t) (h' : t.SameClock u) : s.SameClock u :=
  ⟨h'.iClock.trans h.iClock, h'.iClockOwner.trans h.iClockOwner, h'.iClockFrameCount.trans h.iClockFrameCount⟩

variable {s t : DataQueue}

theorem SameClock.byFrameStep (h : s.SameClock t) (msg : MediaMsg) (v : PvmfSyncStatus) :
    t.byFrameStep msg v = s.byFrameStep msg v := by
  simp only [DataQueue.byFrameStep, frameStepMode, countTimebase, h.iClock, h.iClockOwner]

/-- The step that the release of `msg` takes, as 0 or 1. -/
def stepTaken (s : DataQueue) (msg : MediaMsg) (syncStatus : PvmfSyncStatus) : Nat :=
  if s.byFrameStep msg syncStatus then 1 else 0

/-- What a return with `status` and the queue `t` makes of the steps left. -/
def Steps (s t : DataQueue) (msg : MediaMsg) (v : PvmfSyncStatus) (status : PVMFStatus) : Prop :=
  if status = .success then t.stepsLeft + s.stepTaken msg v = s.stepsLeft else t.stepsLeft = s.stepsLeft

theorem frameStep_spec (s : DataQueue) (msg : MediaMsg) (clktime : UInt32) :
    let r := s.frameStep msg clktime
    r.2.1.iDataQueue = s.iDataQueue ∧ s.SameClock r.2.1 ∧ (r.1 = .success ∨ r.1 = .pending) ∧
      if r.1 = .success then
        r.2.1.stepsLeft + (if !msg.isMediaCmd || msg.isEOS then 1 else 0) = s.stepsLeft
      else r.2.1.stepsLeft = s.stepsLeft := by
  unfold frameStep
  split
  · next hcmd =>
    have hnot : (!msg.isMediaCmd || msg.isEOS) = false := by
      revert hcmd
      cases msg.isMediaCmd <;> cases msg.isEOS <;> simp
    simp [SameClock.refl, hnot]
  · next hcmd =>
    have hstep : (!msg.isMediaCmd || msg.isEOS) = true := by
      revert hcmd
      cases msg.isMediaCmd <;> cases msg.isEOS <;> simp
    split
    · next hne =>
      refine ⟨rfl, ⟨rfl, rfl, rfl⟩, Or.inl rfl, ?_⟩
      simp only [if_true, stepsLeft]
      split <;> omega
    · simp [SameClock.refl]

/-- What may be done with the message at the front: only data are erased, and a return keeps the queue. -/
def Front.Admissible (s : DataQueue) (msg : MediaMsg) (v : PvmfSyncStatus) : Front → Prop
  | .returned status t _ =>
    t.iDataQueue = s.iDataQueue ∧ s.SameClock t ∧ (status = .success ∨ status = .pending) ∧
      s.Steps t msg v status
  | .lateDropped => msg.isMediaCmd = false
  | .skipped => msg.isMediaCmd = false

theorem Front.returned_same {msg : MediaMsg} {v : PvmfSyncStatus} {status : PVMFStatus}
    {events : List Event} (hstatus : status = .success ∨ status = .pending)
    (hstep : status = .success → s.byFrameStep msg v = false) :
    Front.Admissible s msg v (.returned status s events) := by
  refine ⟨rfl, .refl s, hstatus, ?_⟩
  rw [Steps]
  split
  · next hs => simp [stepTaken, hstep hs]
  · rfl

theorem onSyncStatus_spec (s : DataQueue) (v : PvmfSyncStatus) (msg : MediaMsg) (ms clktime : UInt32) :
    (s.onSyncStatus v msg ms clktime).Admissible s msg v := by
  have hfs := s.frameStep_spec msg clktime
  have hcmd : msg.isEOS → msg.isMediaCmd := by
    simp only [MediaMsg.isEOS, MediaMsg.isMediaCmd, decide_eq_true_eq]
    intro h
    rw [h]
    decide
  unfold onSyncStatus
  cases v with
  | onTime =>
    simp only
    split
    · next hmode =>
      obtain ⟨hq, hc, hst, hsteps⟩ := hfs
      exact ⟨hq, hc, hst, by simpa [Steps, stepTaken, byFrameStep, hmode] using hsteps⟩
    · next hmode => exact Front.returned_same (Or.inl rfl) fun _ => by simp [byFrameStep, hmode]
  | early =>
    simp only
    split
    · next hout =>
      have hnot : (!msg.isMediaCmd || msg.isEOS) = false := by
        revert hout
        cases msg.isMediaCmd <;> cases msg.isEOS <;> simp
      exact Front.returned_same (Or.inl rfl) fun _ => by simp [byFrameStep, hnot]
    · split
      · next hmode =>
        obtain ⟨hq, hc, hst, hsteps⟩ := hfs
        exact ⟨hq, hc, hst, by simpa [Steps, stepTaken, byFrameStep, hmode] using hsteps⟩
      · exact Front.returned_same (Or.inr rfl) fun h => by simp at h
  | late =>
    simp only
    split
    · next hout => exact Front.returned_same (Or.inl rfl) fun _ => by simp [byFrameStep, hout]
    · next hdata =>
      split
      · simpa [Front.Admissible] using hdata
      · split
        · next hmode =>
          obtain ⟨hq, hc, hst, hsteps⟩ := hfs
          have heos : msg.isEOS = false := by
            by_contra h
            exact hdata (hcmd (by simpa using h))
          exact ⟨hq, hc, hst, by simpa [Steps, stepTaken, byFrameStep, hmode, heos] using hsteps⟩
        · next hmode => exact Front.returned_same (Or.inl rfl) fun _ => by simp [byFrameStep, hmode]
  | skipped =>
    simp only
    split
    · exact Front.returned_same (Or.inl rfl) fun _ => by simp [byFrameStep]
    · next hdata => simpa [Front.Admissible] using hdata
  | skippedRender =>
    refine ⟨rfl, ⟨rfl, rfl, rfl⟩, Or.inl rfl, ?_⟩
    simp [Steps, stepTaken, byFrameStep, stepsLeft]
  | skipComplete => exact Front.returned_same (Or.inr rfl) fun h => by simp at h

/-- What a call of `SynchronizeData` with `msgs` in the queue may do: it erases data, never a command, from the
front; it returns success if what is then at the front is due, and takes a step for it only then. -/
structure Synchronizes (s : DataQueue) (msgs : List MediaMsg) (r : Synchronized) : Prop where
  erased : ∃ gone, msgs = gone ++ r.s.iDataQueue ∧ ∀ msg ∈ gone, msg.isMediaCmd = false
  clock : s.SameClock r.s
  memory : r.status ≠ .errNoMemory
  due : r.status = .success → ∃ msg rest v, r.s.iDataQueue = msg :: rest ∧ r.syncStatus = some v ∧
    r.s.stepsLeft + s.stepTaken msg v = s.stepsLeft
  waits : r.status ≠ .success → r.s.stepsLeft = s.stepsLeft

theorem Synchronizes.erase {msg : MediaMsg} {msgs : List MediaMsg} {r : Synchronized}
    (h : t.Synchronizes msgs r) (hclock : s.SameClock t) (hsync : t.iSyncFrameCount = s.iSyncFrameCount)
    (hmsg : msg.isMediaCmd = false) : s.Synchronizes (msg :: msgs) r where
  erased := by
    obtain ⟨gone, hgone, hdata⟩ := h.erased
    exact ⟨msg :: gone, by rw [hgone, List.cons_append], List.forall_mem_cons.mpr ⟨hmsg, hdata⟩⟩
  clock := hclock.trans h.clock
  memory := h.memory
  due := by
    intro hst
    obtain ⟨front, rest, v, hq, hv, hsteps⟩ := h.due hst
    refine ⟨front, rest, v, hq, hv, ?_⟩
    rw [stepTaken, hclock.byFrameStep] at hsteps
    rw [stepTaken, hsteps, stepsLeft, stepsLeft, hclock.iClockFrameCount, hsync]
  waits := by
    intro hst
    rw [h.waits hst, stepsLeft, stepsLeft, hclock.iClockFrameCount, hsync]

theorem synchronizeLoop_spec (time : Nat → UInt32) : ∀ (msgs : List MediaMsg) (s : DataQueue) (counts : Counts)
    (ms : UInt32) (i : Nat), s.Synchronizes msgs (s.synchronizeLoop time counts ms i msgs)
  | [], s, counts, ms, i => by
    refine ⟨⟨[], by simp [synchronizeLoop]⟩, ⟨rfl, rfl, rfl⟩, ?_, ?_, fun _ => rfl⟩
    · simp [synchronizeLoop]
    · simp [synchronizeLoop]
  | msg :: msgs, s, counts, ms, i => by
    simp only [synchronizeLoop]
    have hfront := onSyncStatus_spec
      { s with
        iSyncUtil := (s.iSyncUtil.syncMediaData (time i) msg.timestamp (s.syncDuration msg) ms).2.2
        iDataQueue := msg :: msgs }
      (s.iSyncUtil.syncMediaData (time i) msg.timestamp (s.syncDuration msg) ms).1 msg
      (s.iSyncUtil.syncMediaData (time i) msg.timestamp (s.syncDuration msg) ms).2.1 (time (i + 1))
    split
    · next status t events heq =>
      rw [heq] at hfront
      obtain ⟨hq, hclock, hstatus, hsteps⟩ := hfront
      refine ⟨⟨[], by simp [hq]⟩, ⟨hclock.iClock, hclock.iClockOwner, hclock.iClockFrameCount⟩, ?_, ?_, ?_⟩
      · rintro rfl
        simp at hstatus
      · intro hsuccess
        rw [Steps, if_pos hsuccess] at hsteps
        exact ⟨msg, msgs, _, hq, rfl, hsteps⟩
      · intro hwait
        rw [Steps, if_neg hwait] at hsteps
        exact hsteps
    · next heq =>
      rw [heq] at hfront
      exact (synchronizeLoop_spec time msgs _ _ _ _).erase ⟨rfl, rfl, rfl⟩ rfl hfront
    · next heq =>
      rw [heq] at hfront
      exact (synchronizeLoop_spec time msgs _ _ _ _).erase ⟨rfl, rfl, rfl⟩ rfl hfront

theorem synchronizeData_spec (s : DataQueue) (time : Nat → UInt32) (counts : Counts) :
    s.Synchronizes s.iDataQueue (s.synchronizeData time counts) :=
  synchronizeLoop_spec time s.iDataQueue s counts 0 0

theorem Synchronizes.stepsLeft_of_none {msgs : List MediaMsg} {r : Synchronized}
    (h : s.Synchronizes msgs r) (hnone : s.stepsLeft = 0 ∨ s.frameStepMode = false) :
    r.s.stepsLeft = s.stepsLeft := by
  by_cases hst : r.status = .success
  · obtain ⟨msg, rest, v, -, -, hsteps⟩ := h.due hst
    obtain hzero | hmode := hnone
    · omega
    · simpa [stepTaken, byFrameStep, hmode] using hsteps
  · exact h.waits hst

/-! ## One call of QueueMediaData or DequeueMediaData -/

theorem queueMediaData_s (s : DataQueue) (msg : MediaMsg) (aFront : Bool) (time : Nat → UInt32) (counts : Counts) :
    (s.queueMediaData msg aFront true time counts).s =
      if (s.queued msg aFront).length = 1 then
        ({ s with iDataQueue := s.queued msg aFront }.synchronizeData time counts).s
      else { s with iDataQueue := s.queued msg aFront } := by
  simp only [queueMediaData, Bool.not_true, Bool.false_eq_true, if_false]
  split
  · split <;> rfl
  · rfl

theorem queueMediaData_spec (s : DataQueue) (msg : MediaMsg) (aFront : Bool) (time : Nat → UInt32) (counts : Counts) :
    let t := (s.queueMediaData msg aFront true time counts).s
    (∃ gone, s.queued msg aFront = gone ++ t.iDataQueue ∧ ∀ m ∈ gone, m.isMediaCmd = false) ∧ s.SameClock t ∧
      (s.iDataQueue ≠ [] ∨ s.stepsLeft = 0 ∨ s.frameStepMode = false → t.stepsLeft = s.stepsLeft) := by
  have hsync := synchronizeData_spec { s with iDataQueue := s.queued msg aFront } time counts
  have hlen : (s.queued msg aFront).length = s.iDataQueue.length + 1 := by
    unfold queued
    split <;> simp
  simp only [queueMediaData_s]
  split
  · next hone =>
    have hempty : s.iDataQueue = [] := List.eq_nil_of_length_eq_zero (by omega)
    refine ⟨hsync.erased, ⟨hsync.clock.iClock, hsync.clock.iClockOwner, hsync.clock.iClockFrameCount⟩, ?_⟩
    rintro (hne | hnone)
    · exact absurd hempty hne
    · exact hsync.stepsLeft_of_none hnone
  · exact ⟨⟨[], rfl, by simp⟩, ⟨rfl, rfl, rfl⟩, fun _ => rfl⟩

/-- The steps that a call of `DequeueMediaData` takes for what it hands out. -/
def stepsOf (s : DataQueue) (r : Synchronized × Option MediaMsg) : Nat :=
  match r.2, r.1.syncStatus with
  | some msg, some v => s.stepTaken msg v
  | _, _ => 0

theorem dequeueMediaData_spec (s : DataQueue) (time : Nat → UInt32) (counts : Counts) :
    let r := s.dequeueMediaData time counts
    (∃ gone, s.iDataQueue = gone ++ (r.2.toList ++ r.1.s.iDataQueue) ∧ ∀ m ∈ gone, m.isMediaCmd = false) ∧
      s.SameClock r.1.s ∧ r.1.s.stepsLeft + s.stepsOf r = s.stepsLeft := by
  have hsync := s.synchronizeData_spec time counts
  obtain ⟨gone, hgone, hdata⟩ := hsync.erased
  simp only [dequeueMediaData]
  split
  · next hst =>
    obtain ⟨msg, rest, v, hq, hv, hsteps⟩ := hsync.due hst
    refine ⟨⟨gone, ?_, hdata⟩, ⟨hsync.clock.iClock, hsync.clock.iClockOwner, hsync.clock.iClockFrameCount⟩, ?_⟩
    · simpa [hq] using hgone
    · simpa only [stepsOf, hq, List.head?_cons, hv, stepsLeft] using hsteps
  · next hst =>
    refine ⟨⟨gone, by simpa using hgone, hdata⟩, hsync.clock, ?_⟩
    simpa [stepsOf] using hsync.waits (by simp [hst])
  · next hst _ =>
    refine ⟨⟨gone, by simpa using hgone, hdata⟩, hsync.clock, ?_⟩
    simpa [stepsOf] using hsync.waits hst

end DataQueue

/-! ## Sessions -/

open DataQueue

/-- The messages that left the front of a queue: `before` and `after` a call. -/
def leftFront (before after : List MediaMsg) : List MediaMsg := before.take (before.length - after.length)

theorem leftFront_append (gone rest : List MediaMsg) : leftFront (gone ++ rest) rest = gone := by
  simp [leftFront]

/-- The queue, with what has become of its messages, the steps asked for by setting the count, and the
messages that the frame-step rules let go. -/
structure Session where
  queue : DataQueue
  log : Log MediaMsg
  stepsAsked : Nat
  framesStepped : Nat

namespace Session

def start : Session := ⟨.new, .empty, 0, 0⟩

/-- A call. -/
def handle (s : Session) (c : Call) : Session :=
  let queue := s.queue.handle c
  match c with
  | .queueMediaData msg aFront true _ _ _ =>
    { s with
      queue := queue
      log := (s.log.accept msg).discard (leftFront (s.queue.queued msg aFront) queue.iDataQueue) }
  | .dequeueMediaData aDropped aSkipped time =>
    let r := s.queue.dequeueMediaData time (.zero aDropped aSkipped)
    { s with
      queue := queue
      log := (s.log.discard (leftFront s.queue.iDataQueue (r.2.toList ++ queue.iDataQueue))).dequeue r.2.toList
      framesStepped := s.framesStepped + s.queue.stepsOf r }
  | .clear =>
    { s with
      queue := queue
      log := s.log.clear s.queue.iDataQueue }
  | .countUpdated count =>
    { s with
      queue := queue
      stepsAsked := s.stepsAsked +
        if s.queue.countTimebase.isSome then (count - s.queue.iClockFrameCount).natAbs else 0 }
  | _ => { s with queue := queue }

/-- A call is always possible. -/
def call (s : Session) (c : Call) : Option Session := some (s.handle c)

def after (s : Session) (calls : List Call) : Session := calls.foldl handle s

/-- Of the messages in `P` those handed out, and after them those waiting, are accepted ones in their order. -/
def InOrder (P : MediaMsg → Bool) (s : Session) : Prop :=
  ((s.log.dequeued ++ s.queue.iDataQueue).filter P).Sublist (s.log.accepted.filter P)

/-- Each message accepted is waiting, handed out, cleared or dropped, once; none dropped is a command. -/
structure Accounted (s : Session) : Prop where
  all : (s.log.dequeued ++ s.queue.iDataQueue ++ s.log.cleared ++ s.log.discarded).Perm s.log.accepted
  data : ∀ msg ∈ s.log.discarded, msg.isMediaCmd = false

/-- The call queues no message of `P` at the front. -/
def QueuesBehind (P : MediaMsg → Bool) : Call → Prop
  | .queueMediaData msg aFront _ _ _ _ => aFront = true → P msg = false
  | _ => True

/-- How a call changes the queue and the log: it queues a message, hands one out, clears the queue, or leaves
all messages where they are. -/
theorem handle_cases (s : Session) (c : Call) :
    (∃ msg aFront gone, (s.handle c).log = (s.log.accept msg).discard gone ∧
      s.queue.queued msg aFront = gone ++ (s.handle c).queue.iDataQueue ∧ (∀ m ∈ gone, m.isMediaCmd = false) ∧
      ∀ P, QueuesBehind P c → aFront = true → P msg = false) ∨
    (∃ handed gone, (s.handle c).log = (s.log.discard gone).dequeue handed ∧
      s.queue.iDataQueue = gone ++ (handed ++ (s.handle c).queue.iDataQueue) ∧ ∀ m ∈ gone, m.isMediaCmd = false) ∨
    ((s.handle c).log = s.log.clear s.queue.iDataQueue ∧ (s.handle c).queue.iDataQueue = []) ∨
    ((s.handle c).log = s.log ∧ (s.handle c).queue.iDataQueue = s.queue.iDataQueue) := by
  cases c with
  | queueMediaData msg aFront memory aDropped aSkipped time =>
    cases memory with
    | false => exact Or.inr (Or.inr (Or.inr ⟨rfl, rfl⟩))
    | true =>
      obtain ⟨⟨gone, hgone, hdata⟩, -, -⟩ := s.queue.queueMediaData_spec msg aFront time (.zero aDropped aSkipped)
      refine Or.inl ⟨msg, aFront, gone, ?_, hgone, hdata, fun P hP => hP⟩
      simp only [handle, DataQueue.handle]
      rw [hgone, leftFront_append]
  | dequeueMediaData aDropped aSkipped time =>
    obtain ⟨⟨gone, hgone, hdata⟩, -, -⟩ := s.queue.dequeueMediaData_spec time (.zero aDropped aSkipped)
    refine Or.inr (Or.inl
      ⟨(s.queue.dequeueMediaData time (.zero aDropped aSkipped)).2.toList, gone, ?_, hgone, hdata⟩)
    simp only [handle, DataQueue.handle]
    rw [hgone, leftFront_append]
  | clear => exact Or.inr (Or.inr (Or.inl ⟨rfl, rfl⟩))
  | skipMediaData => exact Or.inr (Or.inr (Or.inr ⟨rfl, rfl⟩))
  | cancelSkipMediaData => exact Or.inr (Or.inr (Or.inr ⟨rfl, rfl⟩))
  | setLateFrameDropMode => exact Or.inr (Or.inr (Or.inr ⟨rfl, rfl⟩))
  | setMargins => exact Or.inr (Or.inr (Or.inr ⟨rfl, rfl⟩))
  | setClock aClock => exact Or.inr (Or.inr (Or.inr ⟨rfl, by cases aClock <;> rfl⟩))
  | setClockForFrameStep aClock => exact Or.inr (Or.inr (Or.inr ⟨rfl, by cases aClock <;> rfl⟩))
  | timebaseUpdated countTimebase =>
    refine Or.inr (Or.inr (Or.inr ⟨rfl, ?_⟩))
    simp only [handle, DataQueue.handle, clockTimebaseUpdated]
    split <;> rfl
  | countUpdated count =>
    refine Or.inr (Or.inr (Or.inr ⟨rfl, ?_⟩))
    simp only [handle, DataQueue.handle, clockCountUpdated]
    split <;> rfl

/-! ### Order -/

variable {s : Session}

theorem InOrder.handle {P : MediaMsg → Bool} (h : s.InOrder P) {c : Call} (hc : QueuesBehind P c) :
    (s.handle c).InOrder P := by
  unfold InOrder at *
  obtain ⟨msg, aFront, gone, hlog, hq, -, hfront⟩ | ⟨handed, gone, hlog, hq, -⟩ |
    ⟨hlog, hq⟩ | ⟨hlog, hq⟩ := s.handle_cases c
  · have hdrop : ((s.log.dequeued ++ (s.handle c).queue.iDataQueue).filter P).Sublist
        ((s.log.dequeued ++ s.queue.queued msg aFront).filter P) := by
      rw [hq]
      exact ((List.sublist_append_right gone _).append_left _).filter P
    have hqueued : ((s.log.dequeued ++ s.queue.queued msg aFront).filter P).Sublist
        ((s.log.accepted ++ [msg]).filter P) := by
      cases aFront with
      | true =>
        have hP := hfront P hc rfl
        simpa [queued, hP] using h
      | false =>
        simp only [queued, Bool.false_eq_true, if_false]
        rw [← List.append_assoc, List.filter_append, List.filter_append s.log.accepted]
        exact h.append (List.Sublist.refl _)
    rw [hlog]
    exact hdrop.trans hqueued
  · rw [hlog]
    rw [hq] at h
    refine List.Sublist.trans ?_ h
    simp only [Log.dequeue, Log.discard, List.append_assoc]
    exact ((List.sublist_append_right gone _).append_left _).filter P
  · rw [hlog, hq]
    refine List.Sublist.trans ?_ h
    exact ((List.nil_sublist _).append_left _).filter P
  · rwa [hlog, hq]

/-! ### Accounts -/

theorem Accounted.handle (h : s.Accounted) (c : Call) : (s.handle c).Accounted := by
  have hcount := List.perm_iff_count.mp h.all
  obtain ⟨msg, aFront, gone, hlog, hq, hdata, -⟩ | ⟨handed, gone, hlog, hq, hdata⟩ |
    ⟨hlog, hq⟩ | ⟨hlog, hq⟩ := s.handle_cases c
  · refine ⟨List.perm_iff_count.mpr fun m => ?_, ?_⟩
    · have hm := hcount m
      have hqueued : (s.queue.queued msg aFront).count m = s.queue.iDataQueue.count m + [msg].count m := by
        unfold queued
        split <;> simp [List.count_cons]
      rw [hq, List.count_append] at hqueued
      simp only [hlog, Log.accept, Log.discard, List.count_append] at hm ⊢
      omega
    · rw [hlog]
      exact fun m hm => (List.mem_append.mp hm).elim (h.data m) (hdata m)
  · refine ⟨List.perm_iff_count.mpr fun m => ?_, ?_⟩
    · have hm := hcount m
      rw [hq] at hm
      simp only [hlog, Log.dequeue, Log.discard, List.count_append] at hm ⊢
      omega
    · rw [hlog]
      exact fun m hm => (List.mem_append.mp hm).elim (h.data m) (hdata m)
  · refine ⟨List.perm_iff_count.mpr fun m => ?_, by rw [hlog]; exact h.data⟩
    have hm := hcount m
    simp only [hlog, hq, Log.clear, List.count_append, List.count_nil] at hm ⊢
    omega
  · refine ⟨?_, by rw [hlog]; exact h.data⟩
    rw [hlog, hq]
    exact h.all

/-! ### Steps -/

/-- As many frames were released by the frame-step rules as steps were asked for, but for those not made yet. -/
def CountsSteps (s : Session) : Prop := s.framesStepped + s.queue.stepsLeft = s.stepsAsked

/-- While steps are left, nothing is queued to an empty queue in frame-step mode, the clock and its timebase stay,
and the count moves on in its direction. -/
def LetsStep (s : Session) : Call → Prop
  | .queueMediaData _ _ _ _ _ _ =>
    s.queue.iDataQueue ≠ [] ∨ s.queue.stepsLeft = 0 ∨ s.queue.frameStepMode = false
  | .setClock _ => s.queue.stepsLeft = 0
  | .setClockForFrameStep _ => s.queue.stepsLeft = 0
  | .timebaseUpdated _ => s.queue.stepsLeft = 0
  | .countUpdated count =>
    s.queue.iSyncFrameCount ≤ s.queue.iClockFrameCount ∧ s.queue.iClockFrameCount ≤ count ∨
      count ≤ s.queue.iClockFrameCount ∧ s.queue.iClockFrameCount ≤ s.queue.iSyncFrameCount
  | _ => True

theorem stepsLeft_clockTimebaseUpdated {q : DataQueue} (h : q.stepsLeft = 0) :
    q.clockTimebaseUpdated.1.stepsLeft = 0 := by
  simp only [clockTimebaseUpdated]
  split
  · exact h
  · next clock _ =>
    cases hcount : clock.countTimebase with
    | none => simpa [passClockToSyncUtil, stepsLeft] using h
    | some count => simp [passClockToSyncUtil, stepsLeft]

theorem stepsLeft_doSetClock {q : DataQueue} (h : q.stepsLeft = 0) (aClock : Option Clock) (aSyncAlways : Bool) :
    (q.doSetClock aClock aSyncAlways).1.stepsLeft = 0 :=
  stepsLeft_clockTimebaseUpdated (q := { q with iClock := aClock }) h

theorem countTimebase_setCount (clock : Option Clock) (count : Int) :
    (clock.map fun clock : Clock => (⟨clock.countTimebase.map fun _ => count⟩ : Clock)).bind Clock.countTimebase =
      (clock.bind Clock.countTimebase).map fun _ => count := by
  cases clock <;> rfl

theorem handle_countUpdated (q : DataQueue) (count : Int) :
    (q.handle (.countUpdated count)).iSyncFrameCount = q.iSyncFrameCount ∧
      (q.handle (.countUpdated count)).iClockFrameCount =
        if q.countTimebase.isSome then count else q.iClockFrameCount := by
  have hset := countTimebase_setCount q.iClock count
  simp only [DataQueue.handle, clockCountUpdated]
  split
  · next hnone =>
    rw [DataQueue.countTimebase, hset, Option.map_eq_none_iff] at hnone
    simp [DataQueue.countTimebase, hnone]
  · next read hsome =>
    rw [DataQueue.countTimebase, hset, Option.map_eq_some_iff] at hsome
    obtain ⟨old, hold, hread⟩ := hsome
    simp [DataQueue.countTimebase, hold, hread]

theorem CountsSteps.handle (h : s.CountsSteps) {c : Call} (hc : s.LetsStep c) :
    (s.handle c).CountsSteps := by
  unfold CountsSteps at *
  cases c with
  | queueMediaData msg aFront memory aDropped aSkipped time =>
    cases memory with
    | false => exact h
    | true =>
      obtain ⟨-, -, hleft⟩ := s.queue.queueMediaData_spec msg aFront time (.zero aDropped aSkipped)
      exact (congrArg (s.framesStepped + ·) (hleft hc)).trans h
  | dequeueMediaData aDropped aSkipped time =>
    obtain ⟨-, -, hleft⟩ := s.queue.dequeueMediaData_spec time (.zero aDropped aSkipped)
    simp only [Session.handle, DataQueue.handle]
    omega
  | clear =>
    have hclear : s.queue.clear.stepsLeft = s.queue.stepsLeft := by
      simp only [DataQueue.clear, logDiagnostics]
      split <;> rfl
    exact (congrArg (s.framesStepped + ·) hclear).trans h
  | skipMediaData => exact h
  | cancelSkipMediaData => exact h
  | setLateFrameDropMode => exact h
  | setMargins => exact h
  | setClock aClock =>
    have hzero := stepsLeft_doSetClock hc aClock true
    exact (congrArg (s.framesStepped + ·) (hzero.trans hc.symm)).trans h
  | setClockForFrameStep aClock =>
    have hzero := stepsLeft_doSetClock hc aClock false
    exact (congrArg (s.framesStepped + ·) (hzero.trans hc.symm)).trans h
  | timebaseUpdated countTimebase =>
    have hzero := stepsLeft_clockTimebaseUpdated
      (q := { s.queue with iClock := s.queue.iClock.map fun _ => ⟨countTimebase⟩ }) hc
    exact (congrArg (s.framesStepped + ·) (hzero.trans hc.symm)).trans h
  | countUpdated count =>
    obtain ⟨hsync, hclock⟩ := handle_countUpdated s.queue count
    simp only [LetsStep] at hc
    simp only [stepsLeft] at h ⊢
    simp only [Session.handle, hsync, hclock]
    split <;> omega

/-! ### Commands -/

theorem onSyncStatus_cmd (q : DataQueue) {msg : MediaMsg} (hcmd : msg.isMediaCmd) (heos : msg.isEOS = false)
    {v : PvmfSyncStatus} (hv : v ≠ .skipComplete) (ms clktime : UInt32) :
    ∃ t events, q.onSyncStatus v msg ms clktime = .returned .success t events ∧ t.iDataQueue = q.iDataQueue := by
  have hstep : q.frameStep msg clktime = (.success, q, []) := by simp [frameStep, hcmd, heos]
  cases v with
  | onTime => exact ⟨q, [], by simp [onSyncStatus, hstep], rfl⟩
  | early => exact ⟨q, [], by simp [onSyncStatus, hcmd, heos], rfl⟩
  | late => exact ⟨q, [], by simp [onSyncStatus, hcmd], rfl⟩
  | skipped => exact ⟨q, [], by simp [onSyncStatus, hcmd], rfl⟩
  | skippedRender => exact ⟨_, _, rfl, rfl⟩
  | skipComplete => exact absurd rfl hv

theorem syncMediaData_skipComplete {u : SyncUtil} {now ts dur ms : UInt32}
    (h : (u.syncMediaData now ts dur ms).1 = .skipComplete) :
    u.iSkipMediaData = true ∧ (u.syncMediaData now ts dur ms).2.2.iSkipMediaData = false := by
  simp only [SyncUtil.syncMediaData] at h ⊢
  generalize (if ts = 0xFFFFFFFF then 0 else ts) = aDataTimestamp at h ⊢
  by_cases hskip : u.iSkipMediaData = true
  · refine ⟨hskip, ?_⟩
    simp only [hskip, if_true] at h ⊢
    split at h
    · next hdone => simp [hdone, SyncUtil.cancelSkipMediaData]
    · split at h <;> simp at h
  · simp only [hskip, Bool.false_eq_true, if_false] at h
    repeat' split at h
    all_goals simp at h

/-- A command that does not end the stream leaves the front of the queue at the next call of `DequeueMediaData`, if
this does not end a skip. -/
theorem dequeueMediaData_cmd (q : DataQueue) (time : Nat → UInt32) (counts : Counts) {msg : MediaMsg}
    {rest : List MediaMsg} (hq : q.iDataQueue = msg :: rest) (hcmd : msg.isMediaCmd) (heos : msg.isEOS = false) :
    (q.dequeueMediaData time counts).2 = some msg ∨
      q.iSyncUtil.iSkipMediaData = true ∧ (q.dequeueMediaData time counts).1.s.iSyncUtil.iSkipMediaData = false ∧
        (q.dequeueMediaData time counts).1.s.iDataQueue = msg :: rest := by
  have hloop : q.synchronizeData time counts = q.synchronizeLoop time counts 0 0 (msg :: rest) := by
    rw [synchronizeData, hq]
  simp only [synchronizeLoop] at hloop
  by_cases hv : (q.iSyncUtil.syncMediaData (time 0) msg.timestamp (q.syncDuration msg) 0).1 = .skipComplete
  · obtain ⟨hskip, hdone⟩ := syncMediaData_skipComplete hv
    simp only [hv, onSyncStatus] at hloop
    right
    simp only [dequeueMediaData, hloop]
    exact ⟨hskip, hdone, trivial⟩
  · obtain ⟨t, events, hret, htq⟩ := onSyncStatus_cmd
      { q with
        iSyncUtil := (q.iSyncUtil.syncMediaData (time 0) msg.timestamp (q.syncDuration msg) 0).2.2
        iDataQueue := msg :: rest } hcmd heos hv
      (q.iSyncUtil.syncMediaData (time 0) msg.timestamp (q.syncDuration msg) 0).2.1 (time (0 + 1))
    simp only [hret] at hloop
    left
    simp only [dequeueMediaData, hloop, htq, List.head?_cons]

/-! ### Runs -/

theorem accounted_after : ∀ (calls : List Call) {s : Session}, s.Accounted → (s.after calls).Accounted
  | [], _, h => h
  | c :: calls, s, h => by
    have hafter : ((s.handle c).after calls).Accounted := accounted_after calls (h.handle c)
    exact hafter

theorem inOrder_after {P : MediaMsg → Bool} : ∀ (calls : List Call) {s : Session}, s.InOrder P →
    (∀ c ∈ calls, QueuesBehind P c) → (s.after calls).InOrder P
  | [], _, h, _ => h
  | c :: calls, s, h, hcalls => by
    have hafter : ((s.handle c).after calls).InOrder P :=
      inOrder_after calls (h.handle (hcalls c (by simp))) fun d hd => hcalls d (by simp [hd])
    exact hafter

theorem countsSteps_after : ∀ (calls : List Call) {s : Session}, s.CountsSteps →
    AtEach call LetsStep s calls → (s.after calls).CountsSteps
  | [], _, h, _ => h
  | c :: calls, s, h, hcalls => by
    obtain ⟨hc, hrest⟩ := hcalls (s.handle c) rfl
    have hafter : ((s.handle c).after calls).CountsSteps := countsSteps_after calls (h.handle hc) hrest
    exact hafter

/-- **What the queue hands out**: after any calls, each message accepted is waiting, handed out, cleared or
dropped, once, and no command is dropped; those handed out are, like those waiting after them, in the order in
which they were accepted, as far as they are never queued at the front; as many are released by the
frame-step rules as steps were asked for, but for those still to be made; and a command at the front that does not
end the stream is handed out by the next call that does not end a skip. -/
theorem contract (calls : List Call) :
    (start.after calls).Accounted ∧
      (∀ P, (∀ c ∈ calls, QueuesBehind P c) → (start.after calls).InOrder P) ∧
      (AtEach call LetsStep start calls → (start.after calls).CountsSteps) ∧
      ∀ msg rest time counts, (start.after calls).queue.iDataQueue = msg :: rest → msg.isMediaCmd →
        msg.isEOS = false →
        let r := (start.after calls).queue.dequeueMediaData time counts
        r.2 = some msg ∨ (start.after calls).queue.iSyncUtil.iSkipMediaData = true ∧
          r.1.s.iSyncUtil.iSkipMediaData = false ∧ r.1.s.iDataQueue = msg :: rest := by
  refine ⟨accounted_after calls ⟨List.Perm.refl _, by simp [start, Log.empty]⟩, ?_, ?_, ?_⟩
  · intro P hcalls
    exact inOrder_after calls (List.Sublist.refl _) hcalls
  · exact countsSteps_after calls rfl
  · intro msg rest time counts hq hcmd heos
    exact dequeueMediaData_cmd _ time counts hq hcmd heos

/-- Two frames, an EOS, and a clock that always shows 0. -/
def frame (object : Nat) : MediaMsg := ⟨object, 0, 0, 0, 0⟩

def eos : MediaMsg := ⟨0, 0x101, 0, 0, 0⟩

def atZero : Nat → UInt32 := fun _ => 0

/-- Two frames wait while two steps are asked for. -/
def steppedTwice : List Call :=
  [.setClock (some ⟨some 0⟩), .queueMediaData (frame 1) false true true true atZero,
    .queueMediaData (frame 2) false true true true atZero, .countUpdated 2,
    .dequeueMediaData true true atZero, .dequeueMediaData true true atZero]

theorem atEach_cons {c : Call} {calls : List Call} (hc : s.LetsStep c)
    (hcalls : AtEach call LetsStep (s.handle c) calls) : AtEach call LetsStep s (c :: calls) := by
  intro t ht
  cases ht
  exact ⟨hc, hcalls⟩

theorem contract_steppedTwice :
    (start.after steppedTwice).CountsSteps ∧ (start.after steppedTwice).framesStepped = 2 ∧
      (start.after steppedTwice).log.dequeued = [frame 1, frame 2] := by
  refine ⟨(contract steppedTwice).2.2.1 ?_, by decide, by decide⟩
  exact atEach_cons rfl <| atEach_cons (Or.inr (Or.inl rfl)) <| atEach_cons (Or.inr (Or.inl rfl)) <|
    atEach_cons (Or.inl ⟨by decide, by decide⟩) <| atEach_cons trivial <| atEach_cons trivial trivial

/-- **What a front and an EOS do**: a frame queued at the front is handed out before the one that waits; and where
an EOS waits, the step asked for is taken by it, so that no frame is released. -/
theorem front_and_eos :
    let overtaken := start.after
      [.queueMediaData (frame 1) false true true true atZero, .queueMediaData (frame 2) true true true true atZero,
        .dequeueMediaData true true atZero, .dequeueMediaData true true atZero]
    let ended := start.after
      [.setClock (some ⟨some 0⟩), .queueMediaData eos false true true true atZero,
        .queueMediaData (frame 1) false true true true atZero, .countUpdated 1,
        .dequeueMediaData true true atZero, .dequeueMediaData true true atZero]
    ¬ overtaken.log.dequeued.Sublist overtaken.log.accepted ∧
      ended.stepsAsked = 1 ∧ ended.queue.stepsLeft = 0 ∧ ended.log.dequeued = [eos] := by
  decide

end Session

end Ftke.PvmfSyncUtil
