import Ftke.Links
import Ftke.PriQueue.Sound
import Mathlib.Algebra.Ring.Nat
import Mathlib.Logic.Function.Basic

/-!
# Ftke.Scheduler

The queues of `OsclExecSchedulerCommonBase` (`oscl_scheduler.cpp`,
`oscl_scheduler_readyq.h`, `oscl_scheduler_readyq.cpp`): the ready queue with
its request semaphore, and the queue of pending timers.

Active objects are named by `ι`, and `ao` is the memory they live in.  A
function that takes `iCrit` for its whole body is one Lean function; one that
waits or signals outside the lock is cut at those points, so that its parts can
be interleaved with what other threads do (`Ftke.Scheduler.ReadyQ`).

`OSCL_LEAVE` is `Except.error`; a function that leaves has still changed the
state it had changed before.
-/

namespace Ftke.Scheduler

open PriQueue

variable {ι : Type*}

/-! ## Data -/

def OSCL_REQUEST_ERR_NONE : Int := 0
def OSCL_REQUEST_PENDING : Int := -0x7fffffff
def OSCL_REQUEST_ERR_CANCEL : Int := -1

def OsclErrNone : Int := 0
def OsclErrCorrupt : Int := 109
def OsclErrInvalidState : Int := 113
def OsclErrSystemCallFailed : Int := 117

/-- `iTimeCompareThreshold`, `2 ^ 31 - 1`. -/
def iTimeCompareThreshold : UInt32 := 0x7fffffff

/-- The queues `iIsIn` can point to. -/
inductive QueueId
  | ready
  | timer
  deriving DecidableEq, Repr

/-- `PVActiveBase` with its queue link `iPVReadyQLink`. -/
structure ActiveBase where
  iBusy : Bool
  iStatus : Int
  iAOPriority : Int
  iTimeToRunTicks : UInt32
  iSeqNum : UInt32
  iIsIn : Option QueueId
  deriving DecidableEq, Repr

/-- The calls a registered `OsclSchedulerObserver` gets. -/
inductive ObserverCall
  | OsclSchedulerReadyCallback
  | OsclSchedulerTimerCallback (aDelayMsec : UInt32)
  deriving DecidableEq, Repr

/-- `OsclReadyQ`: the vector, the semaphore's count, the sequence counter and
whether an observer is registered. -/
structure OsclReadyQ (ι : Type*) where
  c : List ι
  iSem : Nat
  iSeqNumCounter : UInt32
  iCallback : Bool

/-- `OsclTimerQ`. -/
structure OsclTimerQ (ι : Type*) where
  c : List ι
  iSeqNumCounter : UInt32

/-- `OsclExecSchedulerCommonBase`: the queues, the active objects, and the calls made to observers. -/
structure CommonBase (ι : Type*) where
  ao : ι → ActiveBase
  iReadyQ : OsclReadyQ ι
  iExecTimerQ : OsclTimerQ ι
  observed : List ObserverCall

/-- The vector of a queue. -/
def CommonBase.vec (s : CommonBase ι) : QueueId → List ι
  | .ready => s.iReadyQ.c
  | .timer => s.iExecTimerQ.c

/-- The link of an active object. -/
def CommonBase.isIn (s : CommonBase ι) (a : ι) : Option QueueId := (s.ao a).iIsIn

/-- `IsInAnyQ`. -/
def CommonBase.isInAnyQ (s : CommonBase ι) (a : ι) : Bool := (s.ao a).iIsIn.isSome

/-- `Construct` for both queues, with active objects as their constructors leave them. -/
def CommonBase.construct (iAOPriority : ι → Int) : CommonBase ι where
  ao a := ⟨false, OSCL_REQUEST_ERR_NONE, iAOPriority a, 0, 0, none⟩
  iReadyQ := ⟨[], 0, 0, false⟩
  iExecTimerQ := ⟨[], 0⟩
  observed := []

/-! ## Comparisons -/

/-- `OsclReadyCompare::compare`: the priority of `a` is less than the priority
of `b`; on a tie the one queued longest has precedence. -/
def readyCompare (ao : ι → ActiveBase) (a b : ι) : Bool :=
  if (ao a).iAOPriority ≠ (ao b).iAOPriority then decide ((ao a).iAOPriority < (ao b).iAOPriority)
  else decide ((ao a).iSeqNum ≥ (ao b).iSeqNum)

/-- `OsclTimerCompare::compare`: earlier times have precedence, with the
difference of the two times taken modulo `2 ^ 32`. -/
def timerCompare (ao : ι → ActiveBase) (a b : ι) : Bool :=
  if (ao a).iTimeToRunTicks ≠ (ao b).iTimeToRunTicks then
    decide ((ao b).iTimeToRunTicks - (ao a).iTimeToRunTicks > iTimeCompareThreshold)
  else readyCompare ao a b

/-! ## The semaphore -/

/-- What the system calls under a semaphore call do: succeed, fail before the
count is changed, or fail after it. -/
inductive SysCall
  | ok
  | failed
  | failedLate
  deriving DecidableEq, Repr

/-- `OsclSemaphore::Wait`: the new count and whether it succeeded; `none` while
it blocks.  A failing wait never takes a token. -/
def semWait (sys : SysCall) (iCount : Nat) : Option (Nat × Bool) :=
  match sys with
  | .ok => if iCount = 0 then none else some (iCount - 1, true)
  | .failed | .failedLate => some (iCount, false)

/-- `OsclSemaphore::Signal`. -/
def semSignal (sys : SysCall) (iCount : Nat) : Nat × Bool :=
  match sys with
  | .ok => (iCount + 1, true)
  | .failed => (iCount, false)
  | .failedLate => (iCount + 1, false)

/-! ## State updates -/

section Updates

variable [DecidableEq ι]

/-- Write one active object. -/
def CommonBase.setAO (s : CommonBase ι) (a : ι) (o : ActiveBase) : CommonBase ι :=
  { s with ao := Function.update s.ao a o }

@[simp] theorem CommonBase.setAO_ao_self (s : CommonBase ι) (a : ι) (o : ActiveBase) :
    (s.setAO a o).ao a = o := by
  simp [CommonBase.setAO]

theorem CommonBase.setAO_ao_of_ne (s : CommonBase ι) {a b : ι} (o : ActiveBase) (h : b ≠ a) :
    (s.setAO a o).ao b = s.ao b := by
  simp [CommonBase.setAO, h]

/-- `iIsIn = NULL`. -/
def CommonBase.unlink (s : CommonBase ι) (a : ι) : CommonBase ι :=
  s.setAO a { s.ao a with iIsIn := none }

/-- Replace the vector of the ready queue. -/
def CommonBase.setReady (s : CommonBase ι) (c : List ι) : CommonBase ι :=
  { s with iReadyQ := { s.iReadyQ with c := c } }

/-- Replace the count of the request semaphore. -/
def CommonBase.setSem (s : CommonBase ι) (n : Nat) : CommonBase ι :=
  { s with iReadyQ := { s.iReadyQ with iSem := n } }

/-- Replace the vector of the timer queue. -/
def CommonBase.setTimers (s : CommonBase ι) (c : List ι) : CommonBase ι :=
  { s with iExecTimerQ := { s.iExecTimerQ with c := c } }

end Updates

/-! ## `OsclReadyQ` -/

section ReadyQ

/-- The scheduler callback of `PendComplete`, under the lock. -/
def readyCallback (s : CommonBase ι) : CommonBase ι :=
  if s.iReadyQ.iCallback then
    { s with
      iReadyQ := { s.iReadyQ with iCallback := false }
      observed := s.observed ++ [.OsclSchedulerReadyCallback] }
  else s

@[simp] theorem readyCallback_ao (s : CommonBase ι) : (readyCallback s).ao = s.ao := by
  unfold readyCallback
  split <;> rfl

@[simp] theorem readyCallback_timers (s : CommonBase ι) :
    (readyCallback s).iExecTimerQ = s.iExecTimerQ := by
  unfold readyCallback
  split <;> rfl

@[simp] theorem readyCallback_c (s : CommonBase ι) :
    (readyCallback s).iReadyQ.c = s.iReadyQ.c := by
  unfold readyCallback
  split <;> rfl

@[simp] theorem readyCallback_sem (s : CommonBase ι) :
    (readyCallback s).iReadyQ.iSem = s.iReadyQ.iSem := by
  unfold readyCallback
  split <;> rfl

@[simp] theorem readyCallback_counter (s : CommonBase ι) :
    (readyCallback s).iReadyQ.iSeqNumCounter = s.iReadyQ.iSeqNumCounter := by
  unfold readyCallback
  split <;> rfl

/-- `OsclReadyQ::TimerCallback`. -/
def timerCallback (s : CommonBase ι) (aDelayMicrosec : UInt32) : CommonBase ι :=
  if s.iReadyQ.iCallback then
    { s with
      iReadyQ := { s.iReadyQ with iCallback := false }
      observed := s.observed ++ [.OsclSchedulerTimerCallback (aDelayMicrosec / 1000)] }
  else s

@[simp] theorem timerCallback_ao (s : CommonBase ι) (d : UInt32) : (timerCallback s d).ao = s.ao := by
  unfold timerCallback
  split <;> rfl

@[simp] theorem timerCallback_timers (s : CommonBase ι) (d : UInt32) :
    (timerCallback s d).iExecTimerQ = s.iExecTimerQ := by
  unfold timerCallback
  split <;> rfl

variable [DecidableEq ι]

/-- Add to the ready queue's vector: the part of `PendComplete` before the signal. -/
def readyEnqueue (s : CommonBase ι) (a : ι) : CommonBase ι :=
  let n := s.iReadyQ.iSeqNumCounter + 1
  let s := s.setAO a { s.ao a with iIsIn := some .ready, iSeqNum := n }
  { s with iReadyQ :=
      { s.iReadyQ with iSeqNumCounter := n, c := push (readyCompare s.ao) s.iReadyQ.c a } }

/-- `OsclReadyQ::PendComplete`: the new state and the error it reports. -/
def pendComplete (sys : SysCall) (s : CommonBase ι) (pvbase : ι) (aReason : Int) :
    CommonBase ι × Int :=
  if s.isInAnyQ pvbase then (s, OsclErrInvalidState)
  else if (s.ao pvbase).iBusy = false ∨ (s.ao pvbase).iStatus ≠ OSCL_REQUEST_PENDING then
    (s, OsclErrCorrupt)
  else
    let s := readyEnqueue s pvbase
    match semSignal sys s.iReadyQ.iSem with
    | (n, false) => (s.setSem n, OsclErrSystemCallFailed)
    | (n, true) =>
      let s := s.setSem n
      (readyCallback (s.setAO pvbase { s.ao pvbase with iStatus := aReason }), OsclErrNone)

/-- Take the top element out of the ready queue's vector. -/
def readyDequeue (s : CommonBase ι) (elem : ι) : CommonBase ι :=
  let s := s.unlink elem
  s.setReady (pop (readyCompare s.ao) s.iReadyQ.c)

/-- `OsclReadyQ::PopTop`: `none` while the wait under the lock blocks. -/
def popTop (sys : SysCall) (s : CommonBase ι) : Option (CommonBase ι × Except Int (Option ι)) :=
  match top s.iReadyQ.c with
  | none => some (s, .ok none)
  | some elem =>
    let s := readyDequeue s elem
    (semWait sys s.iReadyQ.iSem).map fun
      | (n, true) => (s.setSem n, .ok (some elem))
      | (n, false) => (s.setSem n, .error OsclErrSystemCallFailed)

/-- `OsclReadyQ::PopTopAfterWait`; on an empty queue it asserts, which is `none`. -/
def popTopAfterWait (s : CommonBase ι) : Option (CommonBase ι × ι) :=
  match top s.iReadyQ.c with
  | none => none
  | some elem => some (readyDequeue s elem, elem)

/-- The part of `OsclReadyQ::Remove` before the wait, and the number of items removed. -/
def readyErase (s : CommonBase ι) (a : ι) : CommonBase ι × Nat :=
  let s := s.unlink a
  let r := remove (readyCompare s.ao) s.iReadyQ.c a
  (s.setReady r.1, r.2)

/-- `OsclReadyQ::Remove`: `none` while the wait under the lock blocks. -/
def readyRemove (sys : SysCall) (s : CommonBase ι) (a : ι) :
    Option (CommonBase ι × Except Int Unit) :=
  let r := readyErase s a
  if r.2 > 0 then
    (semWait sys r.1.iReadyQ.iSem).map fun
      | (n, true) => (r.1.setSem n, .ok ())
      | (n, false) => (r.1.setSem n, .error OsclErrSystemCallFailed)
  else some (r.1, .ok ())

/-- `OsclReadyQ::RegisterForCallback`. -/
def registerForCallback (s : CommonBase ι) (aCallback : Bool) : CommonBase ι :=
  if s.iReadyQ.c.length > 0 ∧ aCallback = true then
    { s with
      iReadyQ := { s.iReadyQ with iCallback := false }
      observed := s.observed ++ [.OsclSchedulerReadyCallback] }
  else { s with iReadyQ := { s.iReadyQ with iCallback := aCallback } }

end ReadyQ

/-! ## `OsclTimerQ` -/

section TimerQ

variable [DecidableEq ι]

/-- `OsclTimerQ::Add`. -/
def timerAdd (s : CommonBase ι) (b : ι) : CommonBase ι :=
  let n := s.iExecTimerQ.iSeqNumCounter + 1
  let s := s.setAO b { s.ao b with iIsIn := some .timer, iSeqNum := n }
  { s with iExecTimerQ := ⟨push (timerCompare s.ao) s.iExecTimerQ.c b, n⟩ }

/-- `OsclTimerQ::Pop`: remove the top of the queue, which is `b`. -/
def timerPop (s : CommonBase ι) (b : ι) : CommonBase ι :=
  let s := s.unlink b
  s.setTimers (pop (timerCompare s.ao) s.iExecTimerQ.c)

/-- `OsclTimerQ::Remove`. -/
def timerRemove (s : CommonBase ι) (a : ι) : CommonBase ι :=
  let s := s.unlink a
  s.setTimers (remove (timerCompare s.ao) s.iExecTimerQ.c a).1

end TimerQ

/-! ## `OsclExecSchedulerCommonBase` -/

section Common

variable [DecidableEq ι]

/-- `OsclExecSchedulerCommonBase::PendComplete` in the scheduler's own thread. -/
def pendCompleteInThread (sys : SysCall) (s : CommonBase ι) (pvbase : ι) (aReason : Int) :
    CommonBase ι × Except Int Unit :=
  let s := if s.isIn pvbase = some .timer then timerRemove s pvbase else s
  let r := pendComplete sys s pvbase aReason
  (r.1, if r.2 ≠ OsclErrNone then .error r.2 else .ok ())

/-- The delay in ticks, rounded to the nearest. -/
def delayTicks (aDelayMicrosec tickperiod : UInt32) : UInt32 :=
  (aDelayMicrosec * 2 / tickperiod + 1) / 2

/-- `AddToExecTimerQ` after its check: set the time, queue the object, and tell
the observer when it is now the first to run. -/
def queueTimer (s : CommonBase ι) (a : ι) (aDelayMicrosec tickperiod timenow : UInt32) :
    CommonBase ι :=
  let time := timenow + delayTicks aDelayMicrosec tickperiod
  let s := timerAdd (s.setAO a { s.ao a with iTimeToRunTicks := time }) a
  if s.iReadyQ.iCallback ∧ top s.iExecTimerQ.c = some a then timerCallback s aDelayMicrosec else s

/-- `AddToExecTimerQ`. -/
def addToExecTimerQ (s : CommonBase ι) (a : ι) (aDelayMicrosec tickperiod timenow : UInt32) :
    CommonBase ι × Except Int Unit :=
  if s.isInAnyQ a then (s, .error OsclErrInvalidState)
  else (queueTimer s a aDelayMicrosec tickperiod timenow, .ok ())

/-- `OsclTimerObject::After`, with `Activate`: mark the request active and
pending, then queue the timer. -/
def after (s : CommonBase ι) (a : ι) (aDelayMicrosec tickperiod timenow : UInt32) :
    CommonBase ι × Except Int Unit :=
  if (s.ao a).iBusy then (s, .error OsclErrInvalidState)
  else
    let s := s.setAO a { s.ao a with iBusy := true, iStatus := OSCL_REQUEST_PENDING }
    addToExecTimerQ s a aDelayMicrosec tickperiod timenow

/-- The delay `UpdateTimers` answers: the difference as an `int32`, made positive. -/
def shortestDelay (deltaTicks : UInt32) : UInt32 :=
  if deltaTicks.toInt32 < 0 then (-deltaTicks.toInt32).toUInt32 else deltaTicks

/-- The loop of `UpdateTimers`; every turn but the last pops a timer, so `fuel`
equal to the length of the queue never runs out.  `sig a` is what the system
calls do when `a` is signalled. -/
def updateTimersLoop (sig : ι → SysCall) (timenow : UInt32) :
    Nat → CommonBase ι → CommonBase ι × Except Int (Option ι × UInt32)
  | 0, s => (s, .ok (none, 0))
  | fuel + 1, s =>
    match top s.iExecTimerQ.c with
    | none => (s, .ok (none, 0))
    | some a =>
      let deltaTicks := timenow - (s.ao a).iTimeToRunTicks
      if deltaTicks ≤ iTimeCompareThreshold then
        match pendCompleteInThread (sig a) (timerPop s a) a OSCL_REQUEST_ERR_NONE with
        | (s, .error e) => (s, .error e)
        | (s, .ok _) => updateTimersLoop sig timenow fuel s
      else (s, .ok (some a, shortestDelay deltaTicks))

/-- `UpdateTimers`: the timer with the shortest delay, if any, and that delay. -/
def updateTimers (sig : ι → SysCall) (timenow : UInt32) (s : CommonBase ι) :
    CommonBase ι × Except Int (Option ι × UInt32) :=
  updateTimersLoop sig timenow s.iExecTimerQ.c.length s

end Common

end Ftke.Scheduler
