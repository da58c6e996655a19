import Ftke.Srp

/-!
# Ftke.Srp.Sender

The sending half of `SRP`: the queue of packets that are not acknowledged yet,
one timer for the SRP command on its way, and `iWNSRPTxWindow` timers for the
WNSRP commands, which are free or active.

While it is not known whether the other side has WNSRP, each packet is sent both
as an SRP command and as a WNSRP one.

How many commands can be allocated during a call is an input (`avail`).  A null
pointer that is followed is a `Fault`.
-/

namespace Ftke.Srp

/-- `WnsrpStatus`. -/
inductive WnsrpStatus
  | noWnsrpSupport
  | wnsrpTxSupport
  | wnsrpFullSupport
  deriving DecidableEq

/-- `SrpStatus`. -/
inductive SrpStatus
  | idle
  | waitResponse
  deriving DecidableEq

/-- `SrpEvent`. -/
inductive Event
  | nop
  | pdu
  | command
  | response
  | nsrpResponse
  | timeout
  | wnsrpCommand
  | wnsrpResponse
  deriving DecidableEq

/-- What the code does not check for. -/
inductive Fault
  | nullTimer
  | nullPacket
  | overflow
  deriving DecidableEq

/-- `SRPRespTimer`; its `timerID` is its place in `iWnsrpCommandSave`. -/
structure RespTimer where
  N400Counter : Nat
  isTimerActive : Bool
  pPkt : Option MediaData
  deriving DecidableEq

namespace RespTimer

/-- A timer as constructed. -/
def new : RespTimer := ⟨0, false, none⟩

/-- `SrpT401Start`. -/
def srpT401Start (pPkt : MediaData) : RespTimer := ⟨0, true, some pPkt⟩

/-- `SrpT401Stop`, and the release of the packet that always follows. -/
def srpT401Stop (timer : RespTimer) : RespTimer := { timer with isTimerActive := false, pPkt := none }

end RespTimer

/-- The fields of `SRP` that concern the transmission. -/
structure Sender where
  iWNSRPTxWindow : Nat
  iN400MaxCounter : Nat
  iN402MaxCounter : Nat
  iObserver : Bool
  iHandleWNSRP : Bool
  iUseNSRP : Bool
  iFirstNSRPResp : Bool
  iN402Counter : Nat
  iSendSeqNumber : UInt8
  iStatus : SrpStatus
  iCurWnsrpStatus : WnsrpStatus
  iSrpWaitQueue : List MediaData
  iSrpCommandSave : RespTimer
  iWnsrpCommandSave : Nat → RespTimer
  iFreeWnsrpCommandSave : List Nat
  iActiveWnsrpCommandSave : List Nat

namespace Sender

/-! ## The queue and the timers -/

/-- `SrpSendWaitGet`. -/
def srpSendWaitGet (s : Sender) (index : Nat) : Option MediaData := s.iSrpWaitQueue[index]?

/-- `SrpCommandClear`: the first packet with this number leaves the queue. -/
def srpCommandClear (s : Sender) (seqNum : UInt8) : Sender :=
  { s with iSrpWaitQueue := s.iSrpWaitQueue.eraseP fun pPkt => pPkt.seqNum = seqNum }

/-- A WNSRP timer changed. -/
def setTimer (s : Sender) (pTimer : Nat) (timer : RespTimer) : Sender :=
  { s with iWnsrpCommandSave := fun i => if i = pTimer then timer else s.iWnsrpCommandSave i }

/-- `GetFreeWnsrpTimer`. -/
def getFreeWnsrpTimer (s : Sender) : Option (Nat × Sender) :=
  match s.iFreeWnsrpCommandSave with
  | [] => none
  | timer :: free => some (timer, { s with iFreeWnsrpCommandSave := free })

/-- `AddActiveWnsrpTimer`. -/
def addActiveWnsrpTimer (s : Sender) (timer : Nat) : Sender :=
  { s with iActiveWnsrpCommandSave := s.iActiveWnsrpCommandSave ++ [timer] }

/-- `FindActiveWnsrpTimer`. -/
def findActiveWnsrpTimer (s : Sender) (timerID : Nat) : Option Nat :=
  s.iActiveWnsrpCommandSave.find? fun timer => timer = timerID

/-- `RemoveActiveWnsrpTimer`. -/
def removeActiveWnsrpTimer (s : Sender) (timer : Nat) : Sender :=
  if timer ∈ s.iActiveWnsrpCommandSave then
    { s with
      iFreeWnsrpCommandSave := s.iFreeWnsrpCommandSave ++ [timer]
      iActiveWnsrpCommandSave := s.iActiveWnsrpCommandSave.erase timer }
  else s

/-- A timer stopped, its packet released and the timer taken off the list. -/
def release (s : Sender) (timer : Nat) : Sender :=
  (s.setTimer timer (s.iWnsrpCommandSave timer).srpT401Stop).removeActiveWnsrpTimer timer

/-- `WnsrpStatusSet`. -/
def wnsrpStatusSet (s : Sender) (newStatus : WnsrpStatus) : Sender :=
  let s := { s with iCurWnsrpStatus := newStatus }
  match newStatus with
  | .noWnsrpSupport => s.iActiveWnsrpCommandSave.foldl release s
  | .wnsrpFullSupport =>
    if s.iSrpCommandSave.isTimerActive then
      { s with iSrpCommandSave := s.iSrpCommandSave.srpT401Stop }
    else s
  | .wnsrpTxSupport => s

/-- A packet sent as a WNSRP command, with the timer `pTimer`. -/
def sendWnsrp (s : Sender) (pTimer : Nat) (pPkt : MediaData) : Sender :=
  (s.setTimer pTimer (.srpT401Start (srpCommandCreate pPkt .wnsrpCommand))).addActiveWnsrpTimer pTimer

/-- The first packet sent as an SRP command. -/
def sendSrp (s : Sender) (pPkt : MediaData) : Sender :=
  { s with iSrpCommandSave := .srpT401Start (srpCommandCreate pPkt .srpCommand) }

/-! ## Packets from the upper layer -/

/-- The loop of `Srp_0_1` and of `Srp_1_1`, over the timers that are free; the
last result is false when a command could not be created. -/
def wnsrpLoop : List Nat → Nat → Sender → Sender × List MediaData × Bool
  | [], _, s => ({ s with iFreeWnsrpCommandSave := [] }, [], true)
  | pTimer :: free, avail, s =>
    match s.srpSendWaitGet s.iActiveWnsrpCommandSave.length, avail with
    | none, _ => ({ s with iFreeWnsrpCommandSave := pTimer :: free }, [], true)
    | some _, 0 => ({ s with iFreeWnsrpCommandSave := pTimer :: free }, [], false)
    | some pSrpCommandPkt, avail + 1 =>
      let (s, lower, ok) := wnsrpLoop free avail (s.sendWnsrp pTimer pSrpCommandPkt)
      (s, srpCommandCreate pSrpCommandPkt .wnsrpCommand :: lower, ok)

/-- `Srp_0_1`, in `STS_IDLE`. -/
def srp_0_1 (s : Sender) (avail : Nat) : Except Fault (Sender × List MediaData) :=
  match s.iCurWnsrpStatus with
  | .wnsrpFullSupport =>
    let (s, lower, ok) := wnsrpLoop s.iFreeWnsrpCommandSave avail s
    if ok then .ok ({ s with iStatus := .waitResponse }, lower) else .ok (s, lower)
  | status =>
    match s.srpSendWaitGet 0, avail with
    | none, _ => .error .nullPacket
    | some _, 0 => .ok (s, [])
    | some pFirstPkt, avail + 1 =>
      let s := s.sendSrp pFirstPkt
      let srp := srpCommandCreate pFirstPkt .srpCommand
      if status = .noWnsrpSupport then .ok ({ s with iStatus := .waitResponse }, [srp])
      else
        let (s, lower, ok) := wnsrpLoop s.iFreeWnsrpCommandSave avail s
        if ok then .ok ({ s with iStatus := .waitResponse }, srp :: lower) else .ok (s, srp :: lower)

/-- `Srp_1_1`, in `STS_WAIT_RESPONSE`. -/
def srp_1_1 (s : Sender) (avail : Nat) : Sender × List MediaData :=
  match s.iCurWnsrpStatus with
  | .noWnsrpSupport => (s, [])
  | _ =>
    let (s, lower, _) := wnsrpLoop s.iFreeWnsrpCommandSave avail s
    (s, lower)

/-! ## Responses -/

/-- The timer that waits for this number, behind those that are before it. -/
def waitingFor (s : Sender) (seqNum : UInt8) : List Nat → Except Fault (Option (List Nat × Nat))
  | [] => .ok none
  | timer :: l =>
    match (s.iWnsrpCommandSave timer).pPkt with
    | none => .error .nullPacket
    | some pPkt =>
      if pPkt.seqNum = seqNum then .ok (some ([], timer))
      else do
        let found ← s.waitingFor seqNum l
        return found.map fun (earlier, t) => (timer :: earlier, t)

/-- A command sent again by its timer, which is started anew. -/
def resend (s : Sender) (timer : Nat) : Sender :=
  s.setTimer timer { s.iWnsrpCommandSave timer with N400Counter := 1, isTimerActive := true }

/-- The first part of `Srp_1_3`: what the response acknowledges is released.
The result is false when nothing more is to be sent. -/
def acknowledge (s : Sender) (seqNum : UInt8) (event : Event) :
    Except Fault (Sender × List MediaData × Bool) :=
  match event with
  | .wnsrpResponse => do
    let s := s.srpCommandClear seqNum
    match ← s.waitingFor seqNum s.iActiveWnsrpCommandSave with
    | none => return (s, [], false)
    | some (earlier, timer) =>
      -- the commands before this one are sent again
      return ((earlier.foldl resend s).release timer,
        earlier.filterMap fun t => (s.iWnsrpCommandSave t).pPkt, true)
  | .nsrpResponse => do
    let s := s.srpCommandClear seqNum
    let s := match ← s.waitingFor seqNum s.iActiveWnsrpCommandSave with
      | none => s
      | some (_, timer) => s.release timer
    if s.iSrpCommandSave.isTimerActive then
      match s.iSrpCommandSave.pPkt with
      | none => .error .nullPacket
      | some pPkt =>
        if pPkt.seqNum = seqNum then
          return ({ s with iSrpCommandSave := s.iSrpCommandSave.srpT401Stop }, [], true)
        else return (s, [], false)
    else return (s, [], false)
  | .response =>
    if s.iSrpCommandSave.isTimerActive then
      let s := match s.iActiveWnsrpCommandSave with
        | [] => s
        | oldest :: _ => s.release oldest
      match s.iSrpCommandSave.pPkt with
      | none => .error .nullPacket
      | some pPkt =>
        let s := s.srpCommandClear pPkt.seqNum
        .ok ({ s with iSrpCommandSave := s.iSrpCommandSave.srpT401Stop }, [], true)
    else .ok (s, [], false)
  | _ => .ok (s, [], false)

/-- The last lines of `Srp_1_3`. -/
def idleIfDone (s : Sender) : Sender :=
  if s.iSrpCommandSave.isTimerActive = false ∧ s.iActiveWnsrpCommandSave = [] then
    { s with iStatus := .idle }
  else s

/-- The next WNSRP command, in `Srp_1_3`. -/
def sendNextWnsrp (s : Sender) (avail : Nat) : Except Fault (Sender × List MediaData) :=
  -- the source has the comment "Check if wnsrp timer is available" here
  match s.srpSendWaitGet s.iActiveWnsrpCommandSave.length, avail with
  | none, _ => .ok (s.idleIfDone, [])
  | some _, 0 => .ok (s, [])
  | some pSrpCommandPkt, _ + 1 =>
    match s.getFreeWnsrpTimer with
    | none => .error .nullTimer
    | some (pTimer, s) =>
      .ok ((s.sendWnsrp pTimer pSrpCommandPkt).idleIfDone,
        [srpCommandCreate pSrpCommandPkt .wnsrpCommand])

/-- The second part of `Srp_1_3`: the next commands. -/
def sendNext (s : Sender) (avail : Nat) : Except Fault (Sender × List MediaData) :=
  match s.iCurWnsrpStatus with
  | .wnsrpFullSupport => s.sendNextWnsrp avail
  | status =>
    match s.srpSendWaitGet 0, avail with
    | none, _ => if status = .noWnsrpSupport then .ok (s.idleIfDone, []) else s.sendNextWnsrp avail
    | some _, 0 => .ok ({ s with iStatus := .idle }, [])
    | some pFirstPkt, avail + 1 => do
      let s := s.sendSrp pFirstPkt
      let srp := srpCommandCreate pFirstPkt .srpCommand
      if status = .noWnsrpSupport then return (s.idleIfDone, [srp])
      else
        let (s, lower) ← s.sendNextWnsrp avail
        return (s, srp :: lower)

/-- `Srp_1_3`, in `STS_WAIT_RESPONSE`. -/
def srp_1_3 (s : Sender) (seqNum : UInt8) (event : Event) (avail : Nat) :
    Except Fault (Sender × List MediaData) := do
  let (s, resent, go) ← s.acknowledge seqNum event
  if go then
    let (s, lower) ← s.sendNext avail
    return (s, resent ++ lower)
  else return (s, resent)

/-! ## Timeouts -/

/-- `SrpN400Check`: the command may be sent again. -/
def srpN400Check (s : Sender) (timer : RespTimer) : Bool := timer.N400Counter < s.iN400MaxCounter

/-- The status after a command has been given up, when there is no observer. -/
def giveUp (s : Sender) : Sender :=
  if s.iObserver then s
  else
    match s.iCurWnsrpStatus with
    | .noWnsrpSupport => { s with iStatus := .idle }
    | _ => if s.iSrpWaitQueue = [] then s else { s with iStatus := .idle }

/-- `Srp_1_4`, in `STS_WAIT_RESPONSE`; the `timerID` of the SRP timer is
`iWNSRPTxWindow`. -/
def srp_1_4 (s : Sender) (id : Nat) : Except Fault (Sender × List MediaData) :=
  if id = s.iWNSRPTxWindow then
    match s.iSrpCommandSave.pPkt with
    | none => .error .nullPacket
    | some pPkt =>
      if s.srpN400Check s.iSrpCommandSave then
        .ok ({ s with iSrpCommandSave :=
          { s.iSrpCommandSave with N400Counter := s.iSrpCommandSave.N400Counter + 1 } }, [pPkt])
      else
        .ok (giveUp { s.srpCommandClear pPkt.seqNum with
          iSrpCommandSave := s.iSrpCommandSave.srpT401Stop }, [])
  else if id < s.iWNSRPTxWindow then
    match s.findActiveWnsrpTimer id with
    | none => .error .nullTimer
    | some timer =>
      match (s.iWnsrpCommandSave timer).pPkt with
      | none => .error .nullPacket
      | some pPkt =>
        if s.srpN400Check (s.iWnsrpCommandSave timer) then
          .ok (s.setTimer timer { s.iWnsrpCommandSave timer with
            N400Counter := (s.iWnsrpCommandSave timer).N400Counter + 1 }, [pPkt])
        else .ok (((s.srpCommandClear pPkt.seqNum).release timer).giveUp, [])
  else .ok (s, [])

end Sender

end Ftke.Srp
