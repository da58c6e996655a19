import Mathlib.Data.List.Basic

/-!
# Ftke.PvmfSyncUtil

The synchronisation utility and its queue of media messages
(`pvmi/pvmf/src/pvmf_sync_util.cpp`, `pvmf_sync_util_data_queue.cpp`).

* `SyncUtil.syncMediaData` — is a timestamp early, on time, late or skipped;
* `DataQueue` — the queue with its clock and its frame counts;
* `synchronizeData` — what `QueueMediaData` and `DequeueMediaData` both ask: drop what is
  late or skipped, and say whether the message at the front is due;
* `Call`, `DataQueue.handle` — the calls of the component's users and of its clock.

The clock is read through `time`, the values it shows one after the other within a call.
-/

namespace Ftke.PvmfSyncUtil

/-! ## The synchronisation utility -/

inductive PvmfSyncStatus
  | early
  | onTime
  | late
  | skipped
  | skippedRender
  | skipComplete
  deriving DecidableEq, Repr

/-- `PvmfSyncUtil`; of the clock it matters only whether there is one. -/
structure SyncUtil where
  iClock : Bool
  iEarlyMargin : UInt32
  iLateMargin : UInt32
  iSkipMediaData : Bool
  iResumeTimestamp : UInt32
  iRenderSkippedData : Bool
  deriving DecidableEq, Repr

namespace SyncUtil

def new : SyncUtil where
  iClock := false
  iEarlyMargin := 10
  iLateMargin := 50
  iSkipMediaData := false
  iResumeTimestamp := 0
  iRenderSkippedData := false

def setClock (u : SyncUtil) (aClock : Bool) : SyncUtil := { u with iClock := aClock }

def setMargins (u : SyncUtil) (aEarlyMargin aLateMargin : UInt32) : SyncUtil :=
  { u with
    iEarlyMargin := aEarlyMargin
    iLateMargin := aLateMargin }

def skipMediaData (u : SyncUtil) (aResumeTimestamp : UInt32) (aRenderSkippedData : Bool) : SyncUtil :=
  { u with
    iSkipMediaData := true
    iResumeTimestamp := aResumeTimestamp
    iRenderSkippedData := aRenderSkippedData }

def cancelSkipMediaData (u : SyncUtil) : SyncUtil := { u with iSkipMediaData := false }

/-- Is the timestamp, or the end of the data, within the margins of the clock? -/
def inSync (u : SyncUtil) (currentTime aDataTimestamp aDuration : UInt32) : Bool :=
  if currentTime > u.iLateMargin then
    (aDataTimestamp ≥ currentTime - u.iLateMargin && aDataTimestamp ≤ currentTime + u.iEarlyMargin) ||
      (aDataTimestamp + aDuration ≥ currentTime - u.iLateMargin &&
        aDataTimestamp + aDuration ≤ currentTime + u.iEarlyMargin)
  else aDataTimestamp ≤ currentTime + u.iEarlyMargin

/-- `SyncMediaData`: the status, `aMillisecondsEarly` and the utility afterwards. -/
def syncMediaData (u : SyncUtil) (currentTime aTimestamp aDuration aMillisecondsEarly : UInt32) :
    PvmfSyncStatus × UInt32 × SyncUtil :=
  -- a message without a timestamp is taken for one at time 0
  let aDataTimestamp := if aTimestamp = 0xFFFFFFFF then 0 else aTimestamp
  if u.iSkipMediaData then
    if aDataTimestamp + aDuration ≥ u.iResumeTimestamp then
      (.skipComplete, aMillisecondsEarly, u.cancelSkipMediaData)
    else if u.iRenderSkippedData then (.skippedRender, aMillisecondsEarly, u)
    else (.skipped, u.iResumeTimestamp - aDataTimestamp, u)
  else if !u.iClock then (.onTime, aMillisecondsEarly, u)
  else if u.inSync currentTime aDataTimestamp aDuration then (.onTime, aMillisecondsEarly, u)
  else if aDataTimestamp > currentTime + u.iEarlyMargin then
    (.early, aDataTimestamp - currentTime - u.iEarlyMargin, u)
  else (.late, currentTime + u.iEarlyMargin - aDataTimestamp, u)

end SyncUtil

/-! ## The data queue -/

inductive PVMFStatus
  | success
  | pending
  | failure
  | errNoMemory
  deriving DecidableEq, Repr

/-- A media message; `object` tells the shared messages apart. -/
structure MediaMsg where
  object : Nat
  formatID : UInt32
  timestamp : UInt32
  duration : UInt32
  markerInfo : UInt32
  deriving DecidableEq, Repr

/-- `PVMF_MEDIA_MSG_DATA_FORMAT_ID`. -/
def MediaMsg.isMediaData (msg : MediaMsg) : Bool := msg.formatID = 0

/-- `PVMF_MEDIA_CMD_FORMAT_IDS_START`. -/
def MediaMsg.isMediaCmd (msg : MediaMsg) : Bool := msg.formatID ≥ 0x100

/-- `PVMF_MEDIA_CMD_EOS_FORMAT_ID`. -/
def MediaMsg.isEOS (msg : MediaMsg) : Bool := msg.formatID = 0x101

/-- A clock, as far as it is read here: the count, if its timebase is one that counts. -/
structure Clock where
  countTimebase : Option Int
  deriving DecidableEq, Repr

/-- What the queue tells its observer and its clock. -/
inductive Event
  | scheduleProcessData (aTimeMilliseconds : UInt32)
  | skipMediaDataComplete
  | adjustClockTime32 (clktime adjtime : UInt32)
  deriving DecidableEq, Repr

/-- `PvmfSyncUtilDataQueue`; `noRender` are the messages whose marker says not to render them. -/
structure DataQueue where
  iSyncUtil : SyncUtil
  iDataQueue : List MediaMsg
  iLateFrameDropEnable : Bool
  iClock : Option Clock
  iClockOwner : Bool
  iClockFrameCount : Int
  iSyncFrameCount : Int
  noRender : List Nat
  iDiagnosticsLogged : Bool
  iDropFrameCount : UInt32
  deriving DecidableEq, Repr

namespace DataQueue

def new : DataQueue where
  iSyncUtil := .new
  iDataQueue := []
  iLateFrameDropEnable := true
  iClock := none
  iClockOwner := false
  iClockFrameCount := 0
  iSyncFrameCount := 0
  noRender := []
  iDiagnosticsLogged := false
  iDropFrameCount := 0

/-- `iClock && iClock->GetCountTimebase()`, with the count. -/
def countTimebase (s : DataQueue) : Option Int := s.iClock.bind Clock.countTimebase

def frameStepMode (s : DataQueue) : Bool := s.iClockOwner && s.countTimebase.isSome

def frameSyncMode (s : DataQueue) : Bool := s.iClockOwner || s.countTimebase.isSome

/-- `getMarkerInfo`. -/
def markerInfo (s : DataQueue) (msg : MediaMsg) : UInt32 :=
  if msg.object ∈ s.noRender then msg.markerInfo ||| 4 else msg.markerInfo

/-- The duration that `SynchronizeData` goes by: of data if the marker says there is one, and of an EOS. -/
def syncDuration (s : DataQueue) (msg : MediaMsg) : UInt32 :=
  if msg.isEOS then msg.duration
  else if msg.isMediaData && s.markerInfo msg &&& 2 ≠ 0 then msg.duration
  else 0

/-! ### Clock updates -/

def passClockToSyncUtil (s : DataQueue) : DataQueue :=
  { s with iSyncUtil := s.iSyncUtil.setClock (s.frameSyncMode && s.iClock.isSome) }

def clockTimebaseUpdated (s : DataQueue) : DataQueue × List Event :=
  match s.iClock with
  | none => (s, [])
  | some clock =>
    let count := clock.countTimebase.getD s.iClockFrameCount
    let s := { s with
      iClockFrameCount := count
      iSyncFrameCount := if clock.countTimebase.isSome then count else s.iSyncFrameCount }
    (s.passClockToSyncUtil, [.scheduleProcessData 0])

def clockCountUpdated (s : DataQueue) : DataQueue × List Event :=
  match s.countTimebase with
  | none => (s, [])
  | some count => ({ s with iClockFrameCount := count }, [.scheduleProcessData 0])

def doSetClock (s : DataQueue) (aClock : Option Clock) (aSyncAlways : Bool) : DataQueue × List Event :=
  let updated := { s with iClock := aClock }.clockTimebaseUpdated
  ({ updated.1 with iClockOwner := aSyncAlways }.passClockToSyncUtil, updated.2)

def setClock (s : DataQueue) (aClock : Option Clock) : DataQueue × List Event := s.doSetClock aClock true

def setClockForFrameStep (s : DataQueue) (aClock : Option Clock) : DataQueue × List Event :=
  s.doSetClock aClock false

/-! ### Synchronisation -/

/-- `FrameStepClkAdjust`. -/
def frameStepClkAdjust (clktime aTimestamp : UInt32) : List Event :=
  if aTimestamp > clktime then [.adjustClockTime32 clktime aTimestamp] else []

/-- `FrameStep`, for the message at the front. -/
def frameStep (s : DataQueue) (msg : MediaMsg) (clktime : UInt32) : PVMFStatus × DataQueue × List Event :=
  if msg.isMediaCmd && !msg.isEOS then (.success, s, [])
  else if s.iSyncFrameCount ≠ s.iClockFrameCount then
    let s := { s with
      iSyncFrameCount :=
        if s.iSyncFrameCount < s.iClockFrameCount then s.iSyncFrameCount + 1 else s.iSyncFrameCount - 1 }
    (.success, s, frameStepClkAdjust clktime msg.timestamp)
  else (.pending, s, [])

/-- What is done with the message at the front: the call returns, or the message is erased. -/
inductive Front
  | returned (status : PVMFStatus) (s : DataQueue) (events : List Event)
  | lateDropped
  | skipped

/-- The `switch` of `SynchronizeData`. -/
def onSyncStatus (s : DataQueue) (syncStatus : PvmfSyncStatus) (msg : MediaMsg)
    (millisecondsEarly clktime : UInt32) : Front :=
  let frameStepped := s.frameStep msg clktime
  match syncStatus with
  | .onTime =>
    if s.frameStepMode then .returned frameStepped.1 frameStepped.2.1 frameStepped.2.2
    else .returned .success s []
  | .early =>
    if msg.isMediaCmd && !msg.isEOS then .returned .success s []
    else if s.frameStepMode then .returned frameStepped.1 frameStepped.2.1 frameStepped.2.2
    else .returned .pending s [.scheduleProcessData millisecondsEarly]
  | .late =>
    if msg.isMediaCmd then .returned .success s []
    else if s.iLateFrameDropEnable then .lateDropped
    else if s.frameStepMode then .returned frameStepped.1 frameStepped.2.1 frameStepped.2.2
    else .returned .success s []
  | .skippedRender =>
    .returned .success { s with noRender := if msg.isMediaData then msg.object :: s.noRender else s.noRender } []
  | .skipped => if msg.isMediaCmd then .returned .success s [] else .skipped
  | .skipComplete => .returned .pending s [.skipMediaDataComplete]

/-- The counts behind `aDropped` and `aSkipped`, where the caller passes them. -/
structure Counts where
  aDropped : Option UInt32
  aSkipped : Option UInt32
  deriving DecidableEq, Repr

/-- What `SynchronizeData` returns; `syncStatus` is what it found of the message at the front. -/
structure Synchronized where
  status : PVMFStatus
  s : DataQueue
  counts : Counts
  events : List Event
  syncStatus : Option PvmfSyncStatus
  deriving DecidableEq, Repr

/-- The loop of `SynchronizeData`, with `msgs` in the queue and `time i` shown by the clock. -/
def synchronizeLoop (time : Nat → UInt32) (s : DataQueue) (counts : Counts) (millisecondsEarly : UInt32) (i : Nat) :
    List MediaMsg → Synchronized
  | [] =>
    { status := .failure
      s := { s with iDataQueue := [] }
      counts := counts
      events := []
      syncStatus := none }
  | msg :: msgs =>
    let sync := s.iSyncUtil.syncMediaData (time i) msg.timestamp (s.syncDuration msg) millisecondsEarly
    let s := { s with
      iSyncUtil := sync.2.2
      iDataQueue := msg :: msgs }
    match s.onSyncStatus sync.1 msg sync.2.1 (time (i + 1)) with
    | .returned status s events =>
      { status := status
        s := s
        counts := counts
        events := events
        syncStatus := some sync.1 }
    | .lateDropped =>
      let s := { s with
        iDropFrameCount := if counts.aDropped.isSome then s.iDropFrameCount + 1 else s.iDropFrameCount }
      synchronizeLoop time s { counts with aDropped := counts.aDropped.map (· + 1) } sync.2.1 (i + 1) msgs
    | .skipped =>
      synchronizeLoop time s { counts with aSkipped := counts.aSkipped.map (· + 1) } sync.2.1 (i + 1) msgs

def synchronizeData (s : DataQueue) (time : Nat → UInt32) (counts : Counts) : Synchronized :=
  s.synchronizeLoop time counts 0 0 s.iDataQueue

/-- `*aDropped = 0` and `*aSkipped = 0`, where they are passed. -/
def Counts.zero (aDropped aSkipped : Bool) : Counts where
  aDropped := if aDropped then some 0 else none
  aSkipped := if aSkipped then some 0 else none

/-! ### Calls -/

/-- `iDataQueue` with a message pushed at one of its ends. -/
def queued (s : DataQueue) (msg : MediaMsg) (aFront : Bool) : List MediaMsg :=
  if aFront then msg :: s.iDataQueue else s.iDataQueue ++ [msg]

/-- `QueueMediaData`; `memory` is whether the queue can grow. -/
def queueMediaData (s : DataQueue) (msg : MediaMsg) (aFront memory : Bool) (time : Nat → UInt32)
    (counts : Counts) : Synchronized :=
  if !memory then ⟨.errNoMemory, s, counts, [], none⟩
  else
    let s := { s with iDataQueue := s.queued msg aFront }
    if s.iDataQueue.length = 1 then
      let r := s.synchronizeData time counts
      if r.status = .success then { r with events := r.events ++ [.scheduleProcessData 0] } else r
    else ⟨.success, s, counts, [], none⟩

/-- `DequeueMediaData`, and the message it hands out. -/
def dequeueMediaData (s : DataQueue) (time : Nat → UInt32) (counts : Counts) : Synchronized × Option MediaMsg :=
  let r := s.synchronizeData time counts
  match r.status with
  | .success => ({ r with s := { r.s with iDataQueue := r.s.iDataQueue.tail } }, r.s.iDataQueue.head?)
  | .pending => (r, none)
  | _ => ({ r with status := .failure }, none)

def logDiagnostics (s : DataQueue) : DataQueue :=
  if s.iDiagnosticsLogged then s
  else
    { s with
      iDiagnosticsLogged := true
      iDropFrameCount := 0 }

def clear (s : DataQueue) : DataQueue := { s.logDiagnostics with iDataQueue := [] }

end DataQueue

/-- A call of the user of the queue, or of its clock. -/
inductive Call
  | queueMediaData (msg : MediaMsg) (aFront memory aDropped aSkipped : Bool) (time : Nat → UInt32)
  | dequeueMediaData (aDropped aSkipped : Bool) (time : Nat → UInt32)
  | skipMediaData (aResumeTimestamp : UInt32) (aRenderSkippedData : Bool)
  | cancelSkipMediaData
  | clear
  | setLateFrameDropMode (aDropFrame : Bool)
  | setMargins (aEarlyMargin aLateMargin : UInt32)
  | setClock (aClock : Option Clock)
  | setClockForFrameStep (aClock : Option Clock)
  /-- the clock is given another timebase -/
  | timebaseUpdated (countTimebase : Option Int)
  /-- the count of the clock's timebase is set: a request to step frames -/
  | countUpdated (count : Int)

/-- The queue after a call. -/
def DataQueue.handle (s : DataQueue) : Call → DataQueue
  | .queueMediaData msg aFront memory aDropped aSkipped time =>
    (s.queueMediaData msg aFront memory time (.zero aDropped aSkipped)).s
  | .dequeueMediaData aDropped aSkipped time => (s.dequeueMediaData time (.zero aDropped aSkipped)).1.s
  | .skipMediaData aResumeTimestamp aRenderSkippedData =>
    { s with iSyncUtil := s.iSyncUtil.skipMediaData aResumeTimestamp aRenderSkippedData }
  | .cancelSkipMediaData => { s with iSyncUtil := s.iSyncUtil.cancelSkipMediaData }
  | .clear => s.clear
  | .setLateFrameDropMode aDropFrame => { s with iLateFrameDropEnable := aDropFrame }
  | .setMargins aEarlyMargin aLateMargin =>
    { s with iSyncUtil := s.iSyncUtil.setMargins aEarlyMargin aLateMargin }
  | .setClock aClock => (s.setClock aClock).1
  | .setClockForFrameStep aClock => (s.setClockForFrameStep aClock).1
  | .timebaseUpdated countTimebase =>
    { s with iClock := s.iClock.map fun _ => ⟨countTimebase⟩ }.clockTimebaseUpdated.1
  | .countUpdated count =>
    let setCount (clock : Clock) : Clock := ⟨clock.countTimebase.map fun _ => count⟩
    { s with iClock := s.iClock.map setCount }.clockCountUpdated.1

end Ftke.PvmfSyncUtil
