import Mathlib.Algebra.Ring.Nat
import Mathlib.Data.Nat.Basic

/-!
# Ftke.PvmfMediaClock

The times of `PVMFMediaClock` (`pvmf_media_clock.h`, `pvmf_media_clock.cpp`): a
clock in milliseconds or microseconds that follows the ticks of a timebase
while it runs, with its unit conversions, `Start`, `Pause`, `Stop`, the start
time, the timebase and the adjustment of a running clock.

All values are 32 bits wide.  `IsEarlier` compares them circularly; a running
clock adds to its latest clock time the ticks since the latest timebase time,
and the timebase time itself is the distance of the tick count from the tick
at which the clock was started.

The scheduling of callbacks (`AdjustScheduling`, `Cancel`) and the observers do
not touch the times and are left out here.
-/

namespace Ftke.PvmfMediaClock

/-! ## Circular comparison -/

/-- `WRAP_THRESHOLD`. -/
def wrapThreshold : UInt32 := 0x80000000

/-- `PVTimeComparisonUtils::IsEarlier`: whether the first time is the earlier one, and their distance. -/
def isEarlier (timeA timeB : UInt32) : Bool × UInt32 :=
  let delta := timeB - timeA
  if delta < wrapThreshold then (true, delta) else (false, 0 - delta)

/-! ## Units -/

/-- `PVMFMediaClock_TimeUnits`. -/
inductive TimeUnits
  | usec
  | msec
  | sec
  | min
  | hour
  | day
  deriving DecidableEq, Repr

/-- The units a clock may count in. -/
inductive ClockUnit
  | msec
  | usec
  deriving DecidableEq, Repr

/-- The time unit of a clock unit. -/
def ClockUnit.timeUnits : ClockUnit → TimeUnits
  | .msec => .msec
  | .usec => .usec

/-- The 64-bit cast of a 32-bit product: what is stored of it, and the overflow flag. -/
def lower32 (value : UInt32) : UInt32 × Bool :=
  let time64 := value.toUInt64
  (time64.toUInt32, decide (time64 > 0xFFFFFFFF))

/-- The milliseconds in one of a unit; a unit that the `switch` does not name counts once. -/
def msecConst : TimeUnits → UInt32
  | .sec => 1000
  | .min => 60000
  | .hour => 0x36EE80
  | .day => 0x5265C00
  | _ => 1

/-- The microseconds in one of a unit, in 32 bits. -/
def usecConst : TimeUnits → UInt32
  | .msec => 1000
  | .sec => 1000000
  | .min => 60000000
  | .hour => 0xD693A400
  | .day => 0x1DD76000
  | .usec => 1

/-- `ToClockUnit`: the value in the clock's unit, and the overflow flag. -/
def toClockUnit (unit : ClockUnit) (srcVal : UInt32) (srcUnits : TimeUnits) : UInt32 × Bool :=
  match unit with
  | .msec => if srcUnits = .usec then (srcVal / 1000, false) else lower32 (srcVal * msecConst srcUnits)
  | .usec => lower32 (srcVal * usecConst srcUnits)

/-- `FromClockUnit`: the value in the units asked for, and the overflow flag. -/
def fromClockUnit (unit : ClockUnit) (clockUnitVal : UInt32) (dstUnits : TimeUnits) : UInt32 × Bool :=
  match unit with
  | .msec => if dstUnits = .usec then lower32 (clockUnitVal * 1000) else (clockUnitVal / msecConst dstUnits, false)
  | .usec => (clockUnitVal / usecConst dstUnits, false)

@[simp] theorem lower32_fst (value : UInt32) : (lower32 value).1 = value := by simp [lower32]

@[simp] theorem fromClockUnit_self (unit : ClockUnit) (value : UInt32) :
    (fromClockUnit unit value unit.timeUnits).1 = value := by
  cases unit <;> simp [fromClockUnit, ClockUnit.timeUnits, msecConst, usecConst]

@[simp] theorem toClockUnit_self (unit : ClockUnit) (value : UInt32) :
    (toClockUnit unit value unit.timeUnits).1 = value := by
  cases unit <;> simp [toClockUnit, ClockUnit.timeUnits, msecConst, usecConst]

/-! ## The clock -/

/-- What a timebase reports: its tick count with the overflow flag, and the microseconds of a tick. -/
structure Timebase where
  tick : UInt32
  overflow : Bool
  resolution : UInt32
  deriving DecidableEq, Repr

/-- `PVMFMediaClockState`. -/
inductive ClockState
  | stopped
  | running
  | paused
  deriving DecidableEq, Repr

/-- The clock, with the members its times are made from. -/
structure PVMFMediaClock where
  state : ClockState
  clockTimebase : Option Timebase
  latestRunningClockTime : UInt32
  latestRunningTimebaseTime : UInt32
  startTimebaseTickValue : UInt32
  startClockTime : UInt32
  pauseClockTime : UInt32
  lastAdjustObsTimebaseTime : UInt32
  adjustmentTimebaseTime : UInt32
  clockUnit : ClockUnit
  previousClockUnit : ClockUnit
  highestLatency : UInt32
  deriving DecidableEq, Repr

/-- The constructor. -/
def new : PVMFMediaClock where
  state := .stopped
  clockTimebase := none
  latestRunningClockTime := 0
  latestRunningTimebaseTime := 0
  startTimebaseTickValue := 0
  startClockTime := 0
  pauseClockTime := 0
  lastAdjustObsTimebaseTime := 0
  adjustmentTimebaseTime := 0
  clockUnit := .msec
  previousClockUnit := .msec
  highestLatency := 0

namespace PVMFMediaClock

/-- `GetCurrentTick32`: zero without a timebase. -/
def getCurrentTick32 (c : PVMFMediaClock) : UInt32 × Bool :=
  match c.clockTimebase with
  | some timebase => (timebase.tick, timebase.overflow)
  | none => (0, false)

/-- `GetTimebaseResolution`. -/
def getTimebaseResolution (c : PVMFMediaClock) : UInt32 :=
  match c.clockTimebase with
  | some timebase => timebase.resolution
  | none => 0

/-- `GetScaledTimebaseTickCount`: the distance of the tick count from the start tick. -/
def getScaledTimebaseTickCount (c : PVMFMediaClock) : UInt32 × Bool :=
  ((isEarlier c.startTimebaseTickValue c.getCurrentTick32.1).2, c.getCurrentTick32.2)

/-- `UpdateLatestTimes`. -/
def updateLatestTimes (c : PVMFMediaClock) (time timebaseVal : UInt32) : PVMFMediaClock :=
  { c with latestRunningClockTime := time, latestRunningTimebaseTime := timebaseVal }

/-- `ConvertTickcountToClockUnits`. -/
def convertTickcountToClockUnits (c : PVMFMediaClock) (tickcount : UInt32) : UInt32 × Bool :=
  let usecPerTick := c.getTimebaseResolution
  let tbval := if usecPerTick ≠ 0 then tickcount * (usecPerTick / 1000) else 0
  toClockUnit c.clockUnit tbval .msec

/-- `GetAdjustedRunningClockTime`: the clock stands still until the timebase has passed the latest
timebase time. -/
def getAdjustedRunningClockTime (c : PVMFMediaClock) (timebaseVal : UInt32) : UInt32 :=
  let earlier := isEarlier c.latestRunningTimebaseTime timebaseVal
  if earlier.1 && earlier.2 != 0 then
    c.latestRunningClockTime + (c.convertTickcountToClockUnits earlier.2).1
  else c.latestRunningClockTime

/-- The clock time in the clock's unit, as `GetCurrentTime32` determines it. -/
def currentTime (c : PVMFMediaClock) : UInt32 :=
  match c.state with
  | .stopped => c.startClockTime
  | .paused => c.pauseClockTime
  | .running => c.getAdjustedRunningClockTime c.getScaledTimebaseTickCount.1

/-- What `GetCurrentTime32` returns. -/
structure Reading where
  clockTime : UInt32
  overflow : Bool
  timebaseTime : UInt32
  deriving DecidableEq, Repr

/-- `GetCurrentTime32`. -/
def getCurrentTime32 (c : PVMFMediaClock) (units : TimeUnits) : Reading where
  clockTime := (fromClockUnit c.clockUnit c.currentTime units).1
  overflow := c.getScaledTimebaseTickCount.2 || (fromClockUnit c.clockUnit c.currentTime units).2
  timebaseTime := c.getScaledTimebaseTickCount.1

/-- `AdjustClockInternalsToNewUnits`: the clock times, taken in the previous unit, in the new one. -/
def adjustClockInternalsToNewUnits (c : PVMFMediaClock) : PVMFMediaClock :=
  let convert := fun time => (toClockUnit c.clockUnit time c.previousClockUnit.timeUnits).1
  { c with
    latestRunningClockTime := convert c.latestRunningClockTime
    startClockTime := convert c.startClockTime
    pauseClockTime := convert c.pauseClockTime }

/-- The change of the clock unit that `SetStartTime32` and `AdjustClockTime32` begin with: microseconds if
they are asked for, milliseconds otherwise. -/
def changeClockUnit (c : PVMFMediaClock) (units : TimeUnits) : PVMFMediaClock :=
  let c' : PVMFMediaClock :=
    { c with
      previousClockUnit := c.clockUnit
      clockUnit := if units = .usec then .usec else .msec }
  if c'.previousClockUnit ≠ c'.clockUnit then c'.adjustClockInternalsToNewUnits else c'

@[simp] theorem changeClockUnit_state (c : PVMFMediaClock) (units : TimeUnits) :
    (c.changeClockUnit units).state = c.state := by
  simp only [changeClockUnit, apply_ite PVMFMediaClock.state, adjustClockInternalsToNewUnits, ite_self]

/-- `SetStartTime32`; only a stopped clock takes a start time. -/
def setStartTime32 (c : PVMFMediaClock) (time : UInt32) (units : TimeUnits) : PVMFMediaClock × Bool :=
  if c.state ≠ .stopped then (c, false)
  else
    let c' := c.changeClockUnit units
    ({ c' with startClockTime := (toClockUnit c'.clockUnit time units).1 }, true)

/-- The first part of `Start` from `STOPPED`: the clock is pushed back by the highest latency. -/
def pushBack (c : PVMFMediaClock) : PVMFMediaClock :=
  if c.highestLatency ≠ 0 then
    (c.setStartTime32 ((c.getCurrentTime32 c.clockUnit.timeUnits).clockTime - c.highestLatency)
      c.clockUnit.timeUnits).1
  else c

/-- The tick at which the clock is started, where there is a timebase to ask. -/
def takeStartTick (c : PVMFMediaClock) : PVMFMediaClock :=
  match c.clockTimebase with
  | some timebase => { c with startTimebaseTickValue := timebase.tick }
  | none => c

/-- `Start`. -/
def start (c : PVMFMediaClock) : PVMFMediaClock × Bool :=
  match c.state with
  | .running => (c, false)
  | .stopped =>
    let c' := c.pushBack.takeStartTick
    ({ c'.updateLatestTimes c'.startClockTime c'.getScaledTimebaseTickCount.1 with state := .running }, true)
  | .paused =>
    ({ c.updateLatestTimes c.pauseClockTime c.getScaledTimebaseTickCount.1 with state := .running }, true)

/-- `Pause`: the time is taken in milliseconds, whatever the unit of the clock. -/
def pause (c : PVMFMediaClock) : PVMFMediaClock × Bool :=
  if c.state ≠ .running then (c, false)
  else
    let reading := c.getCurrentTime32 .msec
    let c' := { c with pauseClockTime := reading.clockTime }
    ({ c'.updateLatestTimes reading.clockTime reading.timebaseTime with state := .paused }, true)

/-- `Stop`: the times go back to zero. -/
def stop (c : PVMFMediaClock) : PVMFMediaClock × Bool :=
  if c.state = .stopped then (c, false)
  else
    ({ c.updateLatestTimes 0 0 with
        startClockTime := 0
        pauseClockTime := 0
        lastAdjustObsTimebaseTime := 0
        adjustmentTimebaseTime := 0
        startTimebaseTickValue := 0
        state := .stopped }, true)

/-- `SetClockTimebase`, with the reset of the timebase history in `ClockTimebaseUpdated`. -/
def setClockTimebase (c : PVMFMediaClock) (timebase : Timebase) : PVMFMediaClock × Bool :=
  if c.state = .running then (c, false)
  else
    ({ c with
        clockTimebase := some timebase
        lastAdjustObsTimebaseTime := 0
        adjustmentTimebaseTime := 0
        startTimebaseTickValue := 0 }, true)

/-- `ConstructMediaClockNotificationsInterface`, with `UpdateHighestLatency`; not while running. -/
def constructMediaClockNotificationsInterface (c : PVMFMediaClock) (latency : UInt32) : PVMFMediaClock :=
  if c.state = .running then c
  else if c.highestLatency < latency then { c with highestLatency := latency }
  else c

/-- `DestroyMediaClockNotificationsInterface`: the highest latency is forgotten. -/
def destroyMediaClockNotificationsInterface (c : PVMFMediaClock) : PVMFMediaClock :=
  { c with highestLatency := 0 }

end PVMFMediaClock

end Ftke.PvmfMediaClock
