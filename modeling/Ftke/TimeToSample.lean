import Ftke.TableWindow
import Mathlib.Data.UInt

/-!
# Ftke.TimeToSample

The functions of the decoding time table (`timetosampleatom.cpp`) as computations over its entries,
and the positions that it and the composition offset table (`compositionoffsetatom.cpp`) keep for
reading in order.
-/

namespace Ftke.TimeToSample

/-- `PV_ERROR`. -/
def pvError : UInt32 := 0xFFFFFFFF

/-- A number of samples, with the time from one to the next or with their time offset. -/
structure Entry where
  sampleCount : UInt32
  value : UInt32
  deriving DecidableEq, Inhabited

variable {count : Nat}

/-- `getSampleCountAt`, `getSampleDeltaAt` and `getSampleOffsetAt`. -/
def getAt (count : Nat) (field : Entry → UInt32) (index : Nat) : Probe Entry UInt32 :=
  if index < count then .check index (.slot index fun e => .done (field e)) else .done pvError

/-! ## The searches -/

/-- The loop that goes back in the run that has passed `ts`. -/
def backtrack (ts delta : UInt32) : (fuel : Nat) → (sampleCount timeCount : UInt32) → Option UInt32
  | 0, _, _ => none
  | fuel + 1, sampleCount, timeCount =>
    if timeCount ≤ ts then backtrack ts delta fuel (sampleCount + 1) (timeCount + delta)
    else some (if sampleCount > 0 then sampleCount - 1 else sampleCount)

/-- The loop over the last run, from before its second sample on; `toEnd` is what follows it. -/
def lastRun (ts delta : UInt32) (toEnd : UInt32 → UInt32 → UInt32) : Nat → (sampleCount timeCount : UInt32) → UInt32
  | 0, sampleCount, timeCount => toEnd sampleCount timeCount
  | n + 1, sampleCount, timeCount =>
    if timeCount + delta > ts then if sampleCount + 1 > 0 then sampleCount else sampleCount + 1
    else if timeCount + delta = ts then sampleCount + 1
    else lastRun ts delta toEnd n (sampleCount + 1) (timeCount + delta)

/-- After the last run: its last sample, or an error unless a number is asked for in any case. -/
def pastEnd (ts : UInt32) (oAlwaysRetSampleCount visual : Bool) (sampleCount timeCount : UInt32) : UInt32 :=
  if ts ≥ timeCount ∧ (oAlwaysRetSampleCount ∨ visual) then sampleCount + 1 else pvError

/-- The search of `getSampleNumberFromTimestamp`, with `left` entries to go. -/
def sampleNumberLoop (count : Nat) (ts : UInt32) (oAlwaysRetSampleCount visual : Bool) (fuel : Nat) :
    (left i : Nat) → (sampleCount timeCount : UInt32) → Probe Entry (Option UInt32)
  | 0, _, sampleCount, timeCount =>
    .slot (count - 1) fun e =>
      .done <| some <|
        lastRun ts e.value (pastEnd ts oAlwaysRetSampleCount visual) (e.sampleCount - 1).toNat
          (sampleCount - e.sampleCount) (timeCount - e.value * e.sampleCount)
  | left + 1, i, sampleCount, timeCount =>
    .check i <|
      if ts < timeCount then
        .check (i - 1) <| .slot (i - 1) fun e =>
          .done (backtrack ts e.value fuel (sampleCount - e.sampleCount) (timeCount - e.value * e.sampleCount))
      else if ts = timeCount then .done (some sampleCount)
      else
        .slot i fun e =>
          sampleNumberLoop count ts oAlwaysRetSampleCount visual fuel left (i + 1) (sampleCount + e.sampleCount)
            (timeCount + e.value * e.sampleCount)

/-- `getSampleNumberFromTimestamp`; `visual` is a track of `MEDIA_TYPE_VISUAL`. -/
def getSampleNumberFromTimestamp (count : Nat) (ts : UInt32) (oAlwaysRetSampleCount visual : Bool) (fuel : Nat) :
    Probe Entry (Option UInt32) :=
  if count = 0 then .done (some pvError)
  else sampleNumberLoop count ts oAlwaysRetSampleCount visual fuel count 0 0 0

/-- The search of `getTimestampForSampleNumber`. -/
def timestampLoop (num : UInt32) : (left i : Nat) → (sampleCount ts : UInt32) → Probe Entry UInt32
  | 0, _, _, _ => .done pvError
  | left + 1, i, sampleCount, ts =>
    .check i <| .slot i fun e =>
      if num ≤ sampleCount + e.sampleCount then .done (ts + e.value * (num - sampleCount))
      else timestampLoop num left (i + 1) (sampleCount + e.sampleCount) (ts + e.value * e.sampleCount)

/-- `getTimestampForSampleNumber`. -/
def getTimestampForSampleNumber (count : Nat) (num : UInt32) : Probe Entry UInt32 :=
  if count = 0 then .done pvError else if num = 0 then .done 0 else timestampLoop num count 0 0 0

/-- The search of `getTimeDeltaForSampleNumber`. -/
def timeDeltaLoop (num : UInt32) : (left i : Nat) → (sampleCount : UInt32) → Probe Entry UInt32
  | 0, _, _ => .done pvError
  | left + 1, i, sampleCount =>
    .check i <| .slot i fun e =>
      if num ≤ sampleCount + e.sampleCount then .done e.value
      else timeDeltaLoop num left (i + 1) (sampleCount + e.sampleCount)

/-- `getTimeDeltaForSampleNumber`. -/
def getTimeDeltaForSampleNumber (count : Nat) (num : UInt32) : Probe Entry UInt32 :=
  if count = 0 then .done pvError else if num = 0 then .done 0 else timeDeltaLoop num count 0 0

/-! ## Reading in order -/

/-- `_currGetSampleCount`, `_currGetIndex + 1` and `_currGetTimeDelta` or `_currGetTimeOffset`, or
the same for Peek. -/
structure Position where
  sampleCount : UInt32
  nextIndex : Nat
  value : UInt32
  deriving DecidableEq

/-- Before the first entry. -/
def Position.start : Position := ⟨0, 0, 0⟩

/-- The position once the entry after it has been read. -/
def Position.add (p : Position) (e : Entry) : Position := ⟨p.sampleCount + e.sampleCount, p.nextIndex + 1, e.value⟩

/-- The loop that moves a position on, until there are samples before it. -/
def Position.next : (fuel : Nat) → Position → Probe Entry (Option Position)
  | 0, _ => .done none
  | fuel + 1, p =>
    .check p.nextIndex <| .slot p.nextIndex fun e =>
      if (p.add e).sampleCount = 0 then (p.add e).next fuel else .done (some (p.add e))

/-- `getTimeDeltaForSampleNumberGet` and `getTimeOffsetForSampleNumberGet`, and the same for Peek. -/
def Position.read (count fuel : Nat) (p : Position) (sampleNum : UInt32) :
    Probe Entry (Option (UInt32 × Position)) :=
  if count = 0 then .done (some (pvError, p))
  else if sampleNum < p.sampleCount then .done (some (p.value, p))
  else
    (p.next fuel).map fun moved =>
      moved.map fun p' => (if sampleNum < p'.sampleCount then p'.value else pvError, p')

/-- The loop of `resetStateVariables`. -/
def resetLoop (sampleNum : UInt32) : (left : Nat) → Position → Probe Entry (UInt32 × Position)
  | 0, p => .done (pvError, p)
  | left + 1, p =>
    .check p.nextIndex <| .slot p.nextIndex fun e =>
      if sampleNum ≤ (p.add e).sampleCount then .done (0, p.add e) else resetLoop sampleNum left (p.add e)

/-- The positions of Get and Peek. -/
structure Positions where
  get : Position
  peek : Position
  deriving DecidableEq

/-- Both positions are set to the same. -/
def Positions.both (p : Position) : Positions := ⟨p, p⟩

/-- A call of one of the functions. -/
inductive Call where
  | getSampleCountAt (index : Nat)
  | getSampleDeltaAt (index : Nat)
  | getSampleNumberFromTimestamp (ts : UInt32) (oAlwaysRetSampleCount : Bool)
  | getTimestampForSampleNumber (num : UInt32)
  | getTimeDeltaForSampleNumber (num : UInt32)
  | getTimeDeltaForSampleNumberPeek (sampleNum : UInt32)
  | getTimeDeltaForSampleNumberGet (sampleNum : UInt32)
  | resetStateVariables (sampleNum : UInt32)
  | resetPeekwithGet

/-- What a call does; `EVERYTHING_FINE` is 0. -/
def handle (count : Nat) (visual : Bool) (fuel : Nat) (c : Positions) :
    Call → Probe Entry (Option (UInt32 × Positions))
  | .getSampleCountAt index => (getAt count Entry.sampleCount index).map fun r => some (r, c)
  | .getSampleDeltaAt index => (getAt count Entry.value index).map fun r => some (r, c)
  | .getSampleNumberFromTimestamp ts always =>
    (getSampleNumberFromTimestamp count ts always visual fuel).map fun r => r.map (·, c)
  | .getTimestampForSampleNumber num => (getTimestampForSampleNumber count num).map fun r => some (r, c)
  | .getTimeDeltaForSampleNumber num => (getTimeDeltaForSampleNumber count num).map fun r => some (r, c)
  | .getTimeDeltaForSampleNumberPeek sampleNum =>
    (c.peek.read count fuel sampleNum).map fun r => r.map fun r => (r.1, { c with peek := r.2 })
  | .getTimeDeltaForSampleNumberGet sampleNum =>
    (c.get.read count fuel sampleNum).map fun r => r.map fun r => (r.1, { c with get := r.2 })
  | .resetStateVariables sampleNum => (resetLoop sampleNum count .start).map fun r => some (r.1, .both r.2)
  | .resetPeekwithGet => .done (some (0, .both c.get))

/-! ## Every entry that is read was checked -/

section

variable {entries : Nat → Entry} {within : Nat → Prop} {last : Option Nat}

theorem getAt_guarded (field : Entry → UInt32) (index : Nat) :
    (getAt count field index).Guarded entries (· < count) none := by
  unfold getAt
  split
  · exact ⟨‹_›, rfl, trivial⟩
  · trivial

theorem sampleNumberLoop_guarded (ts : UInt32) (always visual : Bool) (fuel : Nat) :
    ∀ {left i : Nat} {sampleCount timeCount : UInt32} {last : Option Nat}, i + left = count →
      (left = 0 → last = some (count - 1)) →
      (sampleNumberLoop count ts always visual fuel left i sampleCount timeCount).Guarded entries (· < count) last
  | 0, _, _, _, _, _, hlast => ⟨hlast rfl, trivial⟩
  | left + 1, i, _, timeCount, _, hcount, _ => by
    refine ⟨by omega, ?_⟩
    split
    · exact ⟨by omega, rfl, trivial⟩
    split
    · trivial
    · exact ⟨rfl, sampleNumberLoop_guarded ts always visual fuel (by omega) fun h => by rw [← hcount, h]; rfl⟩

theorem getSampleNumberFromTimestamp_guarded (ts : UInt32) (always visual : Bool) (fuel : Nat) :
    (getSampleNumberFromTimestamp count ts always visual fuel).Guarded entries (· < count) none := by
  unfold getSampleNumberFromTimestamp
  split
  · trivial
  · exact sampleNumberLoop_guarded ts always visual fuel (by omega) fun h => absurd h ‹_›

theorem timestampLoop_guarded (num : UInt32) : ∀ {left i : Nat} {sampleCount ts : UInt32} {last : Option Nat},
    i + left = count → (timestampLoop num left i sampleCount ts).Guarded entries (· < count) last
  | 0, _, _, _, _, _ => trivial
  | left + 1, i, _, _, _, hcount => by
    refine ⟨by omega, rfl, ?_⟩
    beta_reduce
    split
    · trivial
    · exact timestampLoop_guarded num (by omega)

theorem getTimestampForSampleNumber_guarded (num : UInt32) :
    (getTimestampForSampleNumber count num).Guarded entries (· < count) none := by
  unfold getTimestampForSampleNumber
  split
  · trivial
  split
  · trivial
  · exact timestampLoop_guarded num (by omega)

theorem timeDeltaLoop_guarded (num : UInt32) : ∀ {left i : Nat} {sampleCount : UInt32} {last : Option Nat},
    i + left = count → (timeDeltaLoop num left i sampleCount).Guarded entries (· < count) last
  | 0, _, _, _, _ => trivial
  | left + 1, i, _, _, hcount => by
    refine ⟨by omega, rfl, ?_⟩
    beta_reduce
    split
    · trivial
    · exact timeDeltaLoop_guarded num (by omega)

theorem getTimeDeltaForSampleNumber_guarded (num : UInt32) :
    (getTimeDeltaForSampleNumber count num).Guarded entries (· < count) none := by
  unfold getTimeDeltaForSampleNumber
  split
  · trivial
  split
  · trivial
  · exact timeDeltaLoop_guarded num (by omega)

theorem resetLoop_guarded (sampleNum : UInt32) : ∀ {left : Nat} {p : Position} {last : Option Nat},
    p.nextIndex + left = count → (resetLoop sampleNum left p).Guarded entries (· < count) last
  | 0, _, _, _ => trivial
  | left + 1, p, _, hcount => by
    refine ⟨by omega, rfl, ?_⟩
    beta_reduce
    split
    · trivial
    · exact resetLoop_guarded sampleNum (by simp only [Position.add]; omega)

/-- The table has an entry left that brings the position to where there are samples before it. -/
def Position.Left (entries : Nat → Entry) (count : Nat) (p : Position) : Prop :=
  ∃ j, p.nextIndex ≤ j ∧ j < count ∧ (if j = p.nextIndex then p.sampleCount else 0) + (entries j).sampleCount ≠ 0

theorem Position.next_guarded : ∀ {fuel : Nat} {p : Position} {last : Option Nat}, p.Left entries count →
    (p.next fuel).Guarded entries (· < count) last
  | 0, _, _, _ => trivial
  | fuel + 1, p, _, ⟨j, hle, hlt, hne⟩ => by
    refine ⟨by omega, rfl, ?_⟩
    beta_reduce
    split
    case isTrue hzero =>
      have hj : j ≠ p.nextIndex := by
        rintro rfl
        exact hne (by simpa [Position.add] using hzero)
      refine next_guarded ⟨j, by simp only [Position.add]; omega, hlt, ?_⟩
      rw [if_neg hj] at hne
      simpa only [hzero, ite_self] using hne
    case isFalse => trivial

/-- A read that the table has an answer for. -/
def Position.CanRead (entries : Nat → Entry) (count : Nat) (p : Position) (sampleNum : UInt32) : Prop :=
  count = 0 ∨ sampleNum < p.sampleCount ∨ p.Left entries count

theorem Position.read_guarded {p : Position} {sampleNum : UInt32} (fuel : Nat)
    (h : p.CanRead entries count sampleNum) : (p.read count fuel sampleNum).Guarded entries (· < count) none := by
  unfold Position.read
  split
  · trivial
  split
  · trivial
  · exact Probe.guarded_map _ (next_guarded ((h.resolve_left ‹_›).resolve_left ‹_›))

/-- The condition on the reads in order: they do not go past the last entry. -/
def InTable (entries : Nat → Entry) (count : Nat) (c : Positions) : Call → Prop
  | .getTimeDeltaForSampleNumberPeek sampleNum => c.peek.CanRead entries count sampleNum
  | .getTimeDeltaForSampleNumberGet sampleNum => c.get.CanRead entries count sampleNum
  | _ => True

theorem handle_guarded (visual : Bool) (fuel : Nat) (c : Positions) (call : Call)
    (h : InTable entries count c call) :
    (handle count visual fuel c call).Guarded entries (· < count) none := by
  cases call with
  | getSampleCountAt index => exact Probe.guarded_map _ (getAt_guarded _ index)
  | getSampleDeltaAt index => exact Probe.guarded_map _ (getAt_guarded _ index)
  | getSampleNumberFromTimestamp ts always =>
    exact Probe.guarded_map _ (getSampleNumberFromTimestamp_guarded ts always visual fuel)
  | getTimestampForSampleNumber num => exact Probe.guarded_map _ (getTimestampForSampleNumber_guarded num)
  | getTimeDeltaForSampleNumber num => exact Probe.guarded_map _ (getTimeDeltaForSampleNumber_guarded num)
  | getTimeDeltaForSampleNumberPeek sampleNum => exact Probe.guarded_map _ (Position.read_guarded fuel h)
  | getTimeDeltaForSampleNumberGet sampleNum => exact Probe.guarded_map _ (Position.read_guarded fuel h)
  | resetStateVariables sampleNum =>
    exact Probe.guarded_map _ (resetLoop_guarded sampleNum (by simp [Position.start]))
  | resetPeekwithGet => trivial

end

end Ftke.TimeToSample
