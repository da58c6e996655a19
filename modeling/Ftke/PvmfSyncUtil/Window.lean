import Ftke.PvmfSyncUtil
import Mathlib.Algebra.Ring.Int.Defs
import Mathlib.Algebra.Ring.Nat

/-!
# Ftke.PvmfSyncUtil.Window

What `SyncMediaData` says of a frame, against the place of the frame's display interval and
of the window around the clock, both taken from the clock on modulo 2^32.

`SyncMediaData` compares the ends of the interval and of the window as numbers of 32 bits,
and looks for an end of the interval in the window, so that it errs when the window goes
over the end of the numbers, when the frame is half of them away, and when the frame
contains the window.
-/

namespace Ftke.PvmfSyncUtil

/-! ## Frames and the window -/

/-- How far a time is ahead of the clock; less than nothing for one that has passed. -/
def distance (timestamp clock : UInt32) : Int :=
  if (timestamp - clock).toNat < 2 ^ 31 then (timestamp - clock).toNat else (timestamp - clock).toNat - 2 ^ 32

/-- A message without a timestamp is taken for one at time 0. -/
def dataTimestamp (aTimestamp : UInt32) : UInt32 := if aTimestamp = 0xFFFFFFFF then 0 else aTimestamp

namespace SyncUtil

variable (u : SyncUtil) (currentTime timestamp duration : UInt32)

/-- The whole frame lies before the window. -/
def Before : Prop := distance timestamp currentTime + duration.toNat < -(u.iLateMargin.toNat : Int)

/-- The frame starts behind the window. -/
def Behind : Prop := (u.iEarlyMargin.toNat : Int) < distance timestamp currentTime

def OnTime : Prop := ¬u.Before currentTime timestamp duration ∧ ¬u.Behind currentTime timestamp

/-- The utility with a clock, when nothing is skipped. -/
def clocked : SyncUtil := u.cancelSkipMediaData.setClock true

/-- The status is that of the frame's place; the delay of an early frame is the smallest wait
behind which it is on time. -/
structure Classifies (aTimestamp : UInt32) (aMillisecondsEarly : UInt32) : Prop where
  late : (u.clocked.syncMediaData currentTime aTimestamp duration aMillisecondsEarly).1 = .late →
    u.Before currentTime (dataTimestamp aTimestamp) duration
  early : (u.clocked.syncMediaData currentTime aTimestamp duration aMillisecondsEarly).1 = .early →
    u.Behind currentTime (dataTimestamp aTimestamp) ∧
    ∀ wait ≤ (u.clocked.syncMediaData currentTime aTimestamp duration aMillisecondsEarly).2.1,
      (u.OnTime (currentTime + wait) (dataTimestamp aTimestamp) duration ↔
        wait = (u.clocked.syncMediaData currentTime aTimestamp duration aMillisecondsEarly).2.1)
  otherwise : u.OnTime currentTime (dataTimestamp aTimestamp) duration →
    (u.clocked.syncMediaData currentTime aTimestamp duration aMillisecondsEarly).1 = .onTime

/-- The end of the frame lies in the window, as numbers. -/
def EndsInside : Prop :=
  u.iLateMargin < currentTime ∧ currentTime - u.iLateMargin ≤ timestamp + duration ∧
    timestamp + duration ≤ currentTime + u.iEarlyMargin

/-- A frame that starts above the window's end, as numbers, ends in the window, or is less than
half of the numbers ahead of the clock, and, when the window goes over the end of the
numbers, is below the clock.  One that starts below the window ends in it, or ends before
it and is no more than half of the numbers behind the clock. -/
def Told : Prop :=
  (currentTime + u.iEarlyMargin < timestamp →
    u.EndsInside currentTime timestamp duration ∨
      ((timestamp - currentTime).toNat < 2 ^ 31 ∧
        ¬(2 ^ 32 ≤ currentTime.toNat + u.iEarlyMargin.toNat ∧ currentTime ≤ timestamp))) ∧
  (timestamp ≤ currentTime + u.iEarlyMargin → u.iLateMargin < currentTime →
    timestamp < currentTime - u.iLateMargin →
    u.EndsInside currentTime timestamp duration ∨
      (currentTime.toNat ≤ timestamp.toNat + 2 ^ 31 ∧
        timestamp.toNat + duration.toNat < currentTime.toNat - u.iLateMargin.toNat))

end SyncUtil

/-! ## Distances -/

variable {u : SyncUtil} {currentTime timestamp duration : UInt32}

theorem behind_iff (habove : currentTime + u.iEarlyMargin < timestamp) :
    u.Behind currentTime timestamp ↔ (timestamp - currentTime).toNat < 2 ^ 31 ∧
      ¬(2 ^ 32 ≤ currentTime.toNat + u.iEarlyMargin.toNat ∧ currentTime ≤ timestamp) := by
  have hclock := currentTime.toNat_lt
  have htime := timestamp.toNat_lt
  have hearly := u.iEarlyMargin.toNat_lt
  rw [UInt32.lt_iff_toNat_lt, UInt32.toNat_add] at habove
  rw [SyncUtil.Behind, distance, UInt32.le_iff_toNat_le, UInt32.toNat_sub]
  split <;> omega

theorem before_iff (hwindow : u.iLateMargin < currentTime) (hbelow : timestamp < currentTime - u.iLateMargin) :
    u.Before currentTime timestamp duration ↔ currentTime.toNat ≤ timestamp.toNat + 2 ^ 31 ∧
      timestamp.toNat + duration.toNat < currentTime.toNat - u.iLateMargin.toNat := by
  have hclock := currentTime.toNat_lt
  have htime := timestamp.toNat_lt
  have hle : u.iLateMargin ≤ currentTime := UInt32.le_of_lt hwindow
  rw [UInt32.lt_iff_toNat_lt] at hwindow hbelow
  rw [UInt32.toNat_sub_of_le _ _ hle] at hbelow
  rw [SyncUtil.Before, distance, UInt32.toNat_sub]
  split <;> omega

theorem onTime_iff (hbehind : u.Behind currentTime timestamp) {wait : UInt32}
    (hwait : wait ≤ timestamp - currentTime - u.iEarlyMargin) :
    u.OnTime (currentTime + wait) timestamp duration ↔ wait = timestamp - currentTime - u.iEarlyMargin := by
  have hearly := u.iEarlyMargin.toNat_lt
  have hahead := (timestamp - currentTime).toNat_lt
  have hsub : timestamp - (currentTime + wait) = timestamp - currentTime - wait := by
    have hclock := currentTime.toNat_lt
    have htime := timestamp.toNat_lt
    have hlater := wait.toNat_lt
    apply UInt32.toNat_inj.mp
    rw [UInt32.toNat_sub, UInt32.toNat_add, UInt32.toNat_sub, UInt32.toNat_sub]
    omega
  rw [SyncUtil.Behind, distance] at hbehind
  rw [SyncUtil.OnTime, SyncUtil.Before, SyncUtil.Behind, distance, hsub]
  generalize timestamp - currentTime = ahead at *
  have hle : u.iEarlyMargin ≤ ahead := by
    rw [UInt32.le_iff_toNat_le]
    split at hbehind <;> omega
  rw [UInt32.le_iff_toNat_le, UInt32.toNat_sub_of_le _ _ hle] at hwait
  have hle' : wait ≤ ahead := by
    rw [UInt32.le_iff_toNat_le]
    omega
  rw [← UInt32.toNat_inj, UInt32.toNat_sub_of_le _ _ hle, UInt32.toNat_sub_of_le _ _ hle']
  split at hbehind <;> split <;> omega

/-! ## The status -/

theorem syncMediaData_clocked (aTimestamp aMillisecondsEarly : UInt32) :
    u.clocked.syncMediaData currentTime aTimestamp duration aMillisecondsEarly =
      if u.inSync currentTime (dataTimestamp aTimestamp) duration then (.onTime, aMillisecondsEarly, u.clocked)
      else if dataTimestamp aTimestamp > currentTime + u.iEarlyMargin then
        (.early, dataTimestamp aTimestamp - currentTime - u.iEarlyMargin, u.clocked)
      else (.late, currentTime + u.iEarlyMargin - dataTimestamp aTimestamp, u.clocked) := rfl

theorem inSync_above (habove : currentTime + u.iEarlyMargin < timestamp) :
    u.inSync currentTime timestamp duration = true ↔ u.EndsInside currentTime timestamp duration := by
  have hnot : ¬timestamp ≤ currentTime + u.iEarlyMargin := UInt32.not_le.mpr habove
  by_cases hwindow : u.iLateMargin < currentTime
  · simp [SyncUtil.inSync, SyncUtil.EndsInside, hwindow, hnot]
  · simp [SyncUtil.inSync, SyncUtil.EndsInside, hwindow, hnot]

theorem inSync_below (hbelow : timestamp ≤ currentTime + u.iEarlyMargin) :
    u.inSync currentTime timestamp duration = true ↔
      (u.iLateMargin < currentTime → timestamp < currentTime - u.iLateMargin →
        u.EndsInside currentTime timestamp duration) := by
  by_cases hwindow : u.iLateMargin < currentTime
  · by_cases hstart : timestamp < currentTime - u.iLateMargin
    · simp [SyncUtil.inSync, SyncUtil.EndsInside, hwindow, hstart, UInt32.not_le.mpr hstart]
    · simp [SyncUtil.inSync, SyncUtil.EndsInside, hwindow, hstart, UInt32.not_lt.mp hstart, hbelow]
  · simp [SyncUtil.inSync, SyncUtil.EndsInside, hwindow, hbelow]

variable {aTimestamp aMillisecondsEarly : UInt32}

theorem classifies_of_inSync (h : u.inSync currentTime (dataTimestamp aTimestamp) duration = true) :
    u.Classifies currentTime duration aTimestamp aMillisecondsEarly := by
  constructor <;> rw [syncMediaData_clocked, if_pos h] <;> intro hstatus
  · contradiction
  · contradiction
  · rfl

theorem classifies_above (habove : currentTime + u.iEarlyMargin < dataTimestamp aTimestamp)
    (hout : u.inSync currentTime (dataTimestamp aTimestamp) duration ≠ true) :
    u.Classifies currentTime duration aTimestamp aMillisecondsEarly ↔
      u.Behind currentTime (dataTimestamp aTimestamp) := by
  have hsync : u.clocked.syncMediaData currentTime aTimestamp duration aMillisecondsEarly = _ :=
    syncMediaData_clocked aTimestamp aMillisecondsEarly
  rw [if_neg hout, if_pos habove] at hsync
  constructor
  · intro h
    exact (h.early (by rw [hsync])).1
  · intro hbehind
    constructor <;> rw [hsync] <;> intro hstatus
    · contradiction
    · exact ⟨hbehind, fun wait hwait => onTime_iff hbehind hwait⟩
    · exact absurd hbehind hstatus.2

theorem classifies_below (hbelow : dataTimestamp aTimestamp ≤ currentTime + u.iEarlyMargin)
    (hout : u.inSync currentTime (dataTimestamp aTimestamp) duration ≠ true) :
    u.Classifies currentTime duration aTimestamp aMillisecondsEarly ↔
      u.Before currentTime (dataTimestamp aTimestamp) duration := by
  have hsync : u.clocked.syncMediaData currentTime aTimestamp duration aMillisecondsEarly = _ :=
    syncMediaData_clocked aTimestamp aMillisecondsEarly
  rw [if_neg hout, if_neg (UInt32.not_lt.mpr hbelow)] at hsync
  constructor
  · intro h
    exact h.late (by rw [hsync])
  · intro hbefore
    constructor <;> rw [hsync] <;> intro hstatus
    · exact hbefore
    · contradiction
    · exact absurd hbefore hstatus.1

/-- **A frame is classified by its place exactly when `Told` holds of it.** -/
theorem classifies_iff (u : SyncUtil) (currentTime aTimestamp duration aMillisecondsEarly : UInt32) :
    u.Classifies currentTime duration aTimestamp aMillisecondsEarly ↔
      u.Told currentTime (dataTimestamp aTimestamp) duration := by
  by_cases habove : currentTime + u.iEarlyMargin < dataTimestamp aTimestamp
  · have hnot : ¬dataTimestamp aTimestamp ≤ currentTime + u.iEarlyMargin := UInt32.not_le.mpr habove
    by_cases hin : u.EndsInside currentTime (dataTimestamp aTimestamp) duration
    · have hsync := (inSync_above habove).mpr hin
      exact iff_of_true (classifies_of_inSync hsync) ⟨fun _ => .inl hin, fun h => absurd h hnot⟩
    · have hsync := mt (inSync_above habove).mp hin
      rw [classifies_above habove hsync, behind_iff habove, SyncUtil.Told]
      exact ⟨fun h => ⟨fun _ => .inr h, fun hle => absurd hle hnot⟩, fun h => (h.1 habove).resolve_left hin⟩
  · have hbelow : dataTimestamp aTimestamp ≤ currentTime + u.iEarlyMargin := UInt32.not_lt.mp habove
    by_cases hsync : u.inSync currentTime (dataTimestamp aTimestamp) duration = true
    · have hin := (inSync_below hbelow).mp hsync
      exact iff_of_true (classifies_of_inSync hsync)
        ⟨fun h => absurd h habove, fun _ hwindow hstart => .inl (hin hwindow hstart)⟩
    · have hout := mt (inSync_below hbelow).mpr hsync
      rw [Classical.not_imp, Classical.not_imp] at hout
      obtain ⟨hwindow, hstart, hin⟩ := hout
      rw [classifies_below hbelow hsync, before_iff hwindow hstart, SyncUtil.Told]
      exact ⟨fun h => ⟨fun h' => absurd h' habove, fun _ _ _ => .inr h⟩,
        fun h => (h.2 hbelow hwindow hstart).resolve_left hin⟩

/-- A frame of a second that contains the window is late, and a frame 2 ms ahead is early when
the window goes over the end of the numbers. -/
theorem frame_around_the_window_is_late :
    ¬SyncUtil.new.Classifies 500 1000 0 0 ∧ ¬SyncUtil.new.Classifies 0xFFFFFFFB 40 0xFFFFFFFD 0 := by
  constructor <;> intro h
  · have hlate := h.late rfl
    rw [SyncUtil.Before] at hlate
    exact absurd hlate (by decide)
  · have hearly := (h.early rfl).1
    rw [SyncUtil.Behind] at hearly
    exact absurd hearly (by decide)

end Ftke.PvmfSyncUtil
