import Mathlib.Algebra.Ring.Nat
import Ftke.PvmfMediaClock
import Ftke.Run

/-!
# Ftke.PvmfMediaClock.Continuity

The clock follows its timebase: between two moments of one period in which it
is not stopped, the clock time moves on by the progress that the timebase has
made while the clock was running, and by nothing else.

* `Meets` — the steps of which this holds: a running clock is paused only if
  it counts in milliseconds, its ticks are whole milliseconds, and it is read
  within half of the tick range since it was started;
* `currentTime_tick` — a running clock advances by the progress of its timebase;
* `follows_timebase_of_run` — the clock over whole runs;
* `pause_jumps` — a clock in microseconds that is paused falls back.
-/

namespace Ftke.PvmfMediaClock

/-! ## Calls -/

/-- What may happen to a clock: the calls, and the passing of ticks in its timebase. -/
inductive Call
  | setStartTime32 (time : UInt32) (units : TimeUnits)
  | setClockTimebase (timebase : Timebase)
  | constructMediaClockNotificationsInterface (latency : UInt32)
  | destroyMediaClockNotificationsInterface
  | start
  | pause
  | stop
  | getCurrentTime32 (units : TimeUnits)
  | tick (count : Nat) (overflow : Bool)
  deriving DecidableEq, Repr

/-- The timebase after `count` more ticks; its tick count is 32 bits wide. -/
def Timebase.after (timebase : Timebase) (count : Nat) (overflow : Bool) : Timebase :=
  { timebase with
    tick := timebase.tick + UInt32.ofNat count
    overflow := overflow }

/-- The microseconds of a clock unit. -/
def ClockUnit.usecPer : ClockUnit → Nat
  | .msec => 1000
  | .usec => 1

/-- The clock units of a millisecond. -/
def ClockUnit.perMsec : ClockUnit → UInt32
  | .msec => 1
  | .usec => 1000

namespace PVMFMediaClock

/-- The clock after a call. -/
def handle (c : PVMFMediaClock) : Call → PVMFMediaClock
  | .setStartTime32 time units => (c.setStartTime32 time units).1
  | .setClockTimebase timebase => (c.setClockTimebase timebase).1
  | .constructMediaClockNotificationsInterface latency => c.constructMediaClockNotificationsInterface latency
  | .destroyMediaClockNotificationsInterface => c.destroyMediaClockNotificationsInterface
  | .start => c.start.1
  | .pause => c.pause.1
  | .stop => c.stop.1
  | .getCurrentTime32 _ => c
  | .tick count overflow => { c with clockTimebase := c.clockTimebase.map fun timebase => timebase.after count overflow }

/-- The time that the timebase advances by during a call while the clock runs, in the clock's unit. -/
def progress (c : PVMFMediaClock) : Call → Nat
  | .tick count _ =>
    if c.state = .running then count * c.getTimebaseResolution.toNat / c.clockUnit.usecPer else 0
  | _ => 0

/-- The progress of the timebase over a sequence of calls, while the clock runs. -/
def progressed (c : PVMFMediaClock) : List Call → Nat
  | [] => 0
  | call :: calls => c.progress call + progressed (c.handle call) calls

/-- The ticks since the one at which the clock was started. -/
def elapsed (c : PVMFMediaClock) : UInt32 := c.getCurrentTick32.1 - c.startTimebaseTickValue

end PVMFMediaClock

open PVMFMediaClock

/-- The steps of which the clock keeps its time: while it runs it is paused only if it counts in
milliseconds, and the ticks that pass are whole milliseconds within half of the tick range. -/
def Meets (c : PVMFMediaClock) : Call → Prop
  | .pause => c.state = .running → c.clockUnit = .msec
  | .tick count _ => c.state = .running → c.clockTimebase ≠ none →
      c.getTimebaseResolution % 1000 = 0 ∧ c.elapsed.toNat + count < 2 ^ 31
  | _ => True

instance (c : PVMFMediaClock) : (call : Call) → Decidable (Meets c call)
  | .setStartTime32 _ _ => isTrue trivial
  | .setClockTimebase _ => isTrue trivial
  | .constructMediaClockNotificationsInterface _ => isTrue trivial
  | .destroyMediaClockNotificationsInterface => isTrue trivial
  | .start => isTrue trivial
  | .pause => inferInstanceAs (Decidable (_ → _))
  | .stop => isTrue trivial
  | .getCurrentTime32 _ => isTrue trivial
  | .tick _ _ => inferInstanceAs (Decidable (_ → _ → _ ∧ _))

/-! ## A running clock -/

/-- What a tick adds to the time of a running clock, in the clock's unit. -/
def perTick (c : PVMFMediaClock) : UInt32 :=
  c.getTimebaseResolution / 1000 * c.clockUnit.perMsec

theorem convertTickcountToClockUnits_eq (c : PVMFMediaClock) (tickcount : UInt32) :
    (c.convertTickcountToClockUnits tickcount).1 = tickcount * perTick c := by
  unfold convertTickcountToClockUnits perTick
  by_cases hzero : c.getTimebaseResolution = 0
  · cases hunit : c.clockUnit <;> simp [hzero, toClockUnit]
  · cases hunit : c.clockUnit <;>
      simp [hzero, toClockUnit, msecConst, usecConst, ClockUnit.perMsec, UInt32.mul_assoc]

theorem isEarlier_of_lt {timeA timeB : UInt32} (h : (timeB - timeA).toNat < 2 ^ 31) :
    isEarlier timeA timeB = (true, timeB - timeA) := by
  have hlt : timeB - timeA < wrapThreshold := UInt32.lt_iff_toNat_lt.mpr h
  rw [isEarlier, if_pos hlt]

/-- The clock's latest timebase time is not behind its tick count. -/
def Ready (c : PVMFMediaClock) : Prop :=
  c.state = .running → c.elapsed.toNat < 2 ^ 31 → c.latestRunningTimebaseTime.toNat ≤ c.elapsed.toNat

variable {c d : PVMFMediaClock}

theorem currentTime_running (hready : Ready c) (hrunning : c.state = .running)
    (helapsed : c.elapsed.toNat < 2 ^ 31) :
    c.currentTime = c.latestRunningClockTime + (c.elapsed - c.latestRunningTimebaseTime) * perTick c := by
  have hle := hready hrunning helapsed
  have hscaled : c.getScaledTimebaseTickCount.1 = c.elapsed := by
    rw [getScaledTimebaseTickCount]
    exact congrArg Prod.snd (isEarlier_of_lt helapsed)
  have hsub : (c.elapsed - c.latestRunningTimebaseTime).toNat < 2 ^ 31 := by
    rw [UInt32.toNat_sub_of_le _ _ (UInt32.le_iff_toNat_le.mpr hle)]
    omega
  rw [currentTime, hrunning]
  simp only [getAdjustedRunningClockTime, hscaled, isEarlier_of_lt hsub, Bool.true_and]
  split
  · rw [convertTickcountToClockUnits_eq]
  · next hzero =>
      have heq : c.elapsed - c.latestRunningTimebaseTime = 0 := by simpa using hzero
      rw [heq]
      simp

theorem toNat_add_ofNat {x : UInt32} {count : Nat} (h : x.toNat + count < 2 ^ 31) :
    (x + UInt32.ofNat count).toNat = x.toNat + count := by
  rw [UInt32.toNat_add, UInt32.toNat_ofNat']
  omega

theorem ofNat_progress (hmsec : c.getTimebaseResolution % 1000 = 0) (count : Nat) :
    UInt32.ofNat (count * c.getTimebaseResolution.toNat / c.clockUnit.usecPer) = UInt32.ofNat count * perTick c := by
  have hres : c.getTimebaseResolution.toNat = c.getTimebaseResolution.toNat / 1000 * 1000 := by
    have h := congrArg UInt32.toNat hmsec
    rw [UInt32.toNat_mod] at h
    have h1000 : (1000 : UInt32).toNat = 1000 := rfl
    have h0 : (0 : UInt32).toNat = 0 := rfl
    rw [h1000, h0] at h
    omega
  have hdiv : UInt32.ofNat (c.getTimebaseResolution.toNat / 1000) = c.getTimebaseResolution / 1000 := by
    apply UInt32.toNat_inj.mp
    rw [UInt32.toNat_div, UInt32.toNat_ofNat']
    have hlt := c.getTimebaseResolution.toNat_lt
    have h1000 : (1000 : UInt32).toNat = 1000 := rfl
    rw [h1000]
    omega
  rw [perTick, ← hdiv]
  cases hunit : c.clockUnit with
  | msec =>
    have hmul : count * c.getTimebaseResolution.toNat / ClockUnit.usecPer .msec =
        count * (c.getTimebaseResolution.toNat / 1000) := by
      rw [hres, ClockUnit.usecPer, ← Nat.mul_assoc, Nat.mul_div_cancel _ (by omega),
        Nat.mul_div_cancel _ (by omega)]
    rw [hmul, UInt32.ofNat_mul]
    simp [ClockUnit.perMsec]
  | usec =>
    have hmul : count * c.getTimebaseResolution.toNat / ClockUnit.usecPer .usec =
        count * (c.getTimebaseResolution.toNat / 1000 * 1000) := by
      rw [← hres, ClockUnit.usecPer, Nat.div_one]
    rw [hmul, UInt32.ofNat_mul, UInt32.ofNat_mul]
    rfl

/-- **A running clock** advances by the progress of its timebase. -/
theorem currentTime_tick {count : Nat} {overflow : Bool} (hready : Ready c)
    (hrunning : c.state = .running) (hmeets : Meets c (.tick count overflow)) :
    Ready (c.handle (.tick count overflow)) ∧
      (c.handle (.tick count overflow)).currentTime =
        c.currentTime + UInt32.ofNat (c.progress (.tick count overflow)) := by
  cases htimebase : c.clockTimebase with
  | none =>
    have hsame : c.handle (.tick count overflow) = c := by
      cases c
      simp_all [handle]
    have hprogress : c.progress (.tick count overflow) = 0 := by
      simp [progress, getTimebaseResolution, htimebase]
    rw [hsame, hprogress]
    exact ⟨hready, by simp⟩
  | some timebase =>
    obtain ⟨hmsec, hhalf⟩ := hmeets hrunning (by simp [htimebase])
    have hrunning' : (c.handle (.tick count overflow)).state = .running := hrunning
    have helapsed' : (c.handle (.tick count overflow)).elapsed = c.elapsed + UInt32.ofNat count := by
      simp [handle, elapsed, getCurrentTick32, htimebase, Timebase.after]
      grind
    have hnat : (c.handle (.tick count overflow)).elapsed.toNat = c.elapsed.toNat + count := by
      rw [helapsed', toNat_add_ofNat hhalf]
    have hlt : c.elapsed.toNat < 2 ^ 31 := by omega
    have hready' : Ready (c.handle (.tick count overflow)) := by
      intro _ _
      have hle := hready hrunning hlt
      rw [hnat]
      exact Nat.le_trans hle (Nat.le_add_right _ _)
    have hper : perTick (c.handle (.tick count overflow)) = perTick c := by
      simp [perTick, handle, getTimebaseResolution, htimebase, Timebase.after]
    refine ⟨hready', ?_⟩
    rw [currentTime_running hready' hrunning' (by rw [hnat]; exact hhalf), currentTime_running hready hrunning hlt,
      hper, helapsed', progress, if_pos hrunning, ofNat_progress hmsec]
    have hclock : (c.handle (.tick count overflow)).latestRunningClockTime = c.latestRunningClockTime := rfl
    have hbase : (c.handle (.tick count overflow)).latestRunningTimebaseTime = c.latestRunningTimebaseTime := rfl
    rw [hclock, hbase]
    grind

/-! ## The other calls -/

theorem ready_of_scaled (h : c.latestRunningTimebaseTime = c.getScaledTimebaseTickCount.1) :
    Ready c := by
  intro _ hlt
  have hscaled : c.getScaledTimebaseTickCount.1 = c.elapsed := congrArg Prod.snd (isEarlier_of_lt hlt)
  rw [h, hscaled]

theorem ready_of_not_running (h : c.state ≠ .running) : Ready c :=
  fun hrunning => absurd hrunning h

/-- A running clock whose latest timebase time is the present one shows its latest clock time. -/
theorem currentTime_of_scaled (hrunning : c.state = .running)
    (h : c.latestRunningTimebaseTime = c.getScaledTimebaseTickCount.1) :
    c.currentTime = c.latestRunningClockTime := by
  have hself : isEarlier c.getScaledTimebaseTickCount.1 c.getScaledTimebaseTickCount.1 = (true, 0) := by
    rw [isEarlier_of_lt] <;> simp
  rw [currentTime, hrunning]
  simp [getAdjustedRunningClockTime, h, hself]

theorem ready_handle {call : Call} (hready : Ready c) (hmeets : Meets c call) :
    Ready (c.handle call) := by
  cases call with
  | setStartTime32 time units =>
    rw [handle, setStartTime32]
    split
    · exact hready
    · next hstopped =>
        exact ready_of_not_running (by simp_all)
  | setClockTimebase timebase =>
    rw [handle, setClockTimebase]
    split
    · exact hready
    · next hidle => exact ready_of_not_running hidle
  | constructMediaClockNotificationsInterface latency =>
    rw [handle, constructMediaClockNotificationsInterface]
    split
    · exact hready
    · split
      · exact hready
      · exact hready
  | destroyMediaClockNotificationsInterface => exact hready
  | start =>
    rw [handle, PVMFMediaClock.start]
    split
    · exact hready
    · exact ready_of_scaled rfl
    · exact ready_of_scaled rfl
  | pause =>
    rw [handle, pause]
    split
    · exact hready
    · exact ready_of_not_running (by simp)
  | stop =>
    rw [handle, stop]
    split
    · exact hready
    · exact ready_of_not_running (by simp)
  | getCurrentTime32 units => exact hready
  | tick count overflow =>
    by_cases hrunning : c.state = .running
    · exact (currentTime_tick hready hrunning hmeets).1
    · exact ready_of_not_running hrunning

/-- What a clock that is not stopped shows, its unit, and that it is not stopped. -/
structure Goes (c : PVMFMediaClock) (time : UInt32) (unit : ClockUnit) : Prop where
  notStopped : c.state ≠ .stopped
  time : c.currentTime = time
  unit : c.clockUnit = unit

/-- **One step**: unless it is stopped, the clock moves on by the progress of its timebase while it
runs, and by nothing else. -/
theorem goes_handle {call : Call} (hready : Ready c) (hmeets : Meets c call)
    (hgoing : c.state ≠ .stopped) (hstop : call ≠ .stop) :
    Goes (c.handle call) (c.currentTime + UInt32.ofNat (c.progress call)) c.clockUnit := by
  have hstays : Goes c (c.currentTime + UInt32.ofNat 0) c.clockUnit := ⟨hgoing, by simp, rfl⟩
  have hlatency : ∀ latency, Goes { c with highestLatency := latency } (c.currentTime + UInt32.ofNat 0) c.clockUnit :=
    fun _ => ⟨hgoing, (UInt32.add_zero c.currentTime).symm, rfl⟩
  cases call with
  | setStartTime32 time units =>
    rw [handle, setStartTime32, if_pos hgoing]
    exact hstays
  | setClockTimebase timebase =>
    rw [handle, setClockTimebase]
    split
    · exact hstays
    · next hidle =>
        have hpaused : c.state = .paused := by
          cases hstate : c.state <;> simp_all
        exact ⟨hgoing, by simp [currentTime, hpaused, progress], rfl⟩
  | constructMediaClockNotificationsInterface latency =>
    rw [handle, constructMediaClockNotificationsInterface]
    split
    · exact hstays
    · split
      · exact hlatency latency
      · exact hstays
  | destroyMediaClockNotificationsInterface => exact hlatency 0
  | start =>
    rw [handle, PVMFMediaClock.start]
    split
    · exact hstays
    · next hstate => exact absurd hstate hgoing
    · next hstate =>
        refine ⟨by simp, ?_, rfl⟩
        rw [currentTime_of_scaled rfl rfl]
        simp [currentTime, hstate, progress, updateLatestTimes]
  | pause =>
    rw [handle, pause]
    split
    · exact hstays
    · next hstate =>
        have hrunning : c.state = .running := by simpa using hstate
        have hunit : c.clockUnit = .msec := hmeets hrunning
        have hself := fromClockUnit_self c.clockUnit c.currentTime
        rw [hunit, ClockUnit.timeUnits] at hself
        have hpause : (fromClockUnit c.clockUnit c.currentTime .msec).1 = c.currentTime + UInt32.ofNat 0 := by
          rw [hunit, hself]
          exact (UInt32.add_zero _).symm
        exact ⟨by simp, hpause, rfl⟩
  | stop => exact absurd rfl hstop
  | getCurrentTime32 units => exact hstays
  | tick count overflow =>
    by_cases hrunning : c.state = .running
    · exact ⟨hgoing, (currentTime_tick hready hrunning hmeets).2, rfl⟩
    · have hpaused : c.state = .paused := by
        cases hstate : c.state <;> simp_all
      exact ⟨hgoing, by simp [currentTime, handle, hpaused, progress], rfl⟩

/-! ## Runs -/

/-- The runs of a clock: every call returns. -/
def step (c : PVMFMediaClock) (call : Call) : Option PVMFMediaClock := some (c.handle call)

variable {calls : List Call}

theorem ready_of_run (hrun : Run (guarded Meets (stepOf step)) c calls d) (hready : Ready c) : Ready d :=
  hrun.invariant hready fun a call b ha hstep => by
    rw [← Option.some.inj hstep.2]
    exact ready_handle ha hstep.1

theorem progressed_snoc (call : Call) : ∀ (calls : List Call) (c : PVMFMediaClock),
    c.progressed (calls ++ [call]) = c.progressed calls + (calls.foldl handle c).progress call
  | [], c => by simp [progressed]
  | first :: calls, c => by
    rw [List.cons_append, progressed, progressed, progressed_snoc call calls, List.foldl_cons, Nat.add_assoc]

theorem eq_foldl_of_run (hrun : Run (guarded Meets (stepOf step)) c calls d) :
    d = calls.foldl handle c := by
  induction hrun with
  | nil => rfl
  | snoc _ hstep ih => rw [List.foldl_append, ← ih, ← Option.some.inj hstep.2, List.foldl_cons, List.foldl_nil]

theorem goes_of_run (hrun : Run (guarded Meets (stepOf step)) c calls d)
    (hready : Ready c) (hgoing : c.state ≠ .stopped) (hstop : Call.stop ∉ calls) :
    Goes d (c.currentTime + UInt32.ofNat (c.progressed calls)) c.clockUnit := by
  induction hrun with
  | nil => exact ⟨hgoing, by simp [progressed], rfl⟩
  | snoc hrun hstep ih =>
    obtain ⟨hnot, htime, hunit⟩ := ih fun hmem => hstop (List.mem_append_left _ hmem)
    have hne : ∀ {call : Call}, call ∈ [_] → call ≠ .stop := fun hmem heq =>
      hstop (List.mem_append_right _ (heq ▸ hmem))
    have hgoes := goes_handle (ready_of_run hrun hready) hstep.1 hnot (hne (List.mem_singleton_self _))
    rw [← Option.some.inj hstep.2, progressed_snoc, ← eq_foldl_of_run hrun]
    rw [htime, hunit] at hgoes
    rw [UInt32.ofNat_add, ← UInt32.add_assoc]
    exact hgoes

/-- **The clock follows its timebase**: over calls that do not stop it, a clock that is not stopped moves
on by exactly the progress its timebase makes while the clock runs, in whatever units it is read. -/
theorem follows_timebase_of_run {c d : PVMFMediaClock} {calls more : List Call}
    (hrun : Run (guarded Meets (stepOf step)) new calls c) (hgoing : c.state ≠ .stopped)
    (hmore : Run (guarded Meets (stepOf step)) c more d) (hstop : Call.stop ∉ more) (units : TimeUnits) :
    (d.getCurrentTime32 units).clockTime =
      (fromClockUnit c.clockUnit ((c.getCurrentTime32 c.clockUnit.timeUnits).clockTime +
        UInt32.ofNat (c.progressed more)) units).1 := by
  have hready : Ready c := ready_of_run hrun (ready_of_not_running (by simp [new]))
  obtain ⟨-, htime, hunit⟩ := goes_of_run hmore hready hgoing hstop
  rw [getCurrentTime32, getCurrentTime32, htime, hunit, fromClockUnit_self]

/-- A clock is set to seven seconds, started, and runs through a wrap of the tick count. -/
def throughWrap : List Call :=
  [.setStartTime32 7 .sec, .setClockTimebase ⟨0xFFFFFFF0, false, 2000⟩, .start, .tick 12 false]

/-- It is paused, and goes on. -/
def pausedOnce : List Call := [.tick 9 false, .pause, .tick 100 true, .start, .tick 1 false]

theorem follows_timebase_of_run_throughWrap :
    ((pausedOnce.foldl handle (throughWrap.foldl handle new)).getCurrentTime32 .msec).clockTime = 7044 := by
  have hrun : Run (guarded Meets (stepOf step)) new throughWrap (throughWrap.foldl handle new) :=
    Run.of_foldlM_guarded (by decide)
  have hmore : Run (guarded Meets (stepOf step)) (throughWrap.foldl handle new) pausedOnce
      (pausedOnce.foldl handle (throughWrap.foldl handle new)) :=
    Run.of_foldlM_guarded (by decide)
  exact (follows_timebase_of_run hrun (by decide) hmore (by decide) .msec).trans (by decide)

/-- A clock in microseconds has run for five seconds. -/
def inMicroseconds : List Call :=
  [.setStartTime32 0 .usec, .setClockTimebase ⟨0, false, 1000⟩, .start, .tick 5000 false]

/-- Paused after five seconds, a clock in microseconds shows five milliseconds. -/
theorem pause_jumps : ¬∀ (c d : PVMFMediaClock) (calls more : List Call), Run (stepOf step) new calls c →
    c.state ≠ .stopped → Run (stepOf step) c more d → Call.stop ∉ more → ∀ units,
      (d.getCurrentTime32 units).clockTime =
        (fromClockUnit c.clockUnit ((c.getCurrentTime32 c.clockUnit.timeUnits).clockTime +
          UInt32.ofNat (c.progressed more)) units).1 := by
  intro h
  have hrun : Run (stepOf step) new inMicroseconds (inMicroseconds.foldl handle new) :=
    Run.of_foldlM (by decide)
  have hmore : Run (stepOf step) (inMicroseconds.foldl handle new) [.pause]
      ([.pause].foldl handle (inMicroseconds.foldl handle new)) :=
    Run.of_foldlM (by decide)
  have hkept := h _ _ _ _ hrun (by decide) hmore (by decide) .msec
  exact absurd hkept (by decide)

end Ftke.PvmfMediaClock
