import Mathlib.Algebra.Order.Floor.Div
import Mathlib.Data.List.Chain
import Mathlib.Tactic.Ring

/-!
# Ftke.MediaClock

`MediaClockConverter` (`media_clock_converter.h`, `media_clock_converter.cpp`):
a 32-bit timestamp in one timescale, extended by a wrap counter and converted
to other timescales with rounding up.

The counter is kept modulo the timescale, so the converter holds a time modulo
`2 ^ 32 * timescale`; `Represents m T` says that it holds the unbounded time `T`
in that sense.  Every constructor and setter reduces the counter modulo a
non-zero timescale, which is why `wrap_lt` is a field: the source's checks for
a zero timescale cannot fire on an existing converter.
-/

namespace Ftke.MediaClock

/-- `WRAP_THRESHOLD`. -/
def wrapThreshold : UInt32 := 0x80000000

/-- `MISORDER_THRESHOLD`. -/
def misorderThreshold : UInt32 := 0x80000000

/-- The converter; the counter lies below the timescale, which is therefore not
zero. -/
structure MediaClockConverter where
  timescale : UInt32
  currentTs : UInt32
  wrapCount : UInt32
  wrap_lt : wrapCount < timescale

/-- `OSCL_LEAVE` codes of the converter. -/
inductive Leave
  | OsclErrArgument
  deriving DecidableEq, Repr

theorem pos_of_ne_zero {t : UInt32} (h : t ≠ 0) : 0 < t := UInt32.pos_iff_ne_zero.mpr h

theorem mod_lt {t : UInt32} (w : UInt32) (h : 0 < t) : w % t < t := UInt32.mod_lt w h

namespace MediaClockConverter

/-- The constructor; it leaves on a zero timescale. -/
def new (inTimescale initTs : UInt32) : Except Leave MediaClockConverter :=
  if h : inTimescale = 0 then .error .OsclErrArgument
  else .ok ⟨inTimescale, initTs, 0, pos_of_ne_zero h⟩

theorem timescale_pos (m : MediaClockConverter) : 0 < m.timescale :=
  UInt32.lt_of_le_of_lt (UInt32.zero_le) m.wrap_lt

/-- `set_clock`. -/
def setClock (m : MediaClockConverter) (initTs inWrapCount : UInt32) : MediaClockConverter :=
  ⟨m.timescale, initTs, inWrapCount % m.timescale, mod_lt _ m.timescale_pos⟩

/-- The 64-bit time `(wrap_count << 32) + current_ts`. -/
def value (m : MediaClockConverter) : UInt64 := (m.wrapCount.toUInt64 <<< 32) + m.currentTs.toUInt64

/-- The converter that holds a 64-bit time in a timescale. -/
def ofValue (timescale : UInt32) (h : 0 < timescale) (value : UInt64) : MediaClockConverter :=
  ⟨timescale, (value &&& 0xFFFFFFFF).toUInt32, (value >>> 32).toUInt32 % timescale, mod_lt _ h⟩

/-- `set_timescale`. -/
def setTimescale (m : MediaClockConverter) (newTimescale : UInt32) : Except Leave MediaClockConverter :=
  if h : newTimescale = 0 then .error .OsclErrArgument
  else .ok (ofValue newTimescale (pos_of_ne_zero h)
    ((m.value * newTimescale.toUInt64 + (m.timescale - 1).toUInt64) / m.timescale.toUInt64))

/-- `set_clock_other_timescale`. -/
def setClockOtherTimescale (m : MediaClockConverter) (value inTimescale : UInt32) :
    Except Leave MediaClockConverter :=
  if inTimescale = 0 then .error .OsclErrArgument
  else .ok (ofValue m.timescale m.timescale_pos
    ((value.toUInt64 * m.timescale.toUInt64 + (inTimescale - 1).toUInt64) / inTimescale.toUInt64))

/-- The increment of the wrap counter in `update_clock`. -/
def nextWrap (m : MediaClockConverter) : UInt32 :=
  if m.wrapCount + 1 ≥ m.timescale then 0 else m.wrapCount + 1

theorem nextWrap_lt (m : MediaClockConverter) : m.nextWrap < m.timescale := by
  unfold nextWrap
  split
  · exact m.timescale_pos
  · next h => exact UInt32.not_le.mp h

/-- `update_clock`: the new state and whether the value was taken. -/
def updateClock (m : MediaClockConverter) (newTs : UInt32) : MediaClockConverter × Bool :=
  let diff := newTs - m.currentTs
  if newTs < m.currentTs then
    if diff < wrapThreshold then (⟨m.timescale, newTs, m.nextWrap, m.nextWrap_lt⟩, true)
    else (m, false)
  else
    if diff < misorderThreshold then ({ m with currentTs := newTs }, true)
    else (m, false)

/-- `get_converted_ts`. -/
def getConvertedTs (m : MediaClockConverter) (newTimescale : UInt32) : UInt32 :=
  ((m.value * newTimescale.toUInt64 + (m.timescale - 1).toUInt64) / m.timescale.toUInt64).toUInt32

end MediaClockConverter

open MediaClockConverter

/-! ## The time a converter holds -/

/-- The converter holds the unbounded time `T`: the low word exactly, the number
of wraps modulo the timescale. -/
structure Represents (m : MediaClockConverter) (T : Nat) : Prop where
  low : m.currentTs.toNat = T % 2 ^ 32
  wraps : m.wrapCount.toNat = T / 2 ^ 32 % m.timescale.toNat

theorem toNat_timescale_pos (m : MediaClockConverter) : 0 < m.timescale.toNat :=
  UInt32.lt_iff_toNat_lt.mp m.timescale_pos

theorem toNat_sub_one {t : UInt32} (ht : 0 < t.toNat) : (t - 1).toNat = t.toNat - 1 := by
  have h1 : (1 : UInt32).toNat = 1 := rfl
  have htl := t.toNat_lt
  rw [UInt32.toNat_sub, h1]
  omega

theorem toNat_value (m : MediaClockConverter) :
    m.value.toNat = m.wrapCount.toNat * 2 ^ 32 + m.currentTs.toNat := by
  have hw := m.wrapCount.toNat_lt
  have hc := m.currentTs.toNat_lt
  simp only [value, UInt64.toNat_add, UInt64.toNat_shiftLeft, UInt32.toNat_toUInt64]
  simp only [Nat.shiftLeft_eq]
  have h32 : (32 : UInt64).toNat % 64 = 32 := rfl
  rw [h32]
  omega

theorem represents_setClock (m : MediaClockConverter) (T : Nat) (hT : T < 2 ^ 64) :
    Represents (m.setClock (UInt32.ofNat T) (UInt32.ofNat (T / 2 ^ 32))) T where
  low := by simp [setClock]
  wraps := by
    have h : T / 2 ^ 32 < 2 ^ 32 := by omega
    simp only [setClock, UInt32.toNat_mod, UInt32.toNat_ofNat']
    rw [Nat.mod_eq_of_lt h]

theorem toNat_nextWrap (m : MediaClockConverter) {q : Nat} (h : m.wrapCount.toNat = q % m.timescale.toNat) :
    m.nextWrap.toNat = (q + 1) % m.timescale.toNat := by
  have hlt := UInt32.lt_iff_toNat_lt.mp m.wrap_lt
  have ht := m.timescale.toNat_lt
  have hadd : (m.wrapCount + 1).toNat = m.wrapCount.toNat + 1 := by
    rw [UInt32.toNat_add]
    have h1 : (1 : UInt32).toNat = 1 := rfl
    rw [h1]
    omega
  have hsucc : (q + 1) % m.timescale.toNat = (m.wrapCount.toNat + 1) % m.timescale.toNat := by
    rw [h, Nat.mod_add_mod]
  rw [hsucc]
  unfold nextWrap
  split
  · next hge =>
      have hge' : m.timescale.toNat ≤ m.wrapCount.toNat + 1 := by
        rw [← hadd]
        exact UInt32.le_iff_toNat_le.mp hge
      have heq : m.wrapCount.toNat + 1 = m.timescale.toNat := by omega
      rw [heq, Nat.mod_self]
      rfl
  · next hge =>
      have hge' : ¬ m.timescale.toNat ≤ m.wrapCount.toNat + 1 := by
        rw [← hadd]
        exact fun hle => hge (UInt32.le_iff_toNat_le.mpr hle)
      rw [hadd, Nat.mod_eq_of_lt (by omega)]

variable {m m' : MediaClockConverter}

/-- **One update**: a time that has moved on by less than both thresholds is
followed, through a wrap of the low word as well. -/
theorem represents_updateClock {T T' : Nat} (h : Represents m T)
    (hle : T ≤ T') (hw : T' - T < wrapThreshold.toNat) (hm : T' - T < misorderThreshold.toNat) :
    Represents (m.updateClock (UInt32.ofNat T')).1 T' ∧
      (m.updateClock (UInt32.ofNat T')).1.timescale = m.timescale := by
  have hthr : wrapThreshold.toNat = 2 ^ 31 := rfl
  have hthr' : misorderThreshold.toNat = 2 ^ 31 := rfl
  have hnew : (UInt32.ofNat T').toNat = T' % 2 ^ 32 := by simp
  have hlow := h.low
  have hdiff : (UInt32.ofNat T' - m.currentTs).toNat = T' - T := by
    rw [UInt32.toNat_sub, hnew, hlow]
    omega
  simp only [updateClock]
  split
  · next hlt =>
      have hlt' := UInt32.lt_iff_toNat_lt.mp hlt
      rw [hnew, hlow] at hlt'
      rw [if_pos (UInt32.lt_iff_toNat_lt.mpr (by rw [hdiff]; exact hw))]
      refine ⟨⟨hnew, ?_⟩, rfl⟩
      have hq : T' / 2 ^ 32 = T / 2 ^ 32 + 1 := by omega
      rw [hq]
      exact toNat_nextWrap m h.wraps
  · next hlt =>
      have hlt' : ¬ T' % 2 ^ 32 < T % 2 ^ 32 := by
        rw [← hnew, ← hlow]
        exact fun hc => hlt (UInt32.lt_iff_toNat_lt.mpr hc)
      rw [if_pos (UInt32.lt_iff_toNat_lt.mpr (by rw [hdiff]; exact hm))]
      refine ⟨⟨hnew, ?_⟩, rfl⟩
      have hq : T' / 2 ^ 32 = T / 2 ^ 32 := by omega
      rw [hq]
      exact h.wraps

/-! ## Conversion -/

theorem ceilDiv_period (T n t : Nat) (ht : 0 < t) :
    (T * n) ⌈/⌉ t = (T % (2 ^ 32 * t) * n) ⌈/⌉ t + 2 ^ 32 * (T / (2 ^ 32 * t) * n) := by
  have hT : T * n = T % (2 ^ 32 * t) * n + t * (2 ^ 32 * (T / (2 ^ 32 * t) * n)) := by
    conv_lhs => rw [← Nat.mod_add_div T (2 ^ 32 * t)]
    ring
  have hceil : ∀ a b, (a + t * b) ⌈/⌉ t = a ⌈/⌉ t + b := by
    intro a b
    rw [Nat.ceilDiv_eq_add_pred_div, Nat.ceilDiv_eq_add_pred_div]
    have : a + t * b + t - 1 = a + t - 1 + t * b := by omega
    rw [this, Nat.add_mul_div_left _ _ ht]
  rw [hT, hceil]

theorem Represents.toNat_value {T : Nat} (h : Represents m T) :
    m.value.toNat = T % (2 ^ 32 * m.timescale.toNat) := by
  rw [MediaClock.toNat_value, h.low, h.wraps, Nat.mod_mul]
  ring

/-- The 64-bit rounded-up division of the source does not overflow where the
product of the scales fits in 32 bits. -/
theorem toNat_rescale (m : MediaClockConverter) (n : UInt32)
    (hn : m.timescale.toNat * n.toNat < 2 ^ 32) :
    ((m.value * n.toUInt64 + (m.timescale - 1).toUInt64) / m.timescale.toUInt64).toNat =
      (m.value.toNat * n.toNat) ⌈/⌉ m.timescale.toNat := by
  have ht := toNat_timescale_pos m
  have htl := m.timescale.toNat_lt
  have hlt := UInt32.lt_iff_toNat_lt.mp m.wrap_lt
  have hvlt : m.value.toNat < 2 ^ 32 * m.timescale.toNat := by
    have hc := m.currentTs.toNat_lt
    rw [toNat_value]
    omega
  have hprod : m.value.toNat * n.toNat + (m.timescale.toNat - 1) < 2 ^ 64 := by
    have hle : m.value.toNat * n.toNat ≤ 2 ^ 32 * (m.timescale.toNat * n.toNat) := by
      rw [← Nat.mul_assoc]
      exact Nat.mul_le_mul_right _ hvlt.le
    omega
  have hsub : (m.timescale - 1).toNat = m.timescale.toNat - 1 := toNat_sub_one ht
  simp only [UInt64.toNat_div, UInt64.toNat_add, UInt64.toNat_mul, UInt32.toNat_toUInt64, hsub]
  rw [Nat.mod_eq_of_lt (show m.value.toNat * n.toNat < 2 ^ 64 by omega), Nat.mod_eq_of_lt hprod,
    Nat.ceilDiv_eq_add_pred_div]
  congr 1
  omega

/-- **Conversion**: the converted timestamp is the time held, rescaled and
rounded up, in 32 bits. -/
theorem Represents.getConvertedTs {T : Nat} (h : Represents m T)
    (n : UInt32) (hn : m.timescale.toNat * n.toNat < 2 ^ 32) :
    (m.getConvertedTs n).toNat = (T * n.toNat) ⌈/⌉ m.timescale.toNat % 2 ^ 32 := by
  rw [MediaClockConverter.getConvertedTs, UInt64.toNat_toUInt32, toNat_rescale m n hn, h.toNat_value,
    ceilDiv_period T n.toNat _ (toNat_timescale_pos m), Nat.add_mul_mod_self_left]

theorem represents_ofValue (t : UInt32) (ht : 0 < t) (v : UInt64) :
    Represents (ofValue t ht v) v.toNat where
  low := by
    have hmask : (0xFFFFFFFF : UInt64).toNat = 2 ^ 32 - 1 := rfl
    simp only [ofValue, UInt64.toNat_toUInt32, UInt64.toNat_and, hmask]
    rw [Nat.and_two_pow_sub_one_eq_mod, Nat.mod_mod]
  wraps := by
    have h32 : (32 : UInt64).toNat % 64 = 32 := rfl
    have hv := v.toNat_lt
    simp only [ofValue, UInt32.toNat_mod, UInt64.toNat_toUInt32, UInt64.toNat_shiftRight, h32,
      Nat.shiftRight_eq_div_pow]
    rw [Nat.mod_eq_of_lt (show v.toNat / 2 ^ 32 < 2 ^ 32 by omega)]

theorem Represents.add_period {T : Nat} (h : Represents m T) (k : Nat) :
    Represents m (T + 2 ^ 32 * (k * m.timescale.toNat)) where
  low := by rw [h.low, Nat.add_mul_mod_self_left]
  wraps := by rw [h.wraps, Nat.add_mul_div_left _ _ (Nat.two_pow_pos 32), Nat.add_mul_mod_self_right]

/-- **A change of timescale** keeps the time held, rescaled and rounded up. -/
theorem represents_setTimescale {T : Nat} (h : Represents m T)
    {n : UInt32} (hn : m.timescale.toNat * n.toNat < 2 ^ 32) (hm : m.setTimescale n = .ok m') :
    Represents m' ((T * n.toNat) ⌈/⌉ m.timescale.toNat) := by
  unfold MediaClockConverter.setTimescale at hm
  split at hm
  · contradiction
  · next h0 =>
      obtain rfl := Except.ok.inj hm
      have hr := represents_ofValue n (pos_of_ne_zero h0)
        ((m.value * n.toUInt64 + (m.timescale - 1).toUInt64) / m.timescale.toUInt64)
      rw [toNat_rescale m n hn, h.toNat_value] at hr
      rw [ceilDiv_period T n.toNat _ (toNat_timescale_pos m)]
      exact hr.add_period (T / (2 ^ 32 * m.timescale.toNat))

theorem setTimescale_milliseconds : ∃ m', (setClock ⟨1000, 0, 0, by decide⟩ 5 0).setTimescale 90000 = .ok m' ∧
    Represents m' 450 :=
  ⟨_, rfl, represents_setTimescale (represents_setClock _ 5 (by decide)) (n := 90000) (by decide) rfl⟩

/-- **Setting the clock from another timescale** holds that time, rescaled and
rounded up; the 32-bit factors cannot overflow 64 bits. -/
theorem represents_setClockOtherTimescale {v t : UInt32} (hm : m.setClockOtherTimescale v t = .ok m') :
    Represents m' ((v.toNat * m.timescale.toNat) ⌈/⌉ t.toNat) := by
  unfold MediaClockConverter.setClockOtherTimescale at hm
  split at hm
  · contradiction
  · next h0 =>
      obtain rfl := Except.ok.inj hm
      have hr := represents_ofValue m.timescale m.timescale_pos
        ((v.toUInt64 * m.timescale.toUInt64 + (t - 1).toUInt64) / t.toUInt64)
      have ht : 0 < t.toNat := UInt32.lt_iff_toNat_lt.mp (pos_of_ne_zero h0)
      have hprod : v.toNat * m.timescale.toNat ≤ (2 ^ 32 - 1) * (2 ^ 32 - 1) :=
        Nat.mul_le_mul (Nat.le_sub_one_of_lt v.toNat_lt) (Nat.le_sub_one_of_lt m.timescale.toNat_lt)
      have htl := t.toNat_lt
      simp only [UInt64.toNat_div, UInt64.toNat_add, UInt64.toNat_mul, UInt32.toNat_toUInt64,
        toNat_sub_one ht] at hr
      rw [Nat.mod_eq_of_lt (show v.toNat * m.timescale.toNat < 2 ^ 64 by omega),
        Nat.mod_eq_of_lt (by omega)] at hr
      rw [Nat.ceilDiv_eq_add_pred_div, Nat.add_sub_assoc ht]
      exact hr

theorem setClockOtherTimescale_milliseconds :
    ∃ m', setClockOtherTimescale ⟨1000, 0, 0, by decide⟩ 90 90000 = .ok m' ∧ Represents m' 1 :=
  ⟨_, rfl, by exact represents_setClockOtherTimescale (v := 90) (t := 90000) rfl⟩

/-! ## Runs -/

/-- The clock after a sequence of times has been fed to `update_clock`. -/
def feed (m : MediaClockConverter) (times : List Nat) : MediaClockConverter :=
  times.foldl (fun m T => (m.updateClock (UInt32.ofNat T)).1) m

/-- A time that moves on by less than both thresholds. -/
def MovesOn (T T' : Nat) : Prop :=
  T ≤ T' ∧ T' - T < wrapThreshold.toNat ∧ T' - T < misorderThreshold.toNat

instance : DecidableRel MovesOn := fun _ _ => inferInstanceAs (Decidable (_ ∧ _ ∧ _))

theorem represents_feed : ∀ (times : List Nat) (m : MediaClockConverter) (T : Nat), Represents m T →
    List.IsChain MovesOn (T :: times) →
    Represents (feed m times) ((T :: times).getLast (List.cons_ne_nil T times)) ∧
      (feed m times).timescale = m.timescale
  | [], m, T, h, _ => ⟨h, rfl⟩
  | T' :: times, m, T, h, hc => by
    obtain ⟨⟨hle, hw, hm⟩, htail⟩ := List.isChain_cons_cons.mp hc
    obtain ⟨hr, ht⟩ := represents_updateClock h hle hw hm
    obtain ⟨hr', ht'⟩ := represents_feed times _ T' hr htail
    rw [List.getLast_cons (List.cons_ne_nil T' times)]
    exact ⟨hr', ht'.trans ht⟩

/-- **The converter over whole runs**: fed with a non-decreasing time from the
one it was set to, it converts the current time exactly, through any number of
wraps; and it ignores a value at or beyond the threshold. -/
theorem converted_ts_of_run (m : MediaClockConverter) (n : UInt32)
    (hn : m.timescale.toNat * n.toNat < 2 ^ 32) (T₀ : Nat) (hT₀ : T₀ < 2 ^ 64) (times : List Nat)
    (hmoves : List.IsChain MovesOn (T₀ :: times)) :
    ((feed (m.setClock (UInt32.ofNat T₀) (UInt32.ofNat (T₀ / 2 ^ 32))) times).getConvertedTs n).toNat =
        ((T₀ :: times).getLast (List.cons_ne_nil T₀ times) * n.toNat) ⌈/⌉ m.timescale.toNat % 2 ^ 32 ∧
      ∀ (c : MediaClockConverter) (ts : UInt32),
        (ts < c.currentTs → wrapThreshold ≤ ts - c.currentTs) →
        (c.currentTs ≤ ts → misorderThreshold ≤ ts - c.currentTs) →
        c.updateClock ts = (c, false) := by
  constructor
  · obtain ⟨hr, ht⟩ := represents_feed times _ T₀ (represents_setClock m T₀ hT₀) hmoves
    have hts : (m.setClock (UInt32.ofNat T₀) (UInt32.ofNat (T₀ / 2 ^ 32))).timescale = m.timescale := rfl
    rw [hr.getConvertedTs n (by rw [ht, hts]; exact hn), ht, hts]
  · intro c ts hwrap hmis
    simp only [updateClock]
    split
    · next hlt => rw [if_neg (UInt32.not_lt.mpr (hwrap hlt))]
    · next hge => rw [if_neg (UInt32.not_lt.mpr (hmis (UInt32.not_lt.mp hge)))]

/-- A 90 kHz clock read in milliseconds across a wrap of its low word. -/
theorem converted_ts_of_run_wrap :
    ((feed (MediaClockConverter.setClock ⟨90000, 0, 0, by decide⟩ (UInt32.ofNat 0x7FFFFFFF0)
      (UInt32.ofNat (0x7FFFFFFF0 / 2 ^ 32))) [0x7FFFFFFF8, 0x800000020]).getConvertedTs 1000).toNat =
      381774872 := by
  have h := (converted_ts_of_run ⟨90000, 0, 0, by decide⟩ 1000 (by decide) 0x7FFFFFFF0 (by decide)
    [0x7FFFFFFF8, 0x800000020] (by decide)).1
  exact h.trans (by decide)

end Ftke.MediaClock
