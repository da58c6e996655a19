import Ftke.PvmfMediaClock

/-!
# Ftke.PvmfMediaClock.Units

The unit conversions of the clock against exact ones.

The 64-bit values whose size decides on the overflow flag are casts of products that
have been taken in 32 bits, so that the flag is never set; and the microseconds of a day,
which are the divisor of one conversion, are stored in 32 bits.
-/

namespace Ftke.PvmfMediaClock

/-- `ToUSec`: the value in microseconds, and the overflow flag. -/
def toUSec (srcVal : UInt32) (srcUnits : TimeUnits) : UInt32 × Bool := lower32 (srcVal * usecConst srcUnits)

/-- The microseconds in one of a unit. -/
def usecs : TimeUnits → Nat
  | .usec => 1
  | .msec => 1000
  | .sec => 1000000
  | .min => 60000000
  | .hour => 3600000000
  | .day => 86400000000

/-- The exact conversion, rounded down. -/
def exactly (value : UInt32) (srcUnits dstUnits : TimeUnits) : Nat := value.toNat * usecs srcUnits / usecs dstUnits

/-- What a conversion is to give: the flag exactly if the exact value does not fit in 32
bits, and the exact value without it. -/
def Converts (result : UInt32 × Bool) (exact : Nat) : Prop :=
  (result.2 = true ↔ 2 ^ 32 ≤ exact) ∧ (result.2 = false → result.1.toNat = exact)

/-! ## The flag -/

@[simp] theorem lower32_snd (value : UInt32) : (lower32 value).2 = false := by
  have hlt := value.toNat_lt
  rw [lower32, decide_eq_false_iff_not, GT.gt, UInt64.lt_iff_toNat_lt, UInt32.toNat_toUInt64]
  exact Nat.not_lt.mpr (Nat.le_pred_of_lt hlt)

theorem converts_of_not_flag {value : UInt32} {exact : Nat} :
    Converts (value, false) exact ↔ value.toNat = exact := by
  have hlt := value.toNat_lt
  simp only [Converts, Bool.false_eq_true, false_iff, Nat.not_le, forall_const]
  omega

theorem lower32_eq (value : UInt32) : lower32 value = (value, false) :=
  Prod.ext (lower32_fst value) (lower32_snd value)

/-! ## Products and quotients -/

variable {value c : UInt32} {k : Nat}

theorem converts_mul (hc : c.toNat = k % 2 ^ 32) :
    Converts (lower32 (value * c)) (value.toNat * k) ↔ value.toNat * k < 2 ^ 32 := by
  rw [lower32_eq, converts_of_not_flag, UInt32.toNat_mul, hc, Nat.mul_mod_mod]
  exact ⟨fun h => h ▸ Nat.mod_lt _ (by decide), Nat.mod_eq_of_lt⟩

theorem converts_div (hc : c.toNat = k) : Converts (value / c, false) (value.toNat / k) := by
  rw [converts_of_not_flag, UInt32.toNat_div, hc]

theorem div_lt (value : UInt32) (k : Nat) : value.toNat / k < 2 ^ 32 :=
  Nat.lt_of_le_of_lt (Nat.div_le_self _ _) value.toNat_lt

/-! ## The conversions -/

theorem usecConst_eq (units : TimeUnits) : (usecConst units).toNat = usecs units % 2 ^ 32 := by
  cases units <;> rfl

theorem toUSec_iff (value : UInt32) (units : TimeUnits) :
    Converts (toUSec value units) (exactly value units .usec) ↔ exactly value units .usec < 2 ^ 32 := by
  have hexact : exactly value units .usec = value.toNat * usecs units := Nat.div_one _
  rw [hexact, toUSec]
  exact converts_mul (usecConst_eq units)

theorem exactly_msec {units : TimeUnits} (hunits : units ≠ .usec) (value : UInt32) :
    exactly value units .msec = value.toNat * (msecConst units).toNat := by
  cases units with
  | usec => exact absurd rfl hunits
  | msec | sec | min | hour | day =>
    simp only [exactly, usecs]
    rw [Nat.mul_div_assoc _ (by decide)]
    rfl

theorem exactly_of_msec {units : TimeUnits} (hunits : units ≠ .usec) (value : UInt32) :
    exactly value .msec units = value.toNat / (msecConst units).toNat := by
  have hunit : usecs units = (msecConst units).toNat * 1000 := by
    cases units with
    | usec => exact absurd rfl hunits
    | msec | sec | min | hour | day => rfl
  rw [exactly, hunit]
  exact Nat.mul_div_mul_right _ _ (by decide)

theorem toClockUnit_iff (unit : ClockUnit) (value : UInt32) (units : TimeUnits) :
    Converts (toClockUnit unit value units) (exactly value units unit.timeUnits) ↔
      exactly value units unit.timeUnits < 2 ^ 32 := by
  cases unit with
  | usec => exact toUSec_iff value units
  | msec =>
    by_cases hunits : units = .usec
    · subst hunits
      have hexact : exactly value .usec .msec = value.toNat / 1000 := by
        rw [exactly, usecs, usecs, Nat.mul_one]
      have hconv : Converts (toClockUnit .msec value .usec) (value.toNat / 1000) := converts_div rfl
      rw [ClockUnit.timeUnits, hexact]
      exact iff_of_true hconv (div_lt value 1000)
    · rw [ClockUnit.timeUnits, toClockUnit, if_neg hunits, exactly_msec hunits]
      exact converts_mul (Nat.mod_eq_of_lt (msecConst units).toNat_lt).symm

theorem converts_day (value : UInt32) :
    Converts (fromClockUnit .usec value .day) (exactly value .usec .day) ↔ value < 0x1DD76000 := by
  have hlt := value.toNat_lt
  have hexact : exactly value .usec .day = 0 := by
    rw [exactly, usecs, usecs, Nat.div_eq_of_lt]
    omega
  have hday : (0x1DD76000 : UInt32).toNat = 500654080 := rfl
  rw [hexact, fromClockUnit, usecConst, converts_of_not_flag, UInt32.toNat_div, hday, UInt32.lt_iff_toNat_lt, hday]
  omega

theorem fromClockUnit_iff (unit : ClockUnit) (value : UInt32) (units : TimeUnits) :
    Converts (fromClockUnit unit value units) (exactly value unit.timeUnits units) ↔
      exactly value unit.timeUnits units < 2 ^ 32 ∧ (unit = .usec → units = .day → value < 0x1DD76000) := by
  cases unit with
  | msec =>
    by_cases hunits : units = .usec
    · subst hunits
      have hexact : exactly value .msec .usec = value.toNat * 1000 := Nat.div_one _
      have hconv : Converts (fromClockUnit .msec value .usec) (value.toNat * 1000) ↔ value.toNat * 1000 < 2 ^ 32 :=
        converts_mul rfl
      rw [ClockUnit.timeUnits, hexact, hconv]
      simp
    · rw [ClockUnit.timeUnits, fromClockUnit, if_neg hunits, exactly_of_msec hunits]
      exact iff_of_true (converts_div rfl) ⟨div_lt value _, fun h => absurd h (by decide)⟩
  | usec =>
    have hexact : exactly value .usec units = value.toNat / usecs units := by
      rw [exactly, usecs, Nat.mul_one]
    have hfit : exactly value .usec units < 2 ^ 32 := hexact ▸ div_lt value _
    by_cases hunits : units = .day
    · subst hunits
      rw [ClockUnit.timeUnits, converts_day]
      exact ⟨fun h => ⟨hfit, fun _ _ => h⟩, fun h => h.2 rfl rfl⟩
    · have hconst : (usecConst units).toNat = usecs units := by
        cases units with
        | day => exact absurd rfl hunits
        | usec | msec | sec | min | hour => rfl
      refine iff_of_true ?_ ⟨hfit, fun _ h => absurd h hunits⟩
      rw [ClockUnit.timeUnits, hexact]
      exact converts_div hconst

/-- **When the conversions are exact**: wherever the exact value fits in 32 bits, but for
the days of a clock in microseconds that is past 500654079. -/
theorem conversions_iff (unit : ClockUnit) (value : UInt32) (units : TimeUnits) :
    (Converts (toClockUnit unit value units) (exactly value units unit.timeUnits) ↔
        exactly value units unit.timeUnits < 2 ^ 32) ∧
      (Converts (fromClockUnit unit value units) (exactly value unit.timeUnits units) ↔
        exactly value unit.timeUnits units < 2 ^ 32 ∧ (unit = .usec → units = .day → value < 0x1DD76000)) ∧
      (Converts (toUSec value units) (exactly value units .usec) ↔ exactly value units .usec < 2 ^ 32) :=
  ⟨toClockUnit_iff unit value units, fromClockUnit_iff unit value units, toUSec_iff value units⟩

/-- Two hours in microseconds do not fit, and no flag is set. -/
theorem two_hours_without_overflow :
    ¬∀ (unit : ClockUnit) (value : UInt32) (units : TimeUnits),
      Converts (toClockUnit unit value units) (exactly value units unit.timeUnits) ∧
        Converts (fromClockUnit unit value units) (exactly value unit.timeUnits units) ∧
        Converts (toUSec value units) (exactly value units .usec) := by
  intro hall
  obtain ⟨-, -, hflag, -⟩ := hall .usec 2 .hour
  revert hflag
  decide

end Ftke.PvmfMediaClock
