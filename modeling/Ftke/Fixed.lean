import Mathlib.Algebra.Order.Ring.Abs
import Mathlib.Algebra.Order.Ring.Int
import Mathlib.Data.Nat.Bitwise
import Mathlib.Tactic.IntervalCases
import Mathlib.Tactic.Linarith
import Ftke.Newton
import Ftke.Words

/-!
# Ftke.Fixed

The 16.16 fixed point numbers of the renderer (`fixed.h`, `fixed.cpp`): products, and the
inverse from a table of eight estimates and two Newton steps.
-/

namespace Ftke.Fixed

/-! ## fixed.h -/

/-- `EGL_ONE`. -/
def eglOne : Int32 := (1 : Int32) <<< 16

/-- `EGL_Mul`: the product of 64 bits, shifted and cut to 32. -/
def eglMul (a b : Int32) : Int32 := ((a.toInt64 * b.toInt64) >>> 16).toInt32

/-! ## EGL_Inverse -/

/-- `__gl_rcp_tab`. -/
def rcpTab : List Int32 := [0x8000, 0x71c7, 0x6666, 0x5d17, 0x5555, 0x4ec4, 0x4924, 0x4444]

/-- One of the tests of the leading bits. -/
def narrow (mask shift : Int32) (s : Int32 × Int32) : Int32 × Int32 :=
  if s.2 &&& mask ≠ 0 then (s.1 - shift, s.2 >>> shift) else s

/-- `exp` after the tests: the number of leading zeros. -/
def leadingZeros (a : Int32) : Int32 :=
  let s := narrow 0xc 2 (narrow 0xf0 4 (narrow 0xff00 8 (narrow 0xffff0000 16 (31, a))))
  if s.2 &&& 0x2 ≠ 0 then s.1 - 1 else s.1

/-- The index of the table. -/
def rcpIndex (a : Int32) : Int32 := (a >>> (28 - leadingZeros a)) &&& 0x7

/-- An entry of the table, brought to the size of the operand. -/
def scaled (entry exp : Int32) : Int32 :=
  if exp - 16 ≤ 0 then entry <<< 2 >>> (-(exp - 16)) else entry <<< 2 <<< (exp - 16)

/-- The estimate the steps begin with. -/
def estimate (a : Int32) : Int32 := scaled (rcpTab.getD (rcpIndex a).toNatClampNeg 0) (leadingZeros a)

/-- `EGL_ONE*2 - EGL_Mul(a,x)`. -/
def correction (a x : Int32) : Int32 := eglOne * 2 - eglMul a x

/-- A step of Newton and Raphson. -/
def newton (a x : Int32) : Int32 := eglMul x (correction a x)

/-- The operand without its sign. -/
def magnitude (a : Int32) : Int32 := if a < 0 then -a else a

/-- `EGL_Inverse`. -/
def eglInverse (a : Int32) : Int32 :=
  if a = 0 then 0x7fffffff
  else
    let x := newton (magnitude a) (newton (magnitude a) (estimate (magnitude a)))
    if a < 0 then -x else x

/-! ## Products and shifts -/

/-- What a 32-bit number can hold. -/
def Fits (v : Int) : Prop := -2 ^ 31 ≤ v ∧ v < 2 ^ 31

instance (v : Int) : Decidable (Fits v) := inferInstanceAs (Decidable (_ ∧ _))

theorem fits_toInt (a : Int32) : Fits a.toInt := ⟨a.le_toInt, a.toInt_lt⟩

/-- The product before it is cut. -/
def product (a b : Int32) : Int := a.toInt * b.toInt / 2 ^ 16

theorem bmod_of_fits {v : Int} (h : Fits v) : v.bmod (2 ^ 32) = v := by
  rw [Words.bmod_word]
  unfold Fits at h
  omega

theorem toNat_smod {k : Int32} (h0 : 0 ≤ k.toInt) (h32 : k.toInt < 32) :
    (k.toBitVec.smod 32).toNat = k.toInt.toNat := by
  have hmod : (k.toBitVec.smod 32).toInt = k.toInt := by
    rw [BitVec.toInt_smod]
    exact Int.fmod_eq_of_lt h0 h32
  have hlt := (k.toBitVec.smod 32).toNat_lt_twoPow_of_le (Nat.le_refl 32)
  rw [BitVec.toInt_eq_toNat_bmod, Words.bmod_word] at hmod
  omega

theorem toInt_shiftRight (x : Int32) {k : Int32} (h0 : 0 ≤ k.toInt) (h32 : k.toInt < 32) :
    (x >>> k).toInt = x.toInt / 2 ^ k.toInt.toNat := by
  rw [← Int32.toInt_toBitVec, Int32.toBitVec_shiftRight, BitVec.toInt_sshiftRight', Int.shiftRight_eq_div_pow]
  simp only [toNat_smod h0 h32, Int32.toInt_toBitVec, Int.natCast_pow, Nat.cast_ofNat]

theorem toInt_shiftLeft (x : Int32) {k : Int32} (h0 : 0 ≤ k.toInt) (h32 : k.toInt < 32) :
    (x <<< k).toInt = (x.toInt * 2 ^ k.toInt.toNat).bmod (2 ^ 32) := by
  have hx : x.toInt = (x.toBitVec.toNat : Int).bmod (2 ^ 32) := BitVec.toInt_eq_toNat_bmod x.toBitVec
  rw [← Int32.toInt_toBitVec (x <<< k), Int32.toBitVec_shiftLeft, BitVec.shiftLeft_eq',
    BitVec.toInt_shiftLeft, toNat_smod h0 h32, Nat.shiftLeft_eq, hx, Int.bmod_mul_bmod]
  push_cast
  rfl

theorem toInt_eglMul (a b : Int32) : (eglMul a b).toInt = (product a b).bmod (2 ^ 32) := by
  have ha := fits_toInt a
  have hb := fits_toInt b
  have hab : |a.toInt * b.toInt| ≤ 2 ^ 31 * 2 ^ 31 := by
    rw [abs_mul]
    exact mul_le_mul (abs_le.mpr ⟨ha.1, ha.2.le⟩) (abs_le.mpr ⟨hb.1, hb.2.le⟩) (abs_nonneg _) (by norm_num)
  have hmul : (a.toInt64 * b.toInt64).toInt = a.toInt * b.toInt := by
    rw [Int64.toInt_mul, Int32.toInt_toInt64, Int32.toInt_toInt64]
    have := abs_le.mp hab
    exact Int.bmod_eq_of_le (by omega) (by omega)
  have hshift : ((a.toInt64 * b.toInt64) >>> 16).toInt = (a.toInt64 * b.toInt64).toInt / 2 ^ 16 := by
    rw [← Int64.toInt_toBitVec, Int64.toBitVec_shiftRight, BitVec.toInt_sshiftRight',
      Int.shiftRight_eq_div_pow]
    rfl
  rw [eglMul, Int64.toInt_toInt32, hshift, hmul, product]

/-! ## The leading zeros -/

theorem land_mask_ne_zero {k n : Nat} (hn : n < 2 ^ (2 * k)) : n &&& (2 ^ k - 1) * 2 ^ k ≠ 0 ↔ 2 ^ k ≤ n := by
  have hpos : 0 < 2 ^ k := Nat.two_pow_pos k
  have hdiv : (n &&& (2 ^ k - 1) * 2 ^ k) / 2 ^ k = n / 2 ^ k := by
    rw [Nat.and_div_two_pow, Nat.mul_div_cancel _ hpos, Nat.and_two_pow_sub_one_eq_mod]
    apply Nat.mod_eq_of_lt
    rw [Nat.div_lt_iff_lt_mul hpos, ← Nat.pow_add]
    rwa [show k + k = 2 * k by omega]
  have hmod : (n &&& (2 ^ k - 1) * 2 ^ k) % 2 ^ k = 0 := by
    rw [Nat.and_mod_two_pow, Nat.mul_mod_left, Nat.and_zero]
  have hsum := Nat.div_add_mod (n &&& (2 ^ k - 1) * 2 ^ k) (2 ^ k)
  rw [hdiv, hmod] at hsum
  rw [← hsum]
  simp [Nat.div_eq_zero_iff]

variable {k m : Nat} {x mask a : Int32}

theorem and_mask_ne_zero (h0 : 0 ≤ x.toInt)
    (hx : x.toInt < 2 ^ (2 * k)) (hmask : mask.toBitVec.toNat = (2 ^ k - 1) * 2 ^ k) :
    x &&& mask ≠ 0 ↔ 2 ^ k ≤ x.toInt := by
  have hn : x.toInt = (x.toBitVec.toNat : Int) := by
    have hlt := x.toBitVec.isLt
    have hx : x.toInt = (x.toBitVec.toNat : Int).bmod (2 ^ 32) := BitVec.toInt_eq_toNat_bmod x.toBitVec
    rw [Words.bmod_word] at hx
    omega
  rw [hn] at hx ⊢
  have hx' : x.toBitVec.toNat < 2 ^ (2 * k) := by exact_mod_cast hx
  have h := land_mask_ne_zero hx'
  have hzero : x &&& mask = 0 ↔ x.toBitVec.toNat &&& mask.toBitVec.toNat = 0 := by
    rw [← Int32.toBitVec_inj, Int32.toBitVec_and, ← BitVec.toNat_inj, BitVec.toNat_and]
    rfl
  rw [Ne, hzero, hmask, ← Ne, h]
  norm_cast

/-- Where the tests have come to: `e` bits have been shifted out. -/
structure Narrowed (a : Int) (k : Nat) (s : Int32 × Int32) : Prop where
  pos : 0 < s.2.toInt
  lt : s.2.toInt < 2 ^ k
  shifted : ∃ e : Nat, s.1.toInt + e = 31 ∧ s.2.toInt = a / 2 ^ e ∧ e + k ≤ 32

theorem Narrowed.narrow {a : Int} {s : Int32 × Int32} {mask shift : Int32} (hk : 2 * k ≤ 32)
    (h : Narrowed a (2 * k) s) (hmask : mask.toBitVec.toNat = (2 ^ k - 1) * 2 ^ k)
    (hshift : shift.toInt = k) : Narrowed a k (narrow mask shift s) := by
  obtain ⟨e, he, hs, hek⟩ := h.shifted
  simp only [Fixed.narrow, and_mask_ne_zero h.pos.le h.lt hmask]
  split_ifs with hge
  · have hr : (s.2 >>> shift).toInt = s.2.toInt / 2 ^ k := by
      rw [toInt_shiftRight _ (by omega) (by omega), hshift, Int.toNat_natCast]
    refine ⟨?_, ?_, e + k, ?_, ?_, by omega⟩
    · rw [hr]
      exact Int.le_ediv_of_mul_le (by positivity) (by simpa using hge)
    · rw [hr]
      apply Int.ediv_lt_of_lt_mul (by positivity)
      rw [← pow_add, ← two_mul]
      exact h.lt
    · simp only [Int32.toInt_sub, hshift]
      rw [bmod_of_fits (by unfold Fits; omega)]
      omega
    · rw [hr, hs, Int.ediv_ediv_of_nonneg (by positivity), ← pow_add]
  · exact ⟨h.pos, not_le.mp hge, e, he, hs, by omega⟩

/-- **`leadingZeros` counts**: 31 less the place of the highest bit. -/
theorem leadingZeros_spec (ha : 0 < a.toInt) :
    ∃ l : Nat, (leadingZeros a).toInt + l = 31 ∧ 2 ^ l ≤ a.toInt ∧ a.toInt < 2 ^ (l + 1) := by
  have h0 : Narrowed a.toInt 32 (31, a) :=
    ⟨ha, a.toInt_lt.trans (by norm_num), 0, by rfl, by simp, by omega⟩
  have h1 : Narrowed a.toInt 16 (narrow 0xffff0000 16 (31, a)) := h0.narrow (by omega) (by rfl) (by rfl)
  have h2 : Narrowed a.toInt 8 (narrow 0xff00 8 _) := h1.narrow (by omega) (by rfl) (by rfl)
  have h3 : Narrowed a.toInt 4 (narrow 0xf0 4 _) := h2.narrow (by omega) (by rfl) (by rfl)
  have h4 : Narrowed a.toInt 2 (narrow 0xc 2 _) := h3.narrow (by omega) (by rfl) (by rfl)
  unfold leadingZeros
  generalize narrow 0xc 2 _ = s at h4 ⊢
  obtain ⟨e, he, hs, hek⟩ := h4.shifted
  have hpos := h4.pos
  have hlt := h4.lt
  have hlow := Int.mul_ediv_add_emod a.toInt (2 ^ e)
  have hmod := Int.emod_nonneg a.toInt (show (2 : Int) ^ e ≠ 0 by positivity)
  have hmod' := Int.emod_lt_of_pos a.toInt (show (0 : Int) < 2 ^ e by positivity)
  have hlast : s.2 &&& 0x2 ≠ 0 ↔ 2 ^ 1 ≤ s.2.toInt := and_mask_ne_zero h4.pos.le (by simpa using h4.lt) (by rfl)
  simp only [hlast]
  rw [← hs] at hlow
  split_ifs with hge
  · refine ⟨e + 1, ?_, ?_, ?_⟩
    · rw [Int32.toInt_sub, Int32.toInt_one, bmod_of_fits (by unfold Fits; omega)]
      omega
    · rw [pow_succ]
      nlinarith
    · rw [pow_succ, pow_succ]
      nlinarith
  · refine ⟨e, he, ?_, ?_⟩
    · nlinarith
    · rw [pow_succ]
      nlinarith

/-! ## The estimate -/

theorem rcpTab_spec (h8 : 8 ≤ m) (h16 : m < 16) :
    (m : Int) * (rcpTab.getD (m - 8) 0).toInt ≤ 2 ^ 18 ∧
      2 ^ 18 < (m : Int) * (rcpTab.getD (m - 8) 0).toInt + m := by
  interval_cases m <;> decide

theorem rcpTab_le (h8 : 8 ≤ m) (h16 : m < 16) :
    0 ≤ (rcpTab.getD (m - 8) 0).toInt ∧ (rcpTab.getD (m - 8) 0).toInt ≤ 2 ^ 15 := by
  interval_cases m <;> decide

theorem toInt_eq_add_mul (x : Int32) : ∃ c : Int, x.toInt = x.toBitVec.toNat + 2 ^ 32 * c := by
  have hx : x.toInt = (x.toBitVec.toNat : Int).bmod (2 ^ 32) := BitVec.toInt_eq_toNat_bmod x.toBitVec
  rw [Int.bmod_def] at hx
  split at hx
  · exact ⟨0, by omega⟩
  · exact ⟨-1, by omega⟩

theorem toInt_and_ones (hk : k ≤ 31) (hmask : mask.toBitVec.toNat = 2 ^ k - 1) :
    (x &&& mask).toInt = x.toInt % 2 ^ k := by
  have hand : (x &&& mask).toBitVec.toNat = x.toBitVec.toNat % 2 ^ k := by
    rw [Int32.toBitVec_and, BitVec.toNat_and, hmask, Nat.and_two_pow_sub_one_eq_mod]
  have hlt : x.toBitVec.toNat % 2 ^ k < 2 ^ 31 :=
    (Nat.mod_lt _ (Nat.two_pow_pos k)).trans_le (Nat.pow_le_pow_right (by norm_num) hk)
  have hval : (x &&& mask).toInt = ((x &&& mask).toBitVec.toNat : Int).bmod (2 ^ 32) :=
    BitVec.toInt_eq_toNat_bmod (x &&& mask).toBitVec
  obtain ⟨c, hc⟩ := toInt_eq_add_mul x
  have hsplit : (2 : Int) ^ 32 * c = 2 ^ k * (2 ^ (32 - k) * c) := by
    rw [← mul_assoc, ← pow_add, Nat.add_sub_cancel' (by omega)]
  rw [hval, hand, bmod_of_fits ⟨by omega, by exact_mod_cast hlt⟩, hc, hsplit, Int.add_mul_emod_self_left]
  norm_cast

theorem and_bit_ne_zero (hk : k ≤ 31) (hmask : mask.toBitVec.toNat = 2 ^ k) :
    x &&& mask ≠ 0 ↔ x.toInt / 2 ^ k % 2 = 1 := by
  have hzero : x &&& mask = 0 ↔ x.toBitVec.toNat &&& 2 ^ k = 0 := by
    rw [← Int32.toBitVec_inj, Int32.toBitVec_and, ← BitVec.toNat_inj, BitVec.toNat_and, hmask]
    rfl
  obtain ⟨c, hc⟩ := toInt_eq_add_mul x
  have hsplit : (2 : Int) ^ 32 * c = 2 ^ k * (2 * (2 ^ (31 - k) * c)) := by
    rw [← mul_assoc 2, ← pow_succ', ← mul_assoc, ← pow_add]
    congr 2
    omega
  have hbit : x.toInt / 2 ^ k % 2 = (x.toBitVec.toNat / 2 ^ k % 2 : Nat) := by
    rw [hc, hsplit, Int.add_mul_ediv_left _ _ (by positivity), Int.add_mul_emod_self_left]
    norm_cast
  rw [Ne, hzero, hbit, Nat.and_two_pow, Nat.testBit_eq_decide_div_mod_eq]
  obtain h | h := Nat.mod_two_eq_zero_or_one (x.toBitVec.toNat / 2 ^ k) <;> simp [h]

/-- The entry of the table that an operand of `s` more bits than four finds, and what the
scaling leaves of it. -/
structure Estimated (a x : Int) (s m : Nat) : Prop where
  low : 2 ^ s * m ≤ a
  high : a < 2 ^ s * (m + 1)
  le : 2 ^ s * x ≤ (rcpTab.getD (m - 8) 0).toInt * 2 ^ 14
  lt : (rcpTab.getD (m - 8) 0).toInt * 2 ^ 14 < 2 ^ s * (x + 1)

theorem scaled_spec {entry exp : Int32} {s : Nat} (h0 : 0 ≤ entry.toInt) (h15 : entry.toInt ≤ 2 ^ 15)
    (hs : exp.toInt + s = 28) (hs27 : s ≤ 27) :
    2 ^ s * (scaled entry exp).toInt ≤ entry.toInt * 2 ^ 14 ∧
      entry.toInt * 2 ^ 14 < 2 ^ s * ((scaled entry exp).toInt + 1) := by
  have hfour : (entry <<< 2).toInt = entry.toInt * 4 := by
    rw [toInt_shiftLeft _ (by decide) (by decide), show (2 : Int32).toInt.toNat = 2 by rfl,
      bmod_of_fits (by unfold Fits; omega)]
    norm_num
  have hexp : (exp - 16).toInt = 12 - s := by
    rw [Int32.toInt_sub, show (16 : Int32).toInt = 16 by rfl, bmod_of_fits (by unfold Fits; omega)]
    omega
  have hpos : (0 : Int) < 2 ^ s := by positivity
  rw [scaled]
  split_ifs with hle
  · rw [Int32.le_iff_toInt_le, hexp, Int32.toInt_zero] at hle
    have hneg : (-(exp - 16)).toInt = (s - 12 : Nat) := by
      rw [Int32.toInt_neg, hexp, bmod_of_fits (by unfold Fits; omega)]
      omega
    have hsplit : (2 : Int) ^ s = 2 ^ 12 * 2 ^ (s - 12) := by
      rw [← pow_add]
      congr 1
      omega
    rw [toInt_shiftRight _ (by omega) (by omega), hneg, Int.toNat_natCast, hfour, hsplit]
    have hdiv := Int.mul_ediv_add_emod (entry.toInt * 4) (2 ^ (s - 12))
    have hmod := Int.emod_nonneg (entry.toInt * 4) (show (2 : Int) ^ (s - 12) ≠ 0 by positivity)
    have hmod' := Int.emod_lt_of_pos (entry.toInt * 4) (show (0 : Int) < 2 ^ (s - 12) by positivity)
    constructor <;> linarith
  · rw [Int32.le_iff_toInt_le, hexp, Int32.toInt_zero] at hle
    have hnat : (exp - 16).toInt.toNat = 12 - s := by omega
    have hsplit : (2 : Int) ^ s * 2 ^ (12 - s) = 2 ^ 12 := by
      rw [← pow_add]
      congr 1
      omega
    have hle12 : (2 : Int) ^ (12 - s) ≤ 2 ^ 12 := pow_le_pow_right₀ (by norm_num) (by omega)
    have hfits : Fits (entry.toInt * 4 * 2 ^ (12 - s)) := by
      have := mul_le_mul h15 hle12 (by positivity) (by norm_num)
      have := mul_nonneg h0 (show (0 : Int) ≤ 2 ^ (12 - s) by positivity)
      constructor <;> linarith
    have hval : 2 ^ s * (entry.toInt * 4 * 2 ^ (12 - s)) = entry.toInt * 2 ^ 14 := by
      rw [mul_left_comm, hsplit]
      ring
    rw [toInt_shiftLeft _ (by omega) (by omega), hnat, hfour, bmod_of_fits hfits, mul_add, hval]
    constructor <;> linarith

theorem estimate_spec (ha : 8 ≤ a.toInt) :
    ∃ s m : Nat, s ≤ 27 ∧ 8 ≤ m ∧ m < 16 ∧ (leadingZeros a).toInt + s = 28 ∧
      Estimated a.toInt (estimate a).toInt s m := by
  obtain ⟨l, hl, hlow, hhigh⟩ := leadingZeros_spec (by omega : 0 < a.toInt)
  have hl3 : 3 ≤ l := by
    by_contra hlt
    have : (2 : Int) ^ (l + 1) ≤ 2 ^ 3 := pow_le_pow_right₀ (by norm_num) (by omega)
    omega
  have hl30 : l ≤ 30 := by
    by_contra hlt
    have h31 : (2 : Int) ^ 31 ≤ 2 ^ l := pow_le_pow_right₀ (by norm_num) (by omega)
    have := a.toInt_lt
    omega
  obtain ⟨s, rfl⟩ : ∃ s, l = s + 3 := ⟨l - 3, by omega⟩
  have hshift : (28 - leadingZeros a).toInt = s := by
    rw [Int32.toInt_sub, show (28 : Int32).toInt = 28 by rfl, bmod_of_fits (by unfold Fits; omega)]
    omega
  have hq : (a >>> (28 - leadingZeros a)).toInt = a.toInt / 2 ^ s := by
    rw [toInt_shiftRight _ (by omega) (by omega), hshift, Int.toNat_natCast]
  have hpos : (0 : Int) < 2 ^ s := by positivity
  obtain ⟨m, hm⟩ : ∃ m : Nat, a.toInt / 2 ^ s = m :=
    ⟨(a.toInt / 2 ^ s).toNat, (Int.toNat_of_nonneg (Int.ediv_nonneg (by omega) hpos.le)).symm⟩
  have hm8 : 8 ≤ m := by
    have : (8 : Int) ≤ a.toInt / 2 ^ s := Int.le_ediv_of_mul_le hpos (by rw [pow_add] at hlow; linarith)
    omega
  have hm16 : m < 16 := by
    rw [show s + 3 + 1 = s + 4 by omega, pow_add] at hhigh
    have : a.toInt / 2 ^ s < 16 := Int.ediv_lt_of_lt_mul hpos (by linarith)
    omega
  have hindex : (rcpIndex a).toNatClampNeg = m - 8 := by
    rw [Int32.toNatClampNeg, rcpIndex, toInt_and_ones (k := 3) (by norm_num) (by rfl), hq, hm]
    omega
  have hadd := Int.mul_ediv_add_emod a.toInt (2 ^ s)
  have hmod := Int.emod_nonneg a.toInt hpos.ne'
  have hmod' := Int.emod_lt_of_pos a.toInt hpos
  rw [hm] at hadd
  obtain ⟨h0, h15⟩ := rcpTab_le hm8 hm16
  obtain ⟨hle, hlt⟩ := scaled_spec h0 h15 (show (leadingZeros a).toInt + s = 28 by omega) (by omega)
  refine ⟨s, m, by omega, hm8, hm16, by omega, by omega, by linarith, ?_, ?_⟩
  · rw [estimate, hindex]
    exact hle
  · rw [estimate, hindex]
    exact hlt

end Ftke.Fixed
