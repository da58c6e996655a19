import Ftke.Fixed

/-!
# Ftke.Fixed.Inverse

How far `EGL_Inverse` is from `2^32 / a`. The residue of the estimate is at most an eighth of
`2^32`, two steps square it twice, and what the products drop stays below a unit.
-/

namespace Ftke.Fixed

open Newton

/-! ## The steps in plain arithmetic -/

/-- An operand and an estimate that a step can take. -/
structure Steady (a x : Int) : Prop where
  operand : 8 ≤ a
  nonneg : 0 ≤ x
  le_residue : -2 ^ 29 ≤ residue (2 ^ 16) a x

namespace Steady

variable {a x : Int}

theorem mul_le (h : Steady a x) : a * x ≤ 2 ^ 32 + 2 ^ 29 := by
  have := h.le_residue
  unfold residue at this
  linarith

theorem mul_nonneg (h : Steady a x) : 0 ≤ a * x := Int.mul_nonneg (by linarith [h.operand]) h.nonneg

theorem product_le (h : Steady a x) : 0 ≤ a * x / 2 ^ 16 ∧ a * x / 2 ^ 16 ≤ 73728 := by
  have hle := h.mul_le
  have hnn := h.mul_nonneg
  omega

theorem neg_le_residue_next (h : Steady a x) : -73728 ≤ residue (2 ^ 16) a (next (2 ^ 16) a x) := by
  have hstep := le_residue_next (w := 2 ^ 16) (by norm_num) (by linarith [h.operand]) h.nonneg
  have hsq := sq_nonneg (residue (2 ^ 16) a x)
  have hle := h.mul_le
  linarith

theorem step (h : Steady a x) : Steady a (next (2 ^ 16) a x) where
  operand := h.operand
  nonneg := by
    have hle := h.product_le
    exact Int.ediv_nonneg (Int.mul_nonneg h.nonneg (by omega)) (by norm_num)
  le_residue := by
    have := h.neg_le_residue_next
    linarith

theorem next_lt (h : Steady a x) : next (2 ^ 16) a x < 2 ^ 31 := by
  have hle := h.neg_le_residue_next
  have hpos := h.step.nonneg
  have hmul : 8 * next (2 ^ 16) a x ≤ a * next (2 ^ 16) a x :=
    mul_le_mul_of_nonneg_right h.operand hpos
  unfold residue at hle
  linarith

end Steady

variable {a x : Int32}

theorem toInt_eglOne_mul_two : (eglOne * 2).toInt = 2 ^ 17 := by rfl

theorem fits_product (h : Steady a.toInt x.toInt) : Fits (product a x) := by
  have := h.product_le
  unfold Fits product
  omega

theorem toInt_correction (h : Steady a.toInt x.toInt) :
    (correction a x).toInt = 2 * 2 ^ 16 - a.toInt * x.toInt / 2 ^ 16 := by
  have hle := h.product_le
  rw [correction, Int32.toInt_sub, toInt_eglMul, bmod_of_fits (fits_product h), toInt_eglOne_mul_two,
    product, bmod_of_fits (by unfold Fits; omega)]
  norm_num

theorem product_correction (h : Steady a.toInt x.toInt) :
    product x (correction a x) = next (2 ^ 16) a.toInt x.toInt := by
  rw [product, toInt_correction h, next]

theorem fits_product_correction (h : Steady a.toInt x.toInt) : Fits (product x (correction a x)) := by
  have hpos := h.step.nonneg
  rw [product_correction h]
  exact ⟨by linarith, h.next_lt⟩

theorem toInt_newton (h : Steady a.toInt x.toInt) :
    (newton a x).toInt = next (2 ^ 16) a.toInt x.toInt := by
  rw [newton, toInt_eglMul, bmod_of_fits (fits_product_correction h), product_correction h]

/-! ## The estimate -/

namespace Estimated

variable {a x : Int} {s m : Nat}

theorem nonneg (h : Estimated a x s m) (h8 : 8 ≤ m) (h16 : m < 16) : 0 ≤ x := by
  have htab := (rcpTab_le h8 h16).1
  have hlt := h.lt
  have hpos : (0 : Int) < 2 ^ s := by positivity
  have : 0 < x + 1 := (mul_pos_iff_of_pos_left hpos).mp (by linarith)
  omega

theorem residue_lt (h : Estimated a x s m) (h8 : 8 ≤ m) (h16 : m < 16) :
    residue (2 ^ 16) a x < a + 2 ^ 18 := by
  have htab := (rcpTab_spec h8 h16).2
  have hx := h.nonneg h8 h16
  have hm : (m : Int) < 16 := by exact_mod_cast h16
  have hup := mul_lt_mul_of_pos_left h.lt (show (0 : Int) < m by omega)
  have hlow := mul_le_mul_of_nonneg_right h.low (show 0 ≤ x + 1 by omega)
  unfold residue
  nlinarith

theorem le_residue (h : Estimated a x s m) (h8 : 8 ≤ m) (h16 : m < 16) :
    -2 ^ 29 ≤ residue (2 ^ 16) a x := by
  have htab := (rcpTab_spec h8 h16).1
  have hx := h.nonneg h8 h16
  have hup := mul_le_mul_of_nonneg_right h.high.le hx
  have hle := mul_le_mul_of_nonneg_left h.le (show (0 : Int) ≤ m + 1 by omega)
  have hm : 8 * ((m : Int) + 1) ≤ 9 * m := by omega
  have ht := mul_le_mul_of_nonneg_right hm (rcpTab_le h8 h16).1
  unfold residue
  nlinarith

theorem eq_two (h : Estimated a x s m) (hs : s ≤ 27) (h16 : m < 16) (ha : 14 * 2 ^ 27 ≤ a) : x = 2 := by
  have hs27 : s = 27 := by
    by_contra hne
    have hpow : (2 : Int) ^ s ≤ 2 ^ 26 := pow_le_pow_right₀ (by norm_num) (by omega)
    have hm : (m : Int) + 1 ≤ 16 := by omega
    have := mul_le_mul hpow hm (by positivity) (by norm_num)
    linarith [h.high]
  subst hs27
  have hm : m = 14 ∨ m = 15 := by
    have := h.high
    omega
  have hle := h.le
  have hlt := h.lt
  obtain rfl | rfl := hm
  · rw [show (rcpTab.getD (14 - 8) 0).toInt = 18724 by rfl] at hle hlt
    omega
  · rw [show (rcpTab.getD (15 - 8) 0).toInt = 17476 by rfl] at hle hlt
    omega

end Estimated

/-! ## The bound -/

section Bound

variable {a x : Int}

theorem residue_next_mul_lt {c : Int} (ha : 0 < a) (hx : 0 ≤ x) (hlow : -c ≤ residue (2 ^ 16) a x)
    (hhigh : residue (2 ^ 16) a x ≤ c) :
    residue (2 ^ 16) a (next (2 ^ 16) a x) * 2 ^ 32 < c ^ 2 + a * 2 ^ 32 := by
  have hstep := residue_next_lt (w := 2 ^ 16) (by norm_num) ha hx
  have hsq := sq_le_sq' hlow hhigh
  linarith

theorem quotient_bounds (ha : 0 < a) :
    2 ^ 32 - a < a * (2 ^ 32 / a) ∧ a * (2 ^ 32 / a) ≤ 2 ^ 32 := by
  have h := Int.mul_ediv_add_emod (2 ^ 32) a
  have h0 := Int.emod_nonneg (2 ^ 32) ha.ne'
  have h1 := Int.emod_lt_of_pos (2 ^ 32) ha
  constructor <;> linarith

theorem mul_sub_quotient32 : a * (x - 2 ^ 32 / a) = 2 ^ 32 % a - residue (2 ^ 16) a x := by
  have h := @mul_sub_quotient (2 ^ 16) a x
  rwa [show ((2 : Int) ^ 16) ^ 2 = 2 ^ 32 by norm_num] at h

theorem above_quotient (h : 8 ≤ a) (h31 : a < 2 ^ 31) (hres : -73728 ≤ residue (2 ^ 16) a x) :
    256 * (x - 2 ^ 32 / a) < 2 ^ 32 / a + 256 := by
  have hmod := Int.emod_lt_of_pos (2 ^ 32) (show 0 < a by linarith)
  have hq := (quotient_bounds (show 0 < a by linarith)).1
  have : a * (256 * (x - 2 ^ 32 / a)) < a * (2 ^ 32 / a + 256) := by
    rw [mul_left_comm, mul_sub_quotient32]
    linarith
  exact lt_of_mul_lt_mul_left this (by linarith)

theorem below_quotient (ha : 0 < a) (hres : 256 * residue (2 ^ 16) a x < 2 ^ 32 + 255 * a) :
    256 * (2 ^ 32 / a - x) < 2 ^ 32 / a + 256 := by
  have hmod := Int.emod_nonneg (2 ^ 32) ha.ne'
  have hq := (quotient_bounds ha).1
  have : a * (256 * (2 ^ 32 / a - x)) < a * (2 ^ 32 / a + 256) := by
    rw [mul_left_comm, ← neg_sub, mul_neg, mul_sub_quotient32]
    linarith
  exact lt_of_mul_lt_mul_left this ha.le

theorem below_quotient_of_two (ha : 0 < a) (h32 : a ≤ 2 ^ 32) (hres : residue (2 ^ 16) a x < 2 * a) :
    256 * (2 ^ 32 / a - x) < 2 ^ 32 / a + 256 := by
  have hmod := Int.emod_nonneg (2 ^ 32) ha.ne'
  have hq : 1 ≤ 2 ^ 32 / a := Int.le_ediv_of_mul_le ha (by linarith)
  have : a * (2 ^ 32 / a - x) < a * 2 := by
    rw [← neg_sub, mul_neg, mul_sub_quotient32]
    linarith
  have := lt_of_mul_lt_mul_left this ha.le
  omega

theorem residue_small (ha : 0 < a) (h27 : a ≤ 2 ^ 27) (h : Steady a x) (hhigh : residue (2 ^ 16) a x ≤ 2 ^ 29) :
    256 * residue (2 ^ 16) a (next (2 ^ 16) a (next (2 ^ 16) a x)) < 2 ^ 32 + 255 * a := by
  have hfirst := residue_next_mul_lt ha h.nonneg h.le_residue hhigh
  have hlow := h.neg_le_residue_next
  have hsecond := residue_next_mul_lt (c := 3 * 2 ^ 26) ha h.step.nonneg (by linarith) (by linarith)
  linarith

theorem residue_tiny (ha : 0 < a) (h23 : a ≤ 2 ^ 23) (h : Steady a x) (hhigh : residue (2 ^ 16) a x ≤ 2 ^ 29) :
    residue (2 ^ 16) a (next (2 ^ 16) a (next (2 ^ 16) a x)) < 2 ^ 21 + a := by
  have hfirst := residue_next_mul_lt ha h.nonneg h.le_residue hhigh
  have hlow := h.neg_le_residue_next
  have hsecond := residue_next_mul_lt (c := 9 * 2 ^ 23) ha h.step.nonneg (by linarith) (by linarith)
  linarith

theorem residue_between (lo hi c d : Int) (h0 : 0 < lo) (hlo : lo ≤ a) (hhi : a ≤ hi) (h : Steady a x)
    (hres : residue (2 ^ 16) a x < a + 2 ^ 18) (hc : 2 ^ 29 ≤ c) (hc' : hi + 2 ^ 18 ≤ c) (hd : 73728 ≤ d)
    (hcd : c ^ 2 + hi * 2 ^ 32 ≤ d * 2 ^ 32) (hdlo : d ^ 2 ≤ lo * 2 ^ 32) :
    residue (2 ^ 16) a (next (2 ^ 16) a (next (2 ^ 16) a x)) < 2 * a := by
  have hfirst := residue_next_mul_lt (a := a) (c := c) (by linarith) h.nonneg
    (by linarith [h.le_residue]) (by linarith)
  have hlow := h.neg_le_residue_next
  have hsecond := residue_next_mul_lt (a := a) (c := d) (by linarith) h.step.nonneg (by linarith) (by linarith)
  linarith

theorem residue_middle (h27 : 2 ^ 27 ≤ a) (ha : a ≤ 14 * 2 ^ 27) (h : Steady a x)
    (hres : residue (2 ^ 16) a x < a + 2 ^ 18) :
    residue (2 ^ 16) a (next (2 ^ 16) a (next (2 ^ 16) a x)) < 2 * a := by
  have hcases : a ≤ 19 * 2 ^ 25 ∨ 19 * 2 ^ 25 ≤ a ∧ a ≤ 38 * 2 ^ 25 ∨ 38 * 2 ^ 25 ≤ a ∧ a ≤ 50 * 2 ^ 25 ∨
      50 * 2 ^ 25 ≤ a ∧ a ≤ 55 * 2 ^ 25 ∨ 55 * 2 ^ 25 ≤ a := by omega
  obtain hhi | ⟨hlo, hhi⟩ | ⟨hlo, hhi⟩ | ⟨hlo, hhi⟩ | hlo := hcases
  · exact residue_between (2 ^ 27) (19 * 2 ^ 25) (19 * 2 ^ 25 + 2 ^ 18) (22 * 2 ^ 25)
      (by norm_num) h27 hhi h hres
      (by norm_num) (by norm_num) (by norm_num) (by norm_num) (by norm_num)
  · exact residue_between (19 * 2 ^ 25) (38 * 2 ^ 25) (38 * 2 ^ 25 + 2 ^ 18) (1578 * 2 ^ 20)
      (by norm_num) hlo hhi h hres
      (by norm_num) (by norm_num) (by norm_num) (by norm_num) (by norm_num)
  · exact residue_between (38 * 2 ^ 25) (50 * 2 ^ 25) (50 * 2 ^ 25 + 2 ^ 18) (2226 * 2 ^ 20)
      (by norm_num) hlo hhi h hres
      (by norm_num) (by norm_num) (by norm_num) (by norm_num) (by norm_num)
  · exact residue_between (50 * 2 ^ 25) (55 * 2 ^ 25) (55 * 2 ^ 25 + 2 ^ 18) (79 * 2 ^ 25)
      (by norm_num) hlo hhi h hres
      (by norm_num) (by norm_num) (by norm_num) (by norm_num) (by norm_num)
  · exact residue_between (55 * 2 ^ 25) (14 * 2 ^ 27) (14 * 2 ^ 27 + 2 ^ 18) (81 * 2 ^ 25)
      (by norm_num) hlo ha h hres
      (by norm_num) (by norm_num) (by norm_num) (by norm_num) (by norm_num)

theorem residue_top (ha : 14 * 2 ^ 27 ≤ a) (h31 : a < 2 ^ 31) (h : Steady a 2) :
    residue (2 ^ 16) a (next (2 ^ 16) a (next (2 ^ 16) a 2)) < 2 * a := by
  have hres : residue (2 ^ 16) a 2 ≤ 2 ^ 29 := by
    unfold residue
    linarith
  have hfirst := residue_next_mul_lt (by linarith) h.nonneg h.le_residue hres
  have hlow := h.neg_le_residue_next
  have hsecond := residue_next_mul_lt (a := a) (c := 2 ^ 31 + 2 ^ 26) (by linarith) h.step.nonneg
    (by linarith) (by linarith)
  linarith

/-- **Two steps from the estimate are close to the quotient.** -/
theorem close {s m : Nat} (h8 : 8 ≤ a) (h31 : a < 2 ^ 31) (hs : s ≤ 27) (hm8 : 8 ≤ m) (hm16 : m < 16)
    (h : Estimated a x s m) :
    256 * |next (2 ^ 16) a (next (2 ^ 16) a x) - 2 ^ 32 / a| < 2 ^ 32 / a + 256 := by
  have hst : Steady a x := ⟨h8, h.nonneg hm8 hm16, h.le_residue hm8 hm16⟩
  have hres := h.residue_lt hm8 hm16
  have habove := above_quotient h8 h31 hst.step.neg_le_residue_next
  have hbelow : 256 * (2 ^ 32 / a - next (2 ^ 16) a (next (2 ^ 16) a x)) < 2 ^ 32 / a + 256 := by
    obtain h27 | h27 := le_or_gt a (2 ^ 27)
    · exact below_quotient (by linarith) (residue_small (by linarith) h27 hst (by linarith))
    · apply below_quotient_of_two (by linarith) (by linarith)
      obtain htop | htop := le_or_gt (14 * 2 ^ 27) a
      · obtain rfl := h.eq_two hs hm16 htop
        exact residue_top htop h31 hst
      · exact residue_middle h27.le htop.le hst hres
  obtain habs | habs := abs_cases (next (2 ^ 16) a (next (2 ^ 16) a x) - 2 ^ 32 / a)
  · linarith
  · linarith

end Bound

/-! ## EGL_Inverse -/

/-- The four products of the two steps, before they are cut to 32 bits. -/
def products (a : Int32) : List Int :=
  let x := estimate a
  let x' := newton a x
  [product a x, product x (correction a x), product a x', product x' (correction a x')]

/-- What the inverse of `a` is meant to be: shifts and index a C program may use, products that
fit, the sign of `a`, and a value off `2^32 / a` by less than its 256th part and one unit. The
quotient is rounded as C rounds it. -/
structure Accurate (a : Int32) : Prop where
  shift : 0 ≤ (28 - leadingZeros (magnitude a)).toInt ∧ (28 - leadingZeros (magnitude a)).toInt < 32
  scale : |(leadingZeros (magnitude a) - 16).toInt| < 32
  index : 0 ≤ (rcpIndex (magnitude a)).toInt ∧ (rcpIndex (magnitude a)).toInt < 8
  products : ∀ p ∈ products (magnitude a), Fits p
  sign : (eglInverse a).toInt.sign = a.toInt.sign
  close : 256 * |(eglInverse a).toInt - (2 ^ 32 : Int).tdiv a.toInt| < |(2 ^ 32 : Int).tdiv a.toInt| + 256

theorem toInt_magnitude {a : Int32} (ha : a ≠ Int32.minValue) : (magnitude a).toInt = |a.toInt| := by
  have hmin : a.toInt ≠ -2 ^ 31 := fun h => ha (Int32.toInt_inj.mp h)
  have hle := a.le_toInt
  rw [magnitude]
  split_ifs with hneg
  · rw [Int32.lt_iff_toInt_lt, Int32.toInt_zero] at hneg
    rw [Int32.toInt_neg, abs_of_neg hneg, bmod_of_fits ⟨by omega, by omega⟩]
  · rw [Int32.lt_iff_toInt_lt, Int32.toInt_zero] at hneg
    rw [abs_of_nonneg (by omega)]

/-- The two steps from the estimate, for an operand without sign. -/
def refined (a : Int32) : Int := next (2 ^ 16) a.toInt (next (2 ^ 16) a.toInt (estimate a).toInt)

theorem refined_spec {a : Int32} (ha : 8 ≤ a.toInt) :
    (newton a (newton a (estimate a))).toInt = refined a ∧ (∀ p ∈ products a, Fits p) ∧
      256 * |refined a - 2 ^ 32 / a.toInt| < 2 ^ 32 / a.toInt + 256 := by
  obtain ⟨s, m, hs, hm8, hm16, -, hest⟩ := estimate_spec ha
  have hst : Steady a.toInt (estimate a).toInt := ⟨ha, hest.nonneg hm8 hm16, hest.le_residue hm8 hm16⟩
  have hx := toInt_newton hst
  have hst' : Steady a.toInt (newton a (estimate a)).toInt := by
    rw [hx]
    exact hst.step
  refine ⟨?_, ?_, close ha a.toInt_lt hs hm8 hm16 hest⟩
  · rw [toInt_newton hst', hx, refined]
  · simp only [products, List.mem_cons, List.not_mem_nil, or_false, forall_eq_or_imp, forall_eq]
    exact ⟨fits_product hst, fits_product_correction hst, fits_product hst', fits_product_correction hst'⟩

/-- For values of at most 128, the next larger integer than the quotient is close as well. -/
theorem refined_close_up {a : Int32} {c : Int} (h8 : 8 ≤ a.toInt) (h23 : a.toInt ≤ 2 ^ 23)
    (hc : 2 ^ 32 ≤ a.toInt * c) (hc' : a.toInt * c < 2 ^ 32 + a.toInt) :
    256 * |refined a - c| < c + 256 := by
  obtain ⟨s, m, hs, hm8, hm16, -, hest⟩ := estimate_spec h8
  have hst : Steady a.toInt (estimate a).toInt := ⟨h8, hest.nonneg hm8 hm16, hest.le_residue hm8 hm16⟩
  have hres := hest.residue_lt hm8 hm16
  have htiny := residue_tiny (by omega) h23 hst (by linarith)
  have hneg := hst.step.neg_le_residue_next
  rw [← refined] at htiny hneg
  unfold residue at htiny hneg
  have hbelow : a.toInt * (256 * (c - refined a)) < a.toInt * (c + 256) := by
    rw [mul_left_comm, mul_sub, mul_add]
    linarith
  have habove : a.toInt * (256 * (refined a - c)) < a.toInt * (c + 256) := by
    rw [mul_left_comm, mul_sub, mul_add]
    linarith
  have hb := lt_of_mul_lt_mul_left hbelow (by omega)
  have ha := lt_of_mul_lt_mul_left habove (by omega)
  obtain habs | habs := abs_cases (refined a - c)
  · linarith
  · linarith

theorem refined_pos {a : Int32} (ha : 8 ≤ a.toInt) : 0 < refined a := by
  have hclose := (refined_spec ha).2.2
  have hq : 2 ≤ 2 ^ 32 / a.toInt := Int.le_ediv_of_mul_le (by omega) (by have := a.toInt_lt; omega)
  have := neg_abs_le (refined a - 2 ^ 32 / a.toInt)
  omega

theorem toInt_eglInverse {a : Int32} (h8 : 8 ≤ |a.toInt|) (ha : a ≠ Int32.minValue) :
    (eglInverse a).toInt = a.toInt.sign * refined (magnitude a) := by
  have hmag := toInt_magnitude ha
  have hspec := (refined_spec (a := magnitude a) (by omega)).1
  have hpos := refined_pos (a := magnitude a) (by omega)
  have hlt := (newton (magnitude a) (newton (magnitude a) (estimate (magnitude a)))).toInt_lt
  have h0 : a ≠ 0 := by
    rintro rfl
    simp at h8
  rw [eglInverse, if_neg h0]
  dsimp only
  split_ifs with hneg
  · rw [Int32.lt_iff_toInt_lt, Int32.toInt_zero] at hneg
    rw [Int32.toInt_neg, hspec, bmod_of_fits ⟨by omega, by omega⟩, Int.sign_eq_neg_one_of_neg hneg]
    omega
  · rw [Int32.lt_iff_toInt_lt, Int32.toInt_zero] at hneg
    rw [hspec, Int.sign_eq_one_of_pos (by rw [abs_of_nonneg (by omega)] at h8; omega), one_mul]

theorem tdiv_eq {a : Int} : (2 ^ 32 : Int).tdiv a = a.sign * (2 ^ 32 / |a|) := by
  obtain hneg | rfl | hpos := lt_trichotomy a 0
  · obtain ⟨n, rfl⟩ : ∃ n, a = -n := ⟨-a, by omega⟩
    rw [Int.tdiv_neg, Int.tdiv_eq_ediv_of_nonneg (by norm_num), Int.sign_eq_neg_one_of_neg hneg, abs_of_neg hneg,
      neg_neg, neg_one_mul]
  · simp
  · rw [Int.tdiv_eq_ediv_of_nonneg (by norm_num), Int.sign_eq_one_of_pos hpos, abs_of_pos hpos, one_mul]

theorem accurate_of_eight_le {a : Int32} (h8 : 8 ≤ |a.toInt|) (ha : a ≠ Int32.minValue) : Accurate a := by
  have hmag := toInt_magnitude ha
  have hn : 8 ≤ (magnitude a).toInt := by omega
  obtain ⟨s, m, hs, -, -, hlz, -⟩ := estimate_spec hn
  obtain ⟨-, hfits, hclose⟩ := refined_spec hn
  have hval := toInt_eglInverse h8 ha
  have hpos := refined_pos hn
  have hq : 0 ≤ 2 ^ 32 / (magnitude a).toInt := Int.ediv_nonneg (by norm_num) (by omega)
  have hsign : |a.toInt.sign| = 1 := by
    obtain hlt | hgt := lt_or_gt_of_ne (show a.toInt ≠ 0 by intro h; simp [h] at h8)
    · simp [Int.sign_eq_neg_one_of_neg hlt]
    · simp [Int.sign_eq_one_of_pos hgt]
  refine ⟨?_, ?_, ?_, hfits, ?_, ?_⟩
  · rw [Int32.toInt_sub, show (28 : Int32).toInt = 28 by rfl, bmod_of_fits (by unfold Fits; omega)]
    omega
  · rw [Int32.toInt_sub, show (16 : Int32).toInt = 16 by rfl, bmod_of_fits (by unfold Fits; omega), abs_lt]
    omega
  · rw [rcpIndex, toInt_and_ones (k := 3) (by norm_num) (by rfl)]
    omega
  · rw [hval, Int.sign_mul, Int.sign_sign, Int.sign_eq_one_of_pos hpos, mul_one]
  · rw [hval, tdiv_eq, ← hmag, ← mul_sub, abs_mul, abs_mul, hsign, one_mul, one_mul, abs_of_nonneg hq]
    exact hclose

theorem not_accurate_of_lt {a : Int32} (h2 : 2 ≤ |a.toInt|) (h8 : |a.toInt| < 8) : ¬Accurate a := by
  intro h
  have hmag : (magnitude a).toInt = |a.toInt| := toInt_magnitude (by rintro rfl; revert h8; decide)
  obtain ⟨l, hl, hlow, -⟩ := leadingZeros_spec (a := magnitude a) (by omega)
  have hl3 : l < 3 := by
    by_contra hge
    have : (2 : Int) ^ 3 ≤ 2 ^ l := pow_le_pow_right₀ (by norm_num) (by omega)
    omega
  have hshift := h.shift.1
  rw [Int32.toInt_sub, show (28 : Int32).toInt = 28 by rfl, bmod_of_fits (by unfold Fits; omega)] at hshift
  omega

theorem not_accurate_minValue : ¬Accurate Int32.minValue := by
  intro h
  have hclose := h.close
  have hval : (eglInverse Int32.minValue).toInt = -30 := by decide +kernel
  rw [hval, Int32.toInt_minValue] at hclose
  revert hclose
  decide

/-- Rounding a negative quotient down costs a unit, which a value of at most 128 can bear. -/
theorem close_fdiv {a : Int32} (h8 : 8 ≤ |a.toInt|) (hpos : 0 < a.toInt ∨ |a.toInt| ≤ 2 ^ 23) :
    256 * |(eglInverse a).toInt - (2 ^ 32 : Int).fdiv a.toInt| < |(2 ^ 32 : Int).fdiv a.toInt| + 256 := by
  obtain hpos | hneg := lt_or_ge 0 a.toInt
  · have hacc := accurate_of_eight_le h8 (by rintro rfl; revert hpos; decide)
    rw [Int.fdiv_eq_ediv_of_nonneg _ hpos.le, ← Int.tdiv_eq_ediv_of_nonneg (by norm_num)]
    exact hacc.close
  · have h23 : |a.toInt| ≤ 2 ^ 23 := hpos.resolve_left (not_lt.mpr hneg)
    have hmin : a ≠ Int32.minValue := by
      rintro rfl
      revert h23
      decide
    have hmag := toInt_magnitude hmin
    obtain ⟨n, hn⟩ : ∃ n, n = |a.toInt| := ⟨_, rfl⟩
    have ha : a.toInt = -n := by rw [hn, abs_of_nonpos hneg, neg_neg]
    obtain ⟨c, hc⟩ : ∃ c, (2 ^ 32 : Int).fdiv a.toInt = -c := ⟨-(2 ^ 32 : Int).fdiv a.toInt, (neg_neg _).symm⟩
    have hround := Int.mul_ediv_add_emod (-2 ^ 32) n
    have hmod := Int.emod_nonneg (-2 ^ 32) (show n ≠ 0 by omega)
    have hmod' := Int.emod_lt_of_pos (-2 ^ 32) (show 0 < n by omega)
    have hq : -2 ^ 32 / n = -c := by
      rw [← hc, ha, ← Int.neg_fdiv_neg, neg_neg, Int.fdiv_eq_ediv_of_nonneg _ (by omega)]
    rw [hq, mul_neg] at hround
    have hclose := refined_close_up (a := magnitude a) (c := c) (by omega) (by omega)
      (by rw [hmag, ← hn]; linarith) (by rw [hmag, ← hn]; linarith)
    have hc0 : 0 ≤ c := by
      by_contra hlt
      have := mul_nonneg (show 0 ≤ n by omega) (show 0 ≤ -c by omega)
      rw [mul_neg] at this
      linarith
    rw [hc, toInt_eglInverse h8 hmin, Int.sign_eq_neg_one_of_neg (by omega), neg_one_mul, ← neg_sub', abs_neg,
      abs_neg, abs_of_nonneg hc0]
    exact hclose

/-- **`EGL_Inverse` is accurate exactly from 8 on**, the least number apart: below, the index of
the table is taken with a negative shift. Rounded down instead, the bound is met by all positive
operands from 8 on, and by the negative ones of at most 128. -/
theorem eglInverse_accurate_iff (a : Int32) (h : 2 ≤ |a.toInt|) :
    (Accurate a ↔ 8 ≤ |a.toInt| ∧ a ≠ Int32.minValue) ∧
      (8 ≤ |a.toInt| → 0 < a.toInt ∨ |a.toInt| ≤ 2 ^ 23 →
        256 * |(eglInverse a).toInt - (2 ^ 32 : Int).fdiv a.toInt| < |(2 ^ 32 : Int).fdiv a.toInt| + 256) := by
  refine ⟨⟨fun hacc => ⟨?_, ?_⟩, fun hcond => accurate_of_eight_le hcond.1 hcond.2⟩, fun h8 => close_fdiv h8⟩
  · by_contra hlt
    exact not_accurate_of_lt h (not_le.mp hlt) hacc
  · rintro rfl
    exact not_accurate_minValue hacc

/-- For one the index is taken after a shift by 12 and is exact. -/
theorem eglInverse_accurate_iff_one :
    2 ≤ |(65536 : Int32).toInt| ∧
      (Accurate 65536 ↔ 8 ≤ |(65536 : Int32).toInt| ∧ (65536 : Int32) ≠ Int32.minValue) :=
  ⟨by decide, (eglInverse_accurate_iff 65536 (by decide)).1⟩

/-- For 2, the reciprocal of which is `2^31`, the shift is by -2. -/
theorem eglInverse_not_accurate_two : 2 ≤ |(2 : Int32).toInt| ∧ ¬Accurate 2 := by
  refine ⟨by decide, fun h => ?_⟩
  have hshift := h.shift.1
  revert hshift
  decide

end Ftke.Fixed
