import Mathlib.Tactic.Linarith
import Mathlib.Tactic.Ring

/-!
# Ftke.Newton

Reciprocals by Newton's iteration `x ↦ x (2 - a x)` in integers whose products are cut down
to a power of two. What an estimate `x` of `w² / a` misses is measured by `w² - a x`, an
integer the iteration squares, so no fraction is needed.
-/

namespace Ftke.Newton

/-- What `a x` misses `w²` by. -/
def residue (w a x : Int) : Int := w ^ 2 - a * x

/-- One step, both products divided by `w` and rounded down. -/
def next (w a x : Int) : Int := x * (2 * w - a * x / w) / w

variable {w a x : Int}

/-- **The residue is squared**, but for what the two divisions drop. -/
theorem residue_next :
    residue w a (next w a x) * w ^ 2 = residue w a x ^ 2 - a * x * (a * x % w)
      + a * w * (x * (2 * w - a * x / w) % w) := by
  have hp := Int.mul_ediv_add_emod (a * x) w
  have hx := Int.mul_ediv_add_emod (x * (2 * w - a * x / w)) w
  unfold residue next
  generalize a * x / w = p at *
  generalize a * x % w = t at *
  generalize x * (2 * w - p) / w = y at *
  generalize x * (2 * w - p) % w = u at *
  have hwp : w * p = a * x - t := by omega
  have hwy : w * y = x * (2 * w - p) - u := by omega
  calc (w ^ 2 - a * y) * w ^ 2 = w ^ 4 - a * w * (w * y) := by ring
    _ = w ^ 4 - 2 * w ^ 2 * (a * x) + a * x * (w * p) + a * w * u := by rw [hwy]; ring
    _ = (w ^ 2 - a * x) ^ 2 - a * x * t + a * w * u := by rw [hwp]; ring

theorem residue_next_lt (hw : 0 < w) (ha : 0 < a) (hx : 0 ≤ x) :
    residue w a (next w a x) * w ^ 2 < residue w a x ^ 2 + a * w ^ 2 := by
  have hr := residue_next (w := w) (a := a) (x := x)
  have ht := Int.emod_nonneg (a * x) hw.ne'
  have hu := Int.emod_lt_of_pos (x * (2 * w - a * x / w)) hw
  have htx : 0 ≤ a * x * (a * x % w) := mul_nonneg (mul_nonneg ha.le hx) ht
  have hux : a * w * (x * (2 * w - a * x / w) % w) < a * w * w :=
    mul_lt_mul_of_pos_left hu (mul_pos ha hw)
  rw [hr]
  linarith [show a * w ^ 2 = a * w * w by ring]

theorem le_residue_next (hw : 0 < w) (ha : 0 < a) (hx : 0 ≤ x) :
    residue w a x ^ 2 - a * x * w ≤ residue w a (next w a x) * w ^ 2 := by
  have hr := residue_next (w := w) (a := a) (x := x)
  have ht := Int.emod_lt_of_pos (a * x) hw
  have hu := Int.emod_nonneg (x * (2 * w - a * x / w)) hw.ne'
  have htx : a * x * (a * x % w) ≤ a * x * w := mul_le_mul_of_nonneg_left ht.le (mul_nonneg ha.le hx)
  have hux : 0 ≤ a * w * (x * (2 * w - a * x / w) % w) := mul_nonneg (mul_pos ha hw).le hu
  rw [hr]
  linarith

theorem mul_sub_quotient : a * (x - w ^ 2 / a) = w ^ 2 % a - residue w a x := by
  have h := Int.mul_ediv_add_emod (w ^ 2) a
  unfold residue
  linarith [mul_sub a x (w ^ 2 / a)]

end Ftke.Newton
