import Mathlib.Algebra.Ring.Nat
import Mathlib.Data.List.Pairwise

/-!
# Ftke.HalfRange

Circular comparison of 32-bit counters: `y` is not before `x` when the
difference `y - x`, taken modulo `2 ^ 32`, is below `2 ^ 31`.

The comparison is neither total nor transitive on all counters; on those
within one half range `[w, w + 2 ^ 31)` it is the order of their offsets from
`w`, whichever `w` is taken.
-/

namespace Ftke.HalfRange

/-- `x` lies in the half range that starts at `w`. -/
def Within (w x : UInt32) : Prop := x - w ≤ 0x7fffffff

/-- `x` is not later than `y`. -/
def NotLater (x y : UInt32) : Prop := y - x ≤ 0x7fffffff

instance (w x : UInt32) : Decidable (Within w x) := inferInstanceAs (Decidable (_ ≤ _))

instance (x y : UInt32) : Decidable (NotLater x y) := inferInstanceAs (Decidable (_ ≤ _))

/-- The distance of `x` from `w`. -/
def offset (w x : UInt32) : Nat := (x - w).toNat

variable {w x y : UInt32}

theorem within_iff : Within w x ↔ offset w x < 2 ^ 31 := by
  have h : (0x7fffffff : UInt32).toNat = 2 ^ 31 - 1 := rfl
  unfold Within offset
  rw [UInt32.le_iff_toNat_le, h]
  omega

theorem notLater_iff_toNat : NotLater x y ↔ (y - x).toNat < 2 ^ 31 := within_iff

theorem offset_eq (w x : UInt32) : offset w x = (2 ^ 32 - w.toNat + x.toNat) % 2 ^ 32 :=
  UInt32.toNat_sub x w

theorem offset_inj : offset w x = offset w y ↔ x = y := by
  constructor
  · intro h
    have hsub : x - w = y - w := UInt32.toNat_inj.mp h
    calc
      x = x - w + w := (UInt32.sub_add_cancel x w).symm
      _ = y - w + w := by rw [hsub]
      _ = y := UInt32.sub_add_cancel y w
  · rintro rfl
    rfl

theorem notLater_iff (hx : Within w x) (hy : Within w y) :
    NotLater x y ↔ offset w x ≤ offset w y := by
  rw [notLater_iff_toNat]
  rw [within_iff] at hx hy
  have hxl := x.toNat_lt
  have hyl := y.toNat_lt
  have hwl := w.toNat_lt
  rw [offset_eq] at hx hy ⊢
  rw [offset_eq, UInt32.toNat_sub]
  omega

theorem toNat_sub_of_notLater (hx : Within w x) (hy : Within w y) (h : NotLater x y) :
    (y - x).toNat = offset w y - offset w x := by
  rw [notLater_iff_toNat] at h
  rw [within_iff] at hx hy
  have hxl := x.toNat_lt
  have hyl := y.toNat_lt
  have hwl := w.toNat_lt
  rw [offset_eq] at hx hy ⊢
  rw [offset_eq]
  rw [UInt32.toNat_sub] at h ⊢
  omega

theorem notLater_total (hx : Within w x) (hy : Within w y) : NotLater x y ∨ NotLater y x := by
  rw [notLater_iff hx hy, notLater_iff hy hx]
  exact Nat.le_total _ _

/-- Some half range that starts at one of the counters holds them all. -/
def InHalfRange (l : List UInt32) : Prop := ∃ w ∈ l, ∀ x ∈ l, Within w x

instance (l : List UInt32) : Decidable (InHalfRange l) :=
  decidable_of_iff ((l.any fun w => l.all fun x => decide (Within w x)) = true) (by
    simp only [List.any_eq_true, List.all_eq_true, decide_eq_true_eq, InHalfRange])

end Ftke.HalfRange
