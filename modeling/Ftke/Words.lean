import Mathlib.Algebra.Ring.Int.Defs
import Mathlib.Algebra.Ring.Nat

/-!
# Ftke.Words

Machine words in plain arithmetic: a 32-bit number read as signed or as unsigned, and
its low bits.
-/

namespace Ftke.Words

theorem bmod_word (x : Int) : x.bmod (2 ^ 32) = (x + 2 ^ 31) % 2 ^ 32 - 2 ^ 31 := by
  rw [Int.bmod_def]
  split <;> omega

theorem toNat_toUInt32 (v : Int32) : (v.toUInt32.toNat : Int) = v.toInt % 2 ^ 32 := by
  have h : v.toInt = (v.toUInt32.toNat : Int).bmod (2 ^ 32) := BitVec.toInt_eq_toNat_bmod v.toBitVec
  have hlt := v.toUInt32.toNat_lt
  rw [h, bmod_word]
  omega

theorem toNat_low8 (v : Int32) : (v.toUInt32.toUInt8.toNat : Int) = v.toInt % 256 := by
  have h := toNat_toUInt32 v
  rw [UInt32.toNat_toUInt8]
  omega

/-! ## The low two bits -/

theorem or_and (x y z : UInt32) : (x ||| y) &&& z = (x &&& z) ||| (y &&& z) :=
  UInt32.eq_of_toBitVec_eq BitVec.and_or_distrib_right

theorem toNat_and_three (x : UInt32) : (x &&& 3).toNat = x.toNat % 4 := by
  rw [UInt32.toNat_and]
  exact Nat.and_two_pow_sub_one_eq_mod x.toNat 2

theorem shiftLeft_and_three (x : UInt32) {k : UInt32} (hk : 2 ≤ k.toNat % 32) : (x <<< k) &&& 3 = 0 := by
  apply UInt32.toNat_inj.mp
  have hpow : 2 ^ (k.toNat % 32) = 2 ^ (k.toNat % 32 - 2) * 4 := by
    rw [show 4 = 2 ^ 2 by decide, ← Nat.pow_add, Nat.sub_add_cancel hk]
  have hzero : (0 : UInt32).toNat = 0 := rfl
  rw [toNat_and_three, UInt32.toNat_shiftLeft, Nat.shiftLeft_eq, hpow, ← Nat.mul_assoc]
  omega

theorem and_three_and_three (x : UInt32) : (x &&& 3) &&& 3 = x &&& 3 := by
  rw [UInt32.and_assoc, UInt32.and_self]

end Ftke.Words
