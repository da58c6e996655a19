import Ftke.BitFields
import Ftke.GenericPer
import Ftke.Words

/-!
# Ftke.GenericPer.Streams

A read at bit `q` takes the bits that memory holds there (`readBits_cursor`).
-/

namespace Ftke.GenericPer

open Bits BitFields

/-! ## Reading -/

/-- The input stream at bit `q`. -/
def cursor (q : Nat) : InStream := ⟨q / 8, q % 8⟩

variable {mem : Nat → UInt8}

theorem bitsFrom_add (q m n : Nat) :
    bitsFrom mem q (m + n) = bitsFrom mem q m ++ bitsFrom mem (q + m) n := by
  simp only [bitsFrom, List.range_add, List.map_append, List.map_map, Function.comp_def, Nat.add_assoc]

theorem bitsFrom_octet (d : Nat) : bitsFrom mem (8 * d) 8 = toBits 8 (mem d).toNat := by
  have h := At.eq_bitsFrom (at_octet d : At mem (8 * d) _)
  rw [length_toBits] at h
  exact h.symm

theorem bitsFrom_within {d b n : Nat} (h : b + n ≤ 8) :
    bitsFrom mem (8 * d + b) n = ((toBits 8 (mem d).toNat).drop b).take n := by
  obtain ⟨r, hr⟩ : ∃ r, 8 = b + (n + r) := ⟨8 - b - n, by omega⟩
  have hsplit : bitsFrom mem (8 * d) 8 =
      bitsFrom mem (8 * d) b ++ (bitsFrom mem (8 * d + b) n ++ bitsFrom mem (8 * d + b + n) r) := by
    rw [← bitsFrom_add, ← bitsFrom_add, ← hr]
  rw [← bitsFrom_octet, hsplit, List.drop_left' (length_bitsFrom _ _), List.take_left' (length_bitsFrom _ _)]

theorem ofBits_within {d b n : Nat} (h : b + n ≤ 8) :
    ofBits (bitsFrom mem (8 * d + b) n) = (mem d).toNat / 2 ^ (8 - b - n) % 2 ^ n := by
  rw [bitsFrom_within h, ofBits_take_drop_byte h]

theorem toNat_maskBit : ∀ b < 8, (maskBit.getD b 0).toNat = 2 ^ (8 - b) - 1 := by decide

theorem toNat_not_maskBit : ∀ b < 8, ∀ k ≤ b, (~~~maskBit.getD b 0).toNat >>> (8 - k) = 2 ^ k - 1 := by
  decide

theorem toNat_and_maskBit (x : UInt8) {b : Nat} (hb : b < 8) :
    (x &&& maskBit.getD b 0).toNat = x.toNat % 2 ^ (8 - b) := by
  rw [UInt8.toNat_and, toNat_maskBit b hb, Nat.and_two_pow_sub_one_eq_mod]

theorem shiftRight_lt {x : UInt8} {k : Nat} (hk : k ≤ 8) : x.toNat / 2 ^ (8 - k) < 2 ^ k := by
  rw [Nat.div_lt_iff_lt_mul (Nat.two_pow_pos _), ← Nat.pow_add, Nat.add_sub_cancel' hk]
  exact x.toNat_lt

/-- **ReadBits takes the bits at its position.** -/
theorem readBits_cursor {n : Nat} (hn : n ≤ 8) (q : Nat) :
    readBits mem n (cursor q) = .ok (UInt8.ofNat (ofBits (bitsFrom mem q n)), cursor (q + n)) := by
  obtain ⟨d, b, hq, hb⟩ : ∃ d b, q = 8 * d + b ∧ b < 8 := ⟨q / 8, q % 8, by omega, by omega⟩
  have hcursor : cursor q = ⟨d, b⟩ := by
    rw [cursor, hq]
    congr 1 <;> omega
  have hnot : ¬n > 8 := by omega
  rw [readBits, if_neg hnot, hcursor]
  simp only
  by_cases hover : b + n > 8
  · -- the field goes on in the next octet
    obtain ⟨k, hk⟩ : ∃ k, b + n = 8 + k := ⟨b + n - 8, by omega⟩
    have hfield : ofBits (bitsFrom mem q n) =
        (mem d).toNat % 2 ^ (8 - b) * 2 ^ k + (mem (d + 1)).toNat / 2 ^ (8 - k) := by
      have hnext : 8 * d + b + (8 - b) = 8 * (d + 1) + 0 := by omega
      rw [hq, show n = (8 - b) + k by omega, bitsFrom_add, hnext, ofBits_append, length_bitsFrom,
        ofBits_within (by omega), ofBits_within (by omega), Nat.sub_self, Nat.pow_zero, Nat.div_one,
        Nat.sub_zero, Nat.mod_eq_of_lt (shiftRight_lt (by omega))]
    have hhigh := shiftRight_lt (x := mem (d + 1)) (k := k) (by omega)
    have hlt := ofBits_lt (bitsFrom mem q n)
    rw [length_bitsFrom, hfield] at hlt
    have hroom := lt_of_lt_of_le hlt (Nat.pow_le_pow_right (by decide) hn)
    have hfront : ((mem d).toNat % 2 ^ (8 - b)) <<< k % 2 ^ 8 = ((mem d).toNat % 2 ^ (8 - b)) <<< k :=
      Nat.mod_eq_of_lt (by rw [Nat.shiftLeft_eq]; exact lt_of_le_of_lt (Nat.le_add_right _ _) hroom)
    have hback : (mem (d + 1)).toNat / 2 ^ (8 - k) % 2 ^ 8 = (mem (d + 1)).toNat / 2 ^ (8 - k) :=
      Nat.mod_eq_of_lt (lt_of_le_of_lt (Nat.le_add_left _ _) hroom)
    rw [if_pos hover, show b + n - 8 = k by omega, cursor, show (q + n) / 8 = d + 1 by omega,
      show (q + n) % 8 = k by omega, hfield]
    refine congrArg (fun x => Except.ok (x, _)) (UInt8.toNat_inj.mp ?_)
    rw [UInt8.toNat_or, UInt8.toNat_ofNat', UInt8.toNat_ofNat', UInt8.toNat_ofNat',
      toNat_and_maskBit _ hb, UInt8.toNat_and, Nat.shiftRight_and_distrib,
      toNat_not_maskBit b hb k (by omega), Nat.and_two_pow_sub_one_eq_mod, Nat.shiftRight_eq_div_pow,
      Nat.mod_eq_of_lt hhigh, hfront, hback, or_of_lt hhigh, Nat.mod_eq_of_lt hroom]
  · have hfield : ofBits (bitsFrom mem q n) = (mem d).toNat % 2 ^ (8 - b) / 2 ^ (8 - (b + n)) := by
      rw [hq, ofBits_within (by omega), Nat.sub_sub, show 8 - b = 8 - (b + n) + n by omega,
        Nat.pow_add, Nat.mod_mul_right_div_self]
    rw [if_neg hover, hfield]
    by_cases hless : b + n < 8
    · rw [if_pos hless, cursor, show (q + n) / 8 = d by omega, show (q + n) % 8 = b + n by omega,
        toNat_and_maskBit _ hb, Nat.shiftRight_eq_div_pow]
    · have hfull : b + n = 8 := by omega
      rw [if_neg hless, cursor, show (q + n) / 8 = d + 1 by omega, show (q + n) % 8 = 0 by omega,
        hfull, Nat.sub_self, Nat.pow_zero, Nat.div_one, ← toNat_and_maskBit _ hb, UInt8.ofNat_toNat]

theorem ok_bind {α β : Type} (a : α) (f : α → Except Stop β) : (Except.ok a).bind f = f a := rfl

theorem ok_map {α β : Type} (a : α) (f : α → β) : (Except.ok a : Except Stop α).map f = .ok (f a) := rfl

/-! ## Words and ranges -/

theorem toNat_stored_cons (b : UInt8) (octets : List UInt8) :
    (stored (b :: octets)).toNat = ((stored octets).toNat * 256 + b.toNat) % 2 ^ 32 := by
  simp [stored]

theorem fieldWidth_le (range : Int) : fieldWidth range ≤ 8 := by
  rw [fieldWidth]
  grind

theorem toNat_range (lower upper : UInt32) (h : lower.toNat ≤ upper.toNat) :
    (upper - lower + 1).toNat = (upper.toNat - lower.toNat + 1) % 2 ^ 32 := by
  rw [UInt32.toNat_add, UInt32.toNat_sub_of_le _ _ h]
  rfl

theorem toInt_range (lower upper : Int32) :
    (upper - lower + 1).toInt = (upper.toInt - lower.toInt + 1).bmod (2 ^ 32) := by
  rw [Int32.toInt_add, Int32.toInt_sub, Int.bmod_add_bmod]
  rfl

theorem and_80 : ∀ n < 256, UInt8.ofNat n &&& 0x80 = 0 ↔ n < 128 := by decide +kernel

theorem and_40 : ∀ n < 256, UInt8.ofNat n &&& 0x40 = 0 ↔ n % 128 < 64 := by decide +kernel

theorem and_80_iff (b : UInt8) : b &&& 0x80 = 0 ↔ b.toNat < 128 := by
  have h := and_80 b.toNat b.toNat_lt
  rwa [UInt8.ofNat_toNat] at h

theorem and_40_iff (b : UInt8) : b &&& 0x40 = 0 ↔ b.toNat % 128 < 64 := by
  have h := and_40 b.toNat b.toNat_lt
  rwa [UInt8.ofNat_toNat] at h

end Ftke.GenericPer
