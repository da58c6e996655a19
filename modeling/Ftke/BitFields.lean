import Ftke.Bits
import Mathlib.Data.List.Range

/-!
# Ftke.BitFields

Bits in memory, the most significant bit of an octet first.

`At mem q w` says that `mem` holds the bits `w` from bit `q` on, and `bitsFrom` are the bits
that it holds there.
-/

namespace Ftke.BitFields

open Bits

/-- Bit `i` of memory, the most significant bit of an octet first. -/
def bitAt (mem : Nat → UInt8) (i : Nat) : Bool := (mem (i / 8)).toNat.testBit (7 - i % 8)

/-- From bit `q` on there are the bits `w`. -/
def At (mem : Nat → UInt8) (q : Nat) (w : List Bool) : Prop :=
  ∀ i, i < w.length → w[i]? = some (bitAt mem (q + i))

variable {mem : Nat → UInt8}

/-- The bits that memory holds there. -/
def bitsFrom (mem : Nat → UInt8) (q n : Nat) : List Bool := (List.range n).map fun i => bitAt mem (q + i)

@[simp] theorem length_bitsFrom (q n : Nat) : (bitsFrom mem q n).length = n := by
  simp [bitsFrom]

theorem at_bitsFrom (q n : Nat) : At mem q (bitsFrom mem q n) := by
  intro i hi
  rw [length_bitsFrom] at hi
  simp [bitsFrom, List.getElem?_range hi]

theorem At.eq_bitsFrom {q : Nat} {w : List Bool} (h : At mem q w) : w = bitsFrom mem q w.length := by
  refine List.ext_getElem? fun i => ?_
  by_cases hi : i < w.length
  · rw [h i hi, at_bitsFrom q w.length i (by rwa [length_bitsFrom])]
  · rw [List.getElem?_eq_none (by omega), List.getElem?_eq_none (by rw [length_bitsFrom]; omega)]

theorem bitAt_octet (d : Nat) {i : Nat} (hi : i < 8) :
    bitAt mem (8 * d + i) = (mem d).toNat.testBit (7 - i) := by
  rw [bitAt, Nat.mul_add_div (by decide), Nat.div_eq_of_lt hi, Nat.mul_add_mod, Nat.mod_eq_of_lt hi,
    Nat.add_zero]

theorem getElem?_toBits {w i : Nat} (v : Nat) (hi : i < w) :
    (toBits w v)[i]? = some (v.testBit (w - 1 - i)) := by
  induction w generalizing i with
  | zero => omega
  | succ w ih =>
    cases i with
    | zero => rfl
    | succ i =>
      rw [toBits, List.getElem?_cons_succ, ih (by omega)]
      congr 2
      omega

theorem at_octet (d : Nat) : At mem (8 * d) (toBits 8 (mem d).toNat) := by
  intro i hi
  rw [length_toBits] at hi
  rw [getElem?_toBits _ hi, bitAt_octet d hi]

end Ftke.BitFields
