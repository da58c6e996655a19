import Mathlib.Algebra.Ring.Nat
import Mathlib.Data.List.Basic

/-!
# Ftke.Bits

Bit strings, most significant bit first: the numbers they stand for, and the
bits of a byte string.

`toBits w v` are the low `w` bits of `v` and `ofBits` is the number a bit string
stands for.  A field of a byte is a piece of its bit string
(`ofBits_take_drop_byte`), so a reader that shifts and masks computes `ofBits`
of what it takes, and taking it in pieces is `ofBits_append`.
-/

namespace Ftke.Bits

/-! ## Numbers -/

/-- The low `w` bits of `v`, most significant bit first. -/
def toBits : Nat → Nat → List Bool
  | 0, _ => []
  | w + 1, v => v.testBit w :: toBits w v

/-- The number a bit string stands for. -/
def ofBits : List Bool → Nat
  | [] => 0
  | b :: l => b.toNat * 2 ^ l.length + ofBits l

@[simp] theorem length_toBits : ∀ w v, (toBits w v).length = w
  | 0, _ => rfl
  | w + 1, v => congrArg (· + 1) (length_toBits w v)

theorem ofBits_append : ∀ l m : List Bool, ofBits (l ++ m) = ofBits l * 2 ^ m.length + ofBits m
  | [], m => by simp [ofBits]
  | b :: l, m => by
    simp only [List.cons_append, ofBits, ofBits_append l m, List.length_append, Nat.pow_add]
    rw [Nat.add_mul, Nat.mul_assoc, Nat.add_assoc]

theorem ofBits_lt : ∀ l : List Bool, ofBits l < 2 ^ l.length
  | [] => Nat.one_pos
  | b :: l => by
    have ih := ofBits_lt l
    have hb : b.toNat * 2 ^ l.length ≤ 1 * 2 ^ l.length := Nat.mul_le_mul_right _ b.toNat_le
    rw [ofBits, List.length_cons, Nat.pow_succ]
    omega

theorem ofBits_toBits : ∀ w v, ofBits (toBits w v) = v % 2 ^ w
  | 0, v => by simp [toBits, ofBits, Nat.mod_one]
  | w + 1, v => by
    have hsplit := Nat.mod_mul (x := v) (a := 2 ^ w) (b := 2)
    rw [toBits, ofBits, ofBits_toBits w v, length_toBits, Nat.toNat_testBit, Nat.pow_succ, hsplit,
      Nat.mul_comm, Nat.add_comm]

theorem toBits_congr : ∀ {w u v : Nat}, u % 2 ^ w = v % 2 ^ w → toBits w u = toBits w v
  | 0, _, _, _ => rfl
  | w + 1, u, v, h => by
    have hbit : u.testBit w = v.testBit w := by
      have htest := congrArg (fun x => x.testBit w) h
      simpa [Nat.testBit_mod_two_pow] using htest
    have hlow : u % 2 ^ w = v % 2 ^ w := by
      have hmod := congrArg (· % 2 ^ w) h
      simpa [Nat.pow_succ, Nat.mod_mul_right_mod] using hmod
    rw [toBits, toBits, hbit, toBits_congr hlow]

theorem toBits_add : ∀ a b v, toBits (a + b) v = toBits a (v / 2 ^ b) ++ toBits b v
  | 0, b, v => by rw [Nat.zero_add]; rfl
  | a + 1, b, v => by
    rw [Nat.add_right_comm, toBits, toBits, toBits_add a b v, Nat.testBit_div_two_pow, Nat.add_comm a b]
    rfl

theorem toBits_ofBits : ∀ l : List Bool, toBits l.length (ofBits l) = l
  | [] => rfl
  | b :: l => by
    have hlt := ofBits_lt l
    have hdiv : (b.toNat * 2 ^ l.length + ofBits l) / 2 ^ l.length = b.toNat := by
      rw [Nat.mul_comm, Nat.mul_add_div (Nat.two_pow_pos _), Nat.div_eq_of_lt hlt, Nat.add_zero]
    have hbit : (b.toNat * 2 ^ l.length + ofBits l).testBit l.length = b := by
      rw [Nat.testBit_eq_decide_div_mod_eq, hdiv]
      cases b <;> rfl
    have hlow : toBits l.length (b.toNat * 2 ^ l.length + ofBits l) = toBits l.length (ofBits l) :=
      toBits_congr (by rw [Nat.mul_comm, Nat.mul_add_mod])
    rw [List.length_cons, ofBits, toBits, hbit, hlow, toBits_ofBits l]

theorem drop_toBits {w d : Nat} (h : d ≤ w) (v : Nat) : (toBits w v).drop d = toBits (w - d) v := by
  obtain ⟨k, rfl⟩ := Nat.exists_eq_add_of_le h
  rw [toBits_add, List.drop_left' (length_toBits _ _), Nat.add_sub_cancel_left]

theorem take_toBits {w k : Nat} (h : k ≤ w) (v : Nat) :
    (toBits w v).take k = toBits k (v / 2 ^ (w - k)) := by
  obtain ⟨d, rfl⟩ := Nat.exists_eq_add_of_le h
  rw [toBits_add, List.take_left' (length_toBits _ _), Nat.add_sub_cancel_left]

theorem or_of_lt {x y i : Nat} (h : y < 2 ^ i) : x <<< i ||| y = x * 2 ^ i + y := by
  rw [← Nat.shiftLeft_add_eq_or_of_lt h, Nat.shiftLeft_eq]

/-! ## Byte strings -/

/-- The bits of a byte string. -/
def bitsOf (bytes : List UInt8) : List Bool := bytes.flatMap fun b => toBits 8 b.toNat

@[simp] theorem bitsOf_nil : bitsOf [] = [] := rfl

@[simp] theorem bitsOf_cons (b : UInt8) (bytes : List UInt8) :
    bitsOf (b :: bytes) = toBits 8 b.toNat ++ bitsOf bytes := rfl

@[simp] theorem bitsOf_append (l m : List UInt8) : bitsOf (l ++ m) = bitsOf l ++ bitsOf m :=
  List.flatMap_append

@[simp] theorem length_bitsOf : ∀ bytes : List UInt8, (bitsOf bytes).length = 8 * bytes.length
  | [] => rfl
  | b :: bytes => by
    rw [bitsOf_cons, List.length_append, length_toBits, length_bitsOf bytes, List.length_cons]
    omega

theorem drop_bitsOf : ∀ (i : Nat) (bytes : List UInt8),
    (bitsOf bytes).drop (8 * i) = bitsOf (bytes.drop i)
  | 0, _ => rfl
  | i + 1, [] => by simp
  | i + 1, b :: bytes => by
    rw [bitsOf_cons, Nat.mul_succ, Nat.add_comm, ← List.drop_drop,
      List.drop_left' (length_toBits 8 _), drop_bitsOf i bytes, List.drop_succ_cons]

theorem ofBits_take_drop_byte {b : UInt8} {d k : Nat} (h : d + k ≤ 8) :
    ofBits (((toBits 8 b.toNat).drop d).take k) = b.toNat / 2 ^ (8 - d - k) % 2 ^ k := by
  rw [drop_toBits (by omega), take_toBits (by omega), ofBits_toBits]

theorem drop_bitsOf_byte {bytes : List UInt8} {i d : Nat} {b : UInt8} (hb : bytes[i]? = some b)
    (hd : d ≤ 8) :
    (bitsOf bytes).drop (8 * i + d) = (toBits 8 b.toNat).drop d ++ bitsOf (bytes.drop (i + 1)) := by
  obtain ⟨hi, rfl⟩ := List.getElem?_eq_some_iff.mp hb
  rw [← List.drop_drop, drop_bitsOf, List.drop_eq_getElem_cons hi, bitsOf_cons,
    List.drop_append_of_le_length (by rw [length_toBits]; exact hd)]

end Ftke.Bits
