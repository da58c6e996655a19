import Mathlib.Algebra.Ring.Nat
import Mathlib.Data.List.Basic

/-!
# Ftke.BitStuffing

Zero-bit insertion: after five ones in a row a zero is inserted, so that six of
them only stand in a flag.

`unstuff` takes out what `stuff` inserted (`unstuff_stuff`) and a stuffed bit
string has no six ones in a row (`stuff_no_six`).  Bits come least significant
first; `octets` puts them together again (`octets_bits`).
-/

namespace Ftke.BitStuffing

/-! ## Inserting zeros -/

/-- A zero is inserted after five ones. -/
def stuff : List Bool → List Bool
  | true :: true :: true :: true :: true :: rest => true :: true :: true :: true :: true :: false :: stuff rest
  | b :: rest => b :: stuff rest
  | [] => []

/-- The bit behind five ones is left out; fewer than six bits are kept as they are. -/
def unstuff : List Bool → List Bool
  | b0 :: b1 :: b2 :: b3 :: b4 :: b5 :: rest =>
    if b0 && b1 && b2 && b3 && b4 then true :: true :: true :: true :: true :: unstuff rest
    else b0 :: unstuff (b1 :: b2 :: b3 :: b4 :: b5 :: rest)
  | short => short

/-- The list begins with `k` ones. -/
def Ones (k : Nat) (l : List Bool) : Prop := l.take k = List.replicate k true

instance (k : Nat) (l : List Bool) : Decidable (Ones k l) := inferInstanceAs (Decidable (_ = _))

variable {l rest : List Bool}

theorem ones_cons {k : Nat} {b : Bool} : Ones (k + 1) (b :: l) ↔ b = true ∧ Ones k l := by
  simp [Ones, List.replicate_succ]

theorem ones_five :
    Ones 5 l ↔ ∃ rest, l = true :: true :: true :: true :: true :: rest := by
  constructor
  · intro h
    refine ⟨l.drop 5, ?_⟩
    rw [Ones] at h
    conv => lhs; rw [← List.take_append_drop 5 l, h]
    rfl
  · rintro ⟨rest, rfl⟩
    rfl

theorem Ones.mono {j k : Nat} (h : Ones k l) (hjk : j ≤ k) : Ones j l := by
  rw [Ones] at h ⊢
  rw [← Nat.min_eq_left hjk, ← List.take_take, h, List.take_replicate]

theorem stuff_ones (rest : List Bool) : stuff (true :: true :: true :: true :: true :: rest) =
    true :: true :: true :: true :: true :: false :: stuff rest := by rw [stuff]

theorem stuff_cons {b : Bool} (h : ¬Ones 5 (b :: rest)) :
    stuff (b :: rest) = b :: stuff rest := by
  rw [stuff]
  intro rest' heq hrest
  exact h (ones_five.mpr ⟨rest', by rw [heq, hrest]⟩)

theorem stuff_induction {motive : List Bool → Prop} (nil : motive [])
    (ones : ∀ rest, motive rest → motive (true :: true :: true :: true :: true :: rest))
    (cons : ∀ b rest, ¬Ones 5 (b :: rest) → motive rest → motive (b :: rest)) (l : List Bool) : motive l := by
  induction l using stuff.induct with
  | case1 rest ih => exact ones rest ih
  | case2 b rest hne ih =>
    refine cons b rest (fun h => ?_) ih
    obtain ⟨rest', heq⟩ := ones_five.mp h
    injection heq with hb hrest
    exact hne rest' hb hrest
  | case3 => exact nil

theorem ones_of_stuff (l : List Bool) : ∀ k ≤ 5, Ones k (stuff l) → Ones k l := by
  induction l using stuff_induction with
  | nil => exact fun k _ h => h
  | ones rest _ => exact fun k hk _ => (ones_five.mpr ⟨rest, rfl⟩).mono hk
  | cons b rest hne ih =>
    intro k hk h
    rw [stuff_cons hne] at h
    match k with
    | 0 => rfl
    | k + 1 => exact ones_cons.mpr ⟨(ones_cons.mp h).1, ih k (by omega) (ones_cons.mp h).2⟩

/-! ## Taking them out -/

theorem unstuff_ones (b : Bool) (rest : List Bool) :
    unstuff (true :: true :: true :: true :: true :: b :: rest) =
      true :: true :: true :: true :: true :: unstuff rest := by
  rw [unstuff]
  rfl

theorem unstuff_short (h : l.length < 6) : unstuff l = l := by
  rw [unstuff]
  intro b0 b1 b2 b3 b4 b5 rest hl
  simp only [hl, List.length_cons] at h
  omega

theorem unstuff_cons {b : Bool} (h : ¬Ones 5 (b :: rest)) :
    unstuff (b :: rest) = b :: unstuff rest := by
  match rest with
  | b1 :: b2 :: b3 :: b4 :: b5 :: rest =>
    have hnot : (b && b1 && b2 && b3 && b4) = false := by
      by_contra hall
      simp only [Bool.not_eq_false, Bool.and_eq_true] at hall
      obtain ⟨⟨⟨⟨rfl, rfl⟩, rfl⟩, rfl⟩, rfl⟩ := hall
      exact h rfl
    rw [unstuff, hnot]
    rfl
  | [] => rfl
  | [_] => rfl
  | [_, _] => rfl
  | [_, _, _] => rfl
  | [_, _, _, _] => rfl

/-- **What was inserted is taken out again.** -/
theorem unstuff_stuff (l : List Bool) : unstuff (stuff l) = l := by
  induction l using stuff_induction with
  | nil => rfl
  | ones rest ih => rw [stuff_ones, unstuff_ones, ih]
  | cons b rest hne ih =>
    have hstuffed : ¬Ones 5 (b :: stuff rest) := fun h =>
      hne (ones_of_stuff (b :: rest) 5 le_rfl (by rw [stuff_cons hne]; exact h))
    rw [stuff_cons hne, unstuff_cons hstuffed, ih]

/-- **A stuffed bit string has no six ones in a row.** -/
theorem stuff_no_six (l : List Bool) : ∀ i, ¬Ones 6 ((stuff l).drop i) := by
  induction l using stuff_induction with
  | nil => simp [stuff, Ones, List.replicate_succ]
  | ones rest ih =>
    intro i h
    rw [stuff_ones] at h
    match i with
    | 0 | 1 | 2 | 3 | 4 | 5 => simp [Ones, List.replicate_succ] at h
    | i + 6 => exact ih i h
  | cons b rest hne ih =>
    intro i h
    match i with
    | 0 => exact hne (ones_of_stuff _ 5 le_rfl (h.mono (by omega)))
    | i + 1 =>
      rw [stuff_cons hne] at h
      exact ih i h

theorem le_length_stuff (l : List Bool) : l.length ≤ (stuff l).length := by
  induction l using stuff_induction with
  | nil => exact le_rfl
  | ones rest ih =>
    rw [stuff_ones]
    simp only [List.length_cons]
    omega
  | cons b rest hne ih =>
    rw [stuff_cons hne]
    exact Nat.succ_le_succ ih

theorem no_six_append (h : ¬Ones 6 l) (rest : List Bool) : ¬Ones 6 (l ++ false :: rest) := by
  intro hsix
  rw [Ones] at h hsix
  by_cases hlen : 6 ≤ l.length
  · rw [List.take_append_of_le_length hlen] at hsix
    exact h hsix
  · have hbit : ((l ++ false :: rest).take 6)[l.length]? = some false := by
      rw [List.getElem?_take_of_lt (by omega), List.getElem?_append_right le_rfl, Nat.sub_self]
      rfl
    rw [hsix, List.getElem?_replicate_of_lt (by omega)] at hbit
    simp at hbit

theorem length_unstuff (l : List Bool) : 5 * l.length ≤ 6 * (unstuff l).length := by
  induction l using unstuff.induct with
  | case1 b0 b1 b2 b3 b4 b5 rest h ih =>
    rw [unstuff, if_pos h]
    simp only [List.length_cons]
    omega
  | case2 b0 b1 b2 b3 b4 b5 rest h ih =>
    rw [unstuff, if_neg h]
    simp only [List.length_cons] at ih ⊢
    omega
  | case3 short h =>
    rw [unstuff]
    · omega
    · exact h

theorem unstuff_head (b : Bool) (l : List Bool) : ∃ rest, unstuff (b :: l) = b :: rest := by
  by_cases h : Ones 5 (b :: l)
  · obtain ⟨rest, hrest⟩ := ones_five.mp h
    injection hrest with hb hl
    subst hb hl
    match rest with
    | [] => exact ⟨_, rfl⟩
    | b5 :: rest => exact ⟨_, unstuff_ones b5 rest⟩
  · exact ⟨_, unstuff_cons h⟩

/-! ## Octets -/

/-- The bits of an octet. -/
def bits (o : UInt8) : List Bool := (List.range 8).map o.toNat.testBit

/-- The number that bits stand for. -/
def value : List Bool → Nat
  | [] => 0
  | b :: l => b.toNat + 2 * value l

/-- The first `n` octets of a number. -/
def octets : Nat → Nat → List UInt8
  | 0, _ => []
  | n + 1, v => UInt8.ofNat v :: octets n (v / 256)

@[simp] theorem length_bits (o : UInt8) : (bits o).length = 8 := by simp [bits]

@[simp] theorem length_octets (n v : Nat) : (octets n v).length = n := by
  induction n generalizing v with
  | zero => rfl
  | succ n ih => simp [octets, ih]

theorem value_append (l m : List Bool) : value (l ++ m) = value l + 2 ^ l.length * value m := by
  induction l with
  | nil => simp [value]
  | cons b l ih =>
    rw [List.cons_append, value, value, ih, List.length_cons, Nat.pow_succ, Nat.mul_add, Nat.add_assoc,
      Nat.mul_comm (2 ^ l.length) 2, Nat.mul_assoc]

theorem value_lt (l : List Bool) : value l < 2 ^ l.length := by
  induction l with
  | nil => exact Nat.one_pos
  | cons b l ih =>
    have hb := b.toNat_le
    rw [value, List.length_cons, Nat.pow_succ]
    omega

theorem value_bits (o : UInt8) : value (bits o) = o.toNat := by
  have hlt := o.toNat_lt
  have hrange : List.range 8 = [0, 1, 2, 3, 4, 5, 6, 7] := rfl
  simp only [bits, hrange, List.map_cons, List.map_nil, value, Nat.toNat_testBit, Nat.reducePow]
  omega

theorem octets_append (m n v : Nat) : octets (m + n) v = octets m v ++ octets n (v / 256 ^ m) := by
  induction m generalizing v with
  | zero => simp [octets]
  | succ m ih =>
    rw [Nat.add_right_comm, octets, octets, ih, List.cons_append, Nat.div_div_eq_div_mul, Nat.pow_succ,
      Nat.mul_comm 256]

theorem octets_succ (n v : Nat) : octets (n + 1) v = octets n v ++ [UInt8.ofNat (v >>> (8 * n))] := by
  rw [octets_append, Nat.shiftRight_eq_div_pow, Nat.pow_mul]
  rfl

theorem octets_mod (n v : Nat) : octets n (v % 256 ^ n) = octets n v := by
  induction n generalizing v with
  | zero => rfl
  | succ n ih =>
    have hdiv : v % 256 ^ (n + 1) / 256 = v / 256 % 256 ^ n := by
      rw [Nat.pow_succ, Nat.mul_comm, Nat.mod_mul_right_div_self]
    have hfirst : UInt8.ofNat (v % 256 ^ (n + 1)) = UInt8.ofNat v := by
      apply UInt8.toNat_inj.mp
      rw [UInt8.toNat_ofNat', UInt8.toNat_ofNat', Nat.pow_succ, Nat.mul_comm]
      exact Nat.mod_mul_right_mod ..
    rw [octets, octets, hfirst, hdiv, ih]

theorem octets_or (n v w : Nat) {k : Nat} (hk : 8 * n ≤ k) : octets n (v ||| (w <<< k)) = octets n v := by
  have hlow : (v ||| (w <<< k)) % 256 ^ n = v % 256 ^ n := by
    obtain ⟨j, rfl⟩ : ∃ j, k = j + 8 * n := ⟨k - 8 * n, by omega⟩
    rw [show (256 : Nat) ^ n = 2 ^ (8 * n) from (Nat.pow_mul 2 8 n).symm, Nat.or_mod_two_pow, Nat.shiftLeft_add,
      Nat.shiftLeft_eq _ (8 * n), Nat.mul_mod_left, Nat.or_zero]
  rw [← octets_mod, hlow, octets_mod]

/-- **Octets are put together again from their bits.** -/
theorem octets_bits (os : List UInt8) : octets os.length (value (os.flatMap bits)) = os := by
  induction os with
  | nil => rfl
  | cons o os ih =>
    have hlt := o.toNat_lt
    have hvalue : value ((o :: os).flatMap bits) = o.toNat + 256 * value (os.flatMap bits) := by
      rw [List.flatMap_cons, value_append, value_bits, length_bits]
      rfl
    have hdiv : (o.toNat + 256 * value (os.flatMap bits)) / 256 = value (os.flatMap bits) := by omega
    have hfirst : UInt8.ofNat (o.toNat + 256 * value (os.flatMap bits)) = o := by
      apply UInt8.toNat_inj.mp
      rw [UInt8.toNat_ofNat']
      omega
    rw [List.length_cons, octets, hvalue, hfirst, hdiv, ih]

theorem length_flatMap_bits (os : List UInt8) : (os.flatMap bits).length = 8 * os.length := by
  induction os with
  | nil => rfl
  | cons o os ih =>
    rw [List.flatMap_cons, List.length_append, length_bits, ih, List.length_cons]
    omega

end Ftke.BitStuffing
