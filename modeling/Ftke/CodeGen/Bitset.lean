import Mathlib.Algebra.BigOperators.Group.List.Basic
import Mathlib.Algebra.Ring.Nat
import Mathlib.Data.Nat.Bitwise

/-!
# Ftke.CodeGen.Bitset

The bit sets of the code generator (`bitset.h`, `bitset.c`): words of 32 bits,
as many as the elements need.

`CG_BITSET_TEST` and `CG_BITSET_SET` reach every element, but the loops of
`cg_bitset_assign`, `cg_bitset_union` and `cg_bitset_union_minus` go over
`elements / 32` words only: the elements of a last, partial word are not
`Covered` by them.
-/

namespace Ftke.CodeGen

/-- `CG_BITSET_BITS_PER_WORD`. -/
def bitsPerWord : Nat := 32

/-- `cg_bitset_t`. -/
structure Bitset where
  elements : Nat
  bits : List UInt32
  deriving DecidableEq, Repr

namespace Bitset

/-- `cg_bitset_create`, on a heap that hands out zeroed memory. -/
def create (elements : Nat) : Bitset where
  elements := elements
  bits := List.replicate ((elements + bitsPerWord - 1) / bitsPerWord) 0

/-- `CG_BITSET_TEST`. -/
def test (s : Bitset) (element : Nat) : Bool :=
  s.bits.getD (element / bitsPerWord) 0 &&& 1 <<< UInt32.ofNat (element % bitsPerWord) != 0

/-- `CG_BITSET_SET`. -/
def set (s : Bitset) (element : Nat) : Bitset :=
  { s with
    bits := s.bits.modify (element / bitsPerWord) fun word => word ||| 1 <<< UInt32.ofNat (element % bitsPerWord) }

/-- The loop over the first words of a set: each is replaced, and whether one has changed is noted. -/
def updateWords (word : Nat → UInt32 → UInt32) (count : Nat) (bits : List UInt32) : List UInt32 × Bool :=
  (List.range count).foldl (fun acc index =>
    let old := acc.1.getD index 0
    (acc.1.set index (word index old), acc.2 || word index old != old)) (bits, false)

/-- The loop of the set operations: over `elements / 32` words. -/
def update (target : Bitset) (word : Nat → UInt32 → UInt32) : Bitset × Bool :=
  let words := updateWords word (target.elements / bitsPerWord) target.bits
  ({ target with bits := words.1 }, words.2)

/-- `cg_bitset_assign`. -/
def assign (target source : Bitset) : Bitset := (target.update fun index _ => source.bits.getD index 0).1

/-- `cg_bitset_union_minus`: the target with the source less `minus`, and whether it has changed. -/
def unionMinus (target source minus : Bitset) : Bitset × Bool :=
  target.update fun index old => old ||| (source.bits.getD index 0 &&& ~~~minus.bits.getD index 0)

/-- `cg_bitset_union`. -/
def union (target source : Bitset) : Bitset × Bool :=
  target.update fun index old => old ||| source.bits.getD index 0

/-! ## Words -/

/-- A bit of a word. -/
def bitAt (word : UInt32) (k : Nat) : Bool := word.toNat.testBit k

theorem toNat_bit {k : Nat} (hk : k < 32) : (1 <<< UInt32.ofNat k : UInt32).toNat = 2 ^ k := by
  have h1 : (1 : UInt32).toNat = 1 := rfl
  rw [UInt32.toNat_shiftLeft, UInt32.toNat_ofNat', Nat.mod_eq_of_lt (by omega : k < 2 ^ 32), Nat.mod_eq_of_lt hk,
    h1, Nat.shiftLeft_eq, Nat.one_mul, Nat.mod_eq_of_lt (Nat.pow_lt_pow_right (by omega) hk)]

theorem and_bit_ne_zero (word : UInt32) {k : Nat} (hk : k < 32) :
    (word &&& 1 <<< UInt32.ofNat k != 0) = bitAt word k := by
  have hand : (word &&& 1 <<< UInt32.ofNat k).toNat = (bitAt word k).toNat * 2 ^ k := by
    rw [UInt32.toNat_and, toNat_bit hk, Nat.and_two_pow, bitAt]
  have hpos := Nat.two_pow_pos k
  cases hbit : bitAt word k with
  | false =>
    rw [hbit, Bool.toNat_false, Nat.zero_mul] at hand
    have hzero : word &&& 1 <<< UInt32.ofNat k = 0 := UInt32.toNat_inj.mp hand
    simp [hzero]
  | true =>
    rw [hbit, Bool.toNat_true, Nat.one_mul] at hand
    have hne : word &&& 1 <<< UInt32.ofNat k ≠ 0 := by
      intro hzero
      rw [hzero] at hand
      have h0 : (0 : UInt32).toNat = 0 := rfl
      omega
    simp [hne]

@[simp] theorem bitAt_or (x y : UInt32) (k : Nat) : bitAt (x ||| y) k = (bitAt x k || bitAt y k) := by
  rw [bitAt, UInt32.toNat_or, Nat.testBit_or, bitAt, bitAt]

theorem bitAt_and_not (x y : UInt32) {k : Nat} (hk : k < 32) :
    bitAt (x &&& ~~~y) k = (bitAt x k && !bitAt y k) := by
  have h : (x.toBitVec &&& ~~~y.toBitVec).getLsbD k = (x.toBitVec.getLsbD k && !y.toBitVec.getLsbD k) := by
    simp [hk]
  exact h

@[simp] theorem bitAt_zero (k : Nat) : bitAt 0 k = false := Nat.zero_testBit k

theorem bitAt_bit {k : Nat} (hk : k < 32) (j : Nat) : bitAt (1 <<< UInt32.ofNat k) j = decide (k = j) := by
  rw [bitAt, toNat_bit hk, Nat.testBit_two_pow]

theorem test_eq (s : Bitset) (element : Nat) :
    s.test element = bitAt (s.bits.getD (element / bitsPerWord) 0) (element % bitsPerWord) :=
  and_bit_ne_zero _ (Nat.mod_lt element (by decide))

/-! ## The word loop -/

theorem updateWords_succ (word : Nat → UInt32 → UInt32) (count : Nat) (bits : List UInt32) :
    updateWords word (count + 1) bits =
      ((updateWords word count bits).1.set count (word count ((updateWords word count bits).1.getD count 0)),
        (updateWords word count bits).2 ||
          word count ((updateWords word count bits).1.getD count 0) != (updateWords word count bits).1.getD count 0) := by
  rw [updateWords, List.range_succ, List.foldl_append]
  rfl

@[simp] theorem length_updateWords (word : Nat → UInt32 → UInt32) (bits : List UInt32) :
    ∀ count, (updateWords word count bits).1.length = bits.length
  | 0 => rfl
  | count + 1 => by rw [updateWords_succ, List.length_set, length_updateWords word bits count]

theorem getD_set (bits : List UInt32) (i j : Nat) (value : UInt32) :
    (bits.set i value).getD j 0 = if i = j ∧ i < bits.length then value else bits.getD j 0 := by
  rw [List.getD_eq_getElem?_getD, List.getD_eq_getElem?_getD, List.getElem?_set]
  grind

/-- **The words afterwards**: the first ones replaced, the others kept. -/
theorem getD_updateWords (word : Nat → UInt32 → UInt32) (bits : List UInt32) (i : Nat) :
    ∀ {count}, count ≤ bits.length →
      (updateWords word count bits).1.getD i 0 = if i < count then word i (bits.getD i 0) else bits.getD i 0
  | 0, _ => by simp [updateWords]
  | count + 1, hle => by
    have ih : ∀ i, (updateWords word count bits).1.getD i 0 =
        if i < count then word i (bits.getD i 0) else bits.getD i 0 :=
      fun i => getD_updateWords word bits i (Nat.le_of_succ_le hle)
    rw [updateWords_succ, getD_set, length_updateWords, ih i, ih count]
    grind

theorem flag_updateWords (word : Nat → UInt32 → UInt32) (bits : List UInt32) :
    ∀ {count}, count ≤ bits.length →
      ((updateWords word count bits).2 = false ↔ ∀ i < count, word i (bits.getD i 0) = bits.getD i 0)
  | 0, _ => by simp [updateWords]
  | count + 1, hle => by
    have ih := flag_updateWords word bits (Nat.le_of_succ_le hle)
    rw [updateWords_succ, getD_updateWords word bits count (Nat.le_of_succ_le hle)]
    simp only [Nat.lt_irrefl, if_false, Bool.or_eq_false_iff, ih, bne_eq_false_iff_eq]
    grind

/-! ## Weight -/

/-- The sum of the words: adding elements makes it grow. -/
def weight (bits : List UInt32) : Nat := (bits.map UInt32.toNat).sum

theorem sum_map_set {α : Type*} (f : α → Nat) (value : α) : ∀ {l : List α} {i : Nat} {old : α}, l[i]? = some old →
    ((l.set i value).map f).sum + f old = (l.map f).sum + f value
  | item :: l, 0, old, h => by
    have heq : item = old := by simpa using h
    rw [heq, List.set_cons_zero, List.map_cons, List.map_cons, List.sum_cons, List.sum_cons]
    omega
  | item :: l, i + 1, old, h => by
    have ih := sum_map_set f value (l := l) (i := i) (by simpa using h)
    simp only [List.set_cons_succ, List.map_cons, List.sum_cons]
    omega

theorem weight_set (value : UInt32) {bits : List UInt32} {i : Nat} (h : i < bits.length) :
    weight (bits.set i value) + (bits.getD i 0).toNat = weight bits + value.toNat := by
  rw [List.getD_eq_getElem _ _ h]
  exact sum_map_set UInt32.toNat value (List.getElem?_eq_getElem h)

theorem weight_le : ∀ bits : List UInt32, weight bits ≤ bits.length * 2 ^ 32
  | [] => Nat.le_refl 0
  | word :: bits => by
    have ih := weight_le bits
    have hlt := word.toNat_lt
    simp only [weight, List.map_cons, List.sum_cons, List.length_cons] at ih ⊢
    omega

theorem weight_updateWords {word : Nat → UInt32 → UInt32} (hword : ∀ i old, old.toNat ≤ (word i old).toNat)
    (bits : List UInt32) : ∀ {count}, count ≤ bits.length →
      weight bits ≤ weight (updateWords word count bits).1 ∧
        ((updateWords word count bits).2 = true → weight bits < weight (updateWords word count bits).1)
  | 0, _ => by simp [updateWords]
  | count + 1, hle => by
    obtain ⟨ihle, ihlt⟩ := weight_updateWords hword bits (Nat.le_of_succ_le hle)
    have hcount : count < (updateWords word count bits).1.length := by
      rw [length_updateWords]
      exact hle
    have hset := weight_set (word count ((updateWords word count bits).1.getD count 0)) hcount
    have hgrow := hword count ((updateWords word count bits).1.getD count 0)
    rw [updateWords_succ]
    refine ⟨by simp only; omega, fun hflag => ?_⟩
    cases Bool.or_eq_true_iff.mp hflag with
    | inl hbefore =>
      have hlt := ihlt hbefore
      simp only
      omega
    | inr hnow =>
      have hne : word count ((updateWords word count bits).1.getD count 0) ≠
          (updateWords word count bits).1.getD count 0 := by simpa using hnow
      have hnat : (word count ((updateWords word count bits).1.getD count 0)).toNat ≠
          ((updateWords word count bits).1.getD count 0).toNat := fun heq => hne (UInt32.toNat_inj.mp heq)
      simp only
      omega

/-! ## Sets -/

/-- The set is made for `elements` elements. -/
structure Sized (elements : Nat) (s : Bitset) : Prop where
  elements_eq : s.elements = elements
  length_bits : s.bits.length = (elements + 31) / 32

/-- The element lies in a word that the loops reach. -/
def Covered (elements element : Nat) : Prop := element / bitsPerWord < elements / bitsPerWord

instance (elements element : Nat) : Decidable (Covered elements element) := inferInstanceAs (Decidable (_ < _))

variable {elements : Nat} {s target : Bitset}

theorem Sized.full_le (h : Sized elements s) : s.elements / bitsPerWord ≤ s.bits.length := by
  rw [h.elements_eq, h.length_bits, bitsPerWord]
  omega

theorem sized_create (elements : Nat) : Sized elements (create elements) where
  elements_eq := rfl
  length_bits := List.length_replicate

theorem Sized.set (h : Sized elements s) (element : Nat) : Sized elements (s.set element) where
  elements_eq := h.elements_eq
  length_bits := by rw [Bitset.set, List.length_modify, h.length_bits]

theorem Sized.update (h : Sized elements s) (word : Nat → UInt32 → UInt32) : Sized elements (s.update word).1 where
  elements_eq := h.elements_eq
  length_bits := (length_updateWords word s.bits _).trans h.length_bits

@[simp] theorem test_create (elements element : Nat) : (create elements).test element = false := by
  rw [test_eq, create, List.getD_eq_getElem?_getD, List.getElem?_replicate]
  split <;> simp

theorem test_set (h : Sized elements s) {element : Nat} (hlt : element < elements) (other : Nat) :
    (s.set element).test other = (decide (element = other) || s.test other) := by
  have hin : element / bitsPerWord < s.bits.length := by
    rw [h.length_bits, bitsPerWord]
    omega
  have hbit := bitAt_bit (Nat.mod_lt element (by decide) : element % bitsPerWord < 32) (other % bitsPerWord)
  rw [test_eq, test_eq, Bitset.set, List.getD_eq_getElem?_getD, List.getElem?_modify, List.getD_eq_getElem?_getD]
  by_cases hword : element / bitsPerWord = other / bitsPerWord
  · have heq : decide (element = other) = decide (element % bitsPerWord = other % bitsPerWord) := by
      simp only [bitsPerWord] at hword ⊢
      grind
    rw [hword] at hin
    simp only [if_pos hword, List.getElem?_eq_getElem hin]
    rw [heq, ← hbit]
    simp [Bool.or_comm]
  · have hne : decide (element = other) = false := by
      simp only [decide_eq_false_iff_not]
      intro heq
      exact hword (by rw [heq])
    simp only [if_neg hword, hne]
    simp

/-- **What a word loop does to a set**: its covered elements are replaced, the others kept. -/
theorem test_update (h : Sized elements s) (word : Nat → UInt32 → UInt32) (element : Nat) :
    (s.update word).1.test element =
      if Covered elements element then
        bitAt (word (element / bitsPerWord) (s.bits.getD (element / bitsPerWord) 0)) (element % bitsPerWord)
      else s.test element := by
  have hget := getD_updateWords word s.bits (element / bitsPerWord) h.full_le
  rw [test_eq, test_eq, update, hget, h.elements_eq]
  exact apply_ite (fun word => bitAt word (element % bitsPerWord)) _ _ _

theorem test_assign (h : Sized elements target) (source : Bitset) (element : Nat) :
    (assign target source).test element = if Covered elements element then source.test element else target.test element := by
  rw [assign, test_update h, test_eq source]

theorem test_union (h : Sized elements target) (source : Bitset) (element : Nat) :
    (union target source).1.test element =
      if Covered elements element then target.test element || source.test element else target.test element := by
  rw [union, test_update h, bitAt_or, ← test_eq, ← test_eq]

theorem test_unionMinus (h : Sized elements target) (source minus : Bitset) (element : Nat) :
    (unionMinus target source minus).1.test element =
      if Covered elements element then target.test element || (source.test element && !minus.test element)
      else target.test element := by
  have hlt : element % bitsPerWord < 32 := Nat.mod_lt element (by decide)
  rw [unionMinus, test_update h, bitAt_or, bitAt_and_not _ _ hlt, ← test_eq, ← test_eq, ← test_eq]

theorem same_of_flag (h : Sized elements s) {word : Nat → UInt32 → UInt32} (hflag : (s.update word).2 = false) :
    (s.update word).1 = s := by
  have hsame := (flag_updateWords word s.bits h.full_le).mp hflag
  have hbits : (updateWords word (s.elements / bitsPerWord) s.bits).1 = s.bits := by
    apply List.ext_getElem (length_updateWords word s.bits _)
    intro i h1 h2
    have hget := getD_updateWords word s.bits i h.full_le
    rw [List.getD_eq_getElem _ _ h1, List.getD_eq_getElem _ _ h2] at hget
    rw [hget]
    split
    · next hi => rw [← List.getD_eq_getElem _ 0 h2, hsame i hi]
    · rfl
  rw [update, hbits]

/-- What the loop of a union does to a set: without a change it is the same, with one it grows. -/
structure Gains (elements : Nat) (s : Bitset) (r : Bitset × Bool) : Prop where
  sized : r.1.Sized elements
  same : r.2 = false → r.1 = s
  le : weight s.bits ≤ weight r.1.bits
  lt : r.2 = true → weight s.bits < weight r.1.bits

theorem gains_update (h : Sized elements s) {gained : Nat → UInt32 → UInt32} :
    Gains elements s (s.update fun index old => old ||| gained index old) where
  sized := h.update _
  same := same_of_flag h
  le := (weight_updateWords (fun _ _ => by rw [UInt32.toNat_or]; exact Nat.left_le_or) s.bits h.full_le).1
  lt := (weight_updateWords (fun _ _ => by rw [UInt32.toNat_or]; exact Nat.left_le_or) s.bits h.full_le).2

theorem gains_union (h : Sized elements target) (source : Bitset) : Gains elements target (union target source) :=
  gains_update h

theorem gains_unionMinus (h : Sized elements target) (source minus : Bitset) :
    Gains elements target (unionMinus target source minus) :=
  gains_update h

end Bitset

end Ftke.CodeGen
