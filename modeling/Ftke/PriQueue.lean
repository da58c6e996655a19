import Ftke.Heap
import Ftke.Order
import Mathlib.Data.Multiset.AddSub

/-!
# Ftke.PriQueue

`OsclPriorityQueue` (`oscl_priqueue.h`, `oscl_priqueue.cpp`): a binary heap
kept in a vector, with removal of an arbitrary element by value.

The vector (the member `c` of the class) is the list `v`; an iterator is an index into it, so the range
`[first, last)` of the heap routines is a pair of indices and `delta_T first
last` is `last - first`.  `compare` is the template argument `Compare`, and
`compare a b` is "the priority of `a` is less than the priority of `b`".

`pushHeap` and `popHeap` count parents and children from `first`, not from the
start of the vector: with `first = 0` they are the textbook sifts, and
`remove` is the one caller that passes another `first`.
-/

namespace Ftke.PriQueue

open Heap

variable {α : Type*}

/-! ## The routines of the source -/

section Routines

variable (compare : α → α → Bool)

/-- Exchange the elements at `dest` and `src`. -/
def swap (v : List α) (dest src : Nat) : List α :=
  match v[dest]?, v[src]? with
  | some a, some b => (v.set dest b).set src a
  | _, _ => v

/-- `compare_LT` on two positions of the vector. -/
def compareLT (v : List α) (i j : Nat) : Bool :=
  match v[i]?, v[j]? with
  | some a, some b => compare a b
  | _, _ => false

/-- The loop of `push_heap`; the index falls at every turn, so `fuel ≥ index`
never runs out. -/
def pushHeapLoop (first : Nat) : Nat → Nat → List α → List α
  | 0, _, v => v
  | fuel + 1, index, v =>
    let parentIndex := (index - 1) / 2
    if 0 < index ∧ compareLT compare v (first + parentIndex) (first + index) = true then
      pushHeapLoop first fuel parentIndex (swap v (first + index) (first + parentIndex))
    else v

/-- `push_heap(first, last)`: move the last entry of the range up. -/
def pushHeap (v : List α) (first last : Nat) : List α :=
  pushHeapLoop compare first (last - first) (last - first - 1) v

/-- The child `pop_heap` goes on with: the left one, or the right one if it is in
the range and the left one is less. -/
def childOf (v : List α) (first newLastIndex index : Nat) : Nat :=
  let child := 2 * index + 1
  if child + 1 < newLastIndex ∧ compareLT compare v (first + child) (first + (child + 1)) = true then
    child + 1
  else child

/-- The loop of `pop_heap`; the index grows at every turn and stays below
`newLastIndex`, so `fuel ≥ newLastIndex - index` never runs out. -/
def popHeapLoop (first newLastIndex : Nat) : Nat → Nat → List α → List α
  | 0, _, v => v
  | fuel + 1, index, v =>
    if 2 * index + 1 < newLastIndex then
      let child := childOf compare v first newLastIndex index
      if compareLT compare v (first + index) (first + child) = true then
        popHeapLoop first newLastIndex fuel child (swap v (first + index) (first + child))
      else v
    else v

/-- `pop_heap(first, last)`: swap the ends of the range, then move the new
first entry down. -/
def popHeap (v : List α) (first last : Nat) : List α :=
  popHeapLoop compare first (last - first - 1) (last - first) 0 (swap v first (last - 1))

/-- `find_heap`: the first position that holds `input`. -/
def findHeap [DecidableEq α] (v : List α) (input : α) : Option Nat :=
  v.findIdx? (fun a => decide (a = input))

/-- `push`. -/
def push (v : List α) (input : α) : List α :=
  pushHeap compare (v ++ [input]) 0 (v.length + 1)

/-- `top`: the front of the vector. -/
def top (v : List α) : Option α := v[0]?

/-- `pop`: remove the top element. -/
def pop (v : List α) : List α := (popHeap compare v 0 v.length).dropLast

/-- `remove` by value: the new vector and the number of items removed. -/
def remove [DecidableEq α] (v : List α) (input : α) : List α × Nat :=
  match findHeap v input with
  | none => (v, 0)
  | some pos =>
    if pos + 1 = v.length then (v.dropLast, 1)
    else (pushHeap compare (popHeap compare v pos v.length).dropLast 0 (pos + 1), 1)

/-- The debug routine `validate`: the first parent that is less than one of its
children, or `-1`. -/
def validate (v : List α) : Int :=
  match (List.range v.length).find? (fun par =>
      compareLT compare v par (2 * par + 1) || compareLT compare v par (2 * par + 2)) with
  | some par => par
  | none => -1

end Routines

/-! ## Swaps -/

variable {compare : α → α → Bool}

@[simp] theorem length_swap (v : List α) (i j : Nat) : (swap v i j).length = v.length := by
  unfold swap
  split <;> simp

theorem getElem?_swap {v : List α} {i j : Nat} (hi : i < v.length) (hj : j < v.length) (k : Nat) :
    (swap v i j)[k]? = swapAt (fun k => v[k]?) i j k := by
  simp only [swap, swapAt, List.getElem?_eq_getElem hi, List.getElem?_eq_getElem hj]
  by_cases hkj : k = j
  · subst hkj
    simp [hi, hj]
  · by_cases hki : k = i
    · subst hki
      rw [List.getElem?_set_ne (Ne.symm hkj)]
      simp [hi, hj]
    · rw [Equiv.swap_apply_of_ne_of_ne hki hkj, List.getElem?_set_ne (Ne.symm hkj),
        List.getElem?_set_ne (Ne.symm hki)]

theorem swap_perm (v : List α) (i j : Nat) : (swap v i j).Perm v := by
  unfold swap
  split
  · next a b ha hb =>
      obtain ⟨hi, rfl⟩ := List.getElem?_eq_some_iff.mp ha
      obtain ⟨hj, rfl⟩ := List.getElem?_eq_some_iff.mp hb
      exact List.set_set_perm hi hj
  · exact List.Perm.refl v

theorem compareLT_eq_true {v : List α} {i j : Nat} :
    compareLT compare v i j = true ↔ ∃ a b, v[i]? = some a ∧ v[j]? = some b ∧ compare a b = true := by
  unfold compareLT
  split
  · next a b ha hb => simp [ha, hb]
  · next h =>
      constructor
      · intro hf; contradiction
      · rintro ⟨a, b, ha, hb, -⟩
        exact absurd hb (h a b ha)

variable (compare) in
theorem compareLT_of_getElem? {v : List α} {i j : Nat} {a b : α} (ha : v[i]? = some a)
    (hb : v[j]? = some b) : compareLT compare v i j = compare a b := by
  simp [compareLT, ha, hb]

/-! ## The routines only permute the vector -/

theorem pushHeapLoop_perm (first : Nat) : ∀ (fuel index : Nat) (v : List α),
    (pushHeapLoop compare first fuel index v).Perm v
  | 0, _, v => List.Perm.refl v
  | fuel + 1, index, v => by
    simp only [pushHeapLoop]
    split
    · exact (pushHeapLoop_perm first fuel _ _).trans (swap_perm v _ _)
    · exact List.Perm.refl v

theorem pushHeap_perm (v : List α) (first last : Nat) : (pushHeap compare v first last).Perm v :=
  pushHeapLoop_perm first _ _ v

theorem popHeapLoop_perm (first newLast : Nat) : ∀ (fuel index : Nat) (v : List α),
    (popHeapLoop compare first newLast fuel index v).Perm v
  | 0, _, v => List.Perm.refl v
  | fuel + 1, index, v => by
    simp only [popHeapLoop]
    split
    · split
      · exact (popHeapLoop_perm first newLast fuel _ _).trans (swap_perm v _ _)
      · exact List.Perm.refl v
    · exact List.Perm.refl v

variable (compare) in
theorem popHeap_perm (v : List α) (first last : Nat) : (popHeap compare v first last).Perm v :=
  (popHeapLoop_perm first _ _ _ _).trans (swap_perm v _ _)

variable (compare) in
theorem childOf_lt (v : List α) (first : Nat) {newLast index : Nat} (h : 2 * index + 1 < newLast) :
    childOf compare v first newLast index < newLast := by
  simp only [childOf]
  split <;> omega

variable (compare) in
theorem lt_childOf (v : List α) (first newLast index : Nat) :
    index < childOf compare v first newLast index := by
  simp only [childOf]
  split <;> omega

theorem popHeapLoop_frame (first newLast : Nat) {k : Nat} (hk : k < first ∨ first + newLast ≤ k) :
    ∀ (fuel index : Nat) (v : List α), first + newLast ≤ v.length → index < newLast →
      (popHeapLoop compare first newLast fuel index v)[k]? = v[k]?
  | 0, _, v, _, _ => rfl
  | fuel + 1, index, v, hc, hi => by
    simp only [popHeapLoop]
    split
    · next hleft =>
        have hcl := childOf_lt compare v first hleft
        split
        · rw [popHeapLoop_frame first newLast hk fuel _ _ (by simpa using hc) hcl,
            getElem?_swap (by omega) (by omega), swapAt_of_ne _ (by omega) (by omega)]
        · rfl
    · rfl

variable (compare) in
theorem push_perm (v : List α) (input : α) : (push compare v input).Perm (v ++ [input]) :=
  pushHeap_perm _ _ _

end Ftke.PriQueue
