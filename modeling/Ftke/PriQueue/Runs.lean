import Ftke.PriQueue.Sound
import Ftke.Run
import Mathlib.Data.Multiset.Replicate

/-!
# Ftke.PriQueue.Runs

Whole runs of an `OsclPriorityQueue`: any sequence of `push`, `pop` (on a
non-empty queue) and `remove` by value, starting from the empty queue.

A `Session` is the vector together with the history its contents are compared
with: the multiset of all elements pushed and the multiset of all elements
taken out again.
-/

namespace Ftke.PriQueue

open Heap

variable {α : Type*}

/-- The operations of the queue. -/
inductive Op (α : Type*)
  | push (input : α)
  | pop
  | remove (input : α)

/-- The queue and what has gone into it and come out of it. -/
structure Session (α : Type*) where
  c : List α
  pushed : Multiset α
  taken : Multiset α

/-- The queue as constructed. -/
def Session.start : Session α := ⟨[], 0, 0⟩

section Step

variable [DecidableEq α]

/-- One operation; `pop` is not called on an empty queue. -/
def Session.step (compare : α → α → Bool) (s : Session α) : Op α → Option (Session α)
  | .push input => some ⟨push compare s.c input, input ::ₘ s.pushed, s.taken⟩
  | .pop => (top s.c).map fun t => ⟨pop compare s.c, s.pushed, t ::ₘ s.taken⟩
  | .remove input =>
    let r := remove compare s.c input
    some ⟨r.1, s.pushed, Multiset.replicate r.2 input + s.taken⟩

/-- The operations whose sub-range sift, if any, goes right. -/
def Session.InOrder (compare : α → α → Bool) (s : Session α) : Op α → Prop
  | .remove input => RemoveInOrder compare s.c input
  | _ => True

instance (compare : α → α → Bool) (s : Session α) : (op : Op α) → Decidable (s.InOrder compare op)
  | .remove input => inferInstanceAs (Decidable (RemoveInOrder compare s.c input))
  | .push _ | .pop => inferInstanceAs (Decidable True)

end Step

/-- The heap property as `validate` checks it: no element is less than its
child. -/
def HeapProperty (compare : α → α → Bool) (v : List α) : Prop :=
  ∀ i, 0 < i → i < v.length → compareLT compare v ((i - 1) / 2) i = false

instance (compare : α → α → Bool) (v : List α) : Decidable (HeapProperty compare v) :=
  decidable_of_iff (∀ i < v.length, 0 < i → compareLT compare v ((i - 1) / 2) i = false)
    ⟨fun h i h0 hi => h i hi h0, fun h i hi h0 => h i h0 hi⟩

variable {compare : α → α → Bool}

theorem validate_eq_neg_one_iff {v : List α} :
    validate compare v = -1 ↔ HeapProperty compare v := by
  have hnone : validate compare v = -1 ↔ (List.range v.length).find? (fun par =>
      compareLT compare v par (2 * par + 1) || compareLT compare v par (2 * par + 2)) = none := by
    unfold validate
    split
    · next par hpar => simp [hpar]
    · next hpar => simp [hpar]
  rw [hnone, List.find?_eq_none]
  simp only [List.mem_range, Bool.not_eq_true, Bool.or_eq_false_iff]
  constructor
  · intro h i hi hin
    have hp := parent_lt hi
    have hpar : parent i < v.length := by omega
    rcases eq_or_eq_of_parent_eq hi rfl with he | he
    · have h1 := (h (parent i) hpar).1
      rwa [← he] at h1
    · have h2 := (h (parent i) hpar).2
      rwa [← he] at h2
  · intro h par _
    have hedge : ∀ k, 0 < k → (k - 1) / 2 = par → compareLT compare v par k = false := by
      intro k hk hkp
      by_cases hkc : k < v.length
      · rw [← hkp]
        exact h k hk hkc
      · cases hlt : compareLT compare v par k with
        | false => rfl
        | true =>
          obtain ⟨_, b, _, hb, _⟩ := compareLT_eq_true.mp hlt
          exact absurd (List.getElem?_eq_some_iff.mp hb).1 hkc
    exact ⟨hedge _ (by omega) (by omega), hedge _ (by omega) (by omega)⟩

/-- What the queue promises in a state: the heap property, the contents as the
history has them, a maximal `top`, and `remove` deleting one element or none. -/
structure Session.Good [DecidableEq α] (compare : α → α → Bool) (s : Session α) : Prop where
  heap : HeapProperty compare s.c
  contents : (s.c : Multiset α) + s.taken = s.pushed
  top_max : ∀ t, top s.c = some t → ∀ a ∈ s.c, compare t a = false
  remove_one : ∀ input, ((remove compare s.c input).1 : Multiset α) = (s.c : Multiset α).erase input ∧
    (remove compare s.c input).2 = if input ∈ s.c then 1 else 0

/-! ## The order of a total preorder -/

/-- The preorder behind a comparison. -/
def NotAbove (compare : α → α → Bool) (a b : α) : Prop := compare b a = false

theorem orderOn_of_strictWeak (hw : StrictWeak compare) :
    OrderOn compare (NotAbove compare) fun _ => True where
  le_of_lt _ _ hab := hw.asymm hab
  le_of_not_lt _ _ hab := hab
  trans _ _ _ hab hbc := hw.negTrans hbc hab

theorem heapProperty_iff {v : List α} :
    HeapProperty compare v ↔ IsHeap (NotAbove compare) v := by
  constructor
  · intro h i hi hin a b ha hb
    have hlt := h i hi hin
    have ha' : v[(i - 1) / 2]? = some a := ha
    rwa [compareLT_of_getElem? _ ha' hb] at hlt
  · intro h i hi hin
    have hp := parent_lt hi
    have ha : v[(i - 1) / 2]? = some v[(i - 1) / 2] := List.getElem?_eq_getElem (by unfold parent at hp; omega)
    have hb : v[i]? = some v[i] := List.getElem?_eq_getElem hin
    rw [compareLT_of_getElem? _ ha hb]
    exact h i hi hin _ _ ha hb

/-! ## Steps -/

section Runs

variable [DecidableEq α]

theorem remove_multiset (compare : α → α → Bool) (v : List α) (input : α) :
    ((remove compare v input).1 : Multiset α) = (v : Multiset α).erase input := by
  by_cases hin : input ∈ v
  · have hp : (v : Multiset α) = input ::ₘ ((remove compare v input).1 : Multiset α) :=
      Multiset.coe_eq_coe.mpr (remove_perm _ hin)
    rw [hp, Multiset.erase_cons_head]
  · rw [remove_of_not_mem hin, Multiset.erase_of_notMem (by simpa using hin)]

variable {compare : α → α → Bool}

theorem Session.step_contents {s t : Session α} {op : Op α}
    (hs : (s.c : Multiset α) + s.taken = s.pushed) (h : s.step compare op = some t) :
    (t.c : Multiset α) + t.taken = t.pushed := by
  cases op with
  | push input =>
    obtain rfl := Option.some.inj h
    have hp : ((push compare s.c input : List α) : Multiset α) = input ::ₘ (s.c : Multiset α) :=
      Multiset.coe_eq_coe.mpr ((push_perm _ s.c input).trans (List.perm_append_singleton input s.c))
    simp only [hp, Multiset.cons_add, hs]
  | pop =>
    obtain ⟨x, hx, rfl⟩ := Option.map_eq_some_iff.mp h
    have hp : (s.c : Multiset α) = x ::ₘ ((pop compare s.c : List α) : Multiset α) :=
      Multiset.coe_eq_coe.mpr (dropLast_popHeap_perm hx)
    rw [← hs, hp]
    simp only [Multiset.add_cons, Multiset.cons_add]
  | remove input =>
    obtain rfl := Option.some.inj h
    simp only [remove_multiset, remove_snd]
    rw [← hs]
    split
    · next hin =>
        have hc : (s.c : Multiset α) = input ::ₘ (s.c : Multiset α).erase input :=
          (Multiset.cons_erase (by simpa using hin)).symm
        conv_rhs => rw [hc]
        rw [Multiset.replicate_one, ← Multiset.add_assoc, Multiset.add_comm _ ({input} : Multiset α),
          Multiset.singleton_add]
    · next hin =>
        rw [Multiset.replicate_zero, Multiset.zero_add, Multiset.erase_of_notMem (by simpa using hin)]

theorem Session.step_heap (hw : StrictWeak compare) {s t : Session α}
    {op : Op α} (hs : HeapProperty compare s.c) (hok : s.InOrder compare op)
    (h : s.step compare op = some t) : HeapProperty compare t.c := by
  have ho := orderOn_of_strictWeak hw
  rw [heapProperty_iff] at hs ⊢
  cases op with
  | push input =>
    obtain rfl := Option.some.inj h
    exact push_isHeap ho (fun _ _ => trivial) trivial hs
  | pop =>
    obtain ⟨x, hx, rfl⟩ := Option.map_eq_some_iff.mp h
    exact pop_isHeap ho (fun _ _ => trivial) hs (List.getElem?_eq_some_iff.mp hx).1
  | remove input =>
    obtain rfl := Option.some.inj h
    exact remove_isHeap ho (fun _ _ => trivial) hs hok

theorem Session.good_of (hw : StrictWeak compare) {s : Session α}
    (hheap : HeapProperty compare s.c) (hc : (s.c : Multiset α) + s.taken = s.pushed) :
    s.Good compare where
  heap := hheap
  contents := hc
  top_max _ ht a ha := IsHeap.le_top (orderOn_of_strictWeak hw) (fun _ _ => trivial)
    (heapProperty_iff.mp hheap) ht a ha
  remove_one input := ⟨remove_multiset compare s.c input, remove_snd s.c input⟩

/-! ## Runs -/

/-- **The queue over whole runs**: for every total preorder, in every run whose
removals are in order, every state reached is a heap with exactly the elements
pushed and not taken out, and `top` is maximal. -/
theorem good_of_run (compare : α → α → Bool) (hw : StrictWeak compare) (ops : List (Op α))
    (s : Session α)
    (h : Run (guarded (Session.InOrder compare) (stepOf (Session.step compare))) .start ops s) :
    s.Good compare := by
  have hinv : HeapProperty compare s.c ∧ (s.c : Multiset α) + s.taken = s.pushed := by
    refine h.invariant (I := fun t => HeapProperty compare t.c ∧ (t.c : Multiset α) + t.taken = t.pushed)
      ⟨fun i _ hi => absurd hi (by simp [Session.start]), rfl⟩ ?_
    rintro a op b ⟨hheap, hcont⟩ ⟨hok, hstep⟩
    exact ⟨Session.step_heap hw hheap hok hstep, Session.step_contents hcont hstep⟩
  exact Session.good_of hw hinv.1 hinv.2

end Runs

theorem strictWeak_natLt : StrictWeak fun a b : Nat => decide (a < b) where
  asymm hab := by
    simp only [decide_eq_true_eq, decide_eq_false_iff_not] at *
    omega
  negTrans hab hbc := by
    simp only [decide_eq_false_iff_not] at *
    omega

/-- A run with removals at the back, in the middle, at the front and of an
absent element, all in order. -/
theorem good_of_run_example : (⟨[2, 1], {0, 5, 3, 1, 4, 2}, {4, 3, 0, 5}⟩ : Session Nat).Good
    fun a b => decide (a < b) :=
  good_of_run _ strictWeak_natLt
    [.push 2, .push 4, .push 1, .push 3, .push 5, .push 0, .pop, .remove 0, .remove 3, .remove 4,
      .remove 7] _
    (Run.of_foldlM_guarded (by rfl))

/-- **Removal from the middle breaks the heap**: after pushing 2, 4, 1, 3, 5, 0
the vector is `[5, 4, 1, 2, 3, 0]`, and removing 4 leaves `[5, 2, 1, 0, 3]`, where
2 is the parent of 3. -/
theorem remove_breaks_heap :
    ¬ ∀ (ops : List (Op Nat)) (s : Session Nat),
      Run (stepOf (Session.step fun a b => decide (a < b))) .start ops s →
        HeapProperty (fun a b => decide (a < b)) s.c := by
  intro h
  have hrun := Run.of_foldlM (f := Session.step fun a b : Nat => decide (a < b))
    (l := [.push 2, .push 4, .push 1, .push 3, .push 5, .push 0, .remove 4])
    (s := .start) rfl
  exact absurd (h _ _ hrun) (by decide)

end Ftke.PriQueue
