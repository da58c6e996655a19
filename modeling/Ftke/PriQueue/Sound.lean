import Ftke.PriQueue

/-!
# Ftke.PriQueue.Sound

What the routines of `OsclPriorityQueue` do to a heap: `push` and `pop` keep
the heap order, and `remove` keeps it where the sub-range sift makes no
mistake (`RemoveInOrder`).

The lemmas are stated for any comparison that agrees with a preorder on the
elements stored (`Heap.OrderOn`), so that queues whose comparison is an order
only on part of its domain can use them.
-/

namespace Ftke.PriQueue

open Heap

variable {α : Type*} {compare : α → α → Bool} {le : α → α → Prop} {S : α → Prop}

/-- The vector as an indexed family. -/
def view (v : List α) : Nat → Option α := fun k => v[k]?

@[simp] theorem view_apply (v : List α) (k : Nat) : view v k = v[k]? := rfl

theorem view_swap {v : List α} {i j : Nat} (hi : i < v.length) (hj : j < v.length) :
    view (swap v i j) = swapAt (view v) i j :=
  funext fun k => getElem?_swap hi hj k

theorem allIn_view {v : List α} : AllIn S (view v) ↔ ∀ a ∈ v, S a := by
  constructor
  · intro h a ha
    obtain ⟨k, hk⟩ := List.mem_iff_getElem?.mp ha
    exact h k a hk
  · intro h k a hk
    exact h a (List.mem_of_getElem? hk)

/-- Heap order of a whole vector. -/
def IsHeap (le : α → α → Prop) (v : List α) : Prop := Ordered le (view v) v.length

theorem IsHeap.congr {le' : α → α → Prop} {v : List α} (h : IsHeap le v)
    (hle : ∀ a ∈ v, ∀ b ∈ v, le a b → le' a b) : IsHeap le' v := by
  intro i hi hin a b ha hb
  exact hle b (List.mem_of_getElem? hb) a (List.mem_of_getElem? ha) (h i hi hin a b ha hb)

theorem IsHeap.dropLast {v : List α} (h : Ordered le (view v) (v.length - 1)) :
    IsHeap le v.dropLast := by
  intro i hi hin a b ha hb
  rw [List.length_dropLast] at hin
  have hp := parent_lt hi
  simp only [view_apply, List.getElem?_dropLast] at ha hb
  rw [if_pos (by omega)] at ha hb
  exact h i hi hin a b ha hb

theorem IsHeap.le_top (ho : OrderOn compare le S) {v : List α} (hS : ∀ a ∈ v, S a)
    (h : IsHeap le v) {t : α} (ht : top v = some t) : ∀ a ∈ v, le a t := by
  intro a ha
  obtain ⟨k, hk⟩ := List.mem_iff_getElem?.mp ha
  have hkn : k < v.length := (List.getElem?_eq_some_iff.mp hk).1
  refine Ordered.le_root ho (allIn_view.mpr hS) ?_ h ht k a hkn hk
  intro i hi
  simp [hi]

/-! ## Sifting up -/

theorem pushHeapLoop_isHeap (ho : OrderOn compare le S) :
    ∀ (fuel index : Nat) (v : List α), (∀ a ∈ v, S a) → index ≤ fuel → index < v.length →
      UpOrder le (view v) v.length index → IsHeap le (pushHeapLoop compare 0 fuel index v)
  | 0, index, v, _, hf, _, h => by
    refine h.ordered fun hi => ?_
    omega
  | fuel + 1, index, v, hS, hf, hin, h => by
    simp only [pushHeapLoop, Nat.zero_add]
    split
    · next hc =>
        obtain ⟨hi, hlt⟩ := hc
        obtain ⟨p, x, hp, hx, hpx⟩ := compareLT_eq_true.mp hlt
        have hpar := parent_lt hi
        have hview : view (swap v index ((index - 1) / 2)) =
            swapAt (view v) index (parent index) := view_swap hin (by omega)
        refine pushHeapLoop_isHeap ho fuel (parent index) _ ?_ ?_ ?_ ?_
        · intro a ha
          exact hS a ((swap_perm v _ _).mem_iff.mp ha)
        · omega
        · rw [length_swap]; omega
        · rw [length_swap, hview]
          exact h.swap ho (allIn_view.mpr hS) hi hp hx hpx
    · next hc =>
        refine h.ordered fun hi a b ha hb => ?_
        have hnot : compareLT compare v (parent index) index = false := by
          by_contra hne
          exact hc ⟨hi, by simpa [parent] using hne⟩
        rw [compareLT_of_getElem? _ ha hb] at hnot
        exact ho.le_of_not_lt (hS _ (List.mem_of_getElem? ha)) (hS _ (List.mem_of_getElem? hb)) hnot

theorem pushHeap_isHeap (ho : OrderOn compare le S) {v : List α} (hS : ∀ a ∈ v, S a) {last : Nat}
    (hpos : 0 < last) (hlast : last ≤ v.length) (h : UpOrder le (view v) v.length (last - 1)) :
    IsHeap le (pushHeap compare v 0 last) := by
  unfold pushHeap
  exact pushHeapLoop_isHeap ho _ _ v hS (by omega) (by omega) (by simpa using h)

/-- **`push` keeps the heap order.** -/
theorem push_isHeap (ho : OrderOn compare le S) {v : List α} {input : α} (hS : ∀ a ∈ v, S a)
    (hin : S input) (h : IsHeap le v) : IsHeap le (push compare v input) := by
  have hS' : ∀ a ∈ v ++ [input], S a := by
    intro a ha
    rcases List.mem_append.mp ha with ha | ha
    · exact hS a ha
    · rw [List.mem_singleton.mp ha]; exact hin
  refine pushHeap_isHeap ho hS' (Nat.succ_pos _) (by simp) ?_
  constructor
  · intro k hk hkn hki a b ha hb
    rw [List.length_append, List.length_singleton] at hkn
    have hkc : k < v.length := by omega
    have hp := parent_lt hk
    simp only [view_apply] at ha hb
    rw [List.getElem?_append_left (by omega)] at ha hb
    exact h k hk hkc a b ha hb
  · intro k hk hkn hpk
    have := parent_lt hk
    rw [List.length_append, List.length_singleton] at hkn
    omega

/-! ## Sifting down -/

theorem childOf_max (ho : OrderOn compare le S) {v : List α} (hS : ∀ a ∈ v, S a)
    (n index : Nat) {y : α} (hy : v[childOf compare v 0 n index]? = some y) :
    ∀ k, 0 < k → k < n → parent k = index → ∀ b, view v k = some b → le b y := by
  intro k hk hkn hpk b hb
  have hSy := hS _ (List.mem_of_getElem? hy)
  have hSb := hS _ (List.mem_of_getElem? hb)
  rw [view_apply] at hb
  simp only [childOf, Nat.zero_add] at hy
  split at hy
  · next hr =>
      obtain ⟨a, y', ha, hy', hay⟩ := compareLT_eq_true.mp hr.2
      rcases eq_or_eq_of_parent_eq hk hpk with rfl | rfl
      · obtain rfl : a = b := by rw [ha] at hb; exact Option.some.inj hb
        obtain rfl : y' = y := by rw [hy'] at hy; exact Option.some.inj hy
        exact ho.le_of_lt hSb hSy hay
      · obtain rfl : y = b := by rw [hy] at hb; exact Option.some.inj hb
        exact ho.refl hSb
  · next hr =>
      rcases eq_or_eq_of_parent_eq hk hpk with rfl | rfl
      · obtain rfl : y = b := by rw [hy] at hb; exact Option.some.inj hb
        exact ho.refl hSb
      · have hnot : compareLT compare v (2 * index + 1) (2 * index + 2) = false := by
          by_contra hne
          exact hr ⟨by omega, by simpa using hne⟩
        rw [compareLT_of_getElem? _ hy hb] at hnot
        exact ho.le_of_not_lt hSy hSb hnot

variable (compare) in
theorem parent_childOf (v : List α) (first n index : Nat) :
    parent (childOf compare v first n index) = index := by
  simp only [childOf, parent]
  split <;> omega

theorem popHeapLoop_ordered (ho : OrderOn compare le S) :
    ∀ (fuel index n : Nat) (v : List α), (∀ a ∈ v, S a) → n ≤ v.length → n ≤ fuel + index →
      index < v.length → DownOrder le (view v) n index →
      Ordered le (view (popHeapLoop compare 0 n fuel index v)) n
  | 0, index, n, v, _, _, hf, _, h => by
    refine h.ordered fun k hk hkn hpk => ?_
    have := parent_lt hk
    omega
  | fuel + 1, index, n, v, hS, hn, hf, hi, h => by
    simp only [popHeapLoop, Nat.zero_add]
    split
    · next hleft =>
        have hmax := fun y => childOf_max (y := y) ho hS n index
        have hcn := childOf_lt compare v 0 hleft
        have hpc := parent_childOf compare v 0 n index
        have hic := lt_childOf compare v 0 n index
        generalize childOf compare v 0 n index = child at hmax hcn hpc hic
        split
        · next hlt =>
            obtain ⟨x, y, hx, hy, hxy⟩ := compareLT_eq_true.mp hlt
            have hview : view (swap v index child) = swapAt (view v) index child :=
              view_swap hi (by omega)
            refine popHeapLoop_ordered ho fuel child n _ ?_ ?_ ?_ ?_ ?_
            · intro a ha
              exact hS a ((swap_perm v _ _).mem_iff.mp ha)
            · rw [length_swap]; exact hn
            · omega
            · rw [length_swap]; omega
            · rw [hview]
              exact h.swap ho (allIn_view.mpr hS) (by omega) hpc hcn hx hy hxy (hmax y hy)
        · next hlt =>
            refine h.ordered fun k hk hkn hpk a b ha hb => ?_
            rw [hpk] at ha
            have hSa := hS _ (List.mem_of_getElem? ha)
            have hy : v[child]? = some v[child] := List.getElem?_eq_getElem (by omega)
            have hSy := hS _ (List.mem_of_getElem? hy)
            have hnot : compare a v[child] = false := by
              rw [← compareLT_of_getElem? compare ha hy]
              simpa using hlt
            exact ho.trans (hS _ (List.mem_of_getElem? hb)) hSy hSa (hmax _ hy k hk hkn hpk b hb)
              (ho.le_of_not_lt hSa hSy hnot)
    · next hleft =>
        refine h.ordered fun k hk hkn hpk => ?_
        rcases eq_or_eq_of_parent_eq hk hpk with rfl | rfl <;> omega

theorem IsHeap.downOrder_swap {v : List α} (h : IsHeap le v) (hc : 0 < v.length) :
    DownOrder le (view (swap v 0 (v.length - 1))) (v.length - 1) 0 := by
  have hview : view (swap v 0 (v.length - 1)) = swapAt (view v) 0 (v.length - 1) :=
    view_swap hc (by omega)
  constructor
  · intro k hk hkn hpk a b ha hb
    have hp := parent_lt hk
    rw [hview, swapAt_of_ne _ (by omega) (by omega)] at ha hb
    exact h k hk (by omega) a b ha hb
  · intro k hk hkn hpk h0
    omega

theorem popHeap_getLast {v : List α} {first : Nat} (hf : first < v.length) :
    (popHeap compare v first v.length)[v.length - 1]? = v[first]? := by
  unfold popHeap
  by_cases h1 : v.length - first - 1 = 0
  · have : first = v.length - 1 := by omega
    have hloop : ∀ fuel d, popHeapLoop compare first 0 fuel 0 d = d := by
      intro fuel d
      cases fuel <;> simp [popHeapLoop]
    rw [h1, hloop, getElem?_swap hf (by omega), ← this, swapAt_left]
  · rw [popHeapLoop_frame first _ (by omega) _ _ _ (by rw [length_swap]; omega) (by omega),
      getElem?_swap hf (by omega), swapAt_right]

theorem dropLast_popHeap_perm {v : List α} {first : Nat} {a : α} (ha : v[first]? = some a) :
    v.Perm (a :: (popHeap compare v first v.length).dropLast) := by
  have hf : first < v.length := (List.getElem?_eq_some_iff.mp ha).1
  have hperm := popHeap_perm compare v first v.length
  have hlen := hperm.length_eq
  have hlast : (popHeap compare v first v.length).getLast? = some a := by
    rw [List.getLast?_eq_getElem?, hlen, popHeap_getLast hf, ha]
  have happ := List.dropLast_append_getLast? a hlast
  calc
    v.Perm (popHeap compare v first v.length) := hperm.symm
    _ = (popHeap compare v first v.length).dropLast ++ [a] := happ.symm
    _ |>.Perm (a :: (popHeap compare v first v.length).dropLast) := List.perm_append_singleton a _

variable (compare) in
theorem pop_perm {v : List α} {a : α} (ha : top v = some a) : v.Perm (a :: pop compare v) :=
  dropLast_popHeap_perm ha

/-- **`pop` keeps the heap order.** -/
theorem pop_isHeap (ho : OrderOn compare le S) {v : List α} (hS : ∀ a ∈ v, S a)
    (h : IsHeap le v) (hc : 0 < v.length) : IsHeap le (pop compare v) := by
  unfold pop
  have hlen := (popHeap_perm compare v 0 v.length).length_eq
  refine IsHeap.dropLast ?_
  rw [hlen]
  unfold popHeap
  have hsw : ∀ a ∈ swap v 0 (v.length - 1), S a := fun a ha => hS a ((swap_perm v _ _).mem_iff.mp ha)
  simpa using popHeapLoop_ordered ho (v.length - 0) 0 (v.length - 1) _ hsw
    (by rw [length_swap]; omega) (by omega) (by rw [length_swap]; exact hc) (h.downOrder_swap hc)

/-! ## Removal by value -/

/-- The last entry is not less than any entry strictly between `pos` and it. -/
def LastGe (compare : α → α → Bool) (v : List α) (pos : Nat) : Prop :=
  ∀ k, pos < k → k + 1 < v.length → compareLT compare v (v.length - 1) k = false

instance (v : List α) (pos : Nat) : Decidable (LastGe compare v pos) :=
  decidable_of_iff
    (∀ k < v.length, pos < k → k + 1 < v.length → compareLT compare v (v.length - 1) k = false)
    ⟨fun h k h0 hk => h k (by omega) h0 hk, fun h k _ h0 hk => h k h0 hk⟩

/-- If the last entry is not less than any entry behind `pos`, the sub-range
sift of `pop_heap` stops at once. -/
theorem popHeap_of_last_ge {v : List α} {pos : Nat} (hpos : pos + 1 < v.length)
    (hge : LastGe compare v pos) :
    popHeap compare v pos v.length = swap v pos (v.length - 1) := by
  unfold popHeap
  obtain ⟨m, hm⟩ : ∃ m, v.length - pos = m + 1 := ⟨v.length - pos - 1, by omega⟩
  rw [hm]
  simp only [popHeapLoop]
  split
  · next hleft =>
      have hcl := childOf_lt compare (swap v pos (v.length - 1)) pos hleft
      have hcp := lt_childOf compare (swap v pos (v.length - 1)) pos
        (m + 1 - 1) 0
      generalize childOf compare (swap v pos (v.length - 1)) pos (m + 1 - 1) 0 = child at hcl hcp
      rw [if_neg]
      have hk := hge (pos + child) (by omega) (by omega)
      unfold compareLT at hk ⊢
      rw [getElem?_swap (by omega) (by omega), getElem?_swap (by omega) (by omega), Nat.add_zero,
        swapAt_left, swapAt_of_ne _ (by omega) (by omega), hk]
      simp
  · rfl

/-- With the last entry moved to `pos` and popped, only the edge above `pos`
may be out of order. -/
theorem upOrder_dropLast_swap (ho : OrderOn compare le S) {v : List α} (hS : ∀ a ∈ v, S a)
    (h : IsHeap le v) {pos : Nat} (hpos : pos + 1 < v.length)
    (hge : LastGe compare v pos) :
    UpOrder le (view (swap v pos (v.length - 1)).dropLast) (v.length - 1) pos := by
  have hget : ∀ k, k + 1 < v.length → k ≠ pos →
      view (swap v pos (v.length - 1)).dropLast k = v[k]? := by
    intro k hk hkp
    rw [view_apply, List.getElem?_dropLast, length_swap, if_pos (by omega),
      getElem?_swap (by omega) (by omega), swapAt_of_ne _ hkp (by omega)]
  have hgetp : view (swap v pos (v.length - 1)).dropLast pos = v[v.length - 1]? := by
    rw [view_apply, List.getElem?_dropLast, length_swap, if_pos (by omega),
      getElem?_swap (by omega) (by omega), swapAt_left]
  constructor
  · intro k hk hkn hkp a b ha hb
    have hpar := parent_lt hk
    rw [hget k (by omega) hkp] at hb
    by_cases hpk : parent k = pos
    · rw [hpk, hgetp] at ha
      have hnot := hge k (by omega) (by omega)
      rw [compareLT_of_getElem? _ ha hb] at hnot
      exact ho.le_of_not_lt (hS _ (List.mem_of_getElem? ha)) (hS _ (List.mem_of_getElem? hb)) hnot
    · rw [hget (parent k) (by omega) hpk] at ha
      exact h k hk (by omega) a b ha hb
  · intro k hk hkn hpk hp0 a b ha hb
    have hpar := parent_lt hk
    have hpp := parent_lt hp0
    rw [hget k (by omega) (by omega)] at hb
    rw [hget (parent pos) (by omega) (by omega)] at ha
    have hx : v[pos]? = some v[pos] := List.getElem?_eq_getElem (by omega)
    have hbx : le b v[pos] := h k hk (by omega) _ b (by rw [hpk]; exact hx) hb
    have hxa : le v[pos] a := h pos hp0 (by omega) a _ ha hx
    exact ho.trans (hS _ (List.mem_of_getElem? hb)) (hS _ (List.getElem_mem _))
      (hS _ (List.mem_of_getElem? ha)) hbx hxa

section Remove

variable [DecidableEq α]

theorem findHeap_eq_some {v : List α} {input : α} {pos : Nat} (h : findHeap v input = some pos) :
    v[pos]? = some input := by
  obtain ⟨hpos, hd, -⟩ := List.findIdx?_eq_some_iff_getElem.mp h
  rw [List.getElem?_eq_getElem hpos]
  simpa using hd

theorem findHeap_eq_none {v : List α} {input : α} : findHeap v input = none ↔ input ∉ v := by
  simp only [findHeap, List.findIdx?_eq_none_iff, decide_eq_false_iff_not]
  constructor
  · intro h hin
    exact h input hin rfl
  · rintro h x hx rfl
    exact h hx

variable (compare) in
theorem remove_perm {v : List α} {input : α} (hin : input ∈ v) :
    v.Perm (input :: (remove compare v input).1) := by
  cases hf : findHeap v input with
  | none => exact absurd hin (findHeap_eq_none.mp hf)
  | some pos =>
    have hpos := findHeap_eq_some hf
    simp only [remove, hf]
    split
    · next hlast =>
        have hg : v.getLast? = some input := by
          rw [List.getLast?_eq_getElem?, ← hlast]
          exact hpos
        have happ := List.dropLast_append_getLast? input hg
        calc
          v.Perm (v.dropLast ++ [input]) := by rw [happ]
          _ |>.Perm (input :: v.dropLast) := List.perm_append_singleton input _
    · exact (dropLast_popHeap_perm hpos).trans
        (List.Perm.cons _ (pushHeap_perm _ _ _).symm)

theorem remove_of_not_mem {v : List α} {input : α} (hin : input ∉ v) :
    remove compare v input = (v, 0) := by
  simp [remove, findHeap_eq_none.mpr hin]

theorem remove_snd (v : List α) (input : α) :
    (remove compare v input).2 = if input ∈ v then 1 else 0 := by
  split
  · next hin =>
      cases hf : findHeap v input with
      | none => exact absurd hin (findHeap_eq_none.mp hf)
      | some pos =>
        simp only [remove, hf]
        split <;> rfl
  · next hin => rw [remove_of_not_mem hin]

/-- Where the sub-range sift of `remove` goes right: the element is absent, at
the front (the sub-range is the whole heap) or at the back (no sift at all), or
the entry moved into its place is not less than any entry behind it, so that
the sift moves nothing. -/
def RemoveInOrder (compare : α → α → Bool) (v : List α) (input : α) : Prop :=
  ∀ pos ∈ findHeap v input, pos = 0 ∨ pos + 1 = v.length ∨ LastGe compare v pos

instance (v : List α) (input : α) : Decidable (RemoveInOrder compare v input) :=
  inferInstanceAs (Decidable (∀ pos ∈ findHeap v input, _))

/-- **`remove` keeps the heap order** where its sub-range sift goes right. -/
theorem remove_isHeap (ho : OrderOn compare le S) {v : List α} {input : α} (hS : ∀ a ∈ v, S a)
    (h : IsHeap le v) (hok : RemoveInOrder compare v input) :
    IsHeap le (remove compare v input).1 := by
  cases hf : findHeap v input with
  | none => simpa [remove, hf] using h
  | some pos =>
    have hpc : pos < v.length := (List.getElem?_eq_some_iff.mp (findHeap_eq_some hf)).1
    simp only [remove, hf]
    split
    · refine IsHeap.dropLast fun i hi hin => ?_
      exact h i hi (by omega)
    · next hlast =>
        have hmem : ∀ a ∈ (popHeap compare v pos v.length).dropLast, S a := fun a ha =>
          hS a ((popHeap_perm _ v pos v.length).mem_iff.mp ((List.dropLast_subset _ ha)))
        have hlen : (popHeap compare v pos v.length).dropLast.length = v.length - 1 := by
          rw [List.length_dropLast, (popHeap_perm _ v pos v.length).length_eq]
        refine pushHeap_isHeap ho hmem (Nat.succ_pos pos) (by omega) ?_
        rw [Nat.add_sub_cancel, hlen]
        rcases hok pos hf with h0 | hl | hge
        · -- the sub-range is the whole heap: this is `pop`
          subst h0
          have hp : IsHeap le (pop compare v) := pop_isHeap ho hS h (by omega)
          have hpl : (pop compare v).length = v.length - 1 := hlen
          constructor
          · intro k hk hkn _
            exact hp k hk (by omega)
          · intro k hk hkn hpk h0
            omega
        · exact absurd hl hlast
        · rw [popHeap_of_last_ge (by omega) hge]
          exact upOrder_dropLast_swap ho hS h (by omega) hge

end Remove

end Ftke.PriQueue
