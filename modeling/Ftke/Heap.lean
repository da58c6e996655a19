import Mathlib.Logic.Equiv.Basic
import Mathlib.Data.List.Perm.Basic

/-!
# Ftke.Heap

Order theory of the implicit binary heap, over partial indexed families
`g : Nat → Option α` (a vector read at an index, `none` behind its end).

The order is given twice: `lt` is the comparison a program runs, `le` the
preorder it stands for, and `OrderOn lt le S` says the two agree on the
elements in `S`.  The comparison need not be irreflexive — a program that
never compares an element with itself may answer anything there — and it need
not be an order outside `S`.

* `Ordered le g n` — every edge `parent i — i` below `n` is in order;
* `UpOrder le g n i` — in order but for the edge above `i`; one swap with the
  parent moves the defect up (`UpOrder.swap`);
* `DownOrder le g n i` — in order but for the edges below `i`; one swap with
  the greater child moves the defect down (`DownOrder.swap`).
-/

namespace Ftke.Heap

variable {α : Type*}

/-- Index of the parent of `i`. -/
def parent (i : Nat) : Nat := (i - 1) / 2

variable {i n : Nat}

theorem parent_lt (h : 0 < i) : parent i < i := by unfold parent; omega

theorem eq_or_eq_of_parent_eq {k i : Nat} (hk : 0 < k) (h : parent k = i) :
    k = 2 * i + 1 ∨ k = 2 * i + 2 := by
  unfold parent at h; omega

/-- The comparison `lt` and the preorder `le` agree on the elements in `S`. -/
structure OrderOn (lt : α → α → Bool) (le : α → α → Prop) (S : α → Prop) : Prop where
  le_of_lt : ∀ {a b}, S a → S b → lt a b = true → le a b
  le_of_not_lt : ∀ {a b}, S a → S b → lt a b = false → le b a
  trans : ∀ {a b c}, S a → S b → S c → le a b → le b c → le a c

variable {S : α → Prop} {le : α → α → Prop} {lt : α → α → Bool}

theorem OrderOn.refl (ho : OrderOn lt le S) {a : α} (ha : S a) : le a a := by
  cases h : lt a a with
  | true => exact ho.le_of_lt ha ha h
  | false => exact ho.le_of_not_lt ha ha h

/-- All elements of the family lie in `S`. -/
def AllIn (S : α → Prop) (g : Nat → Option α) : Prop := ∀ k a, g k = some a → S a

/-- The edge between `i` and its parent is in order. -/
def EdgeAt (le : α → α → Prop) (g : Nat → Option α) (i : Nat) : Prop :=
  ∀ a b, g (parent i) = some a → g i = some b → le b a

/-- Heap order of the first `n` positions. -/
def Ordered (le : α → α → Prop) (g : Nat → Option α) (n : Nat) : Prop :=
  ∀ i, 0 < i → i < n → EdgeAt le g i

/-- The positions `i` and `j` exchanged. -/
def swapAt (g : Nat → Option α) (i j : Nat) : Nat → Option α := fun k => g (Equiv.swap i j k)

@[simp] theorem swapAt_left (g : Nat → Option α) (i j : Nat) : swapAt g i j i = g j := by
  simp [swapAt]

@[simp] theorem swapAt_right (g : Nat → Option α) (i j : Nat) : swapAt g i j j = g i := by
  simp [swapAt]

theorem swapAt_of_ne (g : Nat → Option α) {i j k : Nat} (hi : k ≠ i) (hj : k ≠ j) :
    swapAt g i j k = g k := by
  simp [swapAt, Equiv.swap_apply_of_ne_of_ne hi hj]

variable {g : Nat → Option α}

theorem Ordered.le_root (ho : OrderOn lt le S) (hS : AllIn S g)
    (hdef : ∀ i, i < n → (g i).isSome) (h : Ordered le g n) {r : α} (hr : g 0 = some r) :
    ∀ i a, i < n → g i = some a → le a r := by
  intro i
  induction i using Nat.strongRecOn with
  | ind i ih =>
    intro a hi ha
    by_cases h0 : i = 0
    · subst h0
      have har : a = r := by rw [hr] at ha; exact (Option.some.inj ha).symm
      rw [har]
      exact ho.refl (hS 0 r hr)
    · have hlt := parent_lt (Nat.pos_of_ne_zero h0)
      obtain ⟨p, hp⟩ := Option.isSome_iff_exists.mp (hdef (parent i) (by omega))
      have hap : le a p := h i (by omega) hi p a hp ha
      have hpr : le p r := ih (parent i) hlt p (by omega) hp
      exact ho.trans (hS _ _ ha) (hS _ _ hp) (hS _ _ hr) hap hpr

/-! ## Sifting up -/

/-- In order but for the edge above `i`; the children of `i` are already below
the parent of `i`. -/
structure UpOrder (le : α → α → Prop) (g : Nat → Option α) (n i : Nat) : Prop where
  edges : ∀ k, 0 < k → k < n → k ≠ i → EdgeAt le g k
  grand : ∀ k, 0 < k → k < n → parent k = i → 0 < i →
    ∀ a b, g (parent i) = some a → g k = some b → le b a

theorem UpOrder.ordered (h : UpOrder le g n i) (hi : 0 < i → EdgeAt le g i) : Ordered le g n := by
  intro k hk hkn
  by_cases hki : k = i
  · subst hki; exact hi hk
  · exact h.edges k hk hkn hki

theorem UpOrder.swap (ho : OrderOn lt le S) (hS : AllIn S g)
    (h : UpOrder le g n i) (hi : 0 < i) {p x : α} (hp : g (parent i) = some p)
    (hx : g i = some x) (hlt : lt p x = true) :
    UpOrder le (swapAt g i (parent i)) n (parent i) := by
  have hpi := parent_lt hi
  have hpx : le p x := ho.le_of_lt (hS _ _ hp) (hS _ _ hx) hlt
  constructor
  · intro k hk hkn hkp a b ha hb
    by_cases hki : k = i
    · -- the swapped edge itself
      subst hki
      simp only [swapAt_right, swapAt_left, hp, hx] at ha hb
      cases ha; cases hb
      exact hpx
    · rw [swapAt_of_ne g hki hkp] at hb
      by_cases hpk : parent k = i
      · rw [hpk, swapAt_left, hp] at ha
        cases ha
        exact h.grand k hk hkn hpk hi p b hp hb
      · by_cases hpk' : parent k = parent i
        · -- the sibling of `i` keeps its place below the greater element
          rw [hpk', swapAt_right, hx] at ha
          cases ha
          have hbp : le b p := h.edges k hk hkn hki p b (by rw [hpk']; exact hp) hb
          exact ho.trans (hS _ _ hb) (hS _ _ hp) (hS _ _ hx) hbp hpx
        · rw [swapAt_of_ne g hpk hpk'] at ha
          exact h.edges k hk hkn hki a b ha hb
  · intro k hk hkn hkp hp0 a b ha hb
    have hpp := parent_lt hp0
    rw [swapAt_of_ne g (by omega) (by omega)] at ha
    have hle : parent i < n → le p a := fun hn => h.edges (parent i) hp0 hn (by omega) a p ha hp
    by_cases hki : k = i
    · subst hki
      rw [swapAt_left, hp] at hb
      cases hb
      exact hle (by omega)
    · have hkp' : k ≠ parent i := by
        intro he
        have := parent_lt hk
        omega
      rw [swapAt_of_ne g hki hkp'] at hb
      have hbp : le b p := h.edges k hk hkn hki p b (by rw [hkp]; exact hp) hb
      have := parent_lt hk
      exact ho.trans (hS _ _ hb) (hS _ _ hp) (hS _ _ ha) hbp (hle (by omega))

/-! ## Sifting down -/

/-- In order but for the edges below `i`; the children of `i` are already
below the parent of `i`. -/
structure DownOrder (le : α → α → Prop) (g : Nat → Option α) (n i : Nat) : Prop where
  edges : ∀ k, 0 < k → k < n → parent k ≠ i → EdgeAt le g k
  grand : ∀ k, 0 < k → k < n → parent k = i → 0 < i →
    ∀ a b, g (parent i) = some a → g k = some b → le b a

theorem DownOrder.ordered (h : DownOrder le g n i) (hi : ∀ k, 0 < k → k < n → parent k = i → EdgeAt le g k) :
    Ordered le g n := by
  intro k hk hkn
  by_cases hki : parent k = i
  · exact hi k hk hkn hki
  · exact h.edges k hk hkn hki

theorem DownOrder.swap (ho : OrderOn lt le S) {n i c : Nat} (hS : AllIn S g)
    (h : DownOrder le g n i) (hc : 0 < c) (hci : parent c = i) (hcn : c < n) {x y : α}
    (hx : g i = some x) (hy : g c = some y) (hlt : lt x y = true)
    (hmax : ∀ k, 0 < k → k < n → parent k = i → ∀ b, g k = some b → le b y) :
    DownOrder le (swapAt g i c) n c := by
  have hic := parent_lt hc
  have hxy : le x y := ho.le_of_lt (hS _ _ hx) (hS _ _ hy) hlt
  constructor
  · intro k hk hkn hkc a b ha hb
    by_cases hki : k = i
    · -- the edge above `i` now carries the child
      subst hki
      have := parent_lt hk
      rw [swapAt_left, hy] at hb
      cases hb
      rw [swapAt_of_ne g (by omega) (by omega)] at ha
      exact h.grand c hc hcn hci hk a y ha hy
    · by_cases hpk : parent k = i
      · rw [hpk, swapAt_left, hy] at ha
        cases ha
        by_cases hkc' : k = c
        · subst hkc'
          rw [swapAt_right, hx] at hb
          cases hb
          exact hxy
        · rw [swapAt_of_ne g hki hkc'] at hb
          exact hmax k hk hkn hpk b hb
      · have hkc' : k ≠ c := by rintro rfl; exact hpk hci
        rw [swapAt_of_ne g hki hkc'] at hb
        rw [swapAt_of_ne g hpk hkc] at ha
        exact h.edges k hk hkn hpk a b ha hb
  · intro k hk hkn hkc _ a b ha hb
    have hkc' := parent_lt hk
    rw [hci, swapAt_left, hy] at ha
    cases ha
    rw [swapAt_of_ne g (by omega) (by omega)] at hb
    exact h.edges k hk hkn (by omega) y b (by rw [hkc]; exact hy) hb

end Ftke.Heap
