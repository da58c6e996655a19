import Mathlib.Data.List.Perm.Lattice
import Mathlib.Data.List.Range

/-!
# Ftke.Reorder

An ideal reorder buffer.  Items are offered at unbounded positions in any
order and taken in the order of their positions; positions with no item are
skipped.

Its correctness is carried by the type: `accepted` is every item that was ever
kept, and a `Reorder` can only be built with `accepted` split, up to order,
into what was taken and what is still pending, all in strictly increasing
order of position.
-/

namespace Ftke

variable {α : Type*}

/-- The state of an ideal reorder buffer and its history. -/
structure Reorder (α : Type*) where
  /-- the next position to be read -/
  next : Nat
  pending : List (Nat × α)
  taken : List (Nat × α)
  accepted : List (Nat × α)
  ordered : (taken ++ pending).Pairwise fun x y => x.1 < y.1
  behind : ∀ x ∈ taken, x.1 < next
  ahead : ∀ x ∈ pending, next ≤ x.1
  split : accepted.Perm (taken ++ pending)

namespace Reorder

/-! ## Placing an item -/

/-- Insert an item by its position; an occupied position keeps its item. -/
def place (p : Nat) (a : α) : List (Nat × α) → List (Nat × α)
  | [] => [(p, a)]
  | x :: rest => if p < x.1 then (p, a) :: x :: rest
                 else if p = x.1 then x :: rest
                 else x :: place p a rest

/-- Whether some item stands at the position. -/
def occupied (l : List (Nat × α)) (p : Nat) : Prop := ∃ x ∈ l, x.1 = p

instance (l : List (Nat × α)) (p : Nat) : Decidable (occupied l p) :=
  inferInstanceAs (Decidable (∃ x ∈ l, x.1 = p))

theorem place_of_occupied {p : Nat} {a : α} :
    ∀ {l : List (Nat × α)}, l.Pairwise (fun x y => x.1 < y.1) → occupied l p → place p a l = l
  | [], _, ⟨_, hx, _⟩ => absurd hx List.not_mem_nil
  | y :: rest, hs, ⟨x, hx, hxp⟩ => by
    have hy := (List.pairwise_cons.mp hs).1
    unfold place
    rcases List.mem_cons.mp hx with rfl | hx
    · rw [if_neg (by omega), if_pos hxp.symm]
    · have hlt := hy x hx
      rw [if_neg (by omega), if_neg (by omega),
        place_of_occupied (List.Pairwise.of_cons hs) ⟨x, hx, hxp⟩]

theorem place_perm {p : Nat} {a : α} :
    ∀ {l : List (Nat × α)}, ¬ occupied l p → (place p a l).Perm (l ++ [(p, a)])
  | [], _ => List.Perm.refl _
  | x :: rest, hfree => by
    unfold place
    split
    · exact (List.perm_append_singleton (p, a) (x :: rest)).symm
    · rw [if_neg fun he => hfree ⟨x, List.mem_cons_self, he.symm⟩]
      refine (place_perm fun ⟨y, hy, hyp⟩ => hfree ⟨y, List.mem_cons_of_mem _ hy, hyp⟩).cons x

variable {l : List (Nat × α)}

theorem mem_of_mem_place {p : Nat} {a : α} {x : Nat × α} (h : x ∈ place p a l) : x ∈ l ∨ x = (p, a) := by
  induction l with
  | nil => exact Or.inr (List.mem_singleton.mp h)
  | cons y rest ih =>
    unfold place at h
    split at h
    · rcases List.mem_cons.mp h with h | h
      · exact Or.inr h
      · exact Or.inl h
    · split at h
      · exact Or.inl h
      · rcases List.mem_cons.mp h with rfl | h
        · exact Or.inl List.mem_cons_self
        · exact (ih h).imp_left (List.mem_cons_of_mem y)

theorem pairwise_place {p : Nat} {a : α}
    (h : l.Pairwise fun x y => x.1 < y.1) : (place p a l).Pairwise fun x y => x.1 < y.1 := by
  induction l with
  | nil => exact List.pairwise_singleton _ _
  | cons y rest ih =>
    have hy := (List.pairwise_cons.mp h).1
    unfold place
    split
    · next hlt =>
      refine List.pairwise_cons.mpr ⟨fun z hz => ?_, h⟩
      rcases List.mem_cons.mp hz with rfl | hz
      · exact hlt
      · exact hlt.trans (hy z hz)
    · split
      · exact h
      · refine List.pairwise_cons.mpr ⟨fun z hz => ?_, ih (List.Pairwise.of_cons h)⟩
        rcases mem_of_mem_place hz with hz | rfl
        · exact hy z hz
        · show y.1 < p
          omega

/-! ## The operations -/

/-- Nothing offered, nothing taken. -/
def empty : Reorder α where
  next := 0
  pending := []
  taken := []
  accepted := []
  ordered := List.Pairwise.nil
  behind _ hx := absurd hx List.not_mem_nil
  ahead _ hx := absurd hx List.not_mem_nil
  split := List.Perm.nil

/-- Offer an item at a position not yet read; a second item for a pending
position is a duplicate and is dropped. -/
def offer (r : Reorder α) (p : Nat) (a : α) (hp : r.next ≤ p) : Reorder α where
  next := r.next
  pending := place p a r.pending
  taken := r.taken
  accepted := if occupied r.pending p then r.accepted else r.accepted ++ [(p, a)]
  ordered := by
    have hpair := List.pairwise_append.mp r.ordered
    refine List.pairwise_append.mpr ⟨hpair.1, pairwise_place hpair.2.1, fun x hx y hy => ?_⟩
    rcases mem_of_mem_place hy with hy | rfl
    · exact hpair.2.2 x hx y hy
    · exact Nat.lt_of_lt_of_le (r.behind x hx) hp
  behind := r.behind
  ahead x hx := by
    rcases mem_of_mem_place hx with hx | rfl
    · exact r.ahead x hx
    · exact hp
  split := by
    split
    · next hocc =>
      rw [place_of_occupied (List.pairwise_append.mp r.ordered).2.1 hocc]
      exact r.split
    · next hfree =>
      have hplace := (place_perm (a := a) hfree).symm.append_left r.taken
      rw [← List.append_assoc] at hplace
      exact (r.split.append_right _).trans hplace

/-- Take the pending item of least position and read on behind it. -/
def take (r : Reorder α) : Reorder α :=
  match hr : r.pending with
  | [] => r
  | x :: rest =>
    { next := x.1 + 1
      pending := rest
      taken := r.taken ++ [x]
      accepted := r.accepted
      ordered := by
        have h := r.ordered
        rw [hr] at h
        simpa using h
      behind := fun y hy => by
        rcases List.mem_append.mp hy with hy | hy
        · have hle := r.ahead x (hr ▸ List.mem_cons_self)
          have hlt := r.behind y hy
          omega
        · rw [List.mem_singleton.mp hy]
          exact Nat.lt_succ_self _
      ahead := fun y hy => by
        have h := (List.pairwise_append.mp r.ordered).2.1
        rw [hr] at h
        exact List.rel_of_pairwise_cons h hy
      split := by
        have h := r.split
        rw [hr] at h
        simpa using h }

theorem take_of_pending {r : Reorder α} {x : Nat × α} {rest : List (Nat × α)}
    (h : r.pending = x :: rest) : r.take.next = x.1 + 1 ∧ r.take.pending = rest ∧
      r.take.taken = r.taken ++ [x] ∧ r.take.accepted = r.accepted := by
  unfold take
  split
  · next h0 => rw [h0] at h; contradiction
  · next y rest' hy =>
    rw [hy] at h
    obtain ⟨rfl, rfl⟩ := List.cons.inj h
    exact ⟨rfl, rfl, rfl, rfl⟩

/-! ## Skipped positions -/

/-- The positions read over without an item. -/
def skipped (r : Reorder α) : List Nat :=
  (List.range r.next).filter fun p => ¬ occupied r.taken p

theorem length_skipped (r : Reorder α) : r.skipped.length + r.taken.length = r.next := by
  have htaken : ((List.range r.next).filter fun p => occupied r.taken p).Perm
      (r.taken.map Prod.fst) := by
    refine (List.perm_ext_iff_of_nodup (List.nodup_range.filter _) ?_).mpr fun p => ?_
    · have h := (List.pairwise_append.mp r.ordered).1
      exact (List.pairwise_map.mpr (h.imp fun hlt => Nat.ne_of_lt hlt))
    · rw [List.mem_filter, List.mem_range, decide_eq_true_eq, List.mem_map]
      exact ⟨fun h => h.2, fun ⟨x, hx, hxp⟩ => ⟨hxp ▸ r.behind x hx, x, hx, hxp⟩⟩
  have hsplit := List.length_eq_length_filter_add (l := List.range r.next)
    fun p => decide (occupied r.taken p)
  rw [List.length_range, htaken.length_eq, List.length_map] at hsplit
  have hnot : r.skipped.length =
      ((List.range r.next).filter fun p => !decide (occupied r.taken p)).length := by
    unfold skipped
    simp only [decide_not]
  omega

/-! ## Windows -/

theorem length_le_of_window (lo : Nat) {hi : Nat}
    (h : l.Pairwise fun x y => x.1 < y.1) (hlo : ∀ x ∈ l, lo ≤ x.1) (hhi : ∀ x ∈ l, x.1 < hi) :
    l.length ≤ hi - lo := by
  induction l generalizing lo with
  | nil => exact Nat.zero_le _
  | cons x rest ih =>
    have hx := (List.pairwise_cons.mp h).1
    have hrest := ih (x.1 + 1) (List.Pairwise.of_cons h) hx
      fun y hy => hhi y (List.mem_cons_of_mem x hy)
    have hxlo := hlo x List.mem_cons_self
    have hxhi := hhi x List.mem_cons_self
    rw [List.length_cons]
    omega

end Reorder

end Ftke
