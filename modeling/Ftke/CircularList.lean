import Mathlib.Data.List.Chain
import Mathlib.Data.List.Nodup
import Mathlib.Logic.Function.Basic

/-!
# Ftke.CircularList

A singly linked list that is closed to a ring: what is kept is the entry put in
last, and its successor is the first.  Entries are found by their address.

`Cells` are the pointers, and what an operation does with them.  A `CircularList`
comes with the addresses of its entries from first to last, which are there for the
proofs only, and `toList` is what it holds.
-/

namespace Ftke

variable {α : Type*}

/-! ## Pointers -/

/-- Entries by their address, with their successors, and the one put in last. -/
structure Cells (α : Type*) where
  data : Nat → Option α
  next : Nat → Nat
  last : Option Nat

namespace Cells

/-- An entry is put behind the last one, and linked to the first. -/
def append (c : Cells α) (entry : Nat) (x : α) : Cells α :=
  let first := c.last.elim entry c.next
  let next := c.last.elim c.next fun last => Function.update c.next last entry
  { data := Function.update c.data entry (some x)
    next := Function.update next entry first
    last := some entry }

/-- The first entry is taken out, and its memory given back. -/
def removeFirst (c : Cells α) (last : Nat) : Cells α :=
  let first := c.next last
  { data := Function.update c.data first none
    next := if first = last then c.next else Function.update c.next last (c.next first)
    last := if first = last then none else some last }

/-- The entries of a ring are these, from first to last. -/
structure Holds (c : Cells α) (entries : List Nat) : Prop where
  nodup : entries.Nodup
  filled : ∀ a, (c.data a).isSome ↔ a ∈ entries
  linked : entries.IsChain fun a b => c.next a = b
  last_eq : c.last = entries.getLast?
  closed : ∀ a ∈ c.last, entries.head? = some (c.next a)

variable {entries : List Nat}

theorem isChain_update {next : Nat → Nat} {a : Nat} (b : Nat)
    (h : entries.IsChain fun a b => next a = b) (ha : a ∉ entries.dropLast) :
    entries.IsChain fun x y => Function.update next a b x = y := by
  induction entries with
  | nil => exact .nil
  | cons x entries ih =>
    cases entries with
    | nil => exact .singleton x
    | cons y entries =>
      rw [List.isChain_cons_cons] at h ⊢
      rw [List.dropLast_cons_cons, List.mem_cons, not_or] at ha
      exact ⟨by rw [Function.update_of_ne (Ne.symm ha.1)]; exact h.1, ih h.2 ha.2⟩

theorem last_not_mem_dropLast {last : Nat} (hnodup : entries.Nodup)
    (hlast : entries.getLast? = some last) : last ∉ entries.dropLast := by
  obtain ⟨before, rfl⟩ := List.getLast?_eq_some_iff.mp hlast
  rw [List.dropLast_concat]
  rw [List.nodup_append] at hnodup
  intro hmem
  exact hnodup.2.2 last hmem last (List.mem_singleton_self _) rfl

theorem holds_append {c : Cells α} {entry : Nat} (h : c.Holds entries)
    (hentry : entry ∉ entries) (x : α) : (c.append entry x).Holds (entries ++ [entry]) where
  nodup := by
    rw [List.nodup_append]
    refine ⟨h.nodup, List.nodup_singleton _, fun a ha b hb heq => hentry ?_⟩
    rw [List.mem_singleton] at hb
    rw [← hb, ← heq]
    exact ha
  filled a := by
    simp only [append]
    by_cases ha : a = entry
    · simp [ha]
    · rw [Function.update_of_ne ha, h.filled]
      simp [ha]
  linked := by
    have hother : entry ∉ entries.dropLast := fun hmem => hentry (List.dropLast_subset entries hmem)
    rw [List.isChain_append]
    simp only [append]
    cases hlast : c.last with
    | none =>
      have hnil := hlast
      rw [h.last_eq, List.getLast?_eq_none_iff] at hnil
      rw [hnil]
      exact ⟨.nil, .singleton _, by simp⟩
    | some last =>
      have hget := h.last_eq.symm.trans hlast
      have hne : last ≠ entry := by
        rintro rfl
        exact hentry (List.mem_of_getLast? hget)
      refine ⟨?_, .singleton _, ?_⟩
      · exact isChain_update _ (isChain_update _ h.linked (last_not_mem_dropLast h.nodup hget)) hother
      · intro a ha b hb
        rw [hget, Option.mem_some] at ha
        rw [List.head?_cons, Option.mem_some] at hb
        rw [← ha, ← hb, Function.update_of_ne hne, Option.elim_some, Function.update_self]
  last_eq := by rw [List.getLast?_append]; rfl
  closed a ha := by
    simp only [append, Option.mem_def, Option.some.injEq] at ha
    simp only [append, ← ha, Function.update_self]
    cases hlast : c.last with
    | none =>
      have hnil := hlast
      rw [h.last_eq, List.getLast?_eq_none_iff] at hnil
      rw [hnil]
      rfl
    | some last => rw [List.head?_append, h.closed last hlast]; rfl

theorem holds_removeFirst {c : Cells α} {last : Nat} (h : c.Holds entries)
    (hlast : c.last = some last) : (c.removeFirst last).Holds entries.tail := by
  have hget := h.last_eq.symm.trans hlast
  obtain ⟨first, entries, rfl⟩ := List.exists_cons_of_ne_nil (l := entries) (by rintro rfl; simp at hget)
  have hfirst : c.next last = first := by
    have hhead := h.closed last hlast
    rw [List.head?_cons] at hhead
    exact (Option.some.inj hhead).symm
  have hnodup := List.nodup_cons.mp h.nodup
  have hfilled : ∀ a, (Function.update c.data first none a).isSome ↔ a ∈ entries := by
    intro a
    by_cases ha : a = first
    · simp [ha, hnodup.1]
    · rw [Function.update_of_ne ha, h.filled]
      simp [ha]
  rw [List.tail_cons]
  cases entries with
  | nil =>
    have heq : first = last := by simpa using hget
    simp only [removeFirst, hfirst, if_pos heq]
    exact ⟨hnodup.2, hfilled, .nil, rfl, by simp⟩
  | cons second entries =>
    have hget' : (second :: entries).getLast? = some last := by
      rw [List.getLast?_cons_cons] at hget
      exact hget
    have hne : first ≠ last := by
      rintro rfl
      exact hnodup.1 (List.mem_of_getLast? hget')
    have hlinked := List.isChain_cons_cons.mp h.linked
    simp only [removeFirst, hfirst, if_neg hne]
    refine ⟨hnodup.2, hfilled, ?_, hget'.symm, ?_⟩
    · exact isChain_update _ hlinked.2 (last_not_mem_dropLast hnodup.2 hget')
    · intro a ha
      rw [Option.mem_some] at ha
      simp only [← ha, Function.update_self, hlinked.1, List.head?_cons]

end Cells

/-! ## Rings -/

/-- A ring with its entries. -/
structure CircularList (α : Type*) where
  cells : Cells α
  entries : List Nat
  holds : cells.Holds entries

namespace CircularList

/-- Nothing in it. -/
def empty : CircularList α := ⟨⟨fun _ => none, id, none⟩, [], List.nodup_nil, by simp, .nil, rfl, by simp⟩

/-- What is in it, first to last. -/
def toList (c : CircularList α) : List α := c.entries.filterMap c.cells.data

/-- An address that no entry has. -/
def fresh (c : CircularList α) : Nat := c.entries.foldr (fun a m => max (a + 1) m) 0

theorem lt_foldr_max {entries : List Nat} {a : Nat} (h : a ∈ entries) :
    a < entries.foldr (fun a m => max (a + 1) m) 0 := by
  induction entries with
  | nil => simp at h
  | cons b entries ih =>
    rw [List.foldr_cons]
    obtain rfl | h := List.mem_cons.mp h
    · omega
    · have hlt := ih h
      omega

theorem fresh_not_mem (c : CircularList α) : c.fresh ∉ c.entries :=
  fun h => Nat.lt_irrefl _ (lt_foldr_max h)

/-- An entry is allocated and put in. -/
def append (c : CircularList α) (x : α) : CircularList α :=
  ⟨c.cells.append c.fresh x, c.entries ++ [c.fresh], Cells.holds_append c.holds c.fresh_not_mem x⟩

/-- The ring without its first entry. -/
def removeFirst (c : CircularList α) (last : Nat) (h : c.cells.last = some last) : CircularList α :=
  ⟨c.cells.removeFirst last, c.entries.tail, Cells.holds_removeFirst c.holds h⟩

/-- The first entry, and the ring without it. -/
def takeFirst (c : CircularList α) : Option (α × CircularList α) :=
  match hlast : c.cells.last with
  | some last => (c.cells.data (c.cells.next last)).map fun x => (x, c.removeFirst last hlast)
  | none => none

@[simp] theorem toList_empty : (empty : CircularList α).toList = [] := rfl

@[simp] theorem toList_append (c : CircularList α) (x : α) : (c.append x).toList = c.toList ++ [x] := by
  have hkept : c.entries.filterMap (Function.update c.cells.data c.fresh (some x)) =
      c.entries.filterMap c.cells.data := by
    refine List.filterMap_congr fun a ha => ?_
    rw [Function.update_of_ne]
    rintro rfl
    exact c.fresh_not_mem ha
  simp only [toList, append, Cells.append]
  rw [List.filterMap_append, hkept]
  simp

theorem toList_removeFirst (c : CircularList α) {last : Nat} (hlast : c.cells.last = some last) :
    ∃ x, c.cells.data (c.cells.next last) = some x ∧ c.toList = x :: (c.removeFirst last hlast).toList := by
  obtain ⟨entries, hentries⟩ := List.head?_eq_some_iff.mp (c.holds.closed last hlast)
  have hmem : c.cells.next last ∈ c.entries := by rw [hentries]; exact List.mem_cons_self
  obtain ⟨x, hx⟩ := Option.isSome_iff_exists.mp ((c.holds.filled _).mpr hmem)
  have hnodup := c.holds.nodup
  rw [hentries, List.nodup_cons] at hnodup
  have hkept : entries.filterMap (Function.update c.cells.data (c.cells.next last) none) =
      entries.filterMap c.cells.data := by
    refine List.filterMap_congr fun a ha => ?_
    rw [Function.update_of_ne]
    rintro rfl
    exact hnodup.1 ha
  refine ⟨x, hx, ?_⟩
  simp only [toList, removeFirst, Cells.removeFirst]
  rw [hentries, List.tail_cons, hkept, List.filterMap_cons_some hx]

theorem takeFirst_eq_some {c c' : CircularList α} {x : α} (h : c.takeFirst = some (x, c')) :
    c.toList = x :: c'.toList := by
  rw [takeFirst] at h
  split at h
  · next last hlast =>
    obtain ⟨y, hy, htoList⟩ := c.toList_removeFirst hlast
    rw [hy, Option.map_some, Option.some.injEq, Prod.mk.injEq] at h
    rw [htoList, h.1, h.2]
  · simp at h

end CircularList

end Ftke
