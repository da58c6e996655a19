import Mathlib.Algebra.Ring.Nat
import Mathlib.Algebra.BigOperators.Group.List.Basic
import Mathlib.Data.List.Pairwise
import Mathlib.Data.List.Sort

/-!
# Ftke.Tiling

Ranges of addresses that fill a range without overlap.

`Packed a b l` is stated without an order on the ranges, so that it is kept by
permutations (`Packed.perm`); the rules are about the ranges at the head of the list:
cut one in two, join two neighbours, drop or add an empty one.  `Packed.tiles` puts
the ranges in order: each starts where the one before ends.
-/

namespace Ftke

/-- A range of `len` addresses from `ptr`. -/
structure Chunk where
  ptr : Nat
  len : Nat
  deriving DecidableEq

namespace Chunk

/-- The address behind the range. -/
def fin (c : Chunk) : Nat := c.ptr + c.len

/-- No common address. -/
def Disjoint (c d : Chunk) : Prop := c.fin ≤ d.ptr ∨ d.fin ≤ c.ptr

/-- Neither starts where the other ends. -/
def Apart (c d : Chunk) : Prop := c.fin ≠ d.ptr ∧ d.fin ≠ c.ptr

theorem Disjoint.symm {c d : Chunk} (h : Disjoint c d) : Disjoint d c := Or.symm h

instance : Std.Symm Disjoint := ⟨fun _ _ => Disjoint.symm⟩

theorem Apart.symm {c d : Chunk} (h : Apart c d) : Apart d c := And.symm h

instance : Std.Symm Apart := ⟨fun _ _ => Apart.symm⟩

end Chunk

/-- The ranges follow one another from `a` to `b`. -/
def Tiles (a : Nat) : List Chunk → Nat → Prop
  | [], b => a = b
  | c :: l, b => c.ptr = a ∧ Tiles c.fin l b

theorem Tiles.concat : ∀ {a b : Nat} {l : List Chunk} {c : Chunk}, Tiles a l b → c.ptr = b → Tiles a (l ++ [c]) c.fin
  | _, _, [], _, h, hc => ⟨hc.trans (Eq.symm h), rfl⟩
  | _, _, _ :: _, _, ⟨hptr, hrest⟩, hc => ⟨hptr, hrest.concat hc⟩

theorem Tiles.of_concat : ∀ {a b : Nat} {l : List Chunk} {c : Chunk}, Tiles a (l ++ [c]) b →
    Tiles a l c.ptr ∧ c.fin = b
  | _, _, [], _, ⟨hptr, hfin⟩ => ⟨hptr.symm, hfin⟩
  | _, _, _ :: _, _, ⟨hptr, hrest⟩ => ⟨⟨hptr, hrest.of_concat.1⟩, hrest.of_concat.2⟩

/-- The ranges are disjoint parts of the range from `a` to `b`, and as long as this
together. -/
structure Packed (a b : Nat) (l : List Chunk) : Prop where
  disjoint : l.Pairwise Chunk.Disjoint
  within : ∀ c ∈ l, a ≤ c.ptr ∧ c.fin ≤ b
  total : a + (l.map Chunk.len).sum = b

namespace Packed

variable {a b : Nat} {c d : Chunk} {l m : List Chunk}

theorem perm (h : Packed a b l) (hp : l.Perm m) : Packed a b m where
  disjoint := (hp.pairwise_iff fun hcd => hcd.symm).mp h.disjoint
  within c hc := h.within c (hp.mem_iff.mpr hc)
  total := by
    rw [← (hp.map Chunk.len).sum_eq]
    exact h.total

theorem single (a n : Nat) : Packed a (a + n) [⟨a, n⟩] where
  disjoint := List.pairwise_singleton _ _
  within c hc := by
    rw [List.mem_singleton.mp hc]
    exact ⟨Nat.le_refl a, Nat.le_refl _⟩
  total := by simp

theorem cons_front (h : Packed c.fin b l) : Packed c.ptr b (c :: l) where
  disjoint := List.pairwise_cons.mpr ⟨fun d hd => .inl (h.within d hd).1, h.disjoint⟩
  within d hd := by
    have htotal := h.total
    simp only [Chunk.fin] at htotal ⊢
    rcases List.mem_cons.mp hd with rfl | hd
    · omega
    · have hin := h.within d hd
      simp only [Chunk.fin] at hin
      omega
  total := by
    rw [List.map_cons, List.sum_cons, ← Nat.add_assoc]
    exact h.total

theorem of_tiles : ∀ {a : Nat} {l : List Chunk}, Tiles a l b → Packed a b l
  | _, [], h => ⟨List.Pairwise.nil, fun _ hc => absurd hc List.not_mem_nil, h⟩
  | _, _ :: _, ⟨hptr, hrest⟩ => hptr ▸ (of_tiles hrest).cons_front

theorem cut (h : Packed a b (c :: l)) {n : Nat} (hn : n ≤ c.len) :
    Packed a b (⟨c.ptr, n⟩ :: ⟨c.ptr + n, c.len - n⟩ :: l) := by
  obtain ⟨hhead, htail⟩ := List.pairwise_cons.mp h.disjoint
  have hc := h.within c List.mem_cons_self
  have htotal := h.total
  rw [List.map_cons, List.sum_cons] at htotal
  constructor
  · refine List.pairwise_cons.mpr ⟨fun d hd => ?_, List.pairwise_cons.mpr ⟨fun d hd => ?_, htail⟩⟩
    · rcases List.mem_cons.mp hd with rfl | hd
      · exact .inl (Nat.le_refl _)
      · have hcd := hhead d hd
        simp only [Chunk.Disjoint, Chunk.fin] at hcd ⊢
        omega
    · have hcd := hhead d hd
      simp only [Chunk.Disjoint, Chunk.fin] at hcd ⊢
      omega
  · simp only [Chunk.fin] at hc
    intro d hd
    rcases List.mem_cons.mp hd with rfl | hd
    · simp only [Chunk.fin]
      omega
    · rcases List.mem_cons.mp hd with rfl | hd
      · simp only [Chunk.fin]
        omega
      · exact h.within d (List.mem_cons_of_mem _ hd)
  · simp only [List.map_cons, List.sum_cons]
    omega

theorem join (h : Packed a b (c :: d :: l)) (hcd : c.fin = d.ptr)
    (hempty : ∀ e ∈ l, e.len = 0 → e.ptr ≠ c.fin) :
    Packed a b (⟨c.ptr, c.len + d.len⟩ :: l) := by
  obtain ⟨hc, hrest⟩ := List.pairwise_cons.mp h.disjoint
  obtain ⟨hd, htail⟩ := List.pairwise_cons.mp hrest
  have hcin := h.within c List.mem_cons_self
  have hdin := h.within d (List.mem_cons_of_mem _ List.mem_cons_self)
  have htotal := h.total
  simp only [List.map_cons, List.sum_cons] at htotal
  simp only [Chunk.fin] at hcd hcin hdin
  constructor
  · refine List.pairwise_cons.mpr ⟨fun e he => ?_, htail⟩
    have hce := hc e (List.mem_cons_of_mem _ he)
    have hde := hd e he
    have hbetween := hempty e he
    simp only [Chunk.Disjoint, Chunk.fin] at hce hde hbetween ⊢
    omega
  · intro e he
    rcases List.mem_cons.mp he with rfl | he
    · simp only [Chunk.fin]
      omega
    · exact h.within e (List.mem_cons_of_mem _ (List.mem_cons_of_mem _ he))
  · simp only [List.map_cons, List.sum_cons]
    omega

theorem joinAll {e : Nat} : ∀ {m : List Chunk} {c : Chunk}, Packed a b (c :: m ++ l) → Tiles c.fin m e →
    (∀ d ∈ m ++ l, 0 < d.len) → Packed a b (⟨c.ptr, c.len + (m.map Chunk.len).sum⟩ :: l)
  | [], c, h, _, _ => h
  | d :: m, c, h, ⟨hcd, htiles⟩, hpos => by
    have hjoined := h.join hcd.symm fun x hx hempty => absurd hempty (hpos x (List.mem_cons_of_mem d hx)).ne'
    have hfin : (⟨c.ptr, c.len + d.len⟩ : Chunk).fin = d.fin := by
      simp only [Chunk.fin] at hcd ⊢
      omega
    have hall := joinAll hjoined (hfin ▸ htiles) fun x hx => hpos x (List.mem_cons_of_mem d hx)
    rwa [Nat.add_assoc] at hall

theorem drop_empty (h : Packed a b (c :: l)) (hc : c.len = 0) : Packed a b l where
  disjoint := (List.pairwise_cons.mp h.disjoint).2
  within d hd := h.within d (List.mem_cons_of_mem _ hd)
  total := by
    have htotal := h.total
    rwa [List.map_cons, List.sum_cons, hc, Nat.zero_add] at htotal

theorem add_empty (h : Packed a b l) (hc : c ∈ l) : Packed a b (⟨c.fin, 0⟩ :: l) := by
  have hin := h.within c hc
  constructor
  · refine List.pairwise_cons.mpr ⟨fun d hd => ?_, h.disjoint⟩
    by_cases hcd : d = c
    · rw [hcd]
      exact .inr (Nat.le_refl _)
    · have hdis := h.disjoint.forall hd hc hcd
      simp only [Chunk.Disjoint, Chunk.fin] at hdis ⊢
      omega
  · intro d hd
    rcases List.mem_cons.mp hd with rfl | hd
    · simp only [Chunk.fin] at hin ⊢
      omega
    · exact h.within d hd
  · simpa using h.total

theorem tiles_of_sorted : ∀ {a : Nat} {l : List Chunk}, Packed a b l →
    l.Pairwise (fun c d => c.fin ≤ d.ptr) → Tiles a l b
  | _, [], h, _ => h.total
  | a, c :: l, h, hsorted => by
    obtain ⟨hhead, htail⟩ := List.pairwise_cons.mp hsorted
    have hc := h.within c List.mem_cons_self
    have htotal := h.total
    have hrest : ∀ {x : Nat} {m : List Chunk}, x ≤ b → m.Pairwise (fun c d => c.fin ≤ d.ptr) →
        (∀ d ∈ m, x ≤ d.ptr ∧ d.fin ≤ b) → x + (m.map Chunk.len).sum ≤ b := by
      intro x m
      induction m generalizing x with
      | nil => simp
      | cons d m ih =>
        intro hx hm hin
        obtain ⟨hd, hm⟩ := List.pairwise_cons.mp hm
        have hdin := hin d List.mem_cons_self
        have htail := ih hdin.2 hm fun e he => ⟨hd e he, (hin e (List.mem_cons_of_mem _ he)).2⟩
        simp only [Chunk.fin] at htail
        rw [List.map_cons, List.sum_cons]
        omega
    have hsum := hrest hc.2 htail fun d hd => ⟨hhead d hd, (h.within d (List.mem_cons_of_mem _ hd)).2⟩
    rw [List.map_cons, List.sum_cons] at htotal
    simp only [Chunk.fin] at hsum hc
    refine ⟨by omega, tiles_of_sorted ⟨(List.pairwise_cons.mp h.disjoint).2, fun d hd => ?_, ?_⟩ htail⟩
    · exact ⟨hhead d hd, (h.within d (List.mem_cons_of_mem _ hd)).2⟩
    · simp only [Chunk.fin]
      omega

/-- Twice the middle of a range: disjoint ranges are in its order. -/
def middle (c : Chunk) : Nat := 2 * c.ptr + c.len

/-- **Packed ranges tile**: in some order each starts where the one before ends. -/
theorem tiles (h : Packed a b l) : ∃ m, m.Perm l ∧ Tiles a m b := by
  have hperm := List.perm_insertionSort (fun c d => middle c ≤ middle d) l
  have hpacked := h.perm hperm.symm
  have hsorted : (l.insertionSort fun c d => middle c ≤ middle d).Pairwise
      (fun c d => middle c ≤ middle d) := List.pairwise_insertionSort _ l
  refine ⟨_, hperm, tiles_of_sorted hpacked ?_⟩
  refine (hsorted.and hpacked.disjoint).imp fun hand => ?_
  obtain ⟨hle, hdis⟩ := hand
  simp only [middle, Chunk.Disjoint, Chunk.fin] at hle hdis ⊢
  omega

theorem eq_single (h : Packed a b l) (hapart : l.Pairwise Chunk.Apart) (hne : l ≠ []) : l = [⟨a, b - a⟩] := by
  obtain ⟨m, hperm, htiles⟩ := h.tiles
  have hm := (hperm.pairwise_iff fun hcd => hcd.symm).mpr hapart
  match m, hperm, htiles, hm with
  | [], hperm, _, _ => exact absurd (List.nil_perm.mp hperm) hne
  | [c], hperm, htiles, _ =>
    obtain ⟨hptr, hfin⟩ := htiles
    have hfin : c.ptr + c.len = b := hfin
    have hc : c = ⟨a, b - a⟩ := by
      rw [← hptr, ← hfin, Nat.add_sub_cancel_left]
    rw [List.perm_singleton.mp hperm.symm, hc]
  | c :: d :: m, _, htiles, hm =>
    have hcd := (List.pairwise_cons.mp hm).1 d List.mem_cons_self
    exact absurd htiles.2.1.symm hcd.1

end Packed

end Ftke
