import Mathlib.Data.List.Basic
import Mathlib.Data.List.Nodup
import Mathlib.Logic.Function.Basic

/-!
# Ftke.SingleList

Singly linked lists through links kept beside the nodes: `next` names the node that
follows.

`Segment next p l q` says that the links lead from `p` through the nodes `l` to `q`.

* `Segment.append` — two segments in a row;
* `Segment.redirect` — the last link of a segment leads elsewhere;
* `nodes` — the nodes that the links lead through;
* `find` — the loop that looks for a node, and the one before it.
-/

namespace Ftke.SingleList

variable {ι : Type*} {next : ι → Option ι} {p q r : Option ι} {l l₁ l₂ : List ι} {a b : ι}

/-! ## Segments -/

/-- The links lead from `p` through `l` to `q`. -/
def Segment (next : ι → Option ι) : Option ι → List ι → Option ι → Prop
  | p, [], q => p = q
  | p, a :: l, q => p = some a ∧ Segment next (next a) l q

theorem segment_append : Segment next p (l₁ ++ l₂) r ↔ ∃ q, Segment next p l₁ q ∧ Segment next q l₂ r := by
  induction l₁ generalizing p with
  | nil => simp [Segment]
  | cons a l₁ ih => simp only [List.cons_append, Segment, ih]; grind

theorem segment_singleton : Segment next p [a] q ↔ p = some a ∧ next a = q := Iff.rfl

theorem Segment.congr {next' : ι → Option ι} (h : Segment next p l q) (hnext : ∀ a ∈ l, next' a = next a) :
    Segment next' p l q := by
  induction l generalizing p with
  | nil => exact h
  | cons a l ih =>
    obtain ⟨hp, hrest⟩ := h
    have ha : next' a = next a := hnext a (by simp)
    exact ⟨hp, ha ▸ ih hrest fun b hb => hnext b (by simp [hb])⟩

theorem Segment.head? (h : Segment next p l none) : p = l.head? := by
  cases l with
  | nil => exact h
  | cons a l => exact h.1

section update

variable [DecidableEq ι]

theorem Segment.update (h : Segment next p l q) (ha : a ∉ l) : Segment (Function.update next a r) p l q :=
  h.congr fun b hb => by
    have hne : b ≠ a := ne_of_mem_of_not_mem hb ha
    rw [Function.update_of_ne hne]

/-- **The last link of a segment leads elsewhere.** -/
theorem Segment.redirect (h : Segment next p (l ++ [b]) q) (hb : b ∉ l) :
    Segment (Function.update next b r) p (l ++ [b]) r := by
  obtain ⟨s, hl, hs⟩ := segment_append.mp h
  exact segment_append.mpr ⟨s, hl.update hb, segment_singleton.mpr ⟨hs.1, Function.update_self ..⟩⟩

theorem Segment.unlink (h : Segment next p (l₁ ++ [b] ++ a :: l₂) none) (hnodup : (l₁ ++ [b] ++ a :: l₂).Nodup) :
    Segment (Function.update next b (next a)) p (l₁ ++ [b] ++ l₂) none := by
  obtain ⟨s, hfront, -, hback⟩ := segment_append.mp h
  have hb₁ : b ∉ l₁ := by grind
  have hb₂ : b ∉ l₂ := by grind
  exact segment_append.mpr ⟨next a, hfront.redirect hb₁, hback.update hb₂⟩

theorem Segment.concat (h : Segment next p (l ++ [b]) none) (hnodup : (l ++ [b] ++ [a]).Nodup) :
    Segment (Function.update (Function.update next b (some a)) a none) p (l ++ [b] ++ [a]) none := by
  have hb : b ∉ l := by grind
  have ha : a ∉ l ++ [b] := by grind
  exact segment_append.mpr ⟨some a, (h.redirect hb).update ha, rfl, Function.update_self ..⟩

theorem Segment.cons (h : Segment next p l none) (ha : a ∉ l) :
    Segment (Function.update next a p) (some a) (a :: l) none := by
  refine ⟨rfl, ?_⟩
  rw [Function.update_self]
  exact h.update ha

end update

/-! ## The nodes -/

/-- The nodes that the links lead through from `p`, no more than `n`. -/
def nodes (next : ι → Option ι) : Nat → Option ι → List ι
  | _, none => []
  | 0, some _ => []
  | n + 1, some a => a :: nodes next n (next a)

theorem nodes_eq (h : Segment next p l none) : nodes next l.length p = l := by
  induction l generalizing p with
  | nil => rw [show p = none from h, nodes]
  | cons a l ih => rw [h.1, List.length_cons, nodes, ih h.2]

/-! ## Looking for a node -/

/-- The loop that looks for a node, for no more turns than these: the node found and the one
before it. -/
def find (next : ι → Option ι) (test : ι → Bool) : Nat → Option ι → Option ι → Option (Option (Option ι × ι))
  | _, _, none => some none
  | 0, _, some _ => none
  | turns + 1, prev, some tmp =>
    if test tmp then some (some (prev, tmp)) else find next test turns (some tmp) (next tmp)

theorem find_eq (test : ι → Bool) (h : Segment next p l none) (prev : Option ι) :
    (l.find? test = none ∧ find next test l.length prev p = some none) ∨
      ∃ l₁ a l₂, l = l₁ ++ a :: l₂ ∧ l.find? test = some a ∧
        find next test l.length prev p = some (some (l₁.getLast?.or prev, a)) := by
  induction l generalizing p prev with
  | nil => exact Or.inl ⟨rfl, by rw [show p = none from h, find]⟩
  | cons a l ih =>
    rw [h.1, List.length_cons, find]
    cases ha : test a with
    | true => exact Or.inr ⟨[], a, l, rfl, by simp [ha], by simp⟩
    | false =>
      simp only [Bool.false_eq_true, if_false]
      rcases ih h.2 (some a) with ⟨hnone, hfind⟩ | ⟨l₁, b, l₂, hl, hsome, hfind⟩
      · exact Or.inl ⟨by simp [ha, hnone], hfind⟩
      · refine Or.inr ⟨a :: l₁, b, l₂, by rw [hl, List.cons_append], by simp [ha, hsome], ?_⟩
        rw [hfind, List.getLast?_cons]
        cases l₁.getLast? <;> rfl

/-- The loop that goes to a position: the node there and the one before it, and what was left
to go where the list ends. -/
def skip (next : ι → Option ι) : Nat → Option ι → Option ι → Option ι × Option ι × Nat
  | n, prev, none => (prev, none, n)
  | 0, prev, some tmp => (prev, some tmp, 0)
  | n + 1, _, some tmp => skip next n (some tmp) (next tmp)

theorem skip_eq (h : Segment next p (l₁ ++ a :: l₂) none) (prev : Option ι) :
    skip next l₁.length prev p = (l₁.getLast?.or prev, some a, 0) := by
  induction l₁ generalizing p prev with
  | nil => rw [h.1, List.length_nil, skip]; rfl
  | cons b l₁ ih =>
    rw [h.1, List.length_cons, skip, ih h.2, List.getLast?_cons]
    cases l₁.getLast? <;> rfl

end Ftke.SingleList
