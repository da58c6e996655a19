import Mathlib.Data.List.Basic
import Mathlib.Data.List.Induction
import Mathlib.Data.List.Infix
import Mathlib.Data.List.Nodup

/-!
# Ftke.DoubleList

Doubly linked lists through links kept beside the nodes: `next` and `prev` name
the neighbours of a node, `first` and `last` the ends.

`IsList next prev first last l` says that the links are those of the nodes `l`
in this order.

* `Segment.replace` — other nodes take the place of some in the middle;
* `IsList.cons` — a node is linked in at the front;
* `IsList.toFront` — a node is unlinked and linked in at the front.
-/

namespace Ftke.DoubleList

variable {ι : Type*}

/-! ## Segments -/

/-- The links of the nodes `l`, between a node before and one after. -/
def Segment (next prev : ι → Option ι) : Option ι → List ι → Option ι → Prop
  | _, [], _ => True
  | before, a :: rest, after => prev a = before ∧ next a = rest.head?.or after ∧ Segment next prev (some a) rest after

variable {next prev next' prev' : ι → Option ι} {before before' after after' : Option ι} {l : List ι}

theorem segment_append : ∀ {l₁ : List ι} {before : Option ι} {l₂ : List ι},
    Segment next prev before (l₁ ++ l₂) after ↔
      Segment next prev before l₁ (l₂.head?.or after) ∧ Segment next prev (l₁.getLast?.or before) l₂ after
  | [], before, l₂ => by simp [Segment]
  | a :: l₁, before, l₂ => by
    have hlast : (a :: l₁).getLast?.or before = l₁.getLast?.or (some a) := by
      cases l₁ using List.reverseRecOn with
      | nil => rfl
      | append_singleton front b => simp [List.getLast?_cons]
    rw [List.cons_append, Segment, Segment, segment_append, hlast, List.head?_append, Option.or_assoc]
    simp only [and_assoc]

theorem Segment.next_last (h : Segment next prev before l after) {a : ι} (ha : l.getLast? = some a) :
    next a = after := by
  obtain ⟨front, rfl⟩ := List.getLast?_eq_some_iff.mp ha
  have hlast := (segment_append.mp h).2
  simpa [Segment] using hlast.2.1

theorem Segment.change : ∀ {l : List ι} {before before' : Option ι}, Segment next prev before l after →
    (∀ a, l.head? = some a → prev' a = before') → (∀ a ∈ l.tail, prev' a = prev a) →
      (∀ a, l.getLast? = some a → next' a = after') → (∀ a ∈ l.dropLast, next' a = next a) →
        Segment next' prev' before' l after'
  | [], _, _, _, _, _, _, _ => trivial
  | [a], _, _, _, hhead, _, hlast, _ => ⟨hhead a rfl, by simpa using hlast a rfl, trivial⟩
  | a :: b :: rest, _, _, h, hhead, htail, hlast, hfront => by
    obtain ⟨-, hnext, hrest⟩ := h
    have hb : prev' b = some a := (htail b (by simp)).trans hrest.1
    have hlast' : ∀ c, (b :: rest).getLast? = some c → next' c = after' := fun c hc => hlast c (by simpa using hc)
    refine ⟨hhead a rfl, ?_, hrest.change (fun c hc => ?_) (fun c hc => htail c (by simp_all)) hlast'
      fun c hc => hfront c (by simp_all)⟩
    · rw [hfront a (by simp), hnext]
      rfl
    · rw [← Option.some.inj hc]
      exact hb

theorem head?_ne_of_mem_tail (h : l.Nodup) {b : ι} (hb : b ∈ l.tail) : l.head? ≠ some b := by
  cases l with
  | nil => simp
  | cons c l =>
    have hc := (List.nodup_cons.mp h).1
    intro heq
    exact hc (Option.some.inj heq ▸ hb)

theorem Segment.prev_first (h : Segment next prev before l after) {a : ι} (ha : l.head? = some a) :
    prev a = before := by
  obtain ⟨rest, rfl⟩ := List.head?_eq_some_iff.mp ha
  exact h.1

/-- **Other nodes in the middle**: the nodes `m` between `l₁` and `l₂` give way to `m'`. -/
theorem Segment.replace {l₁ m l₂ : List ι} (next' prev' : ι → Option ι) (m' : List ι)
    (h : Segment next prev none (l₁ ++ m ++ l₂) none)
    (hprev₁ : ∀ a ∈ l₁, prev' a = prev a) (hnext₁ : ∀ a ∈ l₁.dropLast, next' a = next a)
    (hprev₂ : ∀ a ∈ l₂.tail, prev' a = prev a) (hnext₂ : ∀ a ∈ l₂, next' a = next a)
    (hlast : ∀ a, l₁.getLast? = some a → next' a = (m' ++ l₂).head?)
    (hhead : ∀ a, l₂.head? = some a → prev' a = (l₁ ++ m').getLast?)
    (hm : Segment next' prev' l₁.getLast? m' l₂.head?) : Segment next' prev' none (l₁ ++ m' ++ l₂) none := by
  obtain ⟨hfront, hback⟩ := segment_append.mp h
  obtain ⟨hfirst, -⟩ := segment_append.mp hfront
  refine segment_append.mpr ⟨segment_append.mpr ⟨?_, ?_⟩, ?_⟩
  · refine hfirst.change (fun a ha => ?_) (fun a ha => hprev₁ a (List.mem_of_mem_tail ha)) (fun a ha => ?_) hnext₁
    · rw [hprev₁ a (List.mem_of_head? ha)]
      exact hfirst.prev_first ha
    · rw [hlast a ha, Option.or_none, List.head?_append]
  · rw [Option.or_none, Option.or_none]
    exact hm
  · refine hback.change (fun a ha => ?_) hprev₂ (fun a ha => ?_) fun a ha => hnext₂ a (List.mem_of_mem_dropLast ha)
    · rw [hhead a ha, Option.or_none]
    · rw [hnext₂ a (List.mem_of_getLast? ha)]
      exact hback.next_last ha

theorem getLast?_ne_of_mem_dropLast (h : l.Nodup) {b : ι} (hb : b ∈ l.dropLast) : l.getLast? ≠ some b := by
  cases l using List.reverseRecOn with
  | nil => simp
  | append_singleton front c =>
    rw [List.dropLast_concat] at hb
    have hdisjoint := (List.nodup_append.mp h).2.2 b hb c List.mem_cons_self
    simpa using Ne.symm hdisjoint

theorem Segment.congr (h : Segment next prev before l after) (hnext : ∀ a ∈ l, next' a = next a)
    (hprev : ∀ a ∈ l, prev' a = prev a) : Segment next' prev' before l after := by
  refine h.change (fun a ha => ?_) (fun a ha => hprev a (List.mem_of_mem_tail ha)) (fun a ha => ?_)
    fun a ha => hnext a (List.mem_of_mem_dropLast ha)
  · rw [hprev a (List.mem_of_head? ha)]
    exact h.prev_first ha
  · rw [hnext a (List.mem_of_getLast? ha)]
    exact h.next_last ha

/-! ## Lists -/

/-- The links are those of the nodes `l`. -/
structure IsList (next prev : ι → Option ι) (first last : Option ι) (l : List ι) : Prop where
  first_eq : first = l.head?
  last_eq : last = l.getLast?
  nodup : l.Nodup
  links : Segment next prev none l none

theorem isList_nil (next prev : ι → Option ι) : IsList next prev none none [] :=
  ⟨rfl, rfl, List.nodup_nil, trivial⟩

namespace IsList

variable {first last : Option ι} {a : ι}

/-- **A node at the front.** -/
theorem cons (h : IsList next prev first last l) (ha : a ∉ l) (hnext : next' a = first) (hprev : prev' a = none)
    (hfirst : ∀ b, first = some b → prev' b = some a) (hnexts : ∀ b ∈ l, next' b = next b)
    (hprevs : ∀ b ∈ l, first ≠ some b → prev' b = prev b) :
    IsList next' prev' (some a) (if first = none then some a else last) (a :: l) where
  first_eq := rfl
  last_eq := by
    rw [h.first_eq, h.last_eq]
    cases l with
    | nil => rfl
    | cons b l => simp [List.getLast?_cons]
  nodup := List.nodup_cons.mpr ⟨ha, h.nodup⟩
  links := by
    refine ⟨hprev, by rw [hnext, h.first_eq, Option.or_none], h.links.change (fun b hb => hfirst b (h.first_eq.trans hb))
      (fun b hb => hprevs b (List.mem_of_mem_tail hb) ?_) (fun b hb => ?_)
      fun b hb => hnexts b (List.mem_of_mem_dropLast hb)⟩
    · rw [h.first_eq]
      exact head?_ne_of_mem_tail h.nodup hb
    · rw [hnexts b (List.mem_of_getLast? hb)]
      exact h.links.next_last hb

theorem prev_eq {l₁ l₂ : List ι} (h : IsList next prev first last (l₁ ++ a :: l₂)) : prev a = l₁.getLast? := by
  have hprev := (segment_append.mp h.links).2.1
  rwa [Option.or_none] at hprev

theorem next_eq {l₁ l₂ : List ι} (h : IsList next prev first last (l₁ ++ a :: l₂)) : next a = l₂.head? := by
  have hnext := (segment_append.mp h.links).2.2.1
  rwa [Option.or_none] at hnext

/-- **A node is moved to the front** from behind the node `p`. -/
theorem toFront {l₁ l₂ : List ι} {p : ι} (h : IsList next prev first last (l₁ ++ a :: l₂)) (hp : l₁.getLast? = some p)
    (hnext : next' a = first) (hnextp : next' p = next a) (hnexts : ∀ b, b ≠ a → b ≠ p → next' b = next b)
    (hprev : prev' a = none) (hfirst : ∀ b, first = some b → prev' b = some a)
    (hafter : ∀ b, next a = some b → prev' b = some p)
    (hprevs : ∀ b, b ≠ a → first ≠ some b → next a ≠ some b → prev' b = prev b) :
    IsList next' prev' (some a) (if next a = none then some p else last) (a :: (l₁ ++ l₂)) := by
  obtain ⟨front, rfl⟩ := List.getLast?_eq_some_iff.mp hp
  rw [h.next_eq] at hnextp hafter hprevs ⊢
  have hperm : (front ++ [p] ++ a :: l₂).Perm (a :: (front ++ [p] ++ l₂)) := List.perm_middle
  obtain ⟨ha, hrest⟩ := List.nodup_cons.mp (hperm.nodup_iff.mp h.nodup)
  obtain ⟨hnodup₁, hnodup₂, hdisjoint⟩ := List.nodup_append.mp hrest
  have hne₁ : ∀ b ∈ front ++ [p], b ≠ a := fun b hb hba => ha (hba ▸ List.mem_append_left _ hb)
  have hne₂ : ∀ b ∈ l₂, b ≠ a := fun b hb hba => ha (hba ▸ List.mem_append_right _ hb)
  obtain ⟨hlinks₁, -, -, hlinks₂⟩ := segment_append.mp h.links
  have hhead : first = (front ++ [p]).head? := by
    rw [h.first_eq]
    cases front <;> rfl
  refine ⟨rfl, ?_, hperm.nodup_iff.mp h.nodup, hprev, ?_, segment_append.mpr ⟨?_, ?_⟩⟩
  · rw [h.last_eq]
    cases l₂ using List.reverseRecOn with
    | nil => simp [List.getLast?_cons]
    | append_singleton l₂ b => simp [List.getLast?_cons, List.getLast?_append]
  · rw [hnext, hhead]
    cases front <;> rfl
  · rw [Option.or_none]
    refine hlinks₁.change (fun b hb => hfirst b (hhead.trans hb)) (fun b hb => ?_) (fun b hb => ?_) fun b hb => ?_
    · have hmem := List.mem_of_mem_tail hb
      refine hprevs b (hne₁ b hmem) ?_ fun heq => hdisjoint b hmem b (List.mem_of_head? heq) rfl
      rw [hhead]
      exact head?_ne_of_mem_tail hnodup₁ hb
    · have hbp : p = b := by simpa using hb
      rw [← hbp]
      exact hnextp
    · have hfront : b ∈ front := by simpa using hb
      refine hnexts b (hne₁ b (List.mem_append_left _ hfront)) fun hbp => ?_
      exact (List.nodup_append.mp hnodup₁).2.2 b hfront p List.mem_cons_self hbp
  · have hlast : (front ++ [p]).getLast?.or (some a) = some p := by simp
    have hnext₂ : ∀ b ∈ l₂, next' b = next b :=
      fun b hb => hnexts b (hne₂ b hb) fun hbp => hdisjoint p (by simp) b hb hbp.symm
    rw [hlast]
    refine hlinks₂.change hafter (fun b hb => ?_) (fun b hb => ?_) fun b hb => ?_
    · have hmem := List.mem_of_mem_tail hb
      refine hprevs b (hne₂ b hmem) (fun heq => ?_) (head?_ne_of_mem_tail hnodup₂ hb)
      exact hdisjoint b (List.mem_of_head? (hhead.symm.trans heq)) b hmem rfl
    · rw [hnext₂ b (List.mem_of_getLast? hb)]
      exact hlinks₂.next_last hb
    · exact hnext₂ b (List.mem_of_mem_dropLast hb)

end IsList

end Ftke.DoubleList
