import Ftke.LinkedList
import Mathlib.Data.List.Induction

/-!
# Ftke.LinkedList.Cursor

What the operations mean: the elements of the list in two parts, those that the iterator
has passed and those ahead of it.

`Represents s c` connects the list with its elements, and each operation has one lemma
(`Represents.addElement`, `Represents.removeFound`, …) that says what it makes of them.
-/

namespace Ftke

open SingleList

variable {ι α : Type*}

/-! ## Two parts -/

/-- The elements up to the iterator, and those behind it. -/
structure Cursor (ι : Type*) where
  passed : List ι
  ahead : List ι

namespace Cursor

/-- All elements. -/
def all (c : Cursor ι) : List ι := c.passed ++ c.ahead

/-- An element comes last. -/
def addLast (c : Cursor ι) (a : ι) : Cursor ι := ⟨c.passed, c.ahead ++ [a]⟩

/-- An element comes first: passed, unless nothing is. -/
def addFirst (c : Cursor ι) (a : ι) : Cursor ι :=
  if c.passed = [] then ⟨[], a :: c.ahead⟩ else ⟨a :: c.passed, c.ahead⟩

@[simp] theorem all_addLast (c : Cursor ι) (a : ι) : (c.addLast a).all = c.all ++ [a] := by
  simp [all, addLast]

theorem getLast?_addFirst (c : Cursor ι) (a : ι) : (c.addFirst a).passed.getLast? = c.passed.getLast? := by
  rw [addFirst]
  split
  · next hnil => rw [hnil]
  · next hne => rw [List.getLast?_cons, List.getLast?_eq_some_getLast hne]; rfl

@[simp] theorem all_addFirst (c : Cursor ι) (a : ι) : (c.addFirst a).all = a :: c.all := by
  rw [addFirst]
  split <;> simp_all [all]

variable [DecidableEq ι]

/-- An element leaves. -/
def remove (c : Cursor ι) (a : ι) : Cursor ι := ⟨c.passed.erase a, c.ahead.erase a⟩

theorem all_remove {c : Cursor ι} (h : c.all.Nodup) {l₁ l₂ : List ι} {a : ι} (hall : c.all = l₁ ++ a :: l₂) :
    (c.remove a).all = l₁ ++ l₂ := by
  have herase : (c.remove a).all = c.all.erase a := by
    rw [all, all, remove]
    by_cases ha : a ∈ c.passed
    · have hnot : a ∉ c.ahead := by rw [all] at h; grind
      rw [List.erase_append_left _ ha, List.erase_of_not_mem hnot]
    · rw [List.erase_append_right _ ha, List.erase_of_not_mem ha]
  rw [herase, hall]
  have ha : a ∉ l₁ := by rw [hall] at h; grind
  rw [List.erase_append_right _ ha, List.erase_cons_head]

theorem takeWhile_ne {l : List ι} {a : ι} (h : a ∉ l) (l' : List ι) :
    (l ++ a :: l').takeWhile (· ≠ a) = l := by
  rw [List.takeWhile_append_of_pos (by grind)]
  simp

theorem getLast?_remove {c : Cursor ι} (h : c.all.Nodup) {l₁ l₂ : List ι} {a : ι} (hall : c.all = l₁ ++ a :: l₂) :
    (c.remove a).passed.getLast? = if c.passed.getLast? = some a then l₁.getLast? else c.passed.getLast? := by
  have hpassed : c.passed.Nodup := by rw [all] at h; grind
  rw [remove]
  split
  · next hlast =>
    obtain ⟨front, hfront⟩ := List.getLast?_eq_some_iff.mp hlast
    have ha : a ∉ front := by rw [hfront] at hpassed; grind
    have hl₁ : a ∉ l₁ := by rw [hall] at h; grind
    have hl : front = l₁ := by
      rw [← takeWhile_ne ha c.ahead, ← takeWhile_ne hl₁ l₂, ← hall, all, hfront, List.append_assoc,
        List.singleton_append]
    rw [hfront, List.erase_append_right _ ha, List.erase_cons_head, List.append_nil, hl]
  · next hlast =>
    cases hp : c.passed using List.reverseRecOn with
    | nil => rfl
    | append_singleton front b =>
      have hb : b ≠ a := by rw [hp] at hlast; simpa using hlast
      by_cases ha : a ∈ front
      · rw [List.erase_append_left _ ha]
        simp
      · rw [List.erase_of_not_mem (by simp [ha, Ne.symm hb])]

end Cursor

/-! ## What the list holds -/

namespace LinkedList

/-- **What the list holds**: these elements in this order, and the iterator between the two
parts of them. -/
structure Represents (s : LinkedList ι α) (c : Cursor ι) : Prop where
  chain : Segment s.next s.head c.all none
  nodup : c.all.Nodup
  tail : s.tail = c.all.getLast?
  num : s.num_elements = c.all.length
  iterator : s.iterator = c.passed.getLast?

namespace Represents

variable {s : LinkedList ι α} {c : Cursor ι}

theorem construct (s : LinkedList ι α) : s.construct.Represents ⟨[], []⟩ :=
  ⟨rfl, by simp [Cursor.all], rfl, rfl, rfl⟩

theorem head (h : s.Represents c) : s.head = c.all.head? := h.chain.head?

theorem elements (h : s.Represents c) : s.elements = c.all := by
  rw [LinkedList.elements, h.num, Int.toNat_natCast, nodes_eq h.chain]

theorem withIterator (h : s.Represents c) {c' : Cursor ι} {iterator : Option ι} (hall : c'.all = c.all)
    (hiter : iterator = c'.passed.getLast?) : LinkedList.Represents { s with iterator := iterator } c' :=
  ⟨hall ▸ h.chain, hall ▸ h.nodup, hall ▸ h.tail, hall ▸ h.num, hiter⟩

theorem findData (h : s.Represents c) (test : α → Bool) :
    (c.all.find? (fun a => test (s.data a)) = none ∧ s.findData test = some none) ∨
      ∃ l₁ a l₂, c.all = l₁ ++ a :: l₂ ∧ c.all.find? (fun a => test (s.data a)) = some a ∧
        s.findData test = some (some (l₁.getLast?, a)) := by
  have hfind := find_eq (fun a => test (s.data a)) h.chain none
  simp only [LinkedList.findData, h.num, Int.toNat_natCast]
  simpa only [Option.or_none] using hfind

/-! ## Going over the elements -/

theorem getFirst (h : s.Represents c) :
    (s.getFirst = (s, none) ∧ c.all = []) ∨
      ∃ a l, c.all = a :: l ∧ s.getFirst = ({ s with iterator := some a }, some a) ∧
        LinkedList.Represents { s with iterator := some a } ⟨[a], l⟩ := by
  have hhead := h.head
  rw [LinkedList.getFirst]
  cases hall : c.all with
  | nil =>
    rw [hall] at hhead
    exact Or.inl ⟨by rw [hhead]; rfl, rfl⟩
  | cons a l =>
    rw [hall] at hhead
    exact Or.inr ⟨a, l, rfl, by rw [hhead]; rfl, h.withIterator hall.symm rfl⟩

theorem iterator_eq_tail_iff (h : s.Represents c) : s.iterator = s.tail ↔ c.ahead = [] := by
  obtain ⟨passed, ahead⟩ := c
  obtain ⟨-, hnodup, htail, -, hiter⟩ := h
  simp only [Cursor.all] at hnodup htail hiter ⊢
  rw [hiter, htail]
  cases hlast : ahead.getLast? with
  | none => simp [List.getLast?_eq_none_iff.mp hlast]
  | some b =>
    have hb : b ∈ ahead := List.mem_of_getLast? hlast
    have hnot : passed.getLast? ≠ some b := fun heq =>
      (List.nodup_append.mp hnodup).2.2 b (List.mem_of_getLast? heq) b hb rfl
    rw [List.getLast?_append, hlast]
    simp only [Option.some_or, hnot, false_iff]
    exact List.ne_nil_of_mem hb

variable [DecidableEq ι]

theorem getNext (h : s.Represents c) :
    (s.getNext = some (s, none) ∧ c.ahead = []) ∨
      ∃ a l, c.ahead = a :: l ∧ s.getNext = some ({ s with iterator := some a }, some a) ∧
        LinkedList.Represents { s with iterator := some a } ⟨c.passed ++ [a], l⟩ := by
  rw [LinkedList.getNext]
  by_cases hat : s.iterator = s.tail
  · rw [if_pos hat]
    exact Or.inl ⟨rfl, h.iterator_eq_tail_iff.mp hat⟩
  · rw [if_neg hat]
    obtain ⟨a, l, hahead⟩ := List.exists_cons_of_ne_nil (mt h.iterator_eq_tail_iff.mpr hat)
    have hall : c.all = c.passed ++ a :: l := by rw [Cursor.all, hahead]
    refine Or.inr ⟨a, l, hahead, ?_, h.withIterator (by simp [Cursor.all, hahead]) (by simp)⟩
    rw [h.iterator]
    cases hpassed : c.passed using List.reverseRecOn with
    | nil =>
      have hhead : s.head = some a := by rw [h.head, hall, hpassed]; rfl
      rw [List.getLast?_nil, hhead]
    | append_singleton front b =>
      have hnext : s.next b = some a := by
        have hchain := h.chain
        rw [hall, hpassed] at hchain
        obtain ⟨q, hfront, hq, -⟩ := segment_append.mp hchain
        obtain ⟨r, -, hr⟩ := segment_append.mp hfront
        rw [← hq, ← (segment_singleton.mp hr).2]
      rw [List.getLast?_concat]
      simp only [hnext, Option.map_some]

/-! ## New elements -/

variable {ptr a : ι}

theorem addElement (h : s.Represents c) (hfresh : ptr ∉ c.all) (new_element : α) :
    (s.addElement (some ptr) new_element).1.Represents (c.addLast ptr) := by
  obtain ⟨hchain, hnodup, htail, hnum, hiter⟩ := h
  rw [LinkedList.addElement]
  cases hall : c.all using List.reverseRecOn with
  | nil =>
    have hnil : (c.addLast ptr).all = [ptr] := by rw [Cursor.all_addLast, hall, List.nil_append]
    rw [hall] at htail hnum
    rw [htail]
    exact ⟨by simp [hnil, Segment], by simp [hnil], by simp [hnil], by simp [hnil, hnum], hiter⟩
  | append_singleton front b =>
    have hcons : (c.addLast ptr).all = front ++ [b] ++ [ptr] := by rw [Cursor.all_addLast, hall]
    have hnodup' : (front ++ [b] ++ [ptr]).Nodup := by
      rw [hall] at hnodup hfresh
      exact List.Nodup.append hnodup (List.nodup_singleton ptr) (by simpa using hfresh)
    rw [hall] at hchain htail hnum
    rw [htail, List.getLast?_concat]
    have hne : ptr ≠ b := by grind
    refine ⟨?_, hcons ▸ hnodup', by simp [hcons], by simp [hcons, hnum]; omega, hiter⟩
    rw [hcons]
    simpa only [Function.update_comm hne] using hchain.concat hnodup'

theorem addToFront (h : s.Represents c) (hfresh : ptr ∉ c.all) (new_element : α) :
    (s.addToFront (some ptr) new_element).1.Represents (c.addFirst ptr) := by
  have hhead := h.head
  obtain ⟨hchain, hnodup, htail, hnum, hiter⟩ := h
  have hcons := c.all_addFirst ptr
  have hiter' : s.iterator = (c.addFirst ptr).passed.getLast? := by rw [hiter, Cursor.getLast?_addFirst]
  rw [LinkedList.addToFront]
  cases hall : c.all with
  | nil =>
    rw [hall] at hhead hnum hcons
    rw [hhead]
    exact ⟨by simp [hcons, Segment], by simp [hcons], by simp [hcons], by simp [hcons, hnum], hiter'⟩
  | cons b l =>
    have hnodup' : (ptr :: b :: l).Nodup := List.nodup_cons.mpr ⟨hall ▸ hfresh, hall ▸ hnodup⟩
    rw [hall] at hhead hchain hnum hcons htail
    rw [hhead, List.head?_cons]
    refine ⟨?_, hcons ▸ hnodup', by simp [hcons, htail], by simp [hcons, hnum], hiter'⟩
    simp only [hcons, Function.update_idem]
    rw [hhead] at hchain
    exact hchain.cons (List.nodup_cons.mp hnodup').1

/-! ## Unlinking -/

variable {l₁ l₂ : List ι}

theorem unlink (h : s.Represents c) (hall : c.all = l₁ ++ a :: l₂) :
    Segment (s.unlink l₁.getLast? a).next (s.unlink l₁.getLast? a).head (l₁ ++ l₂) none ∧
      (s.unlink l₁.getLast? a).iterator = (c.remove a).passed.getLast? := by
  obtain ⟨hchain, hnodup, -, -, hiter⟩ := h
  rw [Cursor.getLast?_remove hnodup hall, ← hiter]
  rw [hall] at hchain hnodup
  cases l₁ using List.reverseRecOn with
  | nil =>
    rw [List.getLast?_nil]
    exact ⟨hchain.2, rfl⟩
  | append_singleton front b =>
    rw [List.getLast?_concat]
    exact ⟨hchain.unlink hnodup, rfl⟩

@[simp] theorem tail_unlink (s : LinkedList ι α) (prev : Option ι) (a : ι) : (s.unlink prev a).tail = s.tail := by
  cases prev <;> rfl

@[simp] theorem num_unlink (s : LinkedList ι α) (prev : Option ι) (a : ι) :
    (s.unlink prev a).num_elements = s.num_elements := by
  cases prev <;> rfl

theorem getLast?_append_of_nodup (h : (l₁ ++ a :: l₂).Nodup) :
    (if (l₁ ++ a :: l₂).getLast? = some a then l₁.getLast? else (l₁ ++ a :: l₂).getLast?) = (l₁ ++ l₂).getLast? := by
  cases l₂ using List.reverseRecOn with
  | nil => simp
  | append_singleton l b =>
    have hne : b ≠ a := by grind
    have hlast : (l₁ ++ a :: (l ++ [b])).getLast? = some b := by
      rw [← List.cons_append, ← List.append_assoc, List.getLast?_concat]
    rw [hlast, if_neg (by simpa using hne), ← List.append_assoc, List.getLast?_concat]

theorem removeFound (h : s.Represents c) (hall : c.all = l₁ ++ a :: l₂) :
    (s.removeFound l₁.getLast? a).Represents (c.remove a) := by
  obtain ⟨hchain, hiter⟩ := h.unlink hall
  have hrest := Cursor.all_remove h.nodup hall
  have hnodup : (l₁ ++ a :: l₂).Nodup := hall ▸ h.nodup
  refine ⟨hrest ▸ hchain, by rw [hrest]; grind, ?_, ?_, hiter⟩
  · simp only [LinkedList.removeFound, tail_unlink]
    rw [h.tail, hall, hrest, getLast?_append_of_nodup hnodup]
  · simp only [LinkedList.removeFound, num_unlink]
    rw [h.num, hall, hrest]
    simp only [List.length_append, List.length_cons]
    omega

/-! ## Operations that look for an element -/

theorem removeData (h : s.Represents c) (test : α → Bool) :
    (c.all.find? (fun a => test (s.data a)) = none ∧ s.removeData test = some (s, false)) ∨
      ∃ a t, c.all.find? (fun a => test (s.data a)) = some a ∧ s.removeData test = some (t, true) ∧
        t.data = s.data ∧ t.Represents (c.remove a) := by
  rw [LinkedList.removeData]
  rcases h.findData test with ⟨hnone, hfind⟩ | ⟨l₁, a, l₂, hall, hsome, hfind⟩
  · exact Or.inl ⟨hnone, by rw [hfind]; rfl⟩
  · refine Or.inr ⟨a, _, hsome, by rw [hfind]; rfl, ?_, h.removeFound hall⟩
    cases l₁.getLast? <;> rfl

theorem removeIndex (h : s.Represents c) (index : Int) :
    ((index < 0 ∨ c.all.length ≤ index) ∧ s.removeIndex index = some (s, false)) ∨
      ∃ a t, 0 ≤ index ∧ c.all[index.toNat]? = some a ∧ s.removeIndex index = some (t, true) ∧
        t.data = s.data ∧ t.Represents (c.remove a) := by
  rw [LinkedList.removeIndex, h.num]
  by_cases hout : index < 0 ∨ (c.all.length : Int) ≤ index
  · exact Or.inl ⟨hout, by rw [if_pos hout]⟩
  · have hlt : index.toNat < c.all.length := by omega
    have hall : c.all = c.all.take index.toNat ++ c.all[index.toNat] :: c.all.drop (index.toNat + 1) := by
      rw [List.getElem_cons_drop, List.take_append_drop]
    have hskip := skip_eq (hall ▸ h.chain) none
    rw [List.length_take_of_le (by omega), Option.or_none] at hskip
    rw [if_neg hout, hskip]
    refine Or.inr ⟨_, _, by omega, List.getElem?_eq_getElem hlt, rfl, ?_, h.removeFound hall⟩
    cases (c.all.take index.toNat).getLast? <;> rfl

theorem unlinkToMove (h : s.Represents c) (hall : c.all = l₁ ++ a :: l₂) :
    s.unlinkToMove l₁.getLast? a = s.unlink l₁.getLast? a := by
  rw [LinkedList.unlinkToMove]
  cases l₁ using List.reverseRecOn with
  | nil =>
    have hhead : (s.unlinkIfBehind none a).head = some a := by rw [LinkedList.unlinkIfBehind, h.head, hall]; rfl
    rw [List.getLast?_nil, if_pos hhead]
    rfl
  | append_singleton front b =>
    have hnodup : (front ++ [b] ++ a :: l₂).Nodup := hall ▸ h.nodup
    have hhead : (s.unlinkIfBehind (some b) a).head ≠ some a := by
      rw [LinkedList.unlinkIfBehind, LinkedList.unlinkBehind, h.head, hall]
      cases front <;> simp <;> grind
    rw [List.getLast?_concat, if_neg hhead]
    rfl

theorem moveToEnd (h : s.Represents c) (test : α → Bool) :
    (c.all.find? (fun a => test (s.data a)) = none ∧ s.moveToEnd test = some (s, false)) ∨
      ∃ a, c.all.find? (fun a => test (s.data a)) = some a ∧
        ((s.tail = some a ∧ s.moveToEnd test = some (s, true)) ∨
          (s.tail ≠ some a ∧ ∃ t, s.moveToEnd test = some (t, true) ∧ t.data = s.data ∧
            t.Represents ((c.remove a).addLast a))) := by
  simp only [LinkedList.moveToEnd]
  rcases h.findData test with ⟨hnone, hfind⟩ | ⟨l₁, a, l₂, hall, hsome, hfind⟩
  · exact Or.inl ⟨hnone, by rw [hfind]⟩
  · rw [hfind]
    refine Or.inr ⟨a, hsome, ?_⟩
    by_cases htail : s.tail = some a
    · exact Or.inl ⟨htail, by simp only [htail, if_true]⟩
    · refine Or.inr ⟨htail, ?_⟩
      obtain ⟨hchain, hiter⟩ := h.unlink hall
      have hnodup : (l₁ ++ a :: l₂).Nodup := hall ▸ h.nodup
      have hrest := Cursor.all_remove h.nodup hall
      simp only [if_neg htail]
      rw [h.unlinkToMove hall, tail_unlink]
      have hne : l₂ ≠ [] := by
        rintro rfl
        exact htail (by rw [h.tail, hall, List.getLast?_concat])
      cases l₂ using List.reverseRecOn with
      | nil => exact absurd rfl hne
      | append_singleton l b =>
        have htail' : s.tail = some b := by
          rw [h.tail, hall, ← List.cons_append, ← List.append_assoc, List.getLast?_concat]
        have hend : ((c.remove a).addLast a).all = l₁ ++ l ++ [b] ++ [a] := by
          rw [Cursor.all_addLast, hrest, ← List.append_assoc]
        have hnodup' : (l₁ ++ l ++ [b] ++ [a]).Nodup := by grind
        rw [← List.append_assoc] at hchain
        rw [htail']
        refine ⟨_, rfl, ?_, hend ▸ hchain.concat hnodup', hend ▸ hnodup', by simp [hend], ?_, hiter⟩
        · cases l₁.getLast? <;> rfl
        · simp only [num_unlink, h.num, hall, hend, List.length_append, List.length_cons, List.length_nil]
          omega

theorem moveToFront (h : s.Represents c) (test : α → Bool) :
    (c.all.find? (fun a => test (s.data a)) = none ∧ s.moveToFront test = some (s, false)) ∨
      ∃ a, c.all.find? (fun a => test (s.data a)) = some a ∧
        ((s.head = some a ∧ s.moveToFront test = some (s, true)) ∨
          (s.head ≠ some a ∧ ∃ t, s.moveToFront test = some (t, true) ∧ t.data = s.data ∧
            t.Represents ((c.remove a).addFirst a))) := by
  simp only [LinkedList.moveToFront]
  rcases h.findData test with ⟨hnone, hfind⟩ | ⟨l₁, a, l₂, hall, hsome, hfind⟩
  · exact Or.inl ⟨hnone, by rw [hfind]⟩
  · rw [hfind]
    refine Or.inr ⟨a, hsome, ?_⟩
    by_cases hhead : s.head = some a
    · exact Or.inl ⟨hhead, by simp only [hhead, if_true]⟩
    · refine Or.inr ⟨hhead, ?_⟩
      obtain ⟨hchain, hiter⟩ := h.unlink hall
      have hnodup : (l₁ ++ a :: l₂).Nodup := hall ▸ h.nodup
      have hrest := Cursor.all_remove h.nodup hall
      have hfront : ((c.remove a).addFirst a).all = a :: (l₁ ++ l₂) := by rw [Cursor.all_addFirst, hrest]
      cases l₁ using List.reverseRecOn with
      | nil => exact absurd (by rw [h.head, hall]; rfl) hhead
      | append_singleton front b =>
        rw [List.getLast?_concat] at hchain hiter ⊢
        simp only [if_neg hhead]
        have hnot : a ∉ front ++ [b] ++ l₂ := by grind
        have hnodup' : (a :: (front ++ [b] ++ l₂)).Nodup := List.nodup_cons.mpr ⟨hnot, by grind⟩
        refine ⟨_, rfl, rfl, hfront ▸ hchain.cons hnot, hfront ▸ hnodup', ?_, ?_, ?_⟩
        · have htail := getLast?_append_of_nodup hnodup
          rw [List.getLast?_concat, ← hall, ← h.tail] at htail
          exact htail.trans (by simp [hfront, List.getLast?_cons])
        · simp only [LinkedList.unlinkIfBehind, LinkedList.unlinkBehind, h.num, hall, hfront, List.length_append,
            List.length_cons, List.length_nil]
          omega
        · exact hiter.trans (Cursor.getLast?_addFirst _ _).symm

end Represents

end LinkedList

end Ftke
