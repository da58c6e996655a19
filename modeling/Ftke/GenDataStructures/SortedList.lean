import Mathlib.Data.List.Induction
import Mathlib.Data.List.Nodup
import Mathlib.Data.List.Sort

/-!
# Ftke.GenDataStructures.SortedList

`SortedList` (`sorted_list.h`): a singly linked list that keeps its elements in order.

* `SortedList.addElement`, `removeElement`, `getElement` — the operations;
* `Linked`, `SortedList.Holds` — the list holds these elements, in this order;
* `Holds.addElement`, `Holds.removeElement`, `Holds.getElement` — what the operations do to them.

The iterator is left out, and the number of elements is one that memory holds.  A result `none` is the use of a
pointer that leads nowhere, or a loop that does not end.
-/

namespace Ftke.GenDataStructures

variable {T : Type*}

/-! ## The list -/

structure SortedListElement (T : Type*) where
  next : Option Nat
  data : T

/-- A list, the elements in memory, and the address of the next one that is made. -/
structure SortedList (T : Type*) where
  head : Option Nat
  tail : Option Nat
  num_elements : Nat
  heap : Nat → Option (SortedListElement T)
  fresh : Nat

namespace SortedList

/-- The constructor. -/
def construct : SortedList T := ⟨none, none, 0, fun _ => none, 0⟩

/-- An element is written. -/
def write (heap : Nat → Option (SortedListElement T)) (p : Nat) (element : Option (SortedListElement T)) :
    Nat → Option (SortedListElement T) :=
  fun q => if q = p then element else heap q

/-- The link of an element is changed. -/
def setNext (heap : Nat → Option (SortedListElement T)) (p : Nat) (next : Option Nat) :
    Option (Nat → Option (SortedListElement T)) :=
  (heap p).map fun element => write heap p (some ⟨next, element.data⟩)

/-- Where the loop of `add_element` stops: at an element, with the one before it; once all are passed; or at the end
of the links before that. -/
inductive Place
  | before (prev : Option Nat) (cur : Nat)
  | atEnd
  | nowhere

/-- The loop of `add_element`, with so many elements left. -/
def findPlace [LE T] [DecidableLE T] (heap : Nat → Option (SortedListElement T)) (new_element : T) :
    Nat → Option Nat → Option Nat → Option Place
  | 0, _, _ => some .atEnd
  | _ + 1, _, none => some .nowhere
  | left + 1, prev, some cur =>
    match heap cur with
    | none => none
    | some element =>
      if new_element ≤ element.data then some (.before prev cur)
      else findPlace heap new_element left (some cur) element.next

/-- `add_element`. -/
def addElement [LE T] [DecidableLE T] (l : SortedList T) (new_element : T) : Option (SortedList T) :=
  let added := { l with
    num_elements := l.num_elements + 1
    fresh := l.fresh + 1 }
  match l.tail with
  | none =>
    some { added with
      head := some l.fresh
      tail := some l.fresh
      heap := write l.heap l.fresh (some ⟨none, new_element⟩) }
  | some tail =>
    match findPlace l.heap new_element l.num_elements none l.head with
    | none => none
    | some (.before (some prev) cur) =>
      (setNext l.heap prev (some l.fresh)).map fun heap =>
        { added with heap := write heap l.fresh (some ⟨some cur, new_element⟩) }
    | some (.before none _) =>
      some { added with
        heap := write l.heap l.fresh (some ⟨l.head, new_element⟩)
        head := some l.fresh }
    | some .atEnd =>
      (setNext l.heap tail (some l.fresh)).map fun heap =>
        { added with
          heap := write heap l.fresh (some ⟨none, new_element⟩)
          tail := some l.fresh }
    | some .nowhere => some { added with fresh := l.fresh }

/-- The loop of `remove_element`, for no more turns than these: the element that is found, and the one before it. -/
def findElement [LT T] [DecidableLT T] [DecidableEq T] (heap : Nat → Option (SortedListElement T))
    (data_to_remove : T) : Nat → Option Nat → Option Nat → Option (Option (Option Nat × Nat))
  | _, _, none => some none
  | 0, _, some _ => none
  | turns + 1, prev, some tmp =>
    match heap tmp with
    | none => none
    | some element =>
      if element.data = data_to_remove then some (some (prev, tmp))
      else if element.data > data_to_remove then some none
      else findElement heap data_to_remove turns (some tmp) element.next

/-- `remove_element`: whether the element is found, and the list after it. -/
def removeElement [LT T] [DecidableLT T] [DecidableEq T] (l : SortedList T) (data_to_remove : T) :
    Option (Bool × SortedList T) :=
  match findElement l.heap data_to_remove l.num_elements none l.head with
  | none => none
  | some none => some (false, l)
  | some (some (prev, tmp)) =>
    match l.heap tmp with
    | none => none
    | some element =>
      let removed := { l with
        tail := if l.tail = some tmp then prev else l.tail
        num_elements := l.num_elements - 1 }
      match prev with
      | some prev =>
        (setNext l.heap prev element.next).map fun heap => (true, { removed with heap := write heap tmp none })
      | none => some (true, { removed with
          head := element.next
          heap := write l.heap tmp none })

/-- The loop of `get_element`, and the element that it leads to. -/
def walk (heap : Nat → Option (SortedListElement T)) : Nat → Option Nat → Option T
  | _, none => none
  | 0, some tmp => (heap tmp).map SortedListElement.data
  | index + 1, some tmp => (heap tmp).bind fun element => walk heap index element.next

/-- `get_element` of an index: nothing, if it is out of range. -/
def getElement (l : SortedList T) (index : Int) : Option (Option T) :=
  if index < 0 ∨ index ≥ l.num_elements then some none else (walk l.heap index.toNat l.head).map some

end SortedList

/-! ## The elements of a list -/

open SortedList

/-- The address of the first cell. -/
def first (cells : List (Nat × T)) : Option Nat := cells.head?.map Prod.fst

/-- The address of the last cell. -/
def last (cells : List (Nat × T)) : Option Nat := cells.getLast?.map Prod.fst

/-- The links in memory are those of the cells, and lead on to `after`. -/
def Linked (heap : Nat → Option (SortedListElement T)) : List (Nat × T) → Option Nat → Prop
  | [], _ => True
  | (p, x) :: cells, after => heap p = some ⟨(first cells).or after, x⟩ ∧ Linked heap cells after

variable {heap heap' : Nat → Option (SortedListElement T)} {cells cells₁ cells₂ : List (Nat × T)}
  {after after' : Option Nat}

@[simp] theorem first_nil : first ([] : List (Nat × T)) = none := rfl

@[simp] theorem first_cons (cell : Nat × T) : first (cell :: cells) = some cell.1 := rfl

theorem first_append : first (cells₁ ++ cells₂) = (first cells₁).or (first cells₂) := by
  cases cells₁ <;> simp

@[simp] theorem last_nil : last ([] : List (Nat × T)) = none := rfl

@[simp] theorem last_concat (cell : Nat × T) : last (cells ++ [cell]) = some cell.1 := by simp [last]

theorem last_append (cell : Nat × T) : last (cells₁ ++ cell :: cells₂) = (last cells₂).or (some cell.1) := by
  cases cells₂ using List.reverseRecOn with
  | nil => simp
  | append_singleton cells₂ cell' =>
    rw [last_concat, Option.some_or, ← List.cons_append, ← List.append_assoc, last_concat]

theorem linked_append : ∀ {cells₁ : List (Nat × T)},
    Linked heap (cells₁ ++ cells₂) after ↔
      Linked heap cells₁ ((first cells₂).or after) ∧ Linked heap cells₂ after
  | [] => by simp [Linked]
  | (p, x) :: cells₁ => by
    rw [List.cons_append, Linked, Linked, linked_append, first_append, Option.or_assoc, and_assoc]

theorem Linked.congr (h : ∀ cell ∈ cells, heap' cell.1 = heap cell.1) (hlinked : Linked heap cells after) :
    Linked heap' cells after := by
  induction cells with
  | nil => trivial
  | cons cell cells ih =>
    obtain ⟨hcell, hrest⟩ := hlinked
    exact ⟨(h cell List.mem_cons_self).trans hcell, ih (fun c hc => h c (List.mem_cons_of_mem _ hc)) hrest⟩

/-- The list holds these cells. -/
structure Holds (l : SortedList T) (cells : List (Nat × T)) : Prop where
  head : l.head = first cells
  tail : l.tail = last cells
  num_elements : l.num_elements = cells.length
  nodup : (cells.map Prod.fst).Nodup
  fresh : ∀ cell ∈ cells, cell.1 < l.fresh
  linked : Linked l.heap cells none

theorem holds_construct : Holds (construct : SortedList T) [] :=
  ⟨rfl, rfl, rfl, List.nodup_nil, by simp, trivial⟩

theorem ne_of_nodup {p : Nat} {x : T} (h : ((cells₁ ++ (p, x) :: cells₂).map Prod.fst).Nodup) :
    (∀ cell ∈ cells₁, cell.1 ≠ p) ∧ ∀ cell ∈ cells₂, cell.1 ≠ p := by
  have hperm : ((cells₁ ++ (p, x) :: cells₂).map Prod.fst).Perm (p :: (cells₁ ++ cells₂).map Prod.fst) := by
    rw [← List.map_cons (f := Prod.fst) (a := (p, x))]
    exact List.perm_middle.map Prod.fst
  have hnotin := (List.nodup_cons.mp (hperm.nodup_iff.mp h)).1
  simp only [List.map_append, List.mem_append, List.mem_map, not_or] at hnotin
  exact ⟨fun cell hcell heq => hnotin.1 ⟨cell, hcell, heq⟩, fun cell hcell heq => hnotin.2 ⟨cell, hcell, heq⟩⟩

/-! ## Adding -/

/-- **Where an element goes**: before the first one that is not below, or to the end. -/
theorem findPlace_eq [LE T] [DecidableLE T] (new_element : T) :
    ∀ (cells : List (Nat × T)) (prev : Option Nat), Linked heap cells after →
      (∃ cells₁ cell cells₂, cells = cells₁ ++ cell :: cells₂ ∧ new_element ≤ cell.2 ∧
          (∀ c ∈ cells₁, ¬new_element ≤ c.2) ∧
          findPlace heap new_element cells.length prev ((first cells).or after) =
            some (.before ((last cells₁).or prev) cell.1)) ∨
        ((∀ c ∈ cells, ¬new_element ≤ c.2) ∧
          findPlace heap new_element cells.length prev ((first cells).or after) = some .atEnd)
  | [], prev, _ => Or.inr ⟨by simp, by simp [findPlace]⟩
  | (p, x) :: cells, prev, ⟨hcell, hrest⟩ => by
    simp only [List.length_cons, first_cons, Option.some_or, findPlace, hcell]
    split
    · next hle => exact Or.inl ⟨[], (p, x), cells, rfl, hle, by simp, by simp⟩
    · next hnot =>
      obtain ⟨cells₁, cell, cells₂, rfl, hle, hbelow, hplace⟩ | ⟨hbelow, hplace⟩ :=
        findPlace_eq new_element cells (some p) hrest
      · refine Or.inl ⟨(p, x) :: cells₁, cell, cells₂, rfl, hle, ?_, ?_⟩
        · simpa [hnot] using hbelow
        · rw [hplace, ← List.nil_append ((p, x) :: cells₁), last_append, Option.or_assoc, Option.some_or]
      · exact Or.inr ⟨by simpa [hnot] using hbelow, hplace⟩

theorem orderedInsert_append [LE T] [DecidableLE T] {new_element : T} :
    ∀ {xs ys : List T}, (∀ x ∈ xs, ¬new_element ≤ x) → (∀ y, ys.head? = some y → new_element ≤ y) →
      (xs ++ ys).orderedInsert (· ≤ ·) new_element = xs ++ new_element :: ys
  | [], [], _, _ => rfl
  | [], y :: ys, _, hy => by simp [hy y rfl]
  | x :: xs, ys, hxs, hy => by
    obtain ⟨hx, hxs⟩ := List.forall_mem_cons.mp hxs
    rw [List.cons_append, List.orderedInsert_cons, if_neg hx, orderedInsert_append hxs hy, List.cons_append]

variable {p q : Nat}

theorem setNext_eq {x : T} {old : Option Nat} (h : heap p = some ⟨old, x⟩) (next : Option Nat) :
    setNext heap p next = some (write heap p (some ⟨next, x⟩)) := by
  simp [setNext, h]

@[simp] theorem write_self (p : Nat) (element : Option (SortedListElement T)) : write heap p element p = element :=
  if_pos rfl

theorem write_of_ne (h : q ≠ p) (element : Option (SortedListElement T)) :
    write heap p element q = heap q :=
  if_neg h

/-- **A cell in the middle**: memory after a new element has been linked in between two cells. -/
theorem linked_insert {p : Nat} {x new_element : T} {q : Nat}
    (hnodup : ((cells₁ ++ (p, x) :: cells₂).map Prod.fst).Nodup)
    (hfresh : ∀ cell ∈ cells₁ ++ (p, x) :: cells₂, cell.1 ≠ q)
    (hlinked : Linked heap (cells₁ ++ (p, x) :: cells₂) after) :
    Linked (write (write heap p (some ⟨some q, x⟩)) q (some ⟨(first cells₂).or after, new_element⟩))
      (cells₁ ++ (p, x) :: (q, new_element) :: cells₂) after := by
  obtain ⟨hne₁, hne₂⟩ := ne_of_nodup hnodup
  obtain ⟨hlinked₁, -, hlinked₂⟩ := linked_append.mp hlinked
  have hkeep : ∀ cell ∈ cells₁ ++ (p, x) :: cells₂, cell.1 ≠ p →
      write (write heap p (some ⟨some q, x⟩)) q (some ⟨(first cells₂).or after, new_element⟩) cell.1 =
        heap cell.1 := by
    intro cell hcell hne
    rw [write_of_ne (hfresh cell hcell), write_of_ne hne]
  refine linked_append.mpr ⟨?_, ?_, ?_, ?_⟩
  · exact hlinked₁.congr fun cell hcell => hkeep cell (List.mem_append_left _ hcell) (hne₁ cell hcell)
  · rw [write_of_ne (hfresh (p, x) (by simp)), write_self]
    rfl
  · exact write_self _ _
  · exact hlinked₂.congr fun cell hcell => hkeep cell (by simp [hcell]) (hne₂ cell hcell)

theorem Holds.nodup_insert {l : SortedList T} (h : Holds l (cells₁ ++ cells₂)) (x : T) :
    ((cells₁ ++ (l.fresh, x) :: cells₂).map Prod.fst).Nodup ∧
      ∀ cell ∈ cells₁ ++ (l.fresh, x) :: cells₂, cell.1 < l.fresh + 1 := by
  have hperm : ((cells₁ ++ (l.fresh, x) :: cells₂).map Prod.fst).Perm
      (l.fresh :: (cells₁ ++ cells₂).map Prod.fst) := by
    rw [← List.map_cons (f := Prod.fst) (a := (l.fresh, x))]
    exact List.perm_middle.map Prod.fst
  refine ⟨hperm.nodup_iff.mpr (List.nodup_cons.mpr ⟨fun hmem => ?_, h.nodup⟩), fun cell hcell => ?_⟩
  · obtain ⟨cell, hcell, heq⟩ := List.mem_map.mp hmem
    exact absurd (h.fresh cell hcell) (by omega)
  · obtain rfl | hcell := List.mem_cons.mp (List.perm_middle.mem_iff.mp hcell)
    · exact Nat.lt_succ_self _
    · exact Nat.lt_succ_of_lt (h.fresh cell hcell)

variable {l : SortedList T}

theorem Holds.insert_front (h : Holds l cells) (x : T) (hne : cells ≠ []) :
    Holds ⟨some l.fresh, l.tail, l.num_elements + 1, write l.heap l.fresh (some ⟨l.head, x⟩), l.fresh + 1⟩
      ((l.fresh, x) :: cells) := by
  obtain ⟨hnodup, hfresh⟩ := @Holds.nodup_insert _ [] cells l h x
  obtain ⟨front, cell, rfl⟩ := List.eq_nil_or_concat cells |>.resolve_left hne
  rw [List.concat_eq_append] at h hnodup hfresh ⊢
  refine ⟨rfl, ?_, congrArg (· + 1) h.num_elements, hnodup, hfresh, ?_, ?_⟩
  · rw [← List.cons_append, last_concat]
    exact h.tail.trans (last_concat cell)
  · rw [Option.or_none, ← h.head]
    exact write_self _ _
  · exact h.linked.congr fun c hc => write_of_ne (Nat.ne_of_lt (h.fresh c hc)) _

theorem Holds.insert_behind {x : T} (h : Holds l (cells₁ ++ (p, x) :: cells₂))
    (new_element : T) (tail : Option Nat) (htail : tail = (last cells₂).or (some l.fresh)) :
    Holds ⟨l.head, tail, l.num_elements + 1,
        write (write l.heap p (some ⟨some l.fresh, x⟩)) l.fresh (some ⟨first cells₂, new_element⟩), l.fresh + 1⟩
      (cells₁ ++ (p, x) :: (l.fresh, new_element) :: cells₂) := by
  have hsplit : cells₁ ++ (p, x) :: (l.fresh, new_element) :: cells₂ =
      (cells₁ ++ [(p, x)]) ++ (l.fresh, new_element) :: cells₂ := by simp
  have hold : Holds l ((cells₁ ++ [(p, x)]) ++ cells₂) := by simpa using h
  obtain ⟨hnodup, hfresh⟩ := hold.nodup_insert new_element
  have hlinked := @linked_insert _ _ _ _ none _ _ new_element l.fresh h.nodup
    (fun cell hcell => Nat.ne_of_lt (h.fresh cell hcell)) h.linked
  rw [Option.or_none] at hlinked
  refine ⟨?_, ?_, ?_, hsplit ▸ hnodup, hsplit ▸ hfresh, hlinked⟩
  · rw [h.head, first_append, first_append]
    rfl
  · rw [hsplit, last_append, htail]
  · rw [h.num_elements]
    simp only [List.length_append, List.length_cons]
    omega

/-- **Adding an element** puts it in order. -/
theorem Holds.addElement [LE T] [DecidableLE T] (h : Holds l cells) (new_element : T) :
    ∃ l' cells', l.addElement new_element = some l' ∧ Holds l' cells' ∧
      cells'.map Prod.snd = (cells.map Prod.snd).orderedInsert (· ≤ ·) new_element := by
  obtain rfl | ⟨front, cell, rfl⟩ := List.eq_nil_or_concat cells
  · have htail : l.tail = none := h.tail
    refine ⟨_, [(l.fresh, new_element)], by rw [SortedList.addElement, htail], ?_, rfl⟩
    exact ⟨rfl, rfl, congrArg (· + 1) h.num_elements, List.nodup_singleton _, by simp, write_self _ _, trivial⟩
  rw [List.concat_eq_append] at h ⊢
  have htail : l.tail = some cell.1 := h.tail.trans (last_concat cell)
  have hplace := findPlace_eq new_element _ none h.linked
  rw [← h.num_elements, Option.or_none, ← h.head] at hplace
  obtain ⟨cells₁, cell', cells₂, hcells, hle, hbelow, hplace⟩ | ⟨hbelow, hplace⟩ := hplace
  · rw [hcells] at h ⊢
    -- the elements, wherever the new one was linked in
    have hordered : ∀ q, (cells₁ ++ (q, new_element) :: cell' :: cells₂).map Prod.snd =
        ((cells₁ ++ cell' :: cells₂).map Prod.snd).orderedInsert (· ≤ ·) new_element := by
      intro q
      have hbelow' : ∀ x ∈ cells₁.map Prod.snd, ¬new_element ≤ x := by
        intro x hx
        obtain ⟨c, hc, rfl⟩ := List.mem_map.mp hx
        exact hbelow c hc
      rw [List.map_append, List.map_append, orderedInsert_append hbelow' (by simpa using hle)]
      rfl
    obtain rfl | ⟨front', prev, rfl⟩ := List.eq_nil_or_concat cells₁
    · refine ⟨_, (l.fresh, new_element) :: cell' :: cells₂, ?_, h.insert_front new_element (by simp),
        hordered l.fresh⟩
      rw [SortedList.addElement, htail]
      simp only [hplace, last_nil, Option.or_none, ← htail]
    · rw [List.concat_eq_append] at h hplace hordered
      have h' : Holds l (front' ++ prev :: cell' :: cells₂) := by simpa using h
      have hprev := (linked_append.mp h'.linked).2.1
      refine ⟨_, front' ++ prev :: (l.fresh, new_element) :: cell' :: cells₂, ?_,
        h'.insert_behind new_element l.tail ?_, by simpa using hordered l.fresh⟩
      · rw [SortedList.addElement, htail]
        simp only [hplace, last_concat, Option.some_or, setNext_eq hprev, Option.map_some, ← htail]
        rfl
      · rw [h'.tail, ← List.singleton_append, ← List.append_assoc, last_append, ← List.nil_append (cell' :: cells₂),
          last_append]
        cases last cells₂ <;> rfl
  · have hlast := (linked_append.mp h.linked).2.1
    refine ⟨_, front ++ cell :: [(l.fresh, new_element)], ?_, h.insert_behind new_element _ rfl, ?_⟩
    · rw [SortedList.addElement, htail]
      simp only [hplace, setNext_eq hlast, Option.map_some]
      rfl
    · have hbelow' : ∀ x ∈ (front ++ [cell]).map Prod.snd, ¬new_element ≤ x := by
        intro x hx
        obtain ⟨c, hc, rfl⟩ := List.mem_map.mp hx
        exact hbelow c hc
      have hordered := @orderedInsert_append _ _ _ new_element _ [] hbelow' (by simp)
      rw [List.append_nil] at hordered
      rw [hordered]
      simp

/-! ## Removing -/

theorem findElement_eq [LT T] [DecidableLT T] [DecidableEq T] {x : T} :
    ∀ (cells₁ : List (Nat × T)) {turns : Nat} (prev : Option Nat),
      Linked heap (cells₁ ++ (p, x) :: cells₂) after → (∀ c ∈ cells₁, c.2 ≠ x ∧ ¬c.2 > x) →
      cells₁.length < turns →
      findElement heap x turns prev (first (cells₁ ++ (p, x) :: cells₂)) = some (some ((last cells₁).or prev, p))
  | [], turns, prev, hlinked, _, hturns => by
    obtain ⟨turns, rfl⟩ := Nat.exists_eq_succ_of_ne_zero (Nat.ne_of_gt hturns)
    simp [findElement, hlinked.1]
  | (q, y) :: cells₁, turns, prev, hlinked, hbefore, hturns => by
    obtain ⟨turns, rfl⟩ := Nat.exists_eq_succ_of_ne_zero (Nat.ne_of_gt (Nat.zero_lt_of_lt hturns))
    obtain ⟨⟨hne, hle⟩, hbefore⟩ := List.forall_mem_cons.mp hbefore
    obtain ⟨hcell, hrest⟩ : Linked heap ((q, y) :: (cells₁ ++ (p, x) :: cells₂)) after := hlinked
    have hfirst : (first (cells₁ ++ (p, x) :: cells₂)).or after = first (cells₁ ++ (p, x) :: cells₂) := by
      rw [first_append]
      cases first cells₁ <;> rfl
    rw [List.cons_append, first_cons, findElement, hcell]
    simp only [hne, hle, if_false, hfirst]
    rw [findElement_eq cells₁ (some q) hrest hbefore (by simpa using hturns), ← List.nil_append ((q, y) :: cells₁),
      last_append, Option.or_assoc, Option.some_or]

/-- **A cell less**: memory after an element has been unlinked behind another, and deleted. -/
theorem linked_erase {x y : T} (hnodup : ((cells₁ ++ (q, y) :: (p, x) :: cells₂).map Prod.fst).Nodup)
    (hlinked : Linked heap (cells₁ ++ (q, y) :: (p, x) :: cells₂) after) :
    Linked (write (write heap q (some ⟨(first cells₂).or after, y⟩)) p none) (cells₁ ++ (q, y) :: cells₂) after := by
  obtain ⟨hneq₁, hneq₂⟩ := ne_of_nodup hnodup
  obtain ⟨hnep₁, hnep₂⟩ := @ne_of_nodup _ (cells₁ ++ [(q, y)]) cells₂ p x (by simpa using hnodup)
  obtain ⟨hlinked₁, -, -, hlinked₂⟩ := linked_append.mp hlinked
  refine linked_append.mpr ⟨hlinked₁.congr fun c hc => ?_, ?_, hlinked₂.congr fun c hc => ?_⟩
  · rw [write_of_ne (hnep₁ c (List.mem_append_left _ hc)), write_of_ne (hneq₁ c hc)]
  · rw [write_of_ne (hnep₁ (q, y) (by simp)), write_self]
  · rw [write_of_ne (hnep₂ c hc), write_of_ne (hneq₂ c (List.mem_cons_of_mem _ hc))]

/-- **Removing an element**, if those before it are neither equal nor above. -/
theorem Holds.removeElement [LT T] [DecidableLT T] [DecidableEq T] {x : T}
    (h : Holds l (cells₁ ++ (p, x) :: cells₂)) (hbefore : ∀ c ∈ cells₁, c.2 ≠ x ∧ ¬c.2 > x) :
    ∃ l', l.removeElement x = some (true, l') ∧ Holds l' (cells₁ ++ cells₂) := by
  have hfind : findElement l.heap x l.num_elements none l.head = some (some (last cells₁, p)) := by
    rw [h.head, findElement_eq cells₁ none h.linked hbefore (by simp [h.num_elements]), Option.or_none]
  obtain ⟨hlinked₁, hcell, hlinked₂⟩ := linked_append.mp h.linked
  rw [Option.or_none] at hcell
  obtain ⟨hne₁, hne₂⟩ := ne_of_nodup h.nodup
  have hsub : List.Sublist (cells₁ ++ cells₂) (cells₁ ++ (p, x) :: cells₂) :=
    (List.sublist_cons_self _ _).append_left cells₁
  have hnodup := h.nodup.sublist (hsub.map Prod.fst)
  have hfresh : ∀ cell ∈ cells₁ ++ cells₂, cell.1 < l.fresh := fun cell hcell => h.fresh cell (hsub.subset hcell)
  have hnum : l.num_elements - 1 = (cells₁ ++ cells₂).length := by
    rw [h.num_elements]
    simp only [List.length_append, List.length_cons]
    omega
  -- the last element is another one, unless there is none behind
  obtain ⟨tail, htaileq⟩ : ∃ tail, (if l.tail = some p then last cells₁ else l.tail) = tail := ⟨_, rfl⟩
  have htail : tail = last (cells₁ ++ cells₂) := by
    rw [← htaileq, h.tail, last_append]
    obtain rfl | ⟨front, cell, rfl⟩ := List.eq_nil_or_concat cells₂
    · simp
    · rw [List.concat_eq_append, last_concat, Option.some_or, ← List.append_assoc, last_concat, if_neg]
      exact fun heq => hne₂ cell (by simp) (Option.some_inj.mp heq)
  obtain rfl | ⟨front, prev, rfl⟩ := List.eq_nil_or_concat cells₁
  · refine ⟨⟨first cells₂, tail, _, write l.heap p none, l.fresh⟩, ?_, rfl, htail, hnum, hnodup, hfresh,
      hlinked₂.congr fun c hc => write_of_ne (hne₂ c hc) _⟩
    rw [last_nil] at htaileq
    simp only [SortedList.removeElement, hfind, hcell, last_nil, htaileq]
  · rw [List.concat_eq_append] at htaileq hfind hlinked₁ hnodup hfresh hnum htail h ⊢
    have hprev := (linked_append.mp hlinked₁).2.1
    have hsplit : front ++ [prev] ++ (p, x) :: cells₂ = front ++ prev :: (p, x) :: cells₂ := by simp
    have herase := linked_erase (hsplit ▸ h.nodup) (hsplit ▸ h.linked)
    rw [Option.or_none] at herase
    refine ⟨⟨l.head, tail, _, write (write l.heap prev.1 (some ⟨first cells₂, prev.2⟩)) p none, l.fresh⟩, ?_, ?_,
      htail, hnum, hnodup, hfresh, by simpa using herase⟩
    · rw [last_concat] at htaileq
      simp only [SortedList.removeElement, hfind, hcell, last_concat, setNext_eq hprev, Option.map_some, htaileq]
    · rw [h.head]
      simp [first_append]

/-! ## Getting -/

theorem walk_eq : ∀ (cells : List (Nat × T)) {index : Nat} {cell : Nat × T}, Linked heap cells after →
    cells[index]? = some cell → walk heap index ((first cells).or after) = some cell.2
  | [], _, _, _, h => by simp at h
  | c :: cells, 0, cell, hlinked, h => by
    obtain rfl : c = cell := by simpa using h
    simp [walk, hlinked.1]
  | c :: cells, index + 1, cell, hlinked, h => by
    rw [first_cons, Option.some_or, walk, hlinked.1, Option.bind_some]
    exact walk_eq cells hlinked.2 (by simpa using h)

/-- **An element by its index.** -/
theorem Holds.walk (h : Holds l cells) {index : Nat} {cell : Nat × T}
    (hindex : cells[index]? = some cell) : SortedList.walk l.heap index l.head = some cell.2 := by
  rw [h.head, ← Option.or_none (o := first cells)]
  exact walk_eq cells h.linked hindex

end Ftke.GenDataStructures
