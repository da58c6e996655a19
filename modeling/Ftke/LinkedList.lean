import Ftke.SingleList

/-!
# Ftke.LinkedList

`Oscl_Linked_List_Base` (`oscl_linked_list.cpp`): a singly linked list with an iterator
of its own, which the operations that unlink an element put back to the one before it.

* `LinkedList.apply` — the operations;
* `Cursor` — what they mean: the elements that are passed and those that are ahead;
* `Represents` — the list holds these, and the iterator stands between them.

A result `none` is the use of a pointer that leads nowhere, or a loop that does not end.
-/

namespace Ftke

open SingleList

variable {ι α : Type*} [DecidableEq ι]

/-! ## The code -/

/-- `Oscl_Linked_List_Base`, with the links and the data of its elements; the number of
elements is one that memory holds. -/
structure LinkedList (ι α : Type*) where
  head : Option ι
  tail : Option ι
  iterator : Option ι
  num_elements : Int
  next : ι → Option ι
  data : ι → α

namespace LinkedList

/-- `construct`, over whatever memory holds. -/
def construct (s : LinkedList ι α) : LinkedList ι α :=
  { s with head := none, tail := none, iterator := none, num_elements := 0 }

/-- `get_first`: the element whose data are copied, or `none` for 0. -/
def getFirst (s : LinkedList ι α) : LinkedList ι α × Option ι :=
  match s.head with
  | none => (s, none)
  | some head => ({ s with iterator := some head }, some head)

/-- `get_next`: the element whose data are copied, or `none` for 0. -/
def getNext (s : LinkedList ι α) : Option (LinkedList ι α × Option ι) :=
  if s.iterator = s.tail then some (s, none)
  else
    match s.iterator with
    | none =>
      match s.head with
      | none => some (s, none)
      | some head => some ({ s with iterator := some head }, some head)
    | some iterator =>
      (s.next iterator).map fun node => ({ s with iterator := some node }, some node)

/-- `add_element`: `ptr` is what `allocate` returns. -/
def addElement (s : LinkedList ι α) (ptr : Option ι) (new_element : α) : LinkedList ι α × Bool :=
  match ptr with
  | none => (s, false)
  | some ptr =>
    match s.tail with
    | none =>
      ({ s with
          next := Function.update s.next ptr none
          data := Function.update s.data ptr new_element
          head := some ptr
          tail := some ptr
          num_elements := s.num_elements + 1 }, true)
    | some tail =>
      ({ s with
          next := Function.update (Function.update s.next ptr none) tail (some ptr)
          data := Function.update s.data ptr new_element
          tail := some ptr
          num_elements := s.num_elements + 1 }, true)

/-- `add_to_front`. -/
def addToFront (s : LinkedList ι α) (ptr : Option ι) (new_element : α) : LinkedList ι α × Bool :=
  match ptr with
  | none => (s, false)
  | some ptr =>
    match s.head with
    | none =>
      ({ s with
          next := Function.update s.next ptr none
          data := Function.update s.data ptr new_element
          head := some ptr
          tail := some ptr
          num_elements := s.num_elements + 1 }, true)
    | some head =>
      ({ s with
          next := Function.update (Function.update s.next ptr none) ptr (some head)
          data := Function.update s.data ptr new_element
          head := some ptr
          num_elements := s.num_elements + 1 }, true)

/-- An element behind another one is unlinked; the iterator goes back from it. -/
def unlinkBehind (s : LinkedList ι α) (prev tmp : ι) : LinkedList ι α :=
  { s with
    next := Function.update s.next prev (s.next tmp)
    iterator := if s.iterator = some tmp then some prev else s.iterator }

/-- The first element is unlinked; the iterator goes back from it. -/
def unlinkHead (s : LinkedList ι α) (tmp : ι) : LinkedList ι α :=
  { s with
    head := s.next tmp
    iterator := if s.iterator = some tmp then none else s.iterator }

/-- An element that is found is unlinked. -/
def unlink (s : LinkedList ι α) (prev : Option ι) (tmp : ι) : LinkedList ι α :=
  match prev with
  | some prev => s.unlinkBehind prev tmp
  | none => s.unlinkHead tmp

/-- The lines that both versions of `remove_element` end with. -/
def removeFound (s : LinkedList ι α) (prev : Option ι) (tmp : ι) : LinkedList ι α :=
  let s' := s.unlink prev tmp
  { s' with
    tail := if s'.tail = some tmp then prev else s'.tail
    num_elements := s'.num_elements - 1 }

/-- The loop that looks for an element with data that pass. -/
def findData (s : LinkedList ι α) (test : α → Bool) : Option (Option (Option ι × ι)) :=
  find s.next (fun a => test (s.data a)) s.num_elements.toNat none s.head

/-- `remove_element` by data; `test` is `compare_data` with the data to remove. -/
def removeData (s : LinkedList ι α) (test : α → Bool) : Option (LinkedList ι α × Bool) :=
  (s.findData test).map fun
    | none => (s, false)
    | some (prev, tmp) => (s.removeFound prev tmp, true)

/-- `remove_element` by index. -/
def removeIndex (s : LinkedList ι α) (index_to_remove : Int) : Option (LinkedList ι α × Bool) :=
  if index_to_remove < 0 ∨ s.num_elements ≤ index_to_remove then some (s, false)
  else
    match skip s.next index_to_remove.toNat none s.head with
    | (_, _, _ + 1) => some (s, false)
    | (_, none, 0) => none
    | (prev, some tmp, 0) => some (s.removeFound prev tmp, true)

/-- The branch of both moves for an element with one before it. -/
def unlinkIfBehind (s : LinkedList ι α) (prev : Option ι) (tmp : ι) : LinkedList ι α :=
  match prev with
  | some prev => s.unlinkBehind prev tmp
  | none => s

/-- The two branches of `move_to_end` that unlink an element. -/
def unlinkToMove (s : LinkedList ι α) (prev : Option ι) (tmp : ι) : LinkedList ι α :=
  let s' := s.unlinkIfBehind prev tmp
  if s'.head = some tmp then s'.unlinkHead tmp else s'

/-- `move_to_end`. -/
def moveToEnd (s : LinkedList ι α) (test : α → Bool) : Option (LinkedList ι α × Bool) :=
  match s.findData test with
  | none => none
  | some none => some (s, false)
  | some (some (prev, tmp)) =>
    if s.tail = some tmp then some (s, true)
    else
      let s' := s.unlinkToMove prev tmp
      s'.tail.map fun tail =>
        ({ s' with
            next := Function.update (Function.update s'.next tail (some tmp)) tmp none
            tail := some tmp }, true)

/-- `move_to_front`. -/
def moveToFront (s : LinkedList ι α) (test : α → Bool) : Option (LinkedList ι α × Bool) :=
  match s.findData test with
  | none => none
  | some none => some (s, false)
  | some (some (prev, tmp)) =>
    if s.head = some tmp then some (s, true)
    else
      let s' := s.unlinkIfBehind prev tmp
      some ({ s' with
          tail := if s'.tail = some tmp then prev else s'.tail
          next := Function.update s'.next tmp s'.head
          head := some tmp }, true)

/-- The operations; `test` is `compare_data` with the data handed in, `ptr` what `allocate`
returns. -/
inductive Op (ι α : Type*)
  | getFirst
  | getNext
  | addElement (ptr : Option ι) (new_element : α)
  | addToFront (ptr : Option ι) (new_element : α)
  | removeData (test : α → Bool)
  | removeIndex (index_to_remove : Int)
  | moveToEnd (test : α → Bool)
  | moveToFront (test : α → Bool)

/-- The data of an element, with the element. -/
def delivered (r : LinkedList ι α × Option ι) : LinkedList ι α × Option (ι × α) :=
  (r.1, r.2.map fun a => (a, r.1.data a))

/-- An operation, and the element that it delivers. -/
def apply (s : LinkedList ι α) : Op ι α → Option (LinkedList ι α × Option (ι × α))
  | .getFirst => some (delivered s.getFirst)
  | .getNext => s.getNext.map delivered
  | .addElement ptr new_element => some ((s.addElement ptr new_element).1, none)
  | .addToFront ptr new_element => some ((s.addToFront ptr new_element).1, none)
  | .removeData test => (s.removeData test).map fun r => (r.1, none)
  | .removeIndex index_to_remove => (s.removeIndex index_to_remove).map fun r => (r.1, none)
  | .moveToEnd test => (s.moveToEnd test).map fun r => (r.1, none)
  | .moveToFront test => (s.moveToFront test).map fun r => (r.1, none)

/-- The elements, in order. -/
def elements (s : LinkedList ι α) : List ι := nodes s.next s.num_elements.toNat s.head

end LinkedList

end Ftke
