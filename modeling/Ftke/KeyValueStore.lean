import Ftke.Run
import Mathlib.Algebra.Ring.Int.Defs
import Mathlib.Algebra.Ring.Nat
import Mathlib.Data.List.Nodup

/-!
# Ftke.KeyValueStore

The store of header fields (`string_keyvalue_store.cpp`): a table of 500 slots that are
indexed by a checksum of the key, an area of 500 slots behind it for the keys that
collide, and for each key a first value and a list of the others.

The others are `StrCSumPtrLenWrapper`s in one vector, linked by pointers to its
elements.  A list stands for the links, each with the memory block that the vector had
when it was made: the vector moves when it is full, the pointers do not, and to follow
one into an old block is a fault (`none`).  Which allocations succeed is an argument
(`Memory`).  A string is the octets at a pointer, fewer than 2^31 of them; `char` is
signed.
-/

namespace Ftke.KeyValueStore

/-! ## Strings -/

abbrev Str := List UInt8

def isLetter (c : UInt8) : Bool := (65 ≤ c && c ≤ 90) || (97 ≤ c && c ≤ 122)

/-- A character as it enters the checksum: `OSCL_ASCII_CASE_MAGIC_BIT` is set in a letter. -/
def lower (c : UInt8) : UInt8 := if isLetter c then c ||| 0x20 else c

/-- `StrCSumPtrLen::setCheckSum`. -/
def checkSum (s : Str) : Int16 := s.foldl (fun sum c => sum + (lower c).toInt8.toInt16) 0

/-- The loop of `StrPtrLen::isCIPrefixOf`. -/
def isCIPrefixOf : Str → Str → Bool
  | a :: s, b :: t => (a == b || (isLetter a && (a ^^^ b) ||| 0x20 == 0x20)) && isCIPrefixOf s t
  | [], _ => true
  | _ :: _, [] => false

/-- `StrCSumPtrLen::isCIEquivalentTo`. -/
def isCIEquivalentTo (s t : Str) : Bool :=
  checkSum s == checkSum t && (s.length == t.length && isCIPrefixOf s t)

/-- `KEYVALUESTORE_HASH_TABLE_SIZE_FOR_KEYS`. -/
def tableSize : Nat := 1000

/-- `StrCSumPtrLenWrapper::getChecksum`. -/
def getChecksum (s : Str) : Nat := (checkSum s).toInt32.toUInt32.toNat % tableSize / 2

/-! ## Data -/

/-- What a pointer to a wrapper leads to, if its block is still there. -/
structure Linked where
  str : Str
  block : Nat
  deriving DecidableEq

/-- `StrCSumPtrLenWrapper`. -/
structure Wrapper where
  iStr : Str
  iNext : List Linked
  deriving DecidableEq

/-- A cleared wrapper. -/
def noWrapper : Wrapper := ⟨[], []⟩

def Wrapper.empty (w : Wrapper) : Bool := w.iNext.isEmpty && w.iStr.length == 0

/-- The allocations that succeed in a call. -/
structure Memory where
  index : Bool
  key : Bool
  value : Bool
  wrapper : Bool
  deriving DecidableEq

/-- `StringKeyValueStore`; `wrappers`, `capacity` and `block` are the size, the capacity
and the memory block of `iStrCSumPtrLenWrapperVector`. -/
structure Store where
  iTotalNumberOfKeyValuePairs : UInt32
  iTotalKeyValueLength : UInt32
  iFieldKeys : Nat → Wrapper
  iFieldVals : Nat → Str
  wrappers : Nat
  capacity : Nat
  block : Nat
  iFieldKeyTableIndexVector : List Nat
  iNumConflicts : Nat

/-- `create`: the vector has `KEYVALUESTORE_VECTOR_RESERVE_VALUE` elements reserved. -/
def create : Store := ⟨0, 0, fun _ => noWrapper, fun _ => [], 0, 10, 0, [], 0⟩

def Store.setKey (s : Store) (i : Nat) (w : Wrapper) : Store :=
  { s with iFieldKeys := fun j => if j = i then w else s.iFieldKeys j }

def Store.setVal (s : Store) (i : Nat) (v : Str) : Store :=
  { s with iFieldVals := fun j => if j = i then v else s.iFieldVals j }

/-- `clear`. -/
def clear (s : Store) : Store :=
  { s with
    iTotalNumberOfKeyValuePairs := 0
    iTotalKeyValueLength := 0
    iNumConflicts := 0
    iFieldKeys := fun _ => noWrapper
    iFieldVals := fun _ => []
    wrappers := 0
    iFieldKeyTableIndexVector := [] }

/-! ## Looking up -/

/-- `query`. -/
def query (aKey : Str) (s : Store) : Int :=
  match (List.range s.iNumConflicts).find? fun i =>
    isCIEquivalentTo (s.iFieldKeys (tableSize / 2 + i)).iStr aKey with
  | some i => (tableSize / 2 + i : Nat)
  | none => -1

/-- `getHashTableIndex`. -/
def getHashTableIndex (aKey : Str) (aFindKey : Bool) (s : Store) : Int × Store :=
  let aTableIndex := getChecksum aKey
  if (s.iFieldKeys aTableIndex).empty then
    if !aFindKey then (aTableIndex, s) else (query aKey s, s)
  else if isCIEquivalentTo (s.iFieldKeys aTableIndex).iStr aKey then (aTableIndex, s)
  else if aFindKey then (query aKey s, s)
  else if query aKey s ≥ 0 then (query aKey s, s)
  else if s.iNumConflicts + 1 ≥ tableSize / 2 then (-1, s)
  else ((tableSize / 2 + s.iNumConflicts : Nat), { s with iNumConflicts := s.iNumConflicts + 1 })

/-- Pointers are followed. -/
def follow (s : Store) (links : List Linked) : Option (List Str) :=
  if links.all fun link => link.block == s.block then some (links.map Linked.str) else none

/-- `getNumberOfValuesByKey`. -/
def getNumberOfValuesByKey (aKey : Str) (s : Store) : Option Nat :=
  let tableIndex := (getHashTableIndex aKey true s).1
  if tableIndex < 0 then some 0
  else (follow s (s.iFieldKeys tableIndex.toNat).iNext).map fun values => 1 + values.length

/-- `getValueByKey`: whether there is a value, and the value. -/
def getValueByKey (aKey : Str) (index : Nat) (s : Store) : Option (Bool × Str) :=
  let tableIndex := (getHashTableIndex aKey true s).1
  if tableIndex < 0 ∨ tableIndex > tableSize then some (false, [])
  else if index = 0 then some (true, s.iFieldVals tableIndex.toNat)
  else (follow s ((s.iFieldKeys tableIndex.toNat).iNext.take index)).map fun values =>
    if values.length = index then (true, values.getD (index - 1) []) else (false, [])

/-- `getCurrentKeyList` of all keys. -/
def getCurrentKeyList (s : Store) : List Str :=
  s.iFieldKeyTableIndexVector.map fun i => (s.iFieldKeys i).iStr

/-! ## Adding and removing -/

def success : Int := 0
def noMemory : Int := -2

/-- `addKeyToStore`. -/
def addKeyToStore (aNewKey : Str) (tableIndex : Nat) (memory : Memory) (s : Store) : Int × Store :=
  if !(s.iFieldKeys tableIndex).empty then (success, s)
  else if !memory.index then (noMemory, s)
  else
    let s := { s with iFieldKeyTableIndexVector := s.iFieldKeyTableIndexVector ++ [tableIndex] }
    if !memory.key then (noMemory, s)
    else (success, { s.setKey tableIndex ⟨aNewKey, []⟩ with
      iTotalKeyValueLength := s.iTotalKeyValueLength + UInt32.ofNat aNewKey.length })

/-- The counters after a value has been stored. -/
def Store.counted (s : Store) (aNewValue : Str) : Store :=
  { s with
    iTotalKeyValueLength := s.iTotalKeyValueLength + UInt32.ofNat aNewValue.length
    iTotalNumberOfKeyValuePairs := s.iTotalNumberOfKeyValuePairs + 1 }

/-- `push_back` on `iStrCSumPtrLenWrapperVector`: a full vector moves. -/
def Store.pushWrapper (s : Store) : Store :=
  let s := if s.wrappers = s.capacity then
      { s with capacity := if s.capacity = 0 then 2 else 2 * s.capacity, block := s.block + 1 }
    else s
  { s with wrappers := s.wrappers + 1 }

/-- A further value of a key. -/
def appendValue (tableIndex : Nat) (aNewValue : Str) (memory : Memory) (s : Store) : Option (Int × Store) :=
  if s.wrappers = s.capacity ∧ !memory.wrapper then some (noMemory, s)
  else
    let s := s.pushWrapper
    let w := s.iFieldKeys tableIndex
    (follow s w.iNext).map fun _ =>
      let s := { s.setKey tableIndex ⟨w.iStr, w.iNext ++ [⟨aNewValue, s.block⟩]⟩ with
        iTotalKeyValueLength := s.iTotalKeyValueLength + UInt32.ofNat w.iStr.length }
      (success, s.counted aNewValue)

/-- `addKeyValuePair`; the first return is `return false`. -/
def addKeyValuePair (aNewKey aNewValue : Str) (aNeedReplaceOldValue : Bool) (memory : Memory) (s : Store) :
    Option (Int × Store) :=
  let r := getHashTableIndex aNewKey false s
  if r.1 < 0 then some (0, r.2)
  else
    let tableIndex := r.1.toNat
    let r := addKeyToStore aNewKey tableIndex memory r.2
    if r.1 ≠ success then some (noMemory, r.2)
    else if !memory.value then some (noMemory, r.2)
    else
      let s := r.2
      if (s.iFieldVals tableIndex).length = 0 then
        some (success, (s.setVal tableIndex aNewValue).counted aNewValue)
      else if aNeedReplaceOldValue then
        let old := s.iFieldVals tableIndex
        let s := { s.setVal tableIndex aNewValue with
          iTotalKeyValueLength := s.iTotalKeyValueLength - UInt32.ofNat old.length
          iTotalNumberOfKeyValuePairs := s.iTotalNumberOfKeyValuePairs - 1 }
        some (success, s.counted aNewValue)
      else appendValue tableIndex aNewValue memory s

/-- The loop that removes a table index: the one behind a removed one is passed over. -/
def eraseIndices (found : Nat → Bool) : List Nat → List Nat
  | [] => []
  | [i] => if found i then [] else [i]
  | i :: j :: rest => if found i then j :: eraseIndices found rest else i :: eraseIndices found (j :: rest)

/-- `removeKeyValuePair`. -/
def removeKeyValuePair (aKey : Str) (s : Store) : Option Store :=
  (getNumberOfValuesByKey aKey s).map fun numValues =>
    if numValues = 0 then s
    else
      let tableIndex := (getHashTableIndex aKey true s).1.toNat
      let w := s.iFieldKeys tableIndex
      let lengths := w.iStr.length * numValues + (s.iFieldVals tableIndex).length +
        (w.iNext.map fun link => link.str.length).sum
      let s := { s with
        iTotalNumberOfKeyValuePairs := s.iTotalNumberOfKeyValuePairs - UInt32.ofNat numValues
        iTotalKeyValueLength := s.iTotalKeyValueLength - UInt32.ofNat lengths
        iFieldKeyTableIndexVector := eraseIndices (fun i => isCIEquivalentTo (s.iFieldKeys i).iStr aKey)
          s.iFieldKeyTableIndexVector }
      (s.setKey tableIndex noWrapper).setVal tableIndex []

/-! ## Runs -/

inductive Event
  | addKeyValuePair (aNewKey aNewValue : Str) (aNeedReplaceOldValue : Bool) (memory : Memory)
  | removeKeyValuePair (aKey : Str)
  | clear

/-- A key ignoring case. -/
def fold (key : Str) : Str := key.map lower

/-- The values of each key, as they have been added. -/
abbrev Multimap := Str → List Str

/-- A value is added, or put in the place of the first one. -/
def Multimap.add (m : Multimap) (key value : Str) (replace : Bool) : Multimap := fun k =>
  if k = fold key then (if replace then value :: (m k).tail else m k ++ [value]) else m k

def Multimap.remove (m : Multimap) (key : Str) : Multimap := fun k => if k = fold key then [] else m k

/-- The store, with what should be in it: the pairs of the calls that have returned
`StringKeyValueStore_Success`. -/
structure Session where
  store : Store
  added : Multimap

def newSession : Session := ⟨create, fun _ => []⟩

def handle (s : Session) : Event → Option Session
  | .addKeyValuePair key value replace memory =>
    (addKeyValuePair key value replace memory s.store).map fun r =>
      ⟨r.2, if r.1 = success then s.added.add key value replace else s.added⟩
  | .removeKeyValuePair key =>
    (removeKeyValuePair key s.store).map fun store => ⟨store, s.added.remove key⟩
  | .clear => some ⟨clear s.store, fun _ => []⟩

end Ftke.KeyValueStore
