import Ftke.KeyValueStore.Copy
import Ftke.VariableSizeMemPool

/-!
# Ftke.HttpHeaderStore

The header store of the HTTP parser with the pool its keys and values are in, and how
`addKeyValuePairToStore` makes it grow (`http_parser.cpp`): when the pool is short of
memory, a new store with a pool of twice the size gets the pairs of the old one.

The pool cuts a chunk if what is left of it is larger than the average of the sizes that
have been allocated.  The average is a floating-point number; how it comes from the
sizes is a parameter (`average`).  All allocations from the heap succeed.
-/

namespace Ftke.HttpHeaderStore

open VariableSizeMemPool
open KeyValueStore (Str getHashTableIndex getValueByKey getNumberOfValuesByKey getCurrentKeyList
  getNumberOfKeys success)

/-! ## The store and its pool -/

/-- `StringKeyValueStore`: `sizes` are those that the pool has allocated, `location` is where the
first values are. -/
structure HeaderStore where
  table : KeyValueStore.Store
  pool : Pool
  sizes : List Nat
  location : Nat → Nat

/-- `create`, with a block of memory at `iMemPool`. -/
def create (aStoreSize : UInt32) (iMemPool : Nat) : Option HeaderStore :=
  if aStoreSize = 0 then none
  else some ⟨KeyValueStore.create, createMempool iMemPool aStoreSize, [], fun _ => 0⟩

def getCurrentMemoryUsage (s : HeaderStore) : UInt32 := UInt32.ofNat (getCurrMemoryUsage s.pool)

def getStoreSize (s : HeaderStore) : UInt32 := UInt32.ofNat s.pool.iMaxPoolSize

/-- `STRINGKEYVALUESTOREOVERHEAD`. -/
def overhead : UInt32 := 100

def getAvailableSize (s : HeaderStore) : UInt32 := UInt32.ofNat (getTotalAvailableSize s.pool) - overhead

section

variable (average : List Nat → Nat)

/-- `storeNewKeyValueItem`: the new location, if there is one. -/
def storeNewKeyValueItem (aItemLength : Nat) (s : HeaderStore) : Option Nat × HeaderStore :=
  let r := allocate (UInt32.ofNat (aItemLength + 1)) (average s.sizes) true s.pool
  let size := if r.1.isSome then (r.2.iUsedMemChunkList.getLast?.map Chunk.len).toList else []
  (r.1, { s with pool := r.2, sizes := s.sizes ++ size })

/-- The table index, unless there is none. -/
def indexForAdding (aNewKey : Str) (s : HeaderStore) : Option Nat :=
  let index := (getHashTableIndex aNewKey false s.table).1
  if index < 0 then none else some index.toNat

/-- `addKeyValuePair`. -/
def addKeyValuePair (aNewKey aNewValue : Str) (aNeedReplaceOldValue : Bool) (s : HeaderStore) :
    Option (Int × HeaderStore) :=
  match indexForAdding aNewKey s with
  | none => (KeyValueStore.addKeyValuePair aNewKey aNewValue aNeedReplaceOldValue KeyValueStore.enough s.table).map
      fun r => (r.1, { s with table := r.2 })
  | some tableIndex =>
    -- the key, if it is new, and the value
    let key := if (s.table.iFieldKeys tableIndex).empty then storeNewKeyValueItem average aNewKey.length s
      else (some 0, s)
    let value := if key.1.isSome then storeNewKeyValueItem average aNewValue.length key.2 else (none, key.2)
    (KeyValueStore.addKeyValuePair aNewKey aNewValue aNeedReplaceOldValue
        ⟨true, key.1.isSome, value.1.isSome, true⟩ s.table).map fun r =>
      let s' := { value.2 with table := r.2 }
      match value.1 with
      | none => (r.1, s')
      | some newLocation =>
        let location := fun i => if i = tableIndex then newLocation else s'.location i
        if (s.table.iFieldVals tableIndex).length = 0 then (r.1, { s' with location := location })
        else if aNeedReplaceOldValue then
          -- `releaseOldKeyValueItem`
          (r.1, { s' with
            pool := (deallocate (s.location tableIndex) true s'.pool).2
            location := location })
        else (r.1, s')

/-! ## Growing -/

/-- The loop of `copy` over the values of a key, from the value `j` on. -/
def copyValues (aStore : KeyValueStore.Store) (key : Str) : Nat → Nat → HeaderStore → Option (Bool × HeaderStore)
  | 0, _, s => some (true, s)
  | count + 1, j, s =>
    (getValueByKey key j aStore).bind fun fieldValue =>
      if !fieldValue.1 then some (false, s)
      else
        (addKeyValuePair average key fieldValue.2 false s).bind fun r =>
          if r.1 ≠ success then some (false, r.2) else copyValues aStore key count (j + 1) r.2

/-- The loop of `copy` over the keys, from the key `i` on; an element behind the list is a fault. -/
def copyKeys (aStore : KeyValueStore.Store) (keyList : List Str) :
    Nat → Nat → HeaderStore → Option (Bool × HeaderStore)
  | 0, _, s => some (true, s)
  | count + 1, i, s =>
    keyList[i]?.bind fun key =>
      (getNumberOfValuesByKey key aStore).bind fun numValuesByKey =>
        (copyValues average aStore key numValuesByKey 0 s).bind fun r =>
          if r.1 then copyKeys aStore keyList count (i + 1) r.2 else some r

/-- `copy`. -/
def copy (aStore : KeyValueStore.Store) (s : HeaderStore) : Option (Bool × HeaderStore) :=
  let numKeyValuePairs := aStore.iTotalNumberOfKeyValuePairs.toNat
  if numKeyValuePairs = 0 ∨ getNumberOfKeys aStore = 0 then some (true, s)
  else copyKeys average aStore (getCurrentKeyList aStore) numKeyValuePairs 0 s

/-- `OSCL_MAX`. -/
def osclMax (a b : UInt32) : UInt32 := if a > b then a else b

/-- `reallocKeyValueStore`. -/
def reallocKeyValueStore (aCurrKeyValueSize : UInt32) (iMemPool : Nat) (s : HeaderStore) :
    Option (Bool × HeaderStore) :=
  let miniSize := getCurrentMemoryUsage s + aCurrKeyValueSize
  let aNewStoreSize := osclMax miniSize (getStoreSize s) <<< 1
  match create aNewStoreSize iMemPool with
  | none => some (false, s)
  | some aKeyValueStore => (copy average s.table aKeyValueStore).map fun r => if r.1 then (true, r.2) else (false, s)

def parseSuccess : Int := 0
def parseGeneralError : Int := -1
def parseMemoryAllocationFailure : Int := -5

/-- `StringKeyValueStore_Failure`. -/
def storeFailure : Int := -1

/-- `addKeyValuePairToStore`; the memory of a new pool is at `iMemPool`. -/
def addKeyValuePairToStore (aFieldKey aFieldValue : Str) (aNeedReplaceOldValue : Bool) (iMemPool : Nat)
    (s : HeaderStore) : Option (Int × HeaderStore) :=
  let size := UInt32.ofNat aFieldKey.length + UInt32.ofNat aFieldValue.length
  if size < getAvailableSize s then
    (addKeyValuePair average aFieldKey aFieldValue aNeedReplaceOldValue s).map fun r =>
      (if r.1 ≠ 0 then parseGeneralError else parseSuccess, r.2)
  else
    (reallocKeyValueStore average size iMemPool s).bind fun r =>
      if !r.1 then some (parseMemoryAllocationFailure, r.2)
      else
        (addKeyValuePair average aFieldKey aFieldValue aNeedReplaceOldValue r.2).map fun r =>
          (if r.1 = storeFailure then parseGeneralError else parseSuccess, r.2)

/-! ## Runs -/

/-- A header field is added. -/
structure Event where
  key : Str
  value : Str
  replace : Bool
  iMemPool : Nat

/-- The store, with the fields of the calls and what they have returned. -/
structure Session where
  store : HeaderStore
  added : List (Str × Str)
  results : List Int

/-- `KEYVALUESTORE_MAX_SIZE`. -/
def maxSize : UInt32 := 4000

/-- A parser, with its first pool at `iMemPool`. -/
def newSession (iMemPool : Nat) : Session :=
  ⟨⟨KeyValueStore.create, createMempool iMemPool maxSize, [], fun _ => 0⟩, [], []⟩

def handle (s : Session) (event : Event) : Option Session :=
  (addKeyValuePairToStore average event.key event.value event.replace event.iMemPool s.store).map fun r =>
    ⟨r.2, s.added ++ [(event.key, event.value)], s.results ++ [r.1]⟩

end

end Ftke.HttpHeaderStore
