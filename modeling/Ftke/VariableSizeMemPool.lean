import Ftke.Run
import Ftke.Tiling

/-!
# Ftke.VariableSizeMemPool

The pool of memory that is cut into chunks of different sizes
(`oscl_variablesize_mem_pool.h`): a list of free chunks, in which the first that is large
enough is taken, whole or in part, and a list of used ones.

The running average that decides about the cut is an argument (`aver`), and so is whether
a vector can grow (`room`).  Pointers do not wrap in the pool; lengths are `uint32`.
`OSCL_LEAVE` is a result without a pointer, or `false`, with the state it leaves behind.
-/

namespace Ftke.VariableSizeMemPool

/-! ## The pool -/

/-- `oscl_mem_aligned_size`. -/
def alignedSize (x : Nat) : Nat := if x % 8 ≠ 0 then (x / 8 * 8 + 8) % 2 ^ 32 else x

/-- An addition of `uint32`. -/
def add32 (a b : Nat) : Nat := (a + b) % 2 ^ 32

/-- `OsclMemPoolVariableChunkAllocator`; a `Chunk` is an `OsclMemoryFragment`. -/
structure Pool where
  iMaxPoolSize : Nat
  iMemPool : Nat
  iFreeMemChunkList : List Chunk
  iUsedMemChunkList : List Chunk
  deriving DecidableEq

/-- `createMempool` with a block of memory at `iMemPool`. -/
def createMempool (iMemPool : Nat) (maxPoolSize : UInt32) : Pool :=
  let iMaxPoolSize := alignedSize maxPoolSize.toNat
  ⟨iMaxPoolSize, iMemPool, [⟨iMemPool, iMaxPoolSize⟩], []⟩

def getTotalAvailableSize (s : Pool) : Nat := (s.iFreeMemChunkList.map Chunk.len).foldl add32 0

def getCurrMemoryUsage (s : Pool) : Nat := (s.iUsedMemChunkList.map Chunk.len).foldl add32 0

/-! ## Allocation -/

/-- `getFreeMemChunk`: the chunk and what stays free. -/
def getFreeMemChunk (alloc_size aver : Nat) : List Chunk → Option (Chunk × List Chunk)
  | [] => none
  | c :: free =>
    if c.len < alloc_size then (getFreeMemChunk alloc_size aver free).map fun r => (r.1, c :: r.2)
    else if c.len - alloc_size > aver then
      some (⟨c.ptr, alloc_size⟩, ⟨c.ptr + alloc_size, c.len - alloc_size⟩ :: free)
    else some (c, free)

/-- `allocateSanityCheck`. -/
def allocateSanityCheck (n : Nat) (s : Pool) : Bool := !(n > s.iMaxPoolSize) && !s.iFreeMemChunkList.isEmpty

/-- `allocate`; without room the chunk is in neither list. -/
def allocate (n : UInt32) (aver : Nat) (room : Bool) (s : Pool) : Option Nat × Pool :=
  let request_size := alignedSize n.toNat
  if !allocateSanityCheck request_size s then (none, s)
  else match getFreeMemChunk request_size aver s.iFreeMemChunkList with
    | none => (none, s)
    | some (memChunk, free) =>
      let s := { s with iFreeMemChunkList := free }
      if room then
        (some memChunk.ptr, { s with iUsedMemChunkList := s.iUsedMemChunkList ++ [memChunk] })
      else (none, s)

/-! ## Giving back -/

/-- `deallocateSanityCheck`. -/
def deallocateSanityCheck (p : Nat) (s : Pool) : Bool :=
  s.iMemPool ≤ p && p < s.iMemPool + s.iMaxPoolSize && !s.iUsedMemChunkList.isEmpty

/-- The loop of `searchSegmentContinuity`, from the indices found so far. -/
def searchSegmentContinuity (aMemChunk : Chunk) : Nat → List Chunk → Option Nat × Option Nat →
    Option Nat × Option Nat
  | _, [], found => found
  | i, c :: free, found =>
    let index_leftContinuity := if aMemChunk.ptr = c.fin then some i else found.1
    let index_rightContinuity := if aMemChunk.fin = c.ptr then some i else found.2
    if index_leftContinuity.isSome && index_rightContinuity.isSome then
      (index_leftContinuity, index_rightContinuity)
    else searchSegmentContinuity aMemChunk (i + 1) free (index_leftContinuity, index_rightContinuity)

/-- `doMerge`. -/
def doMerge (aMemChunk : Chunk) (room : Bool) (free : List Chunk) : Option Nat × Option Nat → Bool × List Chunk
  | (none, none) => if room then (true, free ++ [aMemChunk]) else (false, free)
  | (some left, some right) =>
    let len := add32 aMemChunk.len (free.getD right ⟨0, 0⟩).len
    (true, (free.modify left fun c => { c with len := add32 c.len len }).eraseIdx right)
  | (some left, none) => (true, free.modify left fun c => { c with len := add32 c.len aMemChunk.len })
  | (none, some right) => (true, free.modify right fun c => ⟨aMemChunk.ptr, add32 c.len aMemChunk.len⟩)

/-- `reclaim`. -/
def reclaim (aMemChunk : Chunk) (room : Bool) (free : List Chunk) : Bool × List Chunk :=
  if free.isEmpty then (if room then (true, [aMemChunk]) else (false, []))
  else doMerge aMemChunk room free (searchSegmentContinuity aMemChunk 0 free (none, none))

/-- `deallocate`; what cannot be reclaimed is in neither list. -/
def deallocate (p : Nat) (room : Bool) (s : Pool) : Bool × Pool :=
  if !deallocateSanityCheck p s then (false, s)
  else match s.iUsedMemChunkList.find? fun c => c.ptr = p with
    | none => (false, s)
    | some memChunk =>
      let r := reclaim memChunk room s.iFreeMemChunkList
      (r.1, { s with
        iFreeMemChunkList := r.2
        iUsedMemChunkList := s.iUsedMemChunkList.eraseP fun c => c.ptr = p })

/-- `reclaimUnusedPortion`: the used chunk stays as it is. -/
def reclaimUnusedPortion (aPtr : Nat) (aBytesToFree : UInt32) (room : Bool) (s : Pool) : Bool × Pool :=
  if !deallocateSanityCheck aPtr s then (false, s)
  else
    let r := reclaim ⟨aPtr, aBytesToFree.toNat⟩ room s.iFreeMemChunkList
    (r.1, { s with iFreeMemChunkList := r.2 })

/-! ## Runs -/

inductive Event
  | allocate (n : UInt32) (aver : Nat) (room : Bool)
  | deallocate (p : Nat) (room : Bool)
  | reclaimUnusedPortion (aPtr : Nat) (aBytesToFree : UInt32) (room : Bool)

/-- The pool, and the pointers that its user holds with the bytes asked for. -/
structure Session where
  pool : Pool
  live : List (Nat × Nat)

def newSession (iMemPool : Nat) (maxPoolSize : UInt32) : Session := ⟨createMempool iMemPool maxPoolSize, []⟩

def handle (s : Session) : Event → Session
  | .allocate n aver room =>
    let r := allocate n aver room s.pool
    ⟨r.2, s.live ++ r.1.toList.map fun p => (p, n.toNat)⟩
  | .deallocate p room => ⟨(deallocate p room s.pool).2, s.live.eraseP fun request => request.1 = p⟩
  | .reclaimUnusedPortion aPtr aBytesToFree room =>
    ⟨(reclaimUnusedPortion aPtr aBytesToFree room s.pool).2, s.live⟩

def step (s : Session) (event : Event) : Option Session := some (handle s event)

/-- What the user may call: memory is asked for by the byte, a pointer given back is held, and a
tail is that of a chunk held. -/
def Valid (s : Session) : Event → Prop
  | .allocate n _ _ => 0 < n
  | .deallocate p _ => ∃ request ∈ s.live, request.1 = p
  | .reclaimUnusedPortion aPtr aBytesToFree _ => ∃ request ∈ s.live, ∃ c ∈ s.pool.iUsedMemChunkList,
      c.ptr = request.1 ∧ c.ptr ≤ aPtr ∧ aPtr + aBytesToFree.toNat = c.fin

instance (s : Session) : ∀ event, Decidable (Valid s event)
  | .allocate n _ _ => inferInstanceAs (Decidable (0 < n))
  | .deallocate _ _ => by
    unfold Valid
    infer_instance
  | .reclaimUnusedPortion _ _ _ => by
    unfold Valid
    infer_instance

end Ftke.VariableSizeMemPool
