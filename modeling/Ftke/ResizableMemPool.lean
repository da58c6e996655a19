import Ftke.Run
import Ftke.VariableSizeMemPool

/-!
# Ftke.ResizableMemPool

`OsclMemPoolResizableAllocator` (`oscl_mem_mempool.cpp`): a pool of buffers, each cut into blocks with a header in
front, the free ones in a doubly linked list in the order of their addresses.

Addresses do not wrap; sizes are `uint32`.  The assertions are those of a release build, that is none, and the
calls of the observers are left out.  A result `none` is a loop that does not end or a header written outside the memory that
was allocated; `OSCL_LEAVE` is a result of its own, with the state that it leaves behind.
-/

namespace Ftke.ResizableMemPool

open VariableSizeMemPool (alignedSize add32)

/-! ## The pool -/

/-- A subtraction of `uint32`. -/
def sub32 (a b : Nat) : Nat := (a + (2 ^ 32 - b)) % 2 ^ 32

def prefencePattern : UInt32 := 0x55
def postfencePattern : UInt32 := 0xAA
def minBufferSize : Nat := 8
def defaultNumBlockPerBuffer : Nat := 10

/-- The aligned sizes of the two headers. -/
structure Layout where
  iBufferInfoAlignedSize : Nat
  iBlockInfoAlignedSize : Nat
  bufferInfo_dvd : 8 ∣ iBufferInfoAlignedSize
  blockInfo_dvd : 8 ∣ iBlockInfoAlignedSize
  bufferInfo_pos : 0 < iBufferInfoAlignedSize
  blockInfo_pos : 0 < iBlockInfoAlignedSize
  blockInfo_lt : iBlockInfoAlignedSize < 4096

/-- The header of a block; an address is that of another header. -/
structure MemPoolBlockInfo where
  iBlockPreFence : UInt32
  iNextFreeBlock : Option Nat
  iPrevFreeBlock : Option Nat
  iBlockSize : Nat
  iBlockBuffer : Nat
  iParentBuffer : Nat
  iBlockPostFence : UInt32

/-- The header of a buffer, but for its fences. -/
structure MemPoolBufferInfo where
  iStartAddr : Nat
  iEndAddr : Nat
  iBufferSize : Nat
  iNumOutstanding : Nat
  iNextFreeBlock : Option Nat
  iAllocatedSz : Nat

/-- What a pool is made with. -/
structure Config where
  layout : Layout
  iMemPoolBufferSize : UInt32
  iMemPoolBufferNumLimit : UInt32
  iExpectedNumBlocksPerBuffer : UInt32
  iMaxNewMemPoolBufferSz : UInt32
  iEnableNullPtrReturn : Bool

/-- `OsclMemPoolResizableAllocator`; `buffers` and `blocks` are the headers in memory, by their addresses. -/
structure Pool extends Config where
  iMemPoolBufferList : List Nat
  buffers : Nat → MemPoolBufferInfo
  blocks : Nat → MemPoolBlockInfo

namespace Pool

def bufferInfoSize (s : Pool) : Nat := s.layout.iBufferInfoAlignedSize

def blockInfoSize (s : Pool) : Nat := s.layout.iBlockInfoAlignedSize

def modifyBlock (s : Pool) (a : Nat) (f : MemPoolBlockInfo → MemPoolBlockInfo) : Pool :=
  { s with blocks := fun p => if p = a then f (s.blocks a) else s.blocks p }

def modifyBuffer (s : Pool) (b : Nat) (f : MemPoolBufferInfo → MemPoolBufferInfo) : Pool :=
  { s with buffers := fun p => if p = b then f (s.buffers b) else s.buffers p }

def setNext (s : Pool) (a : Nat) (next : Option Nat) : Pool :=
  s.modifyBlock a fun block => { block with iNextFreeBlock := next }

def setPrev (s : Pool) (a : Nat) (prev : Option Nat) : Pool :=
  s.modifyBlock a fun block => { block with iPrevFreeBlock := prev }

def setSize (s : Pool) (a : Nat) (size : Nat) : Pool :=
  s.modifyBlock a fun block => { block with iBlockSize := size }

/-- The first free block of a buffer. -/
def setFirst (s : Pool) (b : Nat) (first : Option Nat) : Pool :=
  s.modifyBuffer b fun buffer => { buffer with iNextFreeBlock := first }

def setAllocated (s : Pool) (b : Nat) (iAllocatedSz : Nat) : Pool :=
  s.modifyBuffer b fun buffer => { buffer with iAllocatedSz }

def nextFree (s : Pool) (a : Nat) : Option Nat := (s.blocks a).iNextFreeBlock

def prevFree (s : Pool) (a : Nat) : Option Nat := (s.blocks a).iPrevFreeBlock

def sizeAt (s : Pool) (a : Nat) : Nat := (s.blocks a).iBlockSize

def parentAt (s : Pool) (a : Nat) : Nat := (s.blocks a).iParentBuffer

/-- Whether a list of free blocks has one of a size, from a block on. -/
def scanFree (s : Pool) (aBlockAlignedSize : Nat) : Nat → Option Nat → Option (Option Nat)
  | _, none => some none
  | 0, some _ => none
  | fuel + 1, some a =>
    if s.sizeAt a ≥ aBlockAlignedSize then some (some a)
    else scanFree s aBlockAlignedSize fuel (s.nextFree a)

/-- The loop of `findfreeblock` over the buffers. -/
def findIn (s : Pool) (aBlockAlignedSize : Nat) : List Nat → Option (Option Nat)
  | [] => some none
  | b :: bs =>
    match s.scanFree aBlockAlignedSize (s.buffers b).iBufferSize (s.buffers b).iNextFreeBlock with
    | none => none
    | some (some a) => some (some a)
    | some none => findIn s aBlockAlignedSize bs

def findfreeblock (s : Pool) (aBlockAlignedSize : Nat) : Option (Option Nat) :=
  s.findIn aBlockAlignedSize s.iMemPoolBufferList

/-- The part of `allocateblock` that takes a block out of the list. -/
def unlink (s : Pool) (a : Nat) : Pool :=
  let s :=
    match s.prevFree a, s.nextFree a with
    | none, some next => (s.setPrev next none).setFirst (s.parentAt a) (some next)
    | some prev, none => s.setNext prev none
    | none, none => s.setFirst (s.parentAt a) none
    | some prev, some next => (s.setNext prev (some next)).setPrev next (some prev)
  (s.setNext a none).setPrev a none

/-! ## Freeing a block -/

/-- The loop of `deallocateblock`: the free blocks left and right of an address. -/
def findSides (s : Pool) (a : Nat) : Nat → Option Nat → Option Nat → Option (Option Nat × Option Nat)
  | _, left, none => some (left, none)
  | 0, _, some _ => none
  | fuel + 1, left, some right =>
    if a < right then some (left, some right) else findSides s a fuel (some right) (s.nextFree right)

/-- The address behind a block. -/
def behind (s : Pool) (a : Nat) : Nat := a + s.sizeAt a

/-- A block grows over those between it and a free block, or the end of the list. -/
def absorb (s : Pool) (a size : Nat) (next : Option Nat) : Pool :=
  let s := s.setSize a size
  let s := next.elim s fun next => s.setPrev next (some a)
  s.setNext a next

/-- The merging of a block that is freed with its neighbours in the list. -/
def merge (s : Pool) (a : Nat) : Pool :=
  let leftadj := (s.prevFree a).any fun left => s.behind left = a
  let rightadj := (s.nextFree a).any fun right => s.behind a = right
  match leftadj, rightadj, s.prevFree a, s.nextFree a with
  | false, true, _, some right =>
    s.absorb a (add32 (s.sizeAt a) (s.sizeAt right)) (s.nextFree right)
  | true, false, some left, _ =>
    s.absorb left (add32 (s.sizeAt left) (s.sizeAt a)) (s.nextFree a)
  | true, true, some left, some right =>
    s.absorb left (add32 (s.sizeAt left) (add32 (s.sizeAt a) (s.sizeAt right))) (s.nextFree right)
  | _, _, _, _ => s

/-- The size of a block is no longer allocated. -/
def giveBack (s : Pool) (a : Nat) : Pool :=
  let b := s.parentAt a
  s.setAllocated b (sub32 (s.buffers b).iAllocatedSz (s.sizeAt a))

/-- A block is linked in between two free blocks. -/
def linkIn (s : Pool) (a : Nat) : Option Nat → Option Nat → Pool
  | none, none => ((s.setFirst (s.parentAt a) (some a)).setNext a none).setPrev a none
  | some left, none => ((s.setNext left (some a)).setPrev a (some left)).setNext a none
  | none, some right =>
    (((s.setFirst (s.parentAt a) (some a)).setPrev right (some a)).setPrev a none).setNext a (some right)
  | some left, some right =>
    (((s.setNext left (some a)).setPrev right (some a)).setPrev a (some left)).setNext a (some right)

/-- Whether a block overlaps with the free blocks beside it. -/
def overlaps (s : Pool) (a : Nat) (left right : Option Nat) : Bool :=
  (left.any fun left => s.behind left > a) || right.any fun right => s.behind a > right

/-- `deallocateblock`; whether it comes to its end without leaving. -/
def deallocateblock (s : Pool) (a : Nat) : Option (Bool × Pool) :=
  let b := s.parentAt a
  match s.findSides a (s.buffers b).iBufferSize none (s.buffers b).iNextFreeBlock with
  | none => none
  | some (left, right) =>
    if s.overlaps a left right then some (false, s)
    else
      let s := (s.linkIn a left right).giveBack a
      some (true, if left.isNone && right.isNone then s else s.merge a)

/-- `validateblock`. -/
def validateblock (s : Pool) (aBlockBufPtr : Nat) : Bool :=
  let chkblock := s.blocks (aBlockBufPtr - s.blockInfoSize)
  let parentbuffer := s.buffers chkblock.iParentBuffer
  (s.iMemPoolBufferList.any fun b =>
    aBlockBufPtr > (s.buffers b).iStartAddr ∧ aBlockBufPtr < (s.buffers b).iEndAddr) &&
  chkblock.iBlockPreFence = prefencePattern && chkblock.iBlockPostFence = postfencePattern &&
  s.iMemPoolBufferList.contains chkblock.iParentBuffer &&
  parentbuffer.iStartAddr ≤ aBlockBufPtr && aBlockBufPtr ≤ parentbuffer.iEndAddr &&
  s.behind (aBlockBufPtr - s.blockInfoSize) ≤ parentbuffer.iEndAddr + 1

/-- The pool frees a block that is given back; `false` if it leaves. -/
def deallocate (s : Pool) (aPtr : Nat) : Option (Bool × Pool) :=
  if !s.validateblock aPtr then some (false, s)
  else
    let a := aPtr - s.blockInfoSize
    match s.deallocateblock a with
    | some (true, s) =>
      some (true, s.modifyBuffer (s.parentAt a) fun buffer =>
        { buffer with iNumOutstanding := sub32 buffer.iNumOutstanding 1 })
    | r => r

/-- The bytes that `trim` frees of those it is asked to. -/
def alignedToFree (aBytesToFree : Nat) : Nat :=
  if alignedSize aBytesToFree > aBytesToFree then alignedSize aBytesToFree - 8 else alignedSize aBytesToFree

/-- The header that is written for a free block. -/
def header (s : Pool) (a size parent : Nat) : MemPoolBlockInfo where
  iBlockPreFence := prefencePattern
  iNextFreeBlock := none
  iPrevFreeBlock := none
  iBlockSize := size
  iBlockBuffer := a + s.blockInfoSize
  iParentBuffer := parent
  iBlockPostFence := postfencePattern

def writeHeader (s : Pool) (a size parent : Nat) : Pool := s.modifyBlock a fun _ => s.header a size parent

/-- `trim`; `none` if it leaves, else what it returns. -/
def trim (s : Pool) (aPtr aBytesToFree : Nat) : Option (Option Bool × Pool) :=
  let alignedbytestofree := alignedToFree aBytesToFree
  if !s.validateblock aPtr then some (none, s)
  else
    let resizeblock := aPtr - s.blockInfoSize
    if sub32 (s.sizeAt resizeblock) s.blockInfoSize < alignedbytestofree then some (none, s)
    else if alignedbytestofree < s.blockInfoSize + minBufferSize then some (some false, s)
    else
      let freeblock := s.behind resizeblock - alignedbytestofree
      match (s.writeHeader freeblock alignedbytestofree (s.parentAt resizeblock)).deallocateblock
        freeblock with
      | none => none
      | some (false, s) => some (none, s)
      | some (true, s) =>
        some (some true, s.setSize resizeblock (sub32 (s.sizeAt resizeblock) alignedbytestofree))

/-! ## Allocating -/

/-- `allocateblock`; the pointer, or `none` if it leaves. -/
def allocateblock (s : Pool) (a aNumAlignedBytes : Nat) : Option (Option Nat × Pool) :=
  if aNumAlignedBytes = 0 then some (none, s)
  else
    let s := s.unlink a
    let b := s.parentAt a
    let s := s.setAllocated b (add32 (s.buffers b).iAllocatedSz (s.sizeAt a))
    let extraspace := sub32 (sub32 (s.sizeAt a) s.blockInfoSize) aNumAlignedBytes
    if extraspace > s.blockInfoSize + minBufferSize then
      match s.trim (s.blocks a).iBlockBuffer extraspace with
      | none => none
      | some (none, s) => some (none, s)
      | some (some _, s) => some (some (s.blocks a).iBlockBuffer, s)
    else some (some (s.blocks a).iBlockBuffer, s)

/-- The size of a buffer for so many bytes. -/
def bufferSizeFor (s : Pool) (bytes : Nat) : Nat :=
  let blocks :=
    if s.iExpectedNumBlocksPerBuffer > 0 then s.iExpectedNumBlocksPerBuffer.toNat else defaultNumBlockPerBuffer
  add32 (add32 bytes s.bufferInfoSize) (blocks * s.blockInfoSize % 2 ^ 32)

/-- The size of a new buffer for a request. -/
def newBufferSize (s : Pool) (alignednumbytes : Nat) : Nat :=
  if alignednumbytes > s.iMemPoolBufferSize.toNat then s.bufferSizeFor alignednumbytes
  else s.bufferSizeFor (alignedSize s.iMemPoolBufferSize.toNat)

/-- The checks before a new buffer is made; a buffer with no block in use may be given up for it. -/
def makeRoom (s : Pool) (alignednumbytes : Nat) : Option Pool :=
  let full := s.iMemPoolBufferNumLimit > 0 ∧ s.iMemPoolBufferList.length ≥ s.iMemPoolBufferNumLimit.toNat
  if s.iMemPoolBufferNumLimit > 0 ∧ s.iMaxNewMemPoolBufferSz > 0 ∧
      s.iMaxNewMemPoolBufferSz.toNat < alignednumbytes then none
  else if full then
    if alignednumbytes > s.iMemPoolBufferSize.toNat ∧
        s.iMemPoolBufferList.any (fun b => (s.buffers b).iNumOutstanding = 0) then
      some { s with iMemPoolBufferList := s.iMemPoolBufferList.eraseP fun b => (s.buffers b).iNumOutstanding = 0 }
    else none
  else some s

/-- The headers of a new buffer and of its block, and its place in the list. -/
def withBuffer (s : Pool) (newbuffer aBufferAlignedSize : Nat) : Pool :=
  let start := newbuffer + s.bufferInfoSize
  let s := s.modifyBuffer newbuffer fun _ =>
    { iStartAddr := start
      iEndAddr := newbuffer + aBufferAlignedSize - 1
      iBufferSize := aBufferAlignedSize
      iNumOutstanding := 0
      iNextFreeBlock := some start
      iAllocatedSz := 0 }
  let s := s.writeHeader start (aBufferAlignedSize - s.bufferInfoSize) newbuffer
  { s with iMemPoolBufferList := newbuffer :: s.iMemPoolBufferList }

/-- `addnewmempoolbuffer` with memory at an address. -/
def addnewmempoolbuffer (s : Pool) (newbuffer aBufferAlignedSize : Nat) : Option Pool :=
  if aBufferAlignedSize < s.bufferInfoSize + s.blockInfoSize then none
  else some (s.withBuffer newbuffer aBufferAlignedSize)

/-- What `allocate` comes to. -/
inductive Allocated
  | pointer (p : Nat)
  | null
  | leave
  deriving DecidableEq

/-- A free block is used. -/
def useBlock (s : Pool) (a alignednumbytes : Nat) : Option (Allocated × Pool) :=
  match s.allocateblock a alignednumbytes with
  | none => none
  | some (none, s) => some (.leave, s)
  | some (some bufptr, s) =>
    some (.pointer bufptr, s.modifyBuffer (s.parentAt a) fun buffer =>
      { buffer with iNumOutstanding := add32 buffer.iNumOutstanding 1 })

/-- `allocate`; `newbuffer` is the memory there is for a new buffer. -/
def allocate (s : Pool) (aNumBytes : UInt32) (newbuffer : Option Nat) : Option (Allocated × Pool) :=
  let alignednumbytes := alignedSize aNumBytes.toNat
  if aNumBytes = 0 then some (.leave, s)
  else if add32 alignednumbytes s.blockInfoSize = 0 then some (.leave, s)
  else
    match s.findfreeblock (add32 alignednumbytes s.blockInfoSize) with
    | none => none
    | some (some freeblock) => s.useBlock freeblock alignednumbytes
    | some none =>
      match s.makeRoom alignednumbytes with
      | none => some (if s.iEnableNullPtrReturn then .null else .leave, s)
      | some room =>
        match newbuffer with
        | none => some (.leave, room)
        | some newbuffer =>
          match room.addnewmempoolbuffer newbuffer (s.newBufferSize alignednumbytes) with
          | none => none
          | some s => s.useBlock (newbuffer + s.bufferInfoSize) alignednumbytes

end Pool

/-- The constructor, with memory for the first buffer. -/
def construct (config : Config) (newbuffer : Nat) : Option Pool :=
  let s : Pool :=
    { config with
      iMemPoolBufferList := []
      buffers := fun _ => ⟨0, 0, 0, 0, none, 0⟩
      blocks := fun _ => ⟨0, none, none, 0, 0, 0, 0⟩ }
  s.addnewmempoolbuffer newbuffer (s.bufferSizeFor (alignedSize config.iMemPoolBufferSize.toNat))

end Ftke.ResizableMemPool
