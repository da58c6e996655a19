import Mathlib.Algebra.Ring.Int.Defs
import Mathlib.Algebra.Ring.Nat
import Mathlib.Data.List.Basic

/-!
# Ftke.BinStream

`OsclBinIStream` (`oscl_bin_stream.h`, `oscl_bin_stream.inl`): reading integers
and byte strings from a buffer, or from an array of memory fragments as if it
were one.

Memory is the list of bytes of each fragment.  A pointer into the current block
is its offset, `nextFragPtr` the index of the fragment it points to.  Reading
outside a block, or a fragment outside the array, is undefined behaviour: the
routine answers `none`.
-/

namespace Ftke.BinStream

/-- Truncation to `uint32`. -/
def wrap32 (n : Nat) : Nat := n % 2 ^ 32

/-- `state_t`. -/
inductive StreamState
  | good | eof | fail
deriving DecidableEq

/-- The fields of `OsclBinStream`: `block` are the `length` bytes at
`pBasePosition`, `pos` is `pPosition - pBasePosition`, `nextFrag` is
`nextFragPtr - firstFragPtr` and `frags` the `numFrags` fragments at
`firstFragPtr`. -/
structure OsclBinStream where
  state : StreamState
  block : List UInt8
  pos : Nat
  nextFrag : Nat
  fragsLeft : Nat
  frags : List (List UInt8)
deriving DecidableEq

/-- The byte orders of the two derived classes. -/
inductive Endian
  | big | little
deriving DecidableEq

namespace Endian

/-- The value of the bytes of a `uint16`, in stream order. -/
def uint16 : Endian → List UInt8 → UInt16
  | big, bytes => bytes.foldl (fun result b => (result <<< 8) ||| b.toUInt16) 0
  | little, bytes => bytes.foldr (fun b result => (result <<< 8) ||| b.toUInt16) 0

/-- The value of the bytes of a `uint32`, in stream order. -/
def uint32 : Endian → List UInt8 → UInt32
  | big, bytes => bytes.foldl (fun result b => (result <<< 8) ||| b.toUInt32) 0
  | little, bytes => bytes.foldr (fun b result => (result <<< 8) ||| b.toUInt32) 0

end Endian

namespace OsclBinStream

/-- `Attach(buffer, l_length)`; `nextFragPtr` is not set. -/
def attach (s : OsclBinStream) (buffer : List UInt8) : OsclBinStream :=
  { s with fragsLeft := 0, block := buffer, pos := 0, state := .good, frags := [buffer] }

/-- `Attach(numFragments, fragPtr)`. -/
def attachFragments (s : OsclBinStream) : List (List UInt8) → Option OsclBinStream
  | [] => none
  | f :: fs =>
    some { state := .good, block := f, pos := 0, fragsLeft := fs.length, frags := f :: fs
           nextFrag := if fs = [] then s.nextFrag else 1 }

/-- `tellg`.  (The lengths of the fragments add up to less than `2^32`.) -/
def tellg (s : OsclBinStream) : Nat :=
  ((s.frags.take (s.frags.length - s.fragsLeft - 1)).map List.length).sum + s.pos

/-- The loop of `Seek`: the index of the fragment that holds the position, and
how many bytes come before it. -/
def seekLoop (absPosition : Nat) : List (List UInt8) → Nat → Nat → Nat × Nat
  | [], fragIndex, pos => (fragIndex, pos)
  | f :: fs, fragIndex, pos =>
    if absPosition ≥ pos + f.length then seekLoop absPosition fs (fragIndex + 1) (pos + f.length)
    else (fragIndex, pos)

/-- `Seek`. -/
def seek (s : OsclBinStream) (absPosition : Nat) : Option OsclBinStream :=
  let (fragIndex, pos) := seekLoop absPosition s.frags 0 0
  if fragIndex ≥ s.frags.length then
    s.frags[s.frags.length - 1]?.map fun f =>
      { s with fragsLeft := 0, block := f, pos := f.length
               state := if absPosition = pos then .eof else .fail }
  else
    s.frags[fragIndex]?.map fun f =>
      let s := { s with nextFrag := fragIndex + 1, fragsLeft := s.frags.length - fragIndex - 1
                        block := f }
      let reqBytes := absPosition - pos
      if reqBytes ≤ f.length then { s with pos := reqBytes }
      else { s with pos := f.length, state := .fail }

/-- `seekFromCurrentPosition`. -/
def seekFromCurrentPosition (s : OsclBinStream) (offset : Int32) : Option OsclBinStream :=
  s.seek ((s.tellg + offset.toInt) % 2 ^ 32).toNat

/-- `HaveRoomInCurrentBlock`; the sum is one of `uint32`. -/
def haveRoomInCurrentBlock (s : OsclBinStream) (size : Nat) : Bool × OsclBinStream :=
  let pos := wrap32 (s.pos + size)
  if pos < s.block.length then (true, s)
  else (pos ≤ s.block.length,
    if pos = s.block.length ∧ s.fragsLeft = 0 then { s with state := .eof } else s)

/-- `*pPosition++`. -/
def fetch (s : OsclBinStream) : Option (UInt8 × OsclBinStream) :=
  s.block[s.pos]?.map fun b => (b, { s with pos := s.pos + 1 })

/-- Moving to the next fragment. -/
def nextBlock (s : OsclBinStream) : Option OsclBinStream :=
  s.frags[s.nextFrag]?.map fun f =>
    { s with block := f, pos := 0, fragsLeft := s.fragsLeft - 1, nextFrag := s.nextFrag + 1 }

/-- `Read_uint8`. -/
def readUint8 (s : OsclBinStream) : Option (UInt8 × OsclBinStream) :=
  let (room, s) := s.haveRoomInCurrentBlock 1
  if room then s.fetch
  else if s.fragsLeft ≠ 0 then s.nextBlock.bind fetch
  else some (0, { s with state := .fail })

/-- A statement that reads a byte, `k` times over. -/
def repeatRead (read : OsclBinStream → Option (UInt8 × OsclBinStream)) :
    Nat → OsclBinStream → Option (List UInt8 × OsclBinStream)
  | 0, s => some ([], s)
  | k + 1, s => do
    let (b, s) ← read s
    let (bs, s) ← repeatRead read k s
    return (b :: bs, s)

/-- The bytes of an integer of `k` bytes: straight from the block when it holds
them all, one `Read_uint8` after the other otherwise. -/
def readBytes (s : OsclBinStream) (k : Nat) : Option (List UInt8 × OsclBinStream) :=
  let (room, s) := s.haveRoomInCurrentBlock k
  if room then repeatRead fetch k s else repeatRead readUint8 k s

/-- `Read_uint16`.  (Reading through a `uint16` pointer, where the byte order of
the machine is the stream's, gives the same value.) -/
def readUint16 (s : OsclBinStream) (e : Endian) : Option (UInt16 × OsclBinStream) :=
  (s.readBytes 2).map fun (bytes, s) => (e.uint16 bytes, s)

/-- `Read_uint32`. -/
def readUint32 (s : OsclBinStream) (e : Endian) : Option (UInt32 × OsclBinStream) :=
  (s.readBytes 4).map fun (bytes, s) => (e.uint32 bytes, s)

/-- The `while` loop of `get` over the `fragsLeft` fragments left; `data` is what
was copied so far. -/
def getLoop : Nat → List UInt8 → Nat → OsclBinStream → Option (List UInt8 × OsclBinStream)
  | 0, data, _, s => some (data, s)
  | fragsLeft + 1, data, bytesLeft, s =>
    if bytesLeft = 0 then some (data, s)
    else do
      let s ← s.nextBlock
      let bytesToCopy := if bytesLeft ≤ s.block.length then bytesLeft else s.block.length
      getLoop fragsLeft (data ++ s.block.take bytesToCopy) (bytesLeft - bytesToCopy)
        { s with pos := s.pos + bytesToCopy }

/-- `get`, with the bytes copied to `data`.  The `int32` size is converted to
`uint32` wherever it is used. -/
def get (s : OsclBinStream) (size : UInt32) : Option (List UInt8 × OsclBinStream) :=
  let (room, s) := s.haveRoomInCurrentBlock size.toNat
  if room then
    if s.pos + size.toNat ≤ s.block.length then
      some ((s.block.drop s.pos).take size.toNat, { s with pos := s.pos + size.toNat })
    else none
  else
    -- what is left of the block is copied, but `pPosition` stays
    let bytesToCopy := s.block.length - s.pos
    getLoop s.fragsLeft (s.block.drop s.pos) (size.toNat - bytesToCopy) s

end OsclBinStream

/-- The operations of a stream. -/
inductive Op
  | readUint8
  | readUint16
  | readUint32
  | get (size : UInt32)
  | seek (absPosition : UInt32)
  | seekFromCurrentPosition (offset : Int32)
  | tellg
deriving DecidableEq

/-- What an operation returns. -/
inductive Value
  | uint8 (v : UInt8)
  | uint16 (v : UInt16)
  | uint32 (v : UInt32)
  | bytes (data : List UInt8)
  | position (pos : Nat)
  | void
deriving DecidableEq

/-- Execute one operation. -/
def OsclBinStream.exec (e : Endian) (s : OsclBinStream) : Op → Option (Value × OsclBinStream)
  | .readUint8 => s.readUint8.map fun (v, s) => (.uint8 v, s)
  | .readUint16 => (s.readUint16 e).map fun (v, s) => (.uint16 v, s)
  | .readUint32 => (s.readUint32 e).map fun (v, s) => (.uint32 v, s)
  | .get size => (s.get size).map fun (data, s) => (.bytes data, s)
  | .seek absPosition => (s.seek absPosition.toNat).map fun s => (.void, s)
  | .seekFromCurrentPosition offset => (s.seekFromCurrentPosition offset).map fun s => (.void, s)
  | .tellg => some (.position s.tellg, s)

end Ftke.BinStream
