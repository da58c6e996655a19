import Ftke.Bits
import Mathlib.Algebra.Ring.Int.Defs

/-!
# Ftke.GenericPer

The input stream of the generic PER routines of H.245 (`genericper.cpp`), on a little-endian
host, and the `Get` functions of integers and lengths.

The stream is a cursor in memory, `mem`, which goes on behind the octets of the message.
`Stop.overrun` is no leave of the source: it stands for a write outside of a `uint32`.
-/

namespace Ftke.GenericPer

open Bits

/-- How a call ends other than by returning. -/
inductive Stop
  | leave (msg : String)
  | overrun
  deriving DecidableEq, Repr

/-! ## The input stream -/

/-- The octets of a number on the host: up to four octets are reordered. -/
def ordered (reorder : Bool) (octets : List UInt8) : List UInt8 :=
  if octets.length ≤ 4 ∧ reorder then octets.reverse else octets

/-- The width of a bit field; `range` is at most 255. -/
def fieldWidth (range : Int) : Nat :=
  if range ≤ 2 then 1 else if range ≤ 4 then 2 else if range ≤ 8 then 3 else if range ≤ 16 then 4
  else if range ≤ 32 then 5 else if range ≤ 64 then 6 else if range ≤ 128 then 7 else 8

/-- `S_InStream`: `data` is counted from the first octet of the message. -/
structure InStream where
  data : Nat
  bitIndex : Nat
  deriving DecidableEq, Repr

/-- `MaskBit`. -/
def maskBit : List UInt8 := [0xff, 0x7f, 0x3f, 0x1f, 0x0f, 0x07, 0x03, 0x01]

/-- `ReadRemainingBits`. -/
def readRemainingBits (s : InStream) : InStream :=
  if s.bitIndex ≠ 0 then ⟨s.data + 1, 0⟩ else s

section
variable (mem : Nat → UInt8)

/-- `ReadBits`. -/
def readBits (number : Nat) (s : InStream) : Except Stop (UInt8 × InStream) :=
  if number > 8 then .error (.leave "ReadBits(): Max number (8) exceeded")
  else
    let bitSize := s.bitIndex + number
    let mask := maskBit.getD s.bitIndex 0
    let x := mem s.data &&& mask
    if bitSize > 8 then
      let nextBit := bitSize - 8
      let x := UInt8.ofNat (x.toNat <<< nextBit)
      .ok (x ||| UInt8.ofNat ((mem (s.data + 1) &&& ~~~mask).toNat >>> (8 - nextBit)),
        ⟨s.data + 1, nextBit⟩)
    else if bitSize < 8 then .ok (UInt8.ofNat (x.toNat >>> (8 - bitSize)), ⟨s.data, bitSize⟩)
    else .ok (x, ⟨s.data + 1, 0⟩)

/-- `ReadOctets`. -/
def readOctets (number : Nat) (reorder : Bool) (s : InStream) : List UInt8 × InStream :=
  let s := readRemainingBits s
  (ordered reorder ((List.range number).map fun i => mem (s.data + i)), ⟨s.data + number, s.bitIndex⟩)

/-- The `uint32` that was zero before its first octets were stored. -/
def stored (octets : List UInt8) : UInt32 :=
  octets.foldr (fun octet v => v * 256 + octet.toUInt32) 0

/-- `ReadOctets` to a `uint32`. -/
def readWord (number : Nat) (s : InStream) : Except Stop (UInt32 × InStream) :=
  if number > 4 then .error .overrun
  else .ok (stored (readOctets mem number true s).1, (readOctets mem number true s).2)

/-! ## Get -/

/-- What `GetInteger` and `GetSignedInteger` read, for the range of their type. -/
def getOffset (range : Int) (s : InStream) : Except Stop (UInt32 × InStream) :=
  if range < 256 then (readBits mem (fieldWidth range) s).map fun r => (r.1.toUInt32, r.2)
  else if range = 256 then readWord mem 1 s
  else if range ≤ 65536 then readWord mem 2 s
  else (readBits mem 2 s).bind fun r => readWord mem (r.1.toNat + 1) r.2

/-- `GetInteger`. -/
def getInteger (lower upper : UInt32) (s : InStream) : Except Stop (UInt32 × InStream) :=
  let range := upper - lower + 1
  if lower > upper then .error (.leave "GetInteger(): Range is negative.")
  else if range = 0 then (readBits mem 2 s).bind fun r => readWord mem (r.1.toNat + 1) r.2
  else if range = 1 then .ok (lower, s)
  else
    (getOffset mem range.toNat s).bind fun r =>
      if lower + r.1 > upper then
        .error (.leave (if range < 256 then "GetInteger(): Integer exceeds range"
          else "GetInteger(): exceeds range"))
      else .ok (lower + r.1, r.2)

/-- `GetSignedInteger`. -/
def getSignedInteger (lower upper : Int32) (s : InStream) : Except Stop (Int32 × InStream) :=
  let range := upper - lower + 1
  if lower > upper then .error (.leave "GetSignedInteger(): Range is negative.")
  else if range = 0 then .error (.leave "GetSignedInteger(): Range is zero.")
  else if range = 1 then .ok (lower, s)
  else
    (getOffset mem range.toInt s).bind fun r =>
      if lower + r.1.toInt32 > upper then
        .error (.leave (if range < 256 then "GetSignedInteger(): Integer exceeds range"
          else "GetSignedInteger(): GetInteger exceeds range"))
      else .ok (lower + r.1.toInt32, r.2)

/-- `GetLengthDet`. -/
def getLengthDet (s : InStream) : Except Stop (UInt32 × InStream) :=
  let r := readOctets mem 1 false s
  let byte1 := r.1.getD 0 0
  if byte1 &&& 0x80 = 0 then .ok (byte1.toUInt32, r.2)
  else if byte1 &&& 0x40 = 0 then
    let r := readOctets mem 1 false r.2
    let byte2 := r.1.getD 0 0
    .ok (((byte1 &&& 0x3f).toUInt32 <<< 8) + byte2.toUInt32, r.2)
  else .error (.leave "GetLengthDet(): Fragmented Length Dets Not Supported.")

/-- `GetUnboundedInteger`. -/
def getUnboundedInteger (s : InStream) : Except Stop (UInt32 × InStream) :=
  (getLengthDet mem s).bind fun r =>
    let nbytes := r.1
    (readWord mem nbytes.toNat r.2).bind fun r =>
      if (nbytes = 1 ∧ r.1 ≥ 0x7f) ∨ (nbytes = 2 ∧ r.1 ≥ 0x8000) ∨ (nbytes = 3 ∧ r.1 ≥ 0x800000) ∨
          (nbytes = 4 ∧ r.1 ≥ 0x80000000) then
        .error (.leave "GetUnboundedInteger: Found a negative value!")
      else .ok r

end

end Ftke.GenericPer
