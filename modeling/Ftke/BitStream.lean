import Ftke.Bits

/-!
# Ftke.BitStream

`BitStreamParser` (`bitstreamparser.h`, `bitstreamparser.cpp`): a cursor of a
byte and a bit position over a buffer, with reads and writes of up to 32 bits.

`start` holds the memory behind the pointer of that name, and `bytepos` is the
distance from it.  A function that leaves keeps the position it has reached, so
the routines run in `EStateM`.  `Leave.outside` is no leave of the source: it
stands for an access outside of the memory, which `WriteBits` does not check.
-/

namespace Ftke.BitStream

open Bits

/-- How a call ends other than by returning. -/
inductive Leave
  | errOverflow
  | outside
  deriving DecidableEq, Repr

/-- `BitStreamParser`; `bitpos` counts down from 7 to 0. -/
structure BitStreamParser where
  start : List UInt8
  size : Nat
  bytepos : Nat
  bitpos : Nat
  deriving DecidableEq, Repr

abbrev ParserM := EStateM Leave BitStreamParser

/-! ## The routines of the source -/

/-- `ResetBitStreamParser`. -/
def resetBitStreamParser (stream : List UInt8) (size : Nat) : BitStreamParser :=
  ⟨stream, size, 0, 7⟩

/-- `BITS_TO_BYTES`. -/
def bitsToBytes (bits : Nat) : Nat := (bits + 7) / 8

/-- `BitsLeft`, in 32-bit arithmetic. -/
def BitStreamParser.bitsLeft (s : BitStreamParser) : UInt32 :=
  ((UInt32.ofNat s.size - UInt32.ofNat s.bytepos) - 1) * 8 + (1 + UInt32.ofNat s.bitpos)

/-- `NextBits`: the position is moved before it is checked. -/
def nextBits (numberOfBits : UInt32) : ParserM Unit := fun s =>
  let newbitpos := numberOfBits + (7 - UInt32.ofNat s.bitpos)
  let s := { s with
    bitpos := 7 - newbitpos.toNat % 8
    bytepos := s.bytepos + newbitpos.toNat / 8 }
  if s.size ≤ s.bytepos then .error .errOverflow s else .ok () s

/-- `NextBit`. -/
def nextBit : ParserM Unit := fun s =>
  if s.bitpos ≠ 0 then .ok () { s with bitpos := s.bitpos - 1 }
  else if s.size ≤ s.bytepos then .error .errOverflow s
  else .ok () { s with bitpos := 7, bytepos := s.bytepos + 1 }

/-- The table of `ReadBits`. -/
def bitmask : List UInt8 := [0x00, 0x01, 0x03, 0x07, 0x0f, 0x1f, 0x3f, 0x7f, 0xff]

/-- The loop of `ReadBits`; every turn takes a bit at least, so
`fuel ≥ numberOfBits` never runs out. -/
def readLoop : Nat → Nat → UInt32 → ParserM UInt32
  | 0, _, output, s => .ok output s
  | fuel + 1, numberOfBits, output, s =>
    if numberOfBits = 0 then .ok output s
    else if s.size ≤ s.bytepos then .error .errOverflow s
    else
      match s.start[s.bytepos]? with
      | none => .error .outside s
      | some byte =>
        if 8 ≤ numberOfBits ∧ s.bitpos = 7 then
          readLoop fuel (numberOfBits - 8) ((output <<< 8) ||| byte.toUInt32)
            { s with bytepos := s.bytepos + 1 }
        else
          let bitsFromThisByte := min (s.bitpos + 1) numberOfBits
          let field := (byte >>> UInt8.ofNat (s.bitpos + 1 - bitsFromThisByte)) &&&
            bitmask.getD bitsFromThisByte 0
          match nextBits (UInt32.ofNat bitsFromThisByte) s with
          | .error e s => .error e s
          | .ok _ s => readLoop fuel (numberOfBits - bitsFromThisByte)
              ((output <<< UInt32.ofNat bitsFromThisByte) ||| field.toUInt32) s

/-- `ReadBits`. -/
def readBits (numberOfBits : UInt8) : ParserM UInt32 :=
  let numberOfBits := if numberOfBits > 32 then 32 else numberOfBits
  readLoop numberOfBits.toNat numberOfBits.toNat 0

/-- `ReadUInt8`. -/
def readUInt8 : ParserM UInt8 := fun s =>
  if s.bitpos ≠ 7 then
    match readBits 8 s with
    | .error e s => .error e s
    | .ok output s => .ok output.toUInt8 s
  else if s.size ≤ s.bytepos then .error .errOverflow s
  else
    match s.start[s.bytepos]? with
    | none => .error .outside s
    | some read => .ok read { s with bytepos := s.bytepos + 1 }

/-- `ReadUInt16`: the first byte read is the high one. -/
def readUInt16 : ParserM UInt16 := do
  let b0 ← readUInt8
  let b1 ← readUInt8
  return (b0.toUInt16 <<< 8) ||| b1.toUInt16

/-- `ReadUInt32`. -/
def readUInt32 : ParserM UInt32 := do
  let b0 ← readUInt8
  let b1 ← readUInt8
  let b2 ← readUInt8
  let b3 ← readUInt8
  return (b0.toUInt32 <<< 24) ||| (b1.toUInt32 <<< 16) ||| (b2.toUInt32 <<< 8) ||| b3.toUInt32

/-- The loop of `WriteBits`, with its own parser `input` over the data. -/
def writeLoop : Nat → BitStreamParser → ParserM Unit
  | 0, _, s => .ok () s
  | numberOfBits + 1, input, s =>
    match s.start[s.bytepos]? with
    | none => .error .outside s
    | some byte =>
      match readBits 1 input with
      | .error e _ => .error e s
      | .ok bit input =>
        let byte := (byte &&& ~~~(1 <<< UInt8.ofNat s.bitpos)) |||
          (bit <<< UInt32.ofNat s.bitpos).toUInt8
        match nextBit { s with start := s.start.set s.bytepos byte } with
        | .error e s => .error e s
        | .ok _ s => writeLoop numberOfBits input s

/-- `WriteBits`: the unused bits in front of the data are skipped. -/
def writeBits (numberOfBits : UInt8) (data : List UInt8) : ParserM Unit := fun s =>
  let input := resetBitStreamParser data (bitsToBytes numberOfBits.toNat)
  match nextBits (input.bitsLeft - numberOfBits.toUInt32) input with
  | .error e _ => .error e s
  | .ok _ input => writeLoop numberOfBits.toNat input s

/-- `WriteUInt8`. -/
def writeUInt8 (data : UInt8) : ParserM Unit := fun s =>
  if s.bitpos ≠ 7 then writeBits 8 [data] s
  else if s.size ≤ s.bytepos then .error .errOverflow s
  else if s.start.length ≤ s.bytepos then .error .outside s
  else .ok () { s with start := s.start.set s.bytepos data, bytepos := s.bytepos + 1 }

/-- `WriteUInt16`: the high byte first. -/
def writeUInt16 (data : UInt16) : ParserM Unit := do
  writeUInt8 (data >>> 8).toUInt8
  writeUInt8 data.toUInt8

/-- `WriteUInt32`. -/
def writeUInt32 (data : UInt32) : ParserM Unit := do
  writeUInt8 (data >>> 24).toUInt8
  writeUInt8 (data >>> 16).toUInt8
  writeUInt8 (data >>> 8).toUInt8
  writeUInt8 data.toUInt8

/-! ## Sequences of calls -/

/-- The reads. -/
inductive Read
  | readBits (numberOfBits : UInt8)
  | readUInt8
  | readUInt16
  | readUInt32
  deriving DecidableEq

/-- How many bits a read asks for. -/
def Read.width : Read → Nat
  | .readBits numberOfBits => numberOfBits.toNat
  | .readUInt8 => 8
  | .readUInt16 => 16
  | .readUInt32 => 32

/-- A read, its answer taken as a number. -/
def Read.exec : Read → ParserM Nat
  | .readBits numberOfBits => do return (← BitStream.readBits numberOfBits).toNat
  | .readUInt8 => do return (← BitStream.readUInt8).toNat
  | .readUInt16 => do return (← BitStream.readUInt16).toNat
  | .readUInt32 => do return (← BitStream.readUInt32).toNat

/-- The answers of a sequence of reads; a leave is trapped and the next read
goes on from where it was. -/
def readAll : List Read → BitStreamParser → List (Except Leave Nat)
  | [], _ => []
  | r :: reads, s =>
    match r.exec s with
    | .ok v s => .ok v :: readAll reads s
    | .error e s => .error e :: readAll reads s

/-- The writes. -/
inductive Write
  | writeBits (numberOfBits : UInt8) (data : List UInt8)
  | writeUInt8 (data : UInt8)
  | writeUInt16 (data : UInt16)
  | writeUInt32 (data : UInt32)

/-- A write. -/
def Write.exec : Write → ParserM Unit
  | .writeBits numberOfBits data => BitStream.writeBits numberOfBits data
  | .writeUInt8 data => BitStream.writeUInt8 data
  | .writeUInt16 data => BitStream.writeUInt16 data
  | .writeUInt32 data => BitStream.writeUInt32 data

/-- A sequence of writes, up to the first leave. -/
def writeAll : List Write → ParserM Unit
  | [] => pure ()
  | w :: writes => do
    w.exec
    writeAll writes

/-- The read of the same width. -/
def Write.read : Write → Read
  | .writeBits numberOfBits _ => .readBits numberOfBits
  | .writeUInt8 _ => .readUInt8
  | .writeUInt16 _ => .readUInt16
  | .writeUInt32 _ => .readUInt32

/-- The number a write writes: of the data of `WriteBits`, the low bits. -/
def Write.value : Write → Nat
  | .writeBits numberOfBits data =>
    ofBits ((bitsOf (data.take (bitsToBytes numberOfBits.toNat)))) % 2 ^ numberOfBits.toNat
  | .writeUInt8 data => data.toNat
  | .writeUInt16 data => data.toNat
  | .writeUInt32 data => data.toNat

/-- How many bits a sequence of writes takes. -/
def writtenBits (writes : List Write) : Nat := (writes.map fun w => w.read.width).sum

/-! ## What the reads are for -/

/-- The answers the bits of a buffer give to a sequence of reads: the next bits
as a number, or a leave when there are too few; nothing is left behind it. -/
def answers : List Bool → List Read → List (Except Leave Nat)
  | _, [] => []
  | bits, r :: reads =>
    if r.width ≤ bits.length then
      .ok (ofBits (bits.take r.width)) :: answers (bits.drop r.width) reads
    else .error .errOverflow :: answers [] reads

/-- The parser reads the bits of the buffer. -/
def ReadsAgree (buffer : List UInt8) (reads : List Read) : Prop :=
  readAll reads (resetBitStreamParser buffer buffer.length) = answers (bitsOf buffer) reads

/-- The writes return, the reads of the same widths give back what they wrote,
and all other bits are as they were. -/
def WritesBack (buffer : List UInt8) (writes : List Write) : Prop :=
  ∃ s, writeAll writes (resetBitStreamParser buffer buffer.length) = .ok () s ∧
    readAll (writes.map Write.read) (resetBitStreamParser s.start s.size) =
      writes.map (fun w => .ok w.value) ∧
    (bitsOf s.start).drop (writtenBits writes) = (bitsOf buffer).drop (writtenBits writes)

/-- A read that takes the rest of the last byte, and that byte from its middle. -/
def Read.TakesTail (total P : Nat) : Read → Prop
  | .readBits numberOfBits => P % 8 ≠ 0 ∧ P + numberOfBits.toNat = total ∧ numberOfBits.toNat < 8
  | .readUInt8 | .readUInt16 | .readUInt32 => False

instance (total P : Nat) : (r : Read) → Decidable (r.TakesTail total P)
  | .readBits numberOfBits => inferInstanceAs
      (Decidable (P % 8 ≠ 0 ∧ P + numberOfBits.toNat = total ∧ numberOfBits.toNat < 8))
  | .readUInt8 | .readUInt16 | .readUInt32 => inferInstanceAs (Decidable False)

/-- No read of the sequence, which begins at bit `P`, takes such a tail. -/
def NoTail (total : Nat) : Nat → List Read → Prop
  | _, [] => True
  | P, r :: reads => ¬ r.TakesTail total P ∧
      NoTail total (if P + r.width ≤ total then P + r.width else total) reads

instance (total : Nat) : (P : Nat) → (reads : List Read) → Decidable (NoTail total P reads)
  | _, [] => inferInstanceAs (Decidable True)
  | P, r :: reads =>
    have := instDecidableNoTail total (if P + r.width ≤ total then P + r.width else total) reads
    inferInstanceAs (Decidable (¬ r.TakesTail total P ∧ _))

/-- `WriteUInt8`, `WriteUInt16` or `WriteUInt32`. -/
def Write.Whole : Write → Prop
  | .writeBits _ _ => False
  | .writeUInt8 _ | .writeUInt16 _ | .writeUInt32 _ => True

end Ftke.BitStream
