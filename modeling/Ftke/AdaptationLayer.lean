import Ftke.Crc

/-!
# Ftke.AdaptationLayer

`AdaptationLayer2` and `AdaptationLayer3` (`adaptationlayer.h`,
`adaptationlayer.cpp`): a sequence number in front of an SDU and a checksum
behind it, put on by `CompletePacket` and taken off by `ParsePacket`.

An allocation that fails makes `CompletePacket` return before it has changed
anything, and the SDU is not sent; the model is of the calls that go through.
`none` stands for an access outside of the memory of a fragment or, in
`AdaptationLayer3::ParsePacket`, of the array `frags`.
-/

namespace Ftke.AdaptationLayer

open MediaData Crc

/-- `PV2WAY_MAX_PACKET_MEM_FRAG`. -/
def maxPacketMemFrag : Nat := 32

/-- `IncomingALPduInfo`. -/
structure IncomingALPduInfo where
  sdu_size : Int
  crc_error : Bool
  seq_num_error : Int
  deriving DecidableEq

/-- The fields that both layers have: the size of the header, and the next
sequence number to send or the one that is expected. -/
structure Layer where
  iSNPos : Nat
  iSeqNum : Nat
  deriving DecidableEq

/-- The conversion of a size to `uint16` and from there to `int16`. -/
def int16 (n : Int) : Int := n.bmod 65536

/-- `StartPacket`: a header fragment, which `CompletePacket` fills in. -/
def startPacket (al : Layer) : MediaData :=
  if al.iSNPos = 0 then [] else [.ofBytes (List.replicate al.iSNPos 0)]

/-- A byte stored through the pointer of the first fragment. -/
def storeHeader (pkt : MediaData) (i : Nat) (v : UInt8) : MediaData :=
  match pkt with
  | [] => []
  | hdr_frag :: pkt => hdr_frag.store i v :: pkt

/-- How both layers take the header off: the fragments are copied out, and in
again behind the first one. -/
def replaceFirst (pkt : MediaData) (first_frag : MemFrag) : MediaData := first_frag :: pkt.tail

/-- The counts of the losses in both layers, for the sequence number `SeqNum` of
`modulus` many. -/
def seqNumError (modulus iSeqNum SeqNum : Nat) (info : IncomingALPduInfo) : IncomingALPduInfo :=
  let info := if iSeqNum > SeqNum then
    { info with seq_num_error := (modulus - iSeqNum : Int) + SeqNum } else info
  -- the block of the source that follows has the comment "Else no wrap." and no `else`
  { info with seq_num_error := (SeqNum : Int) - iSeqNum }

/-! ## `AdaptationLayer2` -/

namespace AL2

/-- `AdaptationLayer2::CompletePacket`. -/
def completePacket (al : Layer) (pkt : MediaData) : Option (MediaData × Layer) := do
  let (pkt, al) :=
    if al.iSNPos ≠ 0 then
      (storeHeader pkt 0 (UInt8.ofNat al.iSeqNum),
        { al with iSeqNum := if al.iSeqNum ≠ 0xff then al.iSeqNum + 1 else 0 })
    else (pkt, al)
  let crc ← crc8Check pkt false
  return (pkt ++ [.ofBytes [crc]], al)

/-- What `ParsePacket` does when the checksum is right. -/
def checkSeqNum (al : Layer) (first_frag : MemFrag) (info : IncomingALPduInfo) :
    Option (IncomingALPduInfo × MemFrag × Layer) :=
  if al.iSNPos = 1 then do
    let SeqNum := (← first_frag.bytes[0]?).toNat
    let first_frag := first_frag.advance al.iSNPos
    if al.iSeqNum = SeqNum then
      return (info, first_frag, { al with iSeqNum := (al.iSeqNum + 1) % 256 })
    else
      return (seqNumError 256 al.iSeqNum SeqNum info, first_frag,
        { al with iSeqNum := (SeqNum + 1) % 256 })
  else return (info, first_frag, al)

/-- `AdaptationLayer2::ParsePacket`. -/
def parsePacket (al : Layer) (pkt : MediaData) : Option (IncomingALPduInfo × MediaData × Layer) :=
  let info := ⟨int16 (getFilledSize pkt - al.iSNPos - 1), false, 0⟩
  if info.sdu_size ≤ 0 then some (info, pkt, al)
  else do
    let last_frag ← pkt.getLast?
    let Crc ← last_frag.bytes.getLast?
    let pkt := setMediaFragFilledLen pkt (pkt.length - 1) (last_frag.len - 1)
    let first_frag ← pkt.head?
    let CrcCheck ← crc8Check pkt false
    let (info, first_frag, al) ←
      if Crc ≠ CrcCheck then
        some ({ info with crc_error := true }, first_frag, { al with iSeqNum := (al.iSeqNum + 1) % 256 })
      else checkSeqNum al first_frag info
    if al.iSNPos ≠ 0 ∧ pkt.length ≤ maxPacketMemFrag then
      return (info, replaceFirst pkt first_frag, al)
    else return (info, pkt, al)

end AL2

/-! ## `AdaptationLayer3` -/

namespace AL3

/-- `VrMax`: the last sequence number of seven or of fifteen bits. -/
def vrMax (iSNPos : Nat) : Nat := if iSNPos = 1 then 0x7f else if iSNPos = 2 then 0x7fff else 0

/-- The sequence number after this one. -/
def next (iSNPos SeqNum : Nat) : Nat := if SeqNum = vrMax iSNPos then 0 else SeqNum + 1

/-- `AdaptationLayer3::CompletePacket`. -/
def completePacket (al : Layer) (pkt : MediaData) : Option (MediaData × Layer) := do
  let usTmp := al.iSeqNum
  let (pkt, al) :=
    match al.iSNPos with
    | 1 => (storeHeader pkt 0 (UInt8.ofNat ((usTmp <<< 1) ||| 1)),
        { al with iSeqNum := next 1 usTmp })
    | 2 => (storeHeader (storeHeader pkt 0 (UInt8.ofNat ((usTmp >>> 7) ||| 1))) 1
          (UInt8.ofNat (usTmp &&& 0xff)),
        { al with iSeqNum := next 2 usTmp })
    | _ => (pkt, al)
  let crc ← crc16Check pkt false
  return (pkt ++ [.ofBytes [(crc &&& 0xff).toUInt8, (crc >>> 8).toUInt8]], al)

/-- The sequence number in a header. -/
def seqNum (iSNPos : Nat) (first_frag : MemFrag) : Option Nat :=
  match iSNPos with
  | 1 => do return (← first_frag.bytes[0]?).toNat >>> 1
  | 2 => do return (((← first_frag.bytes[0]?).toNat >>> 1) <<< 8) ||| (← first_frag.bytes[1]?).toNat
  | _ => some 0

/-- The checksum of a packet, which may lie in its last two fragments, and the
packet without it. -/
def takeCrc (pkt : MediaData) : Option (UInt16 × MediaData) := do
  let last_frag ← pkt.getLast?
  if last_frag.len ≥ 2 then
    let hi ← last_frag.bytes[last_frag.len - 1]?
    let lo ← last_frag.bytes[last_frag.len - 2]?
    return ((hi.toUInt16 <<< 8) ||| lo.toUInt16,
      setMediaFragFilledLen pkt (pkt.length - 1) (last_frag.len - 2))
  else
    let second_last_frag ← pkt.dropLast.getLast?
    let hi ← last_frag.bytes[0]?
    let lo ← second_last_frag.bytes.getLast?
    let pkt' := setMediaFragFilledLen pkt (pkt.length - 1) (last_frag.len - 1)
    return ((hi.toUInt16 <<< 8) ||| lo.toUInt16,
      setMediaFragFilledLen pkt' (pkt.length - 2) (second_last_frag.len - 1))

/-- What `ParsePacket` does when the checksum is right. -/
def checkSeqNum (al : Layer) (SeqNum : Nat) (info : IncomingALPduInfo) : IncomingALPduInfo × Layer :=
  if al.iSeqNum = SeqNum then (info, { al with iSeqNum := next al.iSNPos al.iSeqNum })
  else (seqNumError (vrMax al.iSNPos + 1) al.iSeqNum SeqNum info,
    { al with iSeqNum := (SeqNum + 1) % (vrMax al.iSNPos + 1) })

/-- `AdaptationLayer3::ParsePacket`. -/
def parsePacket (al : Layer) (pkt : MediaData) : Option (IncomingALPduInfo × MediaData × Layer) :=
  let info := ⟨int16 (getFilledSize pkt - al.iSNPos - 2), false, 0⟩
  if info.sdu_size ≤ 0 then some (info, pkt, al)
  else do
    let SeqNum ← seqNum al.iSNPos (← pkt.head?)
    let (Crc, pkt) ← takeCrc pkt
    let CrcCheck ← crc16Check pkt false
    let (info, al) :=
      if Crc ≠ CrcCheck then
        ({ info with crc_error := true }, { al with iSeqNum := next al.iSNPos al.iSeqNum })
      else checkSeqNum al SeqNum info
    if al.iSNPos ≠ 0 then
      let first_frag ← pkt.head?
      if pkt.length ≤ maxPacketMemFrag then
        return (info, replaceFirst pkt (first_frag.advance al.iSNPos), al)
      else none
    else return (info, pkt, al)

end AL3

/-! ## The layers with sequence numbers -/

/-- `AdaptationLayer2` with sequence numbers, `AdaptationLayer3` with numbers of
seven and of fifteen bits. -/
inductive Kind
  | al2
  | al3Short
  | al3Long
  deriving DecidableEq

namespace Kind

/-- The layer as constructed. -/
def start : Kind → Layer
  | al2 => ⟨1, 0⟩
  | al3Short => ⟨1, 0⟩
  | al3Long => ⟨2, 0⟩

/-- How many sequence numbers there are. -/
def modulus : Kind → Nat
  | al2 => 256
  | al3Short => 128
  | al3Long => 32768

/-- `CompletePacket`. -/
def completePacket : Kind → Layer → MediaData → Option (MediaData × Layer)
  | al2 => AL2.completePacket
  | al3Short | al3Long => AL3.completePacket

/-- `ParsePacket`. -/
def parsePacket : Kind → Layer → MediaData → Option (IncomingALPduInfo × MediaData × Layer)
  | al2 => AL2.parsePacket
  | al3Short | al3Long => AL3.parsePacket

/-- The PDU of an SDU, which consists of these pieces. -/
def send (k : Kind) (al : Layer) (sdu : List (List UInt8)) : Option (MediaData × Layer) :=
  k.completePacket al (startPacket al ++ ofChunks sdu)

end Kind

end Ftke.AdaptationLayer
