import Mathlib.Data.List.Basic
import Mathlib.Algebra.Ring.Int.Defs
import Ftke.Overwrite

/-!
# Ftke.LatmParser

The depacketiser of AAC in LATM (`PV_LATM_Parser` in `latmpayloadparser.cpp`): RTP
packets are composed into an AudioMuxElement, of one sub-frame by copying each packet to
the output, of more by collecting the packets and copying the sub-frames.

An element is shorter than 2^31 octets.  Each call has an output buffer of its own, of the
size of the packet; to write behind it, or to read behind what a packet or the collecting
buffer holds, is a fault (`none`).  Which allocations succeed, and what fresh memory
holds, is an argument.
-/

namespace Ftke.LatmParser

/-! ## Data -/

/-- The status of `compose`. -/
inductive Status
  | frameIncomplete
  | frameComplete
  | frameError
  | frameOutputNotAvailable
  deriving DecidableEq

/-- `PVMFMediaData` with an RTP packet. -/
structure Packet where
  payload : List UInt8
  seqNum : UInt32
  timestamp : UInt32
  marker : Bool
  deriving DecidableEq

/-- The allocations of a call: the output buffer, with what is in it, and a larger collecting
buffer. -/
structure Alloc where
  output : Option (Nat → UInt8)
  buffer : Bool

/-- `mediaDataOut`: a buffer and the length that is filled. -/
structure MediaData where
  memory : List UInt8
  filled : Nat
  seqNum : UInt32
  timestamp : UInt32
  deriving DecidableEq

def MediaData.content (m : MediaData) : List UInt8 := m.memory.take m.filled

/-- `PVMF_SIMPLE_MEDIA_BUF_DEFAULT_SIZE` stands for a size of 0. -/
def capacity (requested_size : Nat) : Nat := if requested_size = 0 then 200 else requested_size

/-- `createMediaData` with a buffer for the packet. -/
def createMediaData (fresh : Nat → UInt8) (requested_size : Nat) : MediaData :=
  ⟨(List.range (capacity requested_size)).map fresh, 0, 0, 0⟩

/-- `setMediaFragFilledLen`. -/
def MediaData.setFilledLen (m : MediaData) (len : Nat) : MediaData :=
  if len > m.memory.length then m else { m with filled := len }

/-- `oscl_memcpy` to an offset of a buffer. -/
def blit (memory : List UInt8) (offset : Nat) (data : List UInt8) : Option (List UInt8) :=
  if offset + data.length ≤ memory.length then some (overwrite memory offset data) else none

/-- `streamMuxConfig`. -/
structure StreamMuxConfig where
  cpresent : Bool
  numSubFrames : Nat
  otherDataPresent : Bool
  deriving DecidableEq

/-- `PV_LATM_Parser`; `currSize` is the length of `multiFrameBuf`. -/
structure Parser where
  sMC : StreamMuxConfig
  last_sequence_num : UInt32
  framesize : Nat
  firstBlock : Bool
  bytesRead : Nat
  compositenumframes : Nat
  multiFrameBuf : List UInt8
  firstPacket : Bool
  dropFrames : Bool
  deriving DecidableEq

/-- `PVLATMPARSER_LATMDATA_CHUNKSIZE`. -/
def chunkSize : Nat := 15360

def newParser (sMC : StreamMuxConfig) : Parser := ⟨sMC, 0, 0, true, 0, 0, List.replicate chunkSize 0, true, false⟩

/-- `MAX_NUM_COMPOSITE_FRAMES`. -/
def maxNumCompositeFrames : Nat := 32

/-- A payload length: 0xff is the escape for values larger than 254. -/
def readLength : List UInt8 → Option (Nat × List UInt8)
  | [] => none
  | tmp :: myData =>
    if tmp = 0xff then (readLength myData).map fun r => (255 + r.1, r.2) else some (tmp.toNat, myData)

/-! ## One sub-frame -/

/-- The state that waits for an element. -/
def Parser.reset (s : Parser) : Parser :=
  { s with framesize := 0, bytesRead := 0, compositenumframes := 0 }

/-- The end of `composeSingleFrame`. -/
def finishSingle (p : Packet) (out : MediaData) (s : Parser) : Status × MediaData × Parser :=
  let out := { out.setFilledLen s.bytesRead with seqNum := p.seqNum, timestamp := p.timestamp }
  if p.marker then (.frameComplete, out, { s.reset with firstBlock := true })
  else
    let s := { s with firstBlock := false, compositenumframes := s.compositenumframes + 1 }
    (if s.compositenumframes < maxNumCompositeFrames then .frameIncomplete else .frameError, out, s)

/-- The check of the octets that have come against the length of the sub-frame: all of it with the
marker, no more of it without. -/
def wrongSize (sMC : StreamMuxConfig) (m_bit : Bool) (framesize come : Int) : Bool :=
  !sMC.otherDataPresent && (if m_bit then framesize != come else framesize < come)

/-- `composeSingleFrame`. -/
def composeSingleFrame (p : Packet) (out : MediaData) (s : Parser) :
    Option (Status × MediaData × Parser) :=
  if s.firstBlock then
    (readLength p.payload).bind fun r =>
      let s := { s with framesize := s.framesize + r.1, bytesRead := r.2.length }
      if wrongSize s.sMC p.marker s.framesize s.bytesRead then
        some (.frameError, out.setFilledLen 0, { s with bytesRead := 0 })
      else (blit out.memory 0 r.2).map fun memory => finishSingle p { out with memory } s
  else
    let pktsize := p.payload.length
    if wrongSize s.sMC p.marker s.framesize (pktsize + (s.bytesRead - 1)) then
      some (.frameError, out.setFilledLen 0, s)
    else (blit out.memory s.bytesRead p.payload).map fun memory =>
      finishSingle p { out with memory } { s with bytesRead := s.bytesRead + pktsize }

/-! ## More sub-frames -/

/-- The loop over the sub-frames of the element, with as many to come after this one: the
status, the output and its position, and the size of the last frame. -/
def composeFrames (sMC : StreamMuxConfig) (bufLen bytesRead : Nat) : Nat → List UInt8 → Nat → MediaData →
    Option (Option Nat × Nat × MediaData)
  | remaining, myData, outPtrPos, out =>
    (readLength myData).bind fun r =>
      let framesize := r.1
      let myData := r.2
      if remaining = 0 ∧ !sMC.otherDataPresent ∧
          (framesize : Int) ≠ (bytesRead : Int) - ((bufLen : Int) - myData.length) then
        some (none, framesize, out)
      else if myData.length < framesize then none
      else
        (blit out.memory outPtrPos (myData.take framesize)).bind fun memory =>
          match remaining with
          | 0 => some (some (outPtrPos + framesize), framesize, { out with memory })
          | remaining + 1 =>
            composeFrames sMC bufLen bytesRead remaining (myData.drop framesize)
              (outPtrPos + framesize) { out with memory }

/-- A collecting buffer for `size` octets more. -/
def grow (size : Nat) (buffer : Bool) (s : Parser) : Option Parser :=
  if s.bytesRead + size > s.multiFrameBuf.length then
    if buffer then
      some { s with multiFrameBuf := s.multiFrameBuf.take s.bytesRead ++ List.replicate size 0 }
    else none
  else some s

/-- `composeMultipleFrame` behind the copy to the collecting buffer. -/
def finishMultiple (p : Packet) (out : MediaData) (s : Parser) : Option (Status × MediaData × Parser) :=
  let out := { out.setFilledLen s.bytesRead with seqNum := p.seqNum, timestamp := p.timestamp }
  if p.marker then
    (composeFrames s.sMC s.multiFrameBuf.length s.bytesRead s.sMC.numSubFrames s.multiFrameBuf 0 out).map
      fun r =>
        match r.1 with
        | none => (.frameIncomplete, r.2.2.setFilledLen 0, { s with framesize := r.2.1 })
        | some outPtrPos => (.frameComplete, r.2.2.setFilledLen outPtrPos, s.reset)
  else
    let s := { s with compositenumframes := s.compositenumframes + 1 }
    some (if s.compositenumframes < maxNumCompositeFrames then .frameIncomplete else .frameError, out, s)

/-- `composeMultipleFrame`. -/
def composeMultipleFrame (p : Packet) (buffer : Bool) (out : MediaData) (s : Parser) :
    Option (Status × MediaData × Parser) :=
  let pktsize := p.payload.length
  match grow pktsize buffer s with
  | none => some (.frameError, out, s)
  | some s =>
    (blit s.multiFrameBuf s.bytesRead p.payload).bind fun multiFrameBuf =>
      finishMultiple p out { s with multiFrameBuf, bytesRead := s.bytesRead + pktsize }

/-! ## Any packet -/

/-- `compose`; the output is what `GetOutputBuffer` returns then. -/
def compose (p : Packet) (alloc : Alloc) (s : Parser) : Option (Status × Option MediaData × Parser) :=
  match alloc.output with
  | none => some (.frameOutputNotAvailable, none, s)
  | some fresh =>
    let out := createMediaData fresh p.payload.length
    let gap := !s.firstPacket && decide (p.seqNum - s.last_sequence_num > 1)
    let s := { s with
      dropFrames := s.dropFrames || gap
      firstPacket := false
      last_sequence_num := p.seqNum }
    if s.dropFrames && !p.marker then
      some (.frameError, some (out.setFilledLen 0), { s.reset with firstBlock := true })
    else
      let s := { s with dropFrames := false }
      let r :=
        if s.sMC.numSubFrames > 0 ∨ (s.sMC.cpresent ∧ p.payload.headD 0 &&& 0x80 ≠ 0) then
          composeMultipleFrame p alloc.buffer out s
        else composeSingleFrame p out s
      r.map fun r =>
        if r.1 = .frameError then
          (.frameError, some (r.2.1.setFilledLen 0), { r.2.2.reset with dropFrames := true, firstBlock := true })
        else (r.1, some r.2.1, r.2.2)

abbrev Call := Packet × Alloc

/-- Packet after packet: the statuses, the last output and the parser. -/
def composeAll : List Call → Parser → Option (List Status × Option MediaData × Parser)
  | [], s => some ([], none, s)
  | call :: calls, s =>
    (compose call.1 call.2 s).bind fun r =>
      if calls.isEmpty then some ([r.1], r.2.1, r.2.2)
      else (composeAll calls r.2.2).map fun rest => (r.1 :: rest.1, rest.2)

/-! ## Elements -/

/-- The code of a payload length. -/
def lengthCode (n : Nat) : List UInt8 := List.replicate (n / 255) 0xff ++ [UInt8.ofNat (n % 255)]

/-- An AudioMuxElement of these sub-frames. -/
def element (payloads : List (List UInt8)) : List UInt8 :=
  payloads.flatMap fun payload => lengthCode payload.length ++ payload

/-- An element in packets: the marker is set in the last one, and the first length is in the first
one. -/
structure Packets (payloads : List (List UInt8)) (calls : List Call) : Prop where
  some_packet : calls ≠ []
  few : calls.length < maxNumCompositeFrames
  octets : (calls.flatMap fun call => call.1.payload) = element payloads
  marker : calls.map (fun call => call.1.marker) = List.replicate (calls.length - 1) false ++ [true]
  first : (lengthCode (payloads.headD []).length).length ≤ ((calls.map fun call => call.1.payload).headD []).length

/-- The packets are composed: each but the last is incomplete, and the last completes the
element; no call has been at fault. -/
def Composes (calls : List Call) (content : List UInt8) (s : Parser) : Prop :=
  ∃ out t, composeAll calls s = some (List.replicate (calls.length - 1) .frameIncomplete ++ [.frameComplete],
    some out, t) ∧ out.content = content

end Ftke.LatmParser
