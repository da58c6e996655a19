import Ftke.PayloadParser
import Ftke.PriQueue

/-!
# Ftke.H264PayloadParser

`H264PayloadParser` (`h264_payload_parser.cpp`, `h264_payload_parser_utility.h`,
`h264_payload_parser_interleave_mode.h`).

`parse` is one call of `Parse`: it gives the payloads that the call pushes to
`vParsedPayloads`, and the packet afterwards, into whose memory a starting fragmentation
unit writes its NAL unit type octet.  Memory is never short, and the offsets into a packet
do not wrap.
-/

namespace Ftke

namespace H264PayloadParser

open PayloadParser

/-! ## Packet types -/

def H264_RTP_PAYLOAD_SPS : UInt8 := 7
def H264_RTP_PAYLOAD_PPS : UInt8 := 8
def H264_RTP_PAYLOAD_STAP_A : UInt8 := 24
def H264_RTP_PAYLOAD_STAP_B : UInt8 := 25
def H264_RTP_PAYLOAD_MTAP16 : UInt8 := 26
def H264_RTP_PAYLOAD_MTAP24 : UInt8 := 27
def H264_RTP_PAYLOAD_FU_A : UInt8 := 28
def H264_RTP_PAYLOAD_FU_B : UInt8 := 29
def NAL_TYPE_BIT_MASK : UInt8 := 0x1f
def NAL_F_NRI_BIT_MASK : UInt8 := 0xe0
def FU_S_BIT_MASK : UInt8 := 0x80
def FU_E_BIT_MASK : UInt8 := 0x40
def BIT_SHIFT_FOR_FU_COUNTER : UInt32 := 11

/-! ## The priority queue -/

/-- `PVH264PayLoadOutputMediaData`. -/
structure OutputMediaData where
  data : Payload
  don : Nat
  fuType : UInt32
deriving DecidableEq

/-- `don_diff`. -/
def donDiff (m_don n_don : Nat) : Int :=
  if m_don = n_don then 0
  else if m_don < n_don then
    if n_don - m_don < 32768 then (n_don : Int) - m_don else (n_don : Int) - m_don - 65536
  else if m_don - n_don < 32768 then -((m_don : Int) - n_don)
  else 65536 - (m_don : Int) + n_don

/-- `fuType_diff`. -/
def fuTypeDiff (m_fuType n_fuType : UInt32) : Int :=
  let diff_fuType := ((n_fuType &&& 0x03).toNat : Int) - (m_fuType &&& 0x03).toNat
  if diff_fuType = 0 then ((n_fuType >>> 16).toNat : Int) - (m_fuType >>> 16).toNat else diff_fuType

/-- `PVH264PayLoadOutputMediaDataCompareLess::compare`. -/
def compareLess (a b : OutputMediaData) : Bool :=
  let diffDon := donDiff a.don b.don
  if diffDon = 0 then fuTypeDiff a.fuType b.fuType < 0 else diffDon < 0

/-- `InterleaveModeProcessing`. -/
structure InterleaveModeProcessing where
  iNALUnitsCounter : UInt32
  iDon : Nat
  iDonBase : Nat
  iTimestampOffset : UInt32
  iPrevNALType : UInt32
  iRtpPayloadPtr : Option Nat
  iOutputMediaDataQueue : List OutputMediaData
deriving DecidableEq

namespace InterleaveModeProcessing

def construct : InterleaveModeProcessing := ⟨0, 0, 0, 0, 0, none, []⟩

/-- `updateWhenQueuingData`. -/
def updateWhenQueuingData (p : InterleaveModeProcessing) (fuType : UInt32) (nal_type : UInt8)
    (fragmentedBitMask : UInt32) : InterleaveModeProcessing :=
  let p := if fuType = 0 ∨ fuType = 3 then { p with iNALUnitsCounter := p.iNALUnitsCounter + 1 } else p
  if nal_type ≠ H264_RTP_PAYLOAD_FU_A then { p with iPrevNALType := fragmentedBitMask &&& 0x07 }
  else { p with iPrevNALType := ((p.iPrevNALType >>> 2) <<< 2) ||| fuType }

/-- `queue`. -/
def queue (p : InterleaveModeProcessing) (aMediaData : Payload) (nal_type : UInt8) (fragmentedBitMask : UInt32) :
    InterleaveModeProcessing :=
  let prev_fuType := p.iPrevNALType &&& 0x03
  let fuType := fragmentedBitMask &&& 0x03
  let fuCounter := if fuType = 2 then (fragmentedBitMask >>> BIT_SHIFT_FOR_FU_COUNTER) <<< 16 else 0
  let out_data := ⟨aMediaData, p.iDon, fuCounter ||| (prev_fuType <<< 8) ||| fuType⟩
  updateWhenQueuingData
    { p with iOutputMediaDataQueue := PriQueue.push compareLess p.iOutputMediaDataQueue out_data }
    fuType nal_type fragmentedBitMask

/-- `updateWhenDequeuingData`. -/
def updateWhenDequeuingData (p : InterleaveModeProcessing) (fuType : UInt32) : InterleaveModeProcessing :=
  let prev_fuType := (fuType >>> 8) &&& 0x03
  let curr_fuType := fuType &&& 0x03
  if curr_fuType = 0 then
    let p := { p with iNALUnitsCounter := p.iNALUnitsCounter - 1 }
    if prev_fuType = 1 ∨ prev_fuType = 2 then { p with iNALUnitsCounter := p.iNALUnitsCounter - 1 } else p
  else if curr_fuType = 3 then { p with iNALUnitsCounter := p.iNALUnitsCounter - 1 }
  else p

/-- `dequeue`; `none` on an empty queue, which has no `top`. -/
def dequeue (p : InterleaveModeProcessing) : Option (Payload × InterleaveModeProcessing) :=
  (PriQueue.top p.iOutputMediaDataQueue).map fun out_data =>
    (out_data.data, updateWhenDequeuingData
      { p with iOutputMediaDataQueue := PriQueue.pop compareLess p.iOutputMediaDataQueue } out_data.fuType)

end InterleaveModeProcessing

/-! ## The utilities -/

/-- The entries of `iUtilityTable`. -/
inductive Utility where
  | stap
  | mtap
  | fu
  | nalu
deriving DecidableEq

/-- The choice of `getInputSetup`. -/
def utilityOf (nal_type : UInt8) : Utility :=
  if nal_type < H264_RTP_PAYLOAD_STAP_A then .nalu
  else if nal_type ≤ H264_RTP_PAYLOAD_STAP_B then .stap
  else if nal_type ≤ H264_RTP_PAYLOAD_MTAP24 then .mtap
  else if nal_type ≤ H264_RTP_PAYLOAD_FU_B then .fu
  else .nalu

end H264PayloadParser

open PayloadParser H264PayloadParser

/-- The members of `H264PayloadParser`; without an interleaving depth there is no `iIMP`, and
none is used. -/
structure H264PayloadParser where
  iInterleaveDepth : UInt32
  iTimestampForFU : UInt32
  iIsFragmentedBitMask : UInt32
  iIMP : InterleaveModeProcessing

namespace H264PayloadParser

/-- The constructor, and `Init`. -/
def init (interLeaveDepth : UInt32) : H264PayloadParser := ⟨interLeaveDepth, 1, 0, .construct⟩

/-- The S and E bits of a fragmentation unit: starting, ending or intermediate. -/
def fuType (frag : RefMemFrag) : UInt32 :=
  if frag.octet 1 &&& FU_S_BIT_MASK ≠ 0 then 1
  else if frag.octet 1 &&& FU_E_BIT_MASK ≠ 0 then 3
  else 2

/-- `setMarkerInfo` of a fragmentation unit: the new `iIsFragmentedBitMask`. -/
def fuBitMask (s : H264PayloadParser) (frag : RefMemFrag) (nal_type : UInt8) : UInt32 :=
  let mask := fuType frag ||| (if nal_type = H264_RTP_PAYLOAD_FU_B then 4 else 0)
  let mask := mask ||| ((frag.octet 1).toUInt32 <<< 3)
  if mask &&& 0x03 = 2 then mask ||| (((s.iIsFragmentedBitMask >>> 11) + 1) <<< BIT_SHIFT_FOR_FU_COUNTER) else mask

/-- `setMarkerInfo`: `endOfNAL` of the output, and the parser behind it. -/
def setMarkerInfo (s : H264PayloadParser) (u : Utility) (frag : RefMemFrag) (nal_type : UInt8) :
    Bool × H264PayloadParser :=
  match u with
  | .fu =>
    (fuType frag = 3,
      { s with iIsFragmentedBitMask := fuBitMask s frag nal_type })
  | _ => (true, { s with iIsFragmentedBitMask := 0 })

/-- The loop of `generateMemFrag` for an aggregation packet.  A turn takes two octets at
least, so that the size is fuel enough. -/
def stapFragments (frag : RefMemFrag) : Nat → Nat → List RefMemFrag
  | 0, _ => []
  | fuel + 1, bytesParsed =>
    if bytesParsed + 2 < frag.len.toNat then
      let nal_size := frag.octets2 bytesParsed
      if nal_size = 0 then []
      else
        frag.part (bytesParsed + 2) (UInt32.ofNat nal_size) ::
          stapFragments frag fuel (bytesParsed + 2 + nal_size)
    else []

/-- What `generateMemFrag` gives: its status, the parser, the memory of the packet, the
fragments and `rtp_payload_ptr_offset`. -/
structure Generated where
  status : PayloadParserStatus
  parser : H264PayloadParser
  frag : RefMemFrag
  vfragments : List RefMemFrag
  offset : Nat

/-- `generateMemFrag` of a single-time aggregation packet. -/
def generateStap (s : H264PayloadParser) (frag : RefMemFrag) (nal_type : UInt8) (offset : Nat) : Generated :=
  let isB := nal_type = H264_RTP_PAYLOAD_STAP_B
  let s := if isB then { s with iIMP := { s.iIMP with iDon := frag.octets2 1 } } else s
  let vfragments := stapFragments frag frag.len.toNat (if isB then 3 else 1)
  if vfragments = [] then ⟨.failure, s, frag, [], offset⟩ else ⟨.success, s, frag, vfragments, offset⟩

/-- `getMemFragPtrLen` of a multi-time aggregation packet. -/
def generateMtap (s : H264PayloadParser) (frag : RefMemFrag) (nal_type : UInt8) (offset : Nat) : Generated :=
  let memFragLen : Int := (frag.len.toNat : Int) - offset
  if offset = 0 ∧ memFragLen ≤ 7 then ⟨.failure, s, frag, [], offset⟩
  else if memFragLen ≤ 5 then ⟨.dataNotReady, s, frag, [], offset⟩
  else
    let iDonBase := if offset = 0 then frag.octets2 1 else s.iIMP.iDonBase
    let entry := if offset = 0 then 3 else offset
    let len := frag.octets2 entry
    let iDon := (iDonBase + (frag.octet (entry + 2)).toNat) % 65536
    let is24 := nal_type = H264_RTP_PAYLOAD_MTAP24
    let ts : UInt32 := ((frag.octet (entry + 3)).toUInt32 <<< 8) ||| (frag.octet (entry + 4)).toUInt32
    let ts := if is24 then (ts <<< 8) ||| (frag.octet (entry + 5)).toUInt32 else ts
    let start := entry + if is24 then 6 else 5
    ⟨.success, { s with iIMP := { s.iIMP with iDonBase := iDonBase, iDon := iDon, iTimestampOffset := ts } }, frag,
      [frag.part start (UInt32.ofNat len)], start + len⟩

/-- Where the payload of a fragmentation unit starts. -/
def fuOffset (fu_type : UInt32) (nal_type : UInt8) : Nat :=
  1 + (if fu_type ≠ 1 then 1 else 0) + if nal_type = H264_RTP_PAYLOAD_FU_B then 2 else 0

/-- `getMemFragPtrLen` of a fragmentation unit. -/
def generateFu (s : H264PayloadParser) (frag : RefMemFrag) (nal_type : UInt8) (offset : Nat) : Generated :=
  let isB := nal_type = H264_RTP_PAYLOAD_FU_B
  -- `validateFU`
  if isB ∧ frag.octet 1 &&& FU_S_BIT_MASK = 0 then ⟨.failure, s, frag, [], offset⟩
  else
    let s := if isB then { s with iIMP := { s.iIMP with iDon := frag.octets2 2 } } else s
    let fu_type := s.iIsFragmentedBitMask &&& 0x03
    let start := fuOffset fu_type nal_type
    let nal_unit_type := (frag.octet 0 &&& NAL_F_NRI_BIT_MASK) ||| (frag.octet 1 &&& NAL_TYPE_BIT_MASK)
    let frag := if fu_type = 1 then { frag with memory := frag.memory.set start nal_unit_type } else frag
    ⟨.success, s, frag, [frag.part start (frag.len - UInt32.ofNat start)], offset⟩

/-- `generateMemFrag`. -/
def generateMemFrag (s : H264PayloadParser) (u : Utility) (frag : RefMemFrag) (nal_type : UInt8) (offset : Nat) :
    Generated :=
  match u with
  | .stap => generateStap s frag nal_type offset
  | .mtap => generateMtap s frag nal_type offset
  | .fu => generateFu s frag nal_type offset
  | .nalu => ⟨.success, s, frag, [frag], offset⟩

/-- `setMediaDataTimestamp`. -/
def setMediaDataTimestamp (s : H264PayloadParser) (u : Utility) (rtp_timestamp : UInt32) :
    UInt32 × H264PayloadParser :=
  match u with
  | .mtap => (rtp_timestamp + s.iIMP.iTimestampOffset, { s with iTimestampForFU := 0 })
  | .fu =>
    let fuType := s.iIsFragmentedBitMask &&& 0x03
    let s := if fuType = 1 ∨ s.iTimestampForFU = 0 then { s with iTimestampForFU := rtp_timestamp } else s
    let timestamp := if s.iTimestampForFU > 1 then s.iTimestampForFU else rtp_timestamp
    (timestamp, if fuType = 3 then { s with iTimestampForFU := 0 } else s)
  | _ => (rtp_timestamp, { s with iTimestampForFU := 0 })

/-! ## Parsing -/

/-- What a call gives: its status, the parser, the packet's memory, the payloads that it
pushes and `rtp_payload_ptr_offset`. -/
structure Parsed where
  status : PayloadParserStatus
  parser : H264PayloadParser
  frag : RefMemFrag
  pushed : List Payload
  offset : Nat

/-- `parseRTPPayload_For_SingleMessageOutput`, of a packet with the memory `frag`. -/
def parseSingle (s : H264PayloadParser) (inputPacket : Payload) (frag : RefMemFrag) (nal_type : UInt8)
    (offset : Nat) : Parsed :=
  -- `getInputSetup`
  if offset > 0 ∧ offset + 5 ≥ frag.len.toNat then ⟨.dataNotReady, s, frag, [], offset⟩
  else
    let u := utilityOf nal_type
    let s := { s with iIMP := { s.iIMP with iRtpPayloadPtr := some frag.ptr } }
    let marked := setMarkerInfo s u frag nal_type
    let g := generateMemFrag marked.2 u frag nal_type offset
    if g.status ≠ .success then ⟨g.status, g.parser, g.frag, [], g.offset⟩
    else
      let stamped := setMediaDataTimestamp g.parser u inputPacket.timestamp
      let output : Payload :=
        { stream := 0
          timestamp := stamped.1
          sequence := inputPacket.sequence + 1
          marker := inputPacket.marker
          randAccessPt := inputPacket.randAccessPt
          endOfNAL := marked.1
          vfragments := g.vfragments }
      ⟨.success, stamped.2, g.frag, [output], g.offset⟩

/-- `isCurrRTPPacketIgnored`. -/
def isCurrRTPPacketIgnored (s : H264PayloadParser) (frag : RefMemFrag) (nal_type : UInt8) : Bool :=
  (nal_type = H264_RTP_PAYLOAD_FU_A ∧ (s.iIMP.iPrevNALType >>> 2) &&& 0x01 = 0) ∨
    s.iIMP.iRtpPayloadPtr = some frag.ptr

def isMTAPType (nal_type : UInt8) : Bool := nal_type = H264_RTP_PAYLOAD_MTAP16 ∨ nal_type = H264_RTP_PAYLOAD_MTAP24

/-- The loop of `parseRTPPayload_For_InterleavedMode`, which goes on until the packet's end;
a turn takes five octets at least. -/
def generate (inputPacket : Payload) (nal_type : UInt8) : Nat → H264PayloadParser → RefMemFrag → Nat → Parsed
  | 0, s, frag, offset => ⟨.success, s, frag, [], offset⟩
  | fuel + 1, s, frag, offset =>
    let r := parseSingle s inputPacket frag nal_type offset
    if r.status = .dataNotReady then { r with status := .success }
    else if r.status ≠ .success then r
    else
      -- it is the packet that is queued, not what was made of it
      let s := { r.parser with
        iIMP := r.parser.iIMP.queue (inputPacket.withFrag r.frag) nal_type r.parser.iIsFragmentedBitMask }
      if isMTAPType nal_type then
        let rest := generate inputPacket nal_type fuel s r.frag r.offset
        { rest with pushed := r.pushed ++ rest.pushed }
      else { r with parser := s }

/-- `parseRTPPayload_For_InterleavedMode`. -/
def parseInterleaved (s : H264PayloadParser) (inputPacket : Payload) (frag : RefMemFrag) (nal_type : UInt8) :
    Option Parsed :=
  -- without a depth no `InterleaveModeProcessing` can be made
  if s.iInterleaveDepth = 0 then some ⟨.memorAllocFail, s, frag, [], 0⟩
  else
  let r :=
    if isCurrRTPPacketIgnored s frag nal_type then ⟨.success, s, frag, [], 0⟩
    else generate inputPacket nal_type frag.len.toNat s frag 0
  if r.status ≠ .success then some r
  else if r.parser.iIMP.iNALUnitsCounter < s.iInterleaveDepth + 1 then some { r with status := .dataNotReady }
  else
    r.parser.iIMP.dequeue.map fun d =>
      { r with
        status := if d.2.iNALUnitsCounter ≥ s.iInterleaveDepth + 1 then .inputNotExhausted else .success
        parser := { r.parser with iIMP := d.2 }
        pushed := r.pushed ++ [d.1] }

def isInterleaveMode (s : H264PayloadParser) : Bool := s.iInterleaveDepth ≠ 0

/-- `isRequiredTypeForInterleaveMode`. -/
def isRequiredType (s : H264PayloadParser) (nal_type : UInt8) : Bool :=
  nal_type = H264_RTP_PAYLOAD_STAP_B || nal_type = H264_RTP_PAYLOAD_MTAP16 ||
    nal_type = H264_RTP_PAYLOAD_MTAP24 || nal_type = H264_RTP_PAYLOAD_FU_B ||
    (nal_type = H264_RTP_PAYLOAD_FU_A && s.isInterleaveMode)

/-- `isExceptionTypeForInterleaveMode`. -/
def isExceptionType (nal_type : UInt8) : Bool := nal_type = H264_RTP_PAYLOAD_SPS || nal_type = H264_RTP_PAYLOAD_PPS

/-- What a call of `Parse` gives: its status, the parser, the packet as it is now and the
payloads that the call pushes. -/
structure Call where
  status : PayloadParserStatus
  parser : H264PayloadParser
  packet : Payload
  pushed : List Payload

/-- `Parse` of an empty packet, by `flush`: where the queue gets empty, the status is
returned before the payload is pushed. -/
def parseFlush (s : H264PayloadParser) (inputPacket : Payload) : Option Call :=
  s.iIMP.dequeue.map fun d =>
    if d.2.iOutputMediaDataQueue = [] then ⟨.emptyQueue, { s with iIMP := d.2 }, inputPacket, []⟩
    else ⟨.success, { s with iIMP := d.2 }, inputPacket, [d.1]⟩

/-- `Parse`; `none` when it takes the top of an empty queue. -/
def parse (s : H264PayloadParser) (inputPacket : Payload) : Option Call :=
  match inputPacket.vfragments with
  | [] =>
    -- `PayloadParserStatus_Failure` is zero, so that `getNALType` fails
    if s.isInterleaveMode = false ∨ s.iIMP.iOutputMediaDataQueue = [] then some ⟨.failure, s, inputPacket, []⟩
    else parseFlush s inputPacket
  | frag :: _ =>
    let nal_type := frag.octet 0 &&& NAL_TYPE_BIT_MASK
    let call := fun r : Parsed => (⟨r.status, r.parser, inputPacket.withFrag r.frag, r.pushed⟩ : Call)
    if s.isRequiredType nal_type then (parseInterleaved s inputPacket frag nal_type).map call
    else if s.isInterleaveMode && !isExceptionType nal_type then some ⟨.failure, s, inputPacket, []⟩
    else some (call (parseSingle s inputPacket frag nal_type 0))

end H264PayloadParser

end Ftke
