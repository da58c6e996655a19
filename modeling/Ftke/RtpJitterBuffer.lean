import Ftke.JitterBuffer

/-!
# Ftke.RtpJitterBuffer

The RTP jitter buffer's reading of a datagram
(`PVMFRTPJitterBufferImpl::ParsePacketHeaderAndUpdateJBStats`, `pvmf_rtp_jitter_buffer_impl.cpp`).

* `PVMFRTPJitterBufferImpl` — the state;
* `isSequenceNumEarlier`, `isSeqTsValidForPkt` — the check of a sequence number;
* `parseHeader`, `parsePacketHeaderAndUpdateJBStats` — the header of a datagram, and the packet made of it;
* `payloadStart`, `paddingOctets` — where the payload lies;
* `parseHeader_eq` — what the header comes to: after an extension it ends two bytes early;
* `window_iff` — when the window is that of the payload.
-/

namespace Ftke.RtpJitterBuffer

open JitterBuffer

/-! ## The state -/

/-- `PVMFJBPacketParsingAndStatUpdationStatus`. -/
inductive Status
  | insufficientMemToPacketize
  | invalidConfiguration
  | corruptHdr
  | truncatedHdr
  | unexpectedPkt
  | latePacket
  | noPacket
  | packetParsingSuccess
  deriving DecidableEq

/-- `PVMFRTPInfoParams`, as far as the vote on the first packets reads it. -/
structure PVMFRTPInfoParams where
  seqNumBaseSet : Bool
  seqNum : UInt32
  rtpTimeBaseSet : Bool
  rtpTime : UInt32
  deriving DecidableEq

/-- A packet's payload: the bytes of a datagram from an offset on. -/
structure Payload where
  datagram : List UInt8
  rtpHeaderOffset : Nat
  rtpPacketLenExcludingHeader : UInt32
  markerInfo : UInt32
  deriving DecidableEq

/-- A data packet, as the array holds it. -/
abbrev DataPacket := JitterBuffer.MediaData Payload

/-- The fields of `PVMFRTPJitterBufferImpl` that registering and retrieving packets reads, but for the clocks;
`iFirstSeqNumAdded` is one of the array. -/
structure PVMFRTPJitterBufferImpl where
  iHeaderPreParsed : Bool
  iInPlaceProcessing : Bool
  iBroadCastSession : Bool
  iRTPDataArrived : Bool
  iEOSSent : Bool
  seqNumLock : Bool
  oSSRCFromSetUpResponseAvailable : Bool
  sSRCFromSetUpResponse : UInt32
  sSRCLock : UInt32
  iFirstSeqNum : UInt32
  seqLockTimeStamp : UInt32
  iFirstDataPackets : List DataPacket
  iRTPInfoParamsVec : List PVMFRTPInfoParams
  iFirstSeqNumAdded : UInt32
  iJitterBuffer : PVMFDynamicCircularArray Payload

/-- The media data that a datagram comes in; what is outside the fragments is set by a parser before this one, if
there is one. -/
structure Container where
  fragments : List (List UInt8)
  timestamp : UInt32
  seqNum : UInt32
  streamID : UInt32
  markerInfo : UInt32

namespace PVMFRTPJitterBufferImpl

/-- `getJitterBufferStats`. -/
def stats (jb : PVMFRTPJitterBufferImpl) : PVMFJitterBufferStats := jb.iJitterBuffer.iJitterBufferStats

def setStats (jb : PVMFRTPJitterBufferImpl) (jbStats : PVMFJitterBufferStats) : PVMFRTPJitterBufferImpl :=
  { jb with iJitterBuffer := { jb.iJitterBuffer with iJitterBufferStats := jbStats } }

end PVMFRTPJitterBufferImpl

/-! ## Sequence numbers -/

/-- `PVMF_JITTER_BUFFER_ROLL_OVER_THRESHOLD_16BIT`. -/
def rollOverThreshold : UInt16 := 2000

def isSequenceNumEarlier (aSeqNumToComp aBaseSeqNum : UInt16) : Bool :=
  if aSeqNumToComp < aBaseSeqNum then true
  else if aSeqNumToComp - aBaseSeqNum < rollOverThreshold then false
  else true

/-- One sequence number comes before another in 16-bit circular order. -/
def Precedes (a b : UInt16) : Prop := 0 < (b - a).toNat ∧ (b - a).toNat < 0x8000

instance (a b : UInt16) : Decidable (Precedes a b) := inferInstanceAs (Decidable (_ ∧ _))

theorem precedes_iff (a b : UInt16) :
    Precedes a b ↔ 0 < (65536 - a.toNat + b.toNat) % 65536 ∧ (65536 - a.toNat + b.toNat) % 65536 < 32768 := by
  rw [Precedes, UInt16.toNat_sub]

/-- The verdict, and the statistics after it. -/
def isSeqTsValidForPkt (aSeqNum rtpTimeStamp : UInt32) (jbStats : PVMFJitterBufferStats) :
    Bool × PVMFJitterBufferStats :=
  let seqNum := aSeqNum.toUInt16
  if jbStats.totalNumPacketsRetrieved > 0 ∧
      isSequenceNumEarlier seqNum (jbStats.lastRetrievedSeqNum + 1).toUInt16 then (false, jbStats)
  else if seqNum.toUInt32 < jbStats.maxSeqNumRegistered ∧
      isSequenceNumEarlier jbStats.maxSeqNumRegistered.toUInt16 seqNum then
    (true, { jbStats with
      maxSeqNumRegistered := seqNum.toUInt32
      maxSeqNumReceived := seqNum.toUInt32
      maxTimeStampRegistered := rtpTimeStamp })
  else (true, jbStats)

/-! ## The header -/

def be16 (datagram : List UInt8) (i : Nat) : Option Nat := do
  let a ← datagram[i]?
  let b ← datagram[i + 1]?
  return a.toNat * 256 + b.toNat

def be32 (datagram : List UInt8) (i : Nat) : Option UInt32 := do
  let a ← be16 datagram i
  let b ← be16 datagram (i + 2)
  return UInt32.ofNat (a * 65536 + b)

/-- The pointer into the datagram, the length that is left, and what has been subtracted from it so far (what there
was, and how much of it). -/
structure Counter where
  rtpHeader : Nat
  rtpPacketLen : UInt32
  subtracted : List (UInt32 × UInt32)
  deriving DecidableEq

/-- So many bytes are passed, and so many are counted. -/
def Counter.skip (c : Counter) (bytes : Nat) (counted : UInt32) : Counter where
  rtpHeader := c.rtpHeader + bytes
  rtpPacketLen := c.rtpPacketLen - counted
  subtracted := (c.rtpPacketLen, counted) :: c.subtracted

/-- What is read of a header. -/
structure Header where
  seqNum : UInt32
  rtpTimeStamp : UInt32
  ssrc : UInt32
  markerInfo : UInt32
  rtpHeaderOffset : Nat
  rtpPacketLenExcludingHeader : UInt32
  deriving DecidableEq

def version (b : UInt8) : UInt8 := (b &&& 0xC0) >>> 6
def pbit (b : UInt8) : UInt8 := (b &&& 0x20) >>> 5
def xbit (b : UInt8) : UInt8 := (b &&& 0x10) >>> 4
def csrcCount (b : UInt8) : Nat := (b &&& 0x0F).toNat
def mbit (b : UInt8) : UInt8 := (b &&& 0x80) >>> 7

/-- The part of the parser for the CSRC list: whether it fits. -/
def skipCsrc (csrcLen : Nat) (c : Counter) : Bool × Counter :=
  if csrcLen ≠ 0 then
    if UInt32.ofNat csrcLen > c.rtpPacketLen then (false, c) else (true, c.skip csrcLen (UInt32.ofNat csrcLen))
  else (true, c)

/-- The part for the extension. The pointer passes the first two of its first four bytes; the next two, its length,
are read but not passed. -/
def skipExtension (datagram : List UInt8) (xbit : UInt8) (c : Counter) : Option (Bool × Counter) :=
  if xbit ≠ 0 then do
    let extensionHeaderLen ← be16 datagram (c.rtpHeader + 2)
    let c := c.skip 2 4
    if UInt32.ofNat (extensionHeaderLen * 4) > c.rtpPacketLen then return (false, c)
    else return (true, c.skip (extensionHeaderLen * 4) (UInt32.ofNat (extensionHeaderLen * 4)))
  else some (true, c)

/-- The part for the padding. -/
def skipPadding (numPaddingOctets : UInt8) (c : Counter) : Bool × Counter :=
  if numPaddingOctets ≠ 0 then
    if numPaddingOctets.toUInt32 > c.rtpPacketLen then (false, c) else (true, c.skip 0 numPaddingOctets.toUInt32)
  else (true, c)

/-- The last byte, if there is padding. -/
def readPadding (datagram : List UInt8) (first : UInt8) (rtpPacketLen : UInt32) : Option UInt8 :=
  if pbit first ≠ 0 then datagram[(rtpPacketLen - 1).toNat]? else some 0

/-- The parser of a datagram that is not pre-parsed; `none` if a byte outside it is read. -/
def parseHeader (datagram : List UInt8) : Option (Except Status Header × Counter) :=
  let c : Counter := ⟨0, UInt32.ofNat datagram.length, []⟩
  if c.rtpPacketLen ≤ 12 then some (.error .truncatedHdr, c)
  else do
    let first ← datagram[0]?
    if version first ≠ 2 then return (.error .corruptHdr, c)
    let numPaddingOctets ← readPadding datagram first c.rtpPacketLen
    let second ← datagram[1]?
    let seqNum ← be16 datagram 2
    let rtpTimeStamp ← be32 datagram 4
    let ssrc ← be32 datagram 8
    let (csrcFits, c) := skipCsrc (csrcCount first * 4) (c.skip 12 12)
    if !csrcFits then return (.error .corruptHdr, c)
    let (extensionFits, c) ← skipExtension datagram (xbit first) c
    if !extensionFits then return (.error .corruptHdr, c)
    let (paddingFits, c) := skipPadding numPaddingOctets c
    if !paddingFits then return (.error .corruptHdr, c)
    return (.ok
      { seqNum := UInt32.ofNat seqNum
        rtpTimeStamp
        ssrc
        markerInfo := if mbit second = 1 then 1 else 0
        rtpHeaderOffset := c.rtpHeader
        rtpPacketLenExcludingHeader := c.rtpPacketLen }, c)

/-- The packet of a header. -/
def Header.packet (header : Header) (datagram : List UInt8) : DataPacket where
  streamID := header.ssrc
  seqNum := header.seqNum
  timestamp := header.rtpTimeStamp
  fragments := [header.rtpPacketLenExcludingHeader]
  payload := ⟨datagram, header.rtpHeaderOffset, header.rtpPacketLenExcludingHeader, header.markerInfo⟩

/-- The header of a datagram that is pre-parsed. -/
def Container.header (container : Container) (datagram : List UInt8) : Header where
  seqNum := container.seqNum
  rtpTimeStamp := container.timestamp
  ssrc := container.streamID
  markerInfo := container.markerInfo
  rtpHeaderOffset := 0
  rtpPacketLenExcludingHeader := UInt32.ofNat datagram.length

namespace PVMFRTPJitterBufferImpl

/-- The checks on a packet where the first sequence number is known. -/
def validate (jb : PVMFRTPJitterBufferImpl) (header : Header) : Status × PVMFRTPJitterBufferImpl :=
  if jb.seqNumLock ∧ jb.iFirstSeqNum ≠ header.seqNum then
    if jb.iBroadCastSession ∧ header.rtpTimeStamp < jb.stats.maxTimeStampRegistered then (.unexpectedPkt, jb)
    else
      let (valid, jbStats) := isSeqTsValidForPkt header.seqNum header.rtpTimeStamp jb.stats
      (if valid then .packetParsingSuccess else .latePacket, jb.setStats jbStats)
  else (.packetParsingSuccess, jb)

/-- The second half of the function: the packet is made (in place, or if it can be allocated), and checked. -/
def finishPacket (jb : PVMFRTPJitterBufferImpl) (header : Header) (datagram : List UInt8) (aFragIndex : Nat)
    (allocated created : Bool) : Status × Option DataPacket × PVMFRTPJitterBufferImpl :=
  if !jb.iInPlaceProcessing ∧ !(allocated ∧ created) then (.insufficientMemToPacketize, none, jb)
  else if jb.iInPlaceProcessing ∧ aFragIndex ≠ 0 then (.invalidConfiguration, none, jb)
  else
    let (status, jb) := jb.validate header
    (status, some (header.packet datagram), jb)

/-- `ParsePacketHeaderAndUpdateJBStats`: the status, the packet and the state after it; `none` if a byte outside the
datagram is read. The container is `none` if it has no media data; `allocated` and `created` say whether there is
memory for the packet. -/
def parsePacketHeaderAndUpdateJBStats (jb : PVMFRTPJitterBufferImpl) (container : Option Container) (aFragIndex : Nat)
    (allocated created : Bool) : Option (Status × Option DataPacket × PVMFRTPJitterBufferImpl) :=
  match container with
  | none => some (.noPacket, none, jb)
  | some container =>
    let datagram := container.fragments.getD aFragIndex []
    if !jb.iHeaderPreParsed then
      match parseHeader datagram with
      | none => none
      | some (.error status, _) =>
        let iRTPDataArrived := jb.iRTPDataArrived || status ≠ .truncatedHdr
        some (status, none, { jb with iRTPDataArrived })
      | some (.ok header, _) =>
        some ({ jb with iRTPDataArrived := true }.finishPacket header datagram aFragIndex allocated created)
    else if aFragIndex ≠ 0 then some (.invalidConfiguration, none, jb)
    else some (jb.finishPacket (container.header datagram) datagram aFragIndex allocated created)

end PVMFRTPJitterBufferImpl

/-! ## The parts of the parser -/

/-- The counter is at an offset with so many bytes left, and nothing has been subtracted from less. -/
structure Counter.At (c : Counter) (offset left : Nat) : Prop where
  rtpHeader : c.rtpHeader = offset
  rtpPacketLen : c.rtpPacketLen.toNat = left
  noUnderflow : ∀ x ∈ c.subtracted, x.2 ≤ x.1

theorem Counter.At.skip {c : Counter} {offset left : Nat} (h : c.At offset left) (bytes : Nat) {counted : UInt32}
    (hle : counted.toNat ≤ left) : (c.skip bytes counted).At (offset + bytes) (left - counted.toNat) where
  rtpHeader := by rw [Counter.skip, h.rtpHeader]
  rtpPacketLen := by
    rw [← h.rtpPacketLen] at hle ⊢
    exact UInt32.toNat_sub_of_le _ _ (UInt32.le_iff_toNat_le.mpr hle)
  noUnderflow x hx := by
    obtain rfl | hx := List.mem_cons.mp hx
    · exact UInt32.le_iff_toNat_le.mpr (by rw [h.rtpPacketLen]; exact hle)
    · exact h.noUnderflow x hx

variable {c : Counter} {offset left n i : Nat}

theorem gt_iff {n : UInt32} (h : c.At offset left) :
    n > c.rtpPacketLen ↔ left < n.toNat := by
  rw [gt_iff_lt, UInt32.lt_iff_toNat_lt, h.rtpPacketLen]

theorem toNat_ofNat32 (h : n < 2 ^ 32) : (UInt32.ofNat n).toNat = n := UInt32.toNat_ofNat_of_lt' h

theorem skipCsrc_spec {offset left csrcLen : Nat} (h : c.At offset left) (hlen : csrcLen < 2 ^ 32) :
    (csrcLen ≤ left ∧ ∃ c', skipCsrc csrcLen c = (true, c') ∧ c'.At (offset + csrcLen) (left - csrcLen)) ∨
      (left < csrcLen ∧ skipCsrc csrcLen c = (false, c)) := by
  have hn := toNat_ofNat32 hlen
  simp only [skipCsrc, gt_iff h, hn]
  split
  · split
    · next hlt => exact Or.inr ⟨hlt, rfl⟩
    · next hle =>
      have hskip := @Counter.At.skip _ _ _ h csrcLen (UInt32.ofNat csrcLen) (by omega)
      rw [hn] at hskip
      exact Or.inl ⟨by omega, _, rfl, hskip⟩
  · next hzero =>
    obtain rfl : csrcLen = 0 := by omega
    exact Or.inl ⟨Nat.zero_le _, c, rfl, h⟩

theorem skipPadding_spec (h : c.At offset left) (n : UInt8) :
    (n.toNat ≤ left ∧ ∃ c', skipPadding n c = (true, c') ∧ c'.At offset (left - n.toNat)) ∨
      (left < n.toNat ∧ skipPadding n c = (false, c)) := by
  have hn : n.toUInt32.toNat = n.toNat := UInt8.toNat_toUInt32 n
  simp only [skipPadding, gt_iff h, hn]
  split
  · split
    · next hlt => exact Or.inr ⟨hlt, rfl⟩
    · next hle =>
      have hskip := @Counter.At.skip _ _ _ h 0 n.toUInt32 (by omega)
      rw [hn] at hskip
      exact Or.inl ⟨by omega, _, rfl, hskip⟩
  · next hzero =>
    obtain rfl : n = 0 := by simpa using hzero
    exact Or.inl ⟨Nat.zero_le _, c, rfl, h⟩

theorem skipExtension_none (datagram : List UInt8) (c : Counter) : skipExtension datagram 0 c = some (true, c) := rfl

variable {datagram : List UInt8}

theorem be16_lt (h : be16 datagram i = some n) :
    n < 65536 ∧ i + 1 < datagram.length := by
  simp only [be16, Option.bind_eq_bind, Option.bind_eq_some_iff, Option.pure_def, Option.some_inj] at h
  obtain ⟨a, ha, b, hb, rfl⟩ := h
  have halt := a.toNat_lt
  have hblt := b.toNat_lt
  exact ⟨by omega, (List.getElem?_eq_some_iff.mp hb).1⟩

theorem be16_some (h : i + 1 < datagram.length) :
    ∃ n, be16 datagram i = some n := by
  simp only [be16, List.getElem?_eq_getElem h, List.getElem?_eq_getElem (show i < datagram.length by omega),
    Option.bind_eq_bind, Option.bind_some]
  exact ⟨_, rfl⟩

theorem be32_some (h : i + 3 < datagram.length) :
    ∃ n, be32 datagram i = some n := by
  obtain ⟨a, ha⟩ := be16_some (show i + 1 < datagram.length by omega)
  obtain ⟨b, hb⟩ := be16_some (show i + 2 + 1 < datagram.length by omega)
  rw [be32, ha, hb]
  exact ⟨_, rfl⟩

/-- An extension whose length is there: the window starts two bytes before its end, where it fits. -/
theorem skipExtension_spec {x : UInt8} (hx : x ≠ 0)
    (h : c.At offset left) (hn : be16 datagram (offset + 2) = some n) (hleft : 4 ≤ left) :
    (4 + n * 4 ≤ left ∧ ∃ c', skipExtension datagram x c = some (true, c') ∧
        c'.At (offset + 2 + n * 4) (left - 4 - n * 4)) ∨
      (left < 4 + n * 4 ∧ ∃ c', skipExtension datagram x c = some (false, c') ∧ c'.At (offset + 2) (left - 4)) := by
  have hlt := (be16_lt hn).1
  have hcount := toNat_ofNat32 (show n * 4 < 2 ^ 32 by omega)
  have hfour : (4 : UInt32).toNat = 4 := rfl
  have hskip := @Counter.At.skip _ _ _ h 2 4 (by rw [hfour]; exact hleft)
  rw [hfour] at hskip
  have heq : skipExtension datagram x c = if left - 4 < n * 4 then some (false, c.skip 2 4)
      else some (true, (c.skip 2 4).skip (n * 4) (UInt32.ofNat (n * 4))) := by
    rw [skipExtension, if_pos hx, h.rtpHeader, hn]
    simp only [Option.bind_eq_bind, Option.bind_some, gt_iff hskip, hcount]
    rfl
  rw [heq]
  split
  · exact Or.inr ⟨by omega, _, rfl, hskip⟩
  · have hskip' := @Counter.At.skip _ _ _ hskip (n * 4) (UInt32.ofNat (n * 4)) (by rw [hcount]; omega)
    rw [hcount] at hskip'
    exact Or.inl ⟨by omega, _, rfl, hskip'⟩

/-! ## The window -/

/-- Where the payload of a datagram starts: after the fixed header, the CSRC list and, with the bit, the extension, of
four bytes and as many words as their last two say. -/
def payloadStart (datagram : List UInt8) : Option Nat := do
  let first ← datagram[0]?
  let csrcEnd := 12 + csrcCount first * 4
  if xbit first = 0 then return csrcEnd
  let words ← be16 datagram (csrcEnd + 2)
  return csrcEnd + 4 + words * 4

/-- The number of padding octets, which the last one holds. -/
def paddingOctets (datagram : List UInt8) : Nat :=
  match datagram[0]?, datagram[datagram.length - 1]? with
  | some first, some last => if pbit first = 0 then 0 else last.toNat
  | _, _ => 0

/-- The window goes from the start of the payload to its padding. -/
def IsWindow (datagram : List UInt8) (offset : Nat) (len : UInt32) : Prop :=
  payloadStart datagram = some offset ∧ offset + len.toNat + paddingOctets datagram = datagram.length

/-- No byte outside the datagram is read, the length never underflows, and the datagram is rejected or has the window
of its payload. -/
def Right (datagram : List UInt8) : Prop :=
  ∃ result c, parseHeader datagram = some (result, c) ∧ (∀ x ∈ c.subtracted, x.2 ≤ x.1) ∧
    ∀ header, result = .ok header → IsWindow datagram header.rtpHeaderOffset header.rtpPacketLenExcludingHeader

/-- The datagrams that get a wrong window: those of the version whose CSRC list fits and that have the extension bit,
if fewer than four bytes come after the list, or the extension and the padding fit. -/
def Misread (datagram : List UInt8) : Prop :=
  ∃ first, datagram[0]? = some first ∧ 12 < datagram.length ∧ version first = 2 ∧ xbit first ≠ 0 ∧
    12 + csrcCount first * 4 ≤ datagram.length ∧
    ∀ start, payloadStart datagram = some start → start + paddingOctets datagram ≤ datagram.length

theorem parseHeader_start (hlen : datagram.length < 2 ^ 32) {first : UInt8}
    (hfirst : datagram[0]? = some first) (hlong : 12 < datagram.length) (hversion : version first = 2) :
    ∃ (padding : UInt8) (header : Nat → UInt32 → Header) (c : Counter),
      padding.toNat = paddingOctets datagram ∧ c.At 12 (datagram.length - 12) ∧
      (∀ offset len, (header offset len).rtpHeaderOffset = offset ∧
        (header offset len).rtpPacketLenExcludingHeader = len) ∧
      parseHeader datagram =
        (let (csrcFits, c) := skipCsrc (csrcCount first * 4) c
        if !csrcFits then some (.error .corruptHdr, c)
        else (skipExtension datagram (xbit first) c).bind fun (extensionFits, c) =>
          if !extensionFits then some (.error .corruptHdr, c)
          else
            let (paddingFits, c) := skipPadding padding c
            if !paddingFits then some (.error .corruptHdr, c)
            else some (.ok (header c.rtpHeader c.rtpPacketLen), c)) := by
  have hn := toNat_ofNat32 hlen
  have hat : Counter.At ⟨0, UInt32.ofNat datagram.length, []⟩ 0 datagram.length :=
    ⟨rfl, hn, fun x hx => absurd hx List.not_mem_nil⟩
  have htwelve : (12 : UInt32).toNat = 12 := rfl
  have hskip := @Counter.At.skip _ _ _ hat 12 12 (by rw [htwelve]; omega)
  rw [htwelve] at hskip
  have hlast : (UInt32.ofNat datagram.length - 1).toNat = datagram.length - 1 := by
    have hone : (1 : UInt32).toNat = 1 := rfl
    rw [UInt32.toNat_sub_of_le _ _ (UInt32.le_iff_toNat_le.mpr (by rw [hn, hone]; omega)), hn, hone]
  have hlastByte : datagram[datagram.length - 1]? = some (datagram[datagram.length - 1]) :=
    List.getElem?_eq_getElem (by omega)
  have hshort : ¬UInt32.ofNat datagram.length ≤ 12 := by
    rw [UInt32.le_iff_toNat_le, hn, htwelve]
    omega
  obtain ⟨second, hsecond⟩ : ∃ b, datagram[1]? = some b := ⟨_, List.getElem?_eq_getElem (by omega)⟩
  obtain ⟨seqNum, hseq⟩ := be16_some (show 2 + 1 < datagram.length by omega)
  obtain ⟨ts, hts⟩ := be32_some (show 4 + 3 < datagram.length by omega)
  obtain ⟨ssrc, hssrc⟩ := be32_some (show 8 + 3 < datagram.length by omega)
  refine ⟨if pbit first ≠ 0 then datagram[datagram.length - 1] else 0,
    fun offset len => ⟨UInt32.ofNat seqNum, ts, ssrc, if mbit second = 1 then 1 else 0, offset, len⟩,
    _, ?_, hskip, fun _ _ => ⟨rfl, rfl⟩, ?_⟩
  · simp only [paddingOctets, hfirst, hlastByte]
    by_cases hp : pbit first = 0 <;> simp [hp]
  · have hpad : readPadding datagram first (UInt32.ofNat datagram.length) =
        some (if pbit first ≠ 0 then datagram[datagram.length - 1] else 0) := by
      rw [readPadding, hlast, hlastByte]
      split <;> rfl
    rw [parseHeader, if_neg hshort]
    simp only [hfirst, hpad, hsecond, hseq, hts, hssrc, hversion, Option.bind_eq_bind, Option.bind_some,
      Option.pure_def, ne_eq, not_true_eq_false, if_false]

theorem right_of_error {status : Status}
    (h : parseHeader datagram = some (.error status, c)) (hat : c.At offset left) : Right datagram :=
  ⟨_, _, h, hat.noUnderflow, fun _ heq => by simp at heq⟩

theorem right_of_ok_iff {header : Header}
    (h : parseHeader datagram = some (.ok header, c)) (hat : c.At offset left) :
    Right datagram ↔ IsWindow datagram header.rtpHeaderOffset header.rtpPacketLenExcludingHeader := by
  constructor
  · rintro ⟨result, c', h', -, hwindow⟩
    rw [h, Option.some_inj, Prod.mk.injEq] at h'
    exact hwindow header h'.1.symm
  · intro hwindow
    refine ⟨_, _, h, hat.noUnderflow, ?_⟩
    rintro _ ⟨⟩
    exact hwindow

/-- **When the window is right**: for every datagram but those that are misread. -/
theorem right_iff (hlen : datagram.length < 2 ^ 32) : Right datagram ↔ ¬Misread datagram := by
  have hn := toNat_ofNat32 hlen
  have hat : Counter.At ⟨0, UInt32.ofNat datagram.length, []⟩ 0 datagram.length :=
    ⟨rfl, hn, fun x hx => absurd hx List.not_mem_nil⟩
  have hshort : UInt32.ofNat datagram.length ≤ 12 ↔ datagram.length ≤ 12 := by
    rw [UInt32.le_iff_toNat_le, hn]
    rfl
  by_cases hlong : 12 < datagram.length
  swap
  · have herror : parseHeader datagram = some (.error .truncatedHdr, ⟨0, UInt32.ofNat datagram.length, []⟩) := by
      rw [parseHeader, if_pos (hshort.mpr (by omega))]
    refine iff_of_true (right_of_error herror hat) ?_
    rintro ⟨first, -, hlt, -⟩
    exact hlong hlt
  obtain ⟨first, hfirst⟩ : ∃ b, datagram[0]? = some b := ⟨_, List.getElem?_eq_getElem (by omega)⟩
  by_cases hversion : version first = 2
  swap
  · have herror : parseHeader datagram = some (.error .corruptHdr, ⟨0, UInt32.ofNat datagram.length, []⟩) := by
      rw [parseHeader, if_neg (by rw [hshort]; omega)]
      simp [hfirst, hversion]
    refine iff_of_true (right_of_error herror hat) ?_
    rintro ⟨first', hfirst', -, hversion', -⟩
    rw [hfirst, Option.some_inj] at hfirst'
    exact hversion (hfirst' ▸ hversion')
  obtain ⟨padding, header, c, hpadding, hc, hheader, hparse⟩ := parseHeader_start hlen hfirst hlong hversion
  -- the misread datagrams among those that get here
  have hmisread : Misread datagram ↔ xbit first ≠ 0 ∧ 12 + csrcCount first * 4 ≤ datagram.length ∧
      ∀ start, payloadStart datagram = some start → start + paddingOctets datagram ≤ datagram.length := by
    constructor
    · rintro ⟨first', hfirst', -, -, hrest⟩
      rw [hfirst, Option.some_inj] at hfirst'
      exact hfirst' ▸ hrest
    · exact fun h => ⟨first, hfirst, hlong, hversion, h⟩
  have hcount : csrcCount first * 4 < 2 ^ 32 := by
    have hlt := (first &&& 0x0F).toNat_lt
    rw [csrcCount]
    omega
  rw [hmisread]
  obtain ⟨hfits, c1, hcsrc, hc1⟩ | ⟨hover, hcsrc⟩ := skipCsrc_spec hc hcount
  swap
  · simp only [hcsrc, Bool.not_false, if_true] at hparse
    refine iff_of_true (right_of_error hparse hc) ?_
    rintro ⟨-, hle, -⟩
    omega
  simp only [hcsrc, Bool.not_true, Bool.false_eq_true, if_false] at hparse
  by_cases hx : xbit first = 0
  · -- no extension: the window starts after the CSRC list
    have hstart : payloadStart datagram = some (12 + csrcCount first * 4) := by
      simp [payloadStart, hfirst, hx]
    rw [hx, skipExtension_none] at hparse
    simp only [Option.bind_some, Bool.not_true, Bool.false_eq_true, if_false] at hparse
    refine iff_of_true ?_ fun h => h.1 hx
    obtain ⟨hle, c2, hpad, hc2⟩ | ⟨hlt, hpad⟩ := skipPadding_spec hc1 padding
    · simp only [hpad, Bool.not_true, Bool.false_eq_true, if_false] at hparse
      obtain ⟨hoffset, hleft⟩ := hheader c2.rtpHeader c2.rtpPacketLen
      rw [right_of_ok_iff hparse hc2, hoffset, hleft, IsWindow, hstart, hc2.rtpHeader, hc2.rtpPacketLen, ← hpadding]
      exact ⟨rfl, by omega⟩
    · simp only [hpad, Bool.not_false, if_true] at hparse
      exact right_of_error hparse hc1
  · by_cases hfour : 12 + csrcCount first * 4 + 4 ≤ datagram.length
    swap
    · -- the length of the extension lies outside
      have hnone : be16 datagram (12 + csrcCount first * 4 + 2) = none := by
        cases hword : be16 datagram (12 + csrcCount first * 4 + 2) with
        | none => rfl
        | some n =>
          have hlt := (be16_lt hword).2
          omega
      have hparse' : parseHeader datagram = none := by
        rw [hparse, skipExtension, if_pos hx, hc1.rtpHeader, hnone]
        rfl
      refine iff_of_false ?_ fun hnot => hnot ⟨hx, by omega, fun start hstart => ?_⟩
      · rintro ⟨result, c', h, -⟩
        rw [hparse'] at h
        simp at h
      · simp [payloadStart, hfirst, hx, hnone] at hstart
    · obtain ⟨n, hword⟩ := be16_some (show 12 + csrcCount first * 4 + 2 + 1 < datagram.length by omega)
      have hstart : payloadStart datagram = some (12 + csrcCount first * 4 + 4 + n * 4) := by
        simp [payloadStart, hfirst, hx, hword]
      obtain ⟨hext, c2, hskip, hc2⟩ | ⟨hover, c2, hskip, hc2⟩ := skipExtension_spec hx hc1 hword (by omega)
      swap
      · simp only [hskip, Option.bind_some, Bool.not_false, if_true] at hparse
        refine iff_of_true (right_of_error hparse hc2) ?_
        rintro ⟨-, -, hall⟩
        have hle := hall _ hstart
        omega
      simp only [hskip, Option.bind_some, Bool.not_true, Bool.false_eq_true, if_false] at hparse
      obtain ⟨hle, c3, hpad, hc3⟩ | ⟨hlt, hpad⟩ := skipPadding_spec hc2 padding
      · -- accepted, with the last two bytes of the extension's first four in the window
        simp only [hpad, Bool.not_true, Bool.false_eq_true, if_false] at hparse
        obtain ⟨hoffset, -⟩ := hheader c3.rtpHeader c3.rtpPacketLen
        rw [right_of_ok_iff hparse hc3, hoffset, IsWindow, hstart, hc3.rtpHeader, Option.some_inj]
        refine iff_of_false (fun h => ?_) fun hnot => hnot ⟨hx, by omega, fun start hs => ?_⟩
        · have hne := h.1
          omega
        · rw [Option.some_inj] at hs
          omega
      · simp only [hpad, Bool.not_false, if_true] at hparse
        refine iff_of_true (right_of_error hparse hc2) ?_
        rintro ⟨-, -, hall⟩
        have hle := hall _ hstart
        omega

namespace PVMFRTPJitterBufferImpl

theorem finishPacket_packet {jb : PVMFRTPJitterBufferImpl} {header : Header} {datagram : List UInt8}
    {aFragIndex : Nat} {allocated created : Bool} {packet : DataPacket}
    (h : (jb.finishPacket header datagram aFragIndex allocated created).2.1 = some packet) :
    packet = header.packet datagram := by
  simp only [finishPacket] at h
  split at h
  · simp at h
  split at h
  · simp at h
  · simpa using h.symm

/-- **When a datagram is read right**: exactly if it is not misread; and the packet that is made, if one is, has the
window of the header. -/
theorem window_iff (jb : PVMFRTPJitterBufferImpl) (hparsed : jb.iHeaderPreParsed = false) (container : Container)
    (aFragIndex : Nat) (hlen : (container.fragments.getD aFragIndex []).length < 2 ^ 32) :
    (Right (container.fragments.getD aFragIndex []) ↔ ¬Misread (container.fragments.getD aFragIndex [])) ∧
      ∀ (allocated created : Bool),
        (jb.parsePacketHeaderAndUpdateJBStats (some container) aFragIndex allocated created = none ↔
          parseHeader (container.fragments.getD aFragIndex []) = none) ∧
        ∀ status packet jb',
          jb.parsePacketHeaderAndUpdateJBStats (some container) aFragIndex allocated created =
            some (status, some packet, jb') →
          ∃ header c, parseHeader (container.fragments.getD aFragIndex []) = some (.ok header, c) ∧
            packet = header.packet (container.fragments.getD aFragIndex []) := by
  refine ⟨right_iff hlen, fun allocated created => ?_⟩
  simp only [parsePacketHeaderAndUpdateJBStats, hparsed, Bool.not_false, if_true]
  cases hparse : parseHeader (container.fragments.getD aFragIndex []) with
  | none => simp
  | some result =>
    obtain ⟨result, c⟩ := result
    cases result with
    | error status => simp
    | ok header =>
      refine ⟨by simp, fun status packet jb' h => ⟨header, c, rfl, ?_⟩⟩
      rw [Option.some_inj] at h
      exact finishPacket_packet (by rw [h])

end PVMFRTPJitterBufferImpl

/-- A jitter buffer before the first packet. -/
def newJitterBuffer (iInPlaceProcessing : Bool) (arraySize : UInt32) : PVMFRTPJitterBufferImpl where
  iHeaderPreParsed := false
  iInPlaceProcessing
  iBroadCastSession := false
  iRTPDataArrived := false
  iEOSSent := false
  seqNumLock := false
  oSSRCFromSetUpResponseAvailable := false
  sSRCFromSetUpResponse := 0
  sSRCLock := 0
  iFirstSeqNum := 0
  seqLockTimeStamp := 0
  iFirstDataPackets := []
  iRTPInfoParamsVec := []
  iFirstSeqNumAdded := 0
  iJitterBuffer := PVMFDynamicCircularArray.construct arraySize

/-- A datagram with an extension of one word, and two bytes of payload, 1 and 2. -/
def extended : List UInt8 := [0x90, 96, 0, 1, 0, 0, 0, 0, 0, 0, 0, 7, 0xBE, 0xDE, 0, 1, 0x10, 0xFF, 0, 0, 1, 2]

theorem window_iff_extended : Right extended ↔ ¬Misread extended :=
  ((newJitterBuffer true 8).window_iff rfl ⟨[extended], 0, 0, 0, 0⟩ 0 (by decide)).1

/-- **A window that is not the payload**: it starts at offset 18, with the last two bytes of the extension, and leaves
out the last two bytes of the datagram. -/
theorem extension_in_window : ∃ header c, parseHeader extended = some (.ok header, c) ∧
    header.rtpHeaderOffset = 18 ∧ header.rtpPacketLenExcludingHeader = 2 ∧ payloadStart extended = some 20 ∧
    ¬Right extended := by
  have hparse : parseHeader extended =
      some (.ok ⟨1, 0, 7, 0, 18, 2⟩, ⟨18, 2, [(6, 4), (10, 4), (22, 12)]⟩) := by decide
  refine ⟨_, _, hparse, rfl, rfl, by decide, ?_⟩
  rintro ⟨result, c, h, -, hwindow⟩
  rw [hparse, Option.some_inj, Prod.mk.injEq] at h
  have hstart := (hwindow _ h.1.symm).1
  revert hstart
  decide

end Ftke.RtpJitterBuffer
