import Ftke.H264PayloadParser
import Ftke.Bits

/-!
# Ftke.H264PayloadParser.Packets

The packets with several NAL units or with a fragment of one, and their octets in the
memory of a packet.
-/

namespace Ftke.H264PayloadParser

open PayloadParser

/-! ## The packets -/

/-- A NAL unit of a single-time aggregation packet. -/
structure NalUnit where
  octets : List UInt8
  ne : octets ≠ []
  lt : octets.length < 65536

/-- A NAL unit of a multi-time aggregation packet; a MTAP16 has the first two octets of the
timestamp offset alone. -/
structure TimedUnit where
  dond : UInt8
  tsOffset : UInt8 × UInt8 × UInt8
  octets : List UInt8
  lt : octets.length < 65536

def NalUnit.entry (nal : NalUnit) : List UInt8 := word nal.octets.length ++ nal.octets

/-- The octets before a NAL unit of a multi-time aggregation packet. -/
def TimedUnit.header (is24 : Bool) (u : TimedUnit) : List UInt8 :=
  word u.octets.length ++ [u.dond, u.tsOffset.1, u.tsOffset.2.1] ++ if is24 then [u.tsOffset.2.2] else []

def TimedUnit.entry (is24 : Bool) (u : TimedUnit) : List UInt8 := u.header is24 ++ u.octets

def mtapType (is24 : Bool) : UInt8 := if is24 then H264_RTP_PAYLOAD_MTAP24 else H264_RTP_PAYLOAD_MTAP16

/-- The size of the fields before a NAL unit of a multi-time aggregation packet. -/
def headerSize (is24 : Bool) : Nat := if is24 then 6 else 5

@[simp] theorem TimedUnit.length_header (is24 : Bool) (u : TimedUnit) :
    (u.header is24).length = headerSize is24 := by
  cases is24 <;> rfl

@[simp] theorem NalUnit.length_entry (nal : NalUnit) : nal.entry.length = 2 + nal.octets.length := by
  rw [NalUnit.entry, List.length_append]
  rfl

@[simp] theorem TimedUnit.length_entry (is24 : Bool) (u : TimedUnit) :
    (u.entry is24).length = headerSize is24 + u.octets.length := by
  rw [TimedUnit.entry, List.length_append, TimedUnit.length_header]

/-! ## One output -/

variable {s : H264PayloadParser} {frag : RefMemFrag} {nal_type : UInt8}

/-- What making an output leaves as it is, and the bit mask that it sets. -/
structure Made (s t : H264PayloadParser) (frag : RefMemFrag) (mask : UInt32) : Prop where
  depth : t.iInterleaveDepth = s.iInterleaveDepth
  queue : t.iIMP.iOutputMediaDataQueue = s.iIMP.iOutputMediaDataQueue
  counter : t.iIMP.iNALUnitsCounter = s.iIMP.iNALUnitsCounter
  prev : t.iIMP.iPrevNALType = s.iIMP.iPrevNALType
  ptr : t.iIMP.iRtpPayloadPtr = some frag.ptr
  mask : t.iIsFragmentedBitMask = mask

/-- Where the entries of a single-time aggregation packet start. -/
def stapStart (nal_type : UInt8) : Nat := if nal_type = H264_RTP_PAYLOAD_STAP_B then 3 else 1

theorem generateStap_eq (s : H264PayloadParser) (frag : RefMemFrag) (nal_type : UInt8) (offset : Nat) :
    ∃ don, generateStap s frag nal_type offset =
      if stapFragments frag frag.len.toNat (stapStart nal_type) = [] then
        ⟨.failure, { s with iIMP := { s.iIMP with iDon := don } }, frag, [], offset⟩
      else ⟨.success, { s with iIMP := { s.iIMP with iDon := don } }, frag,
        stapFragments frag frag.len.toNat (stapStart nal_type), offset⟩ := by
  simp only [generateStap, stapStart]
  by_cases hb : nal_type = H264_RTP_PAYLOAD_STAP_B
  · exact ⟨frag.octets2 1, by simp only [if_pos hb]⟩
  · exact ⟨s.iIMP.iDon, by simp only [if_neg hb]⟩

theorem parseSingle_stap (frag : RefMemFrag) (hu : utilityOf nal_type = .stap) (inputPacket : Payload) :
    if stapFragments frag frag.len.toNat (stapStart nal_type) = [] then
      (parseSingle s inputPacket frag nal_type 0).status = .failure ∧
        (parseSingle s inputPacket frag nal_type 0).pushed = []
    else ∃ t out, parseSingle s inputPacket frag nal_type 0 = ⟨.success, t, frag, [out], 0⟩ ∧
      out.vfragments = stapFragments frag frag.len.toNat (stapStart nal_type) ∧ Made s t frag 0 := by
  obtain ⟨don, hgen⟩ := generateStap_eq
    { s with
      iIMP := { s.iIMP with iRtpPayloadPtr := some frag.ptr }
      iIsFragmentedBitMask := 0 } frag nal_type 0
  by_cases hnil : stapFragments frag frag.len.toNat (stapStart nal_type) = []
  · rw [if_pos hnil] at hgen ⊢
    simp [parseSingle, hu, setMarkerInfo, generateMemFrag, hgen]
  · rw [if_neg hnil] at hgen ⊢
    simp only [parseSingle, hu, setMarkerInfo, generateMemFrag, hgen, Nat.lt_irrefl, false_and, if_false,
      gt_iff_lt, ne_eq, not_true_eq_false, setMediaDataTimestamp]
    exact ⟨_, _, rfl, rfl, ⟨rfl, rfl, rfl, rfl, rfl, rfl⟩⟩

theorem utilityOf_mtapType (is24 : Bool) : utilityOf (mtapType is24) = .mtap := by
  cases is24 <;> rfl

/-- Where an entry is looked for: behind the packet's header at first. -/
def entryAt (offset : Nat) : Nat := if offset = 0 then 3 else offset

/-- The size that an entry declares. -/
def sizeAt (frag : RefMemFrag) (offset : Nat) : Nat := frag.octets2 (entryAt offset)

/-- There is an entry to take. -/
def HasEntry (frag : RefMemFrag) (offset : Nat) : Prop :=
  if offset = 0 then 8 ≤ frag.len.toNat else offset + 5 < frag.len.toNat

theorem parseSingle_mtap (is24 : Bool) {offset : Nat} (h : HasEntry frag offset) (inputPacket : Payload) :
    ∃ t out, parseSingle s inputPacket frag (mtapType is24) offset =
        ⟨.success, t, frag, [out], entryAt offset + headerSize is24 + sizeAt frag offset⟩ ∧
      out.vfragments =
        [frag.part (entryAt offset + headerSize is24) (UInt32.ofNat (sizeAt frag offset))] ∧ Made s t frag 0 := by
  have hsetup : ¬(offset > 0 ∧ offset + 5 ≥ frag.len.toNat) := by
    simp only [HasEntry] at h
    split at h <;> omega
  have hfirst : ¬(offset = 0 ∧ (frag.len.toNat : Int) - offset ≤ 7) := by
    simp only [HasEntry] at h
    split at h <;> omega
  have hnext : ¬(frag.len.toNat : Int) - offset ≤ 5 := by
    simp only [HasEntry] at h
    split at h <;> omega
  have his24 : (mtapType is24 = H264_RTP_PAYLOAD_MTAP24) = (is24 = true) := by
    cases is24 <;> simp [mtapType, H264_RTP_PAYLOAD_MTAP16, H264_RTP_PAYLOAD_MTAP24]
  simp only [parseSingle, if_neg hsetup, utilityOf_mtapType, setMarkerInfo, generateMemFrag, generateMtap,
    if_neg hfirst, if_neg hnext, ne_eq, not_true_eq_false, if_false, setMediaDataTimestamp, his24]
  exact ⟨_, _, rfl, rfl, ⟨rfl, rfl, rfl, rfl, rfl, rfl⟩⟩

theorem parseSingle_mtap_end (is24 : Bool) {offset : Nat} (h : ¬HasEntry frag offset) (inputPacket : Payload) :
    (parseSingle s inputPacket frag (mtapType is24) offset).pushed = [] ∧
      (parseSingle s inputPacket frag (mtapType is24) offset).status ≠ .success ∧
      (offset ≠ 0 →
        parseSingle s inputPacket frag (mtapType is24) offset = ⟨.dataNotReady, s, frag, [], offset⟩) := by
  by_cases hzero : offset = 0
  · subst hzero
    rw [HasEntry, if_pos rfl] at h
    have hfirst : (0 : Nat) = 0 ∧ (frag.len.toNat : Int) - (0 : Nat) ≤ 7 := ⟨rfl, by omega⟩
    have hgen (t : H264PayloadParser) : generateMtap t frag (mtapType is24) 0 = ⟨.failure, t, frag, [], 0⟩ :=
      if_pos hfirst
    simp [parseSingle, utilityOf_mtapType, setMarkerInfo, generateMemFrag, hgen]
  · rw [HasEntry, if_neg hzero] at h
    have hsetup : offset > 0 ∧ offset + 5 ≥ frag.len.toNat := ⟨Nat.pos_of_ne_zero hzero, Nat.not_lt.mp h⟩
    simp only [parseSingle, if_pos hsetup]
    exact ⟨trivial, by simp, fun _ => trivial⟩

end Ftke.H264PayloadParser
