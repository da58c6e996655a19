import Ftke.H264PayloadParser.Packets
import Ftke.Words

/-!
# Ftke.H264PayloadParser.Fragmentation

The fragmentation units of one NAL unit, and units that are shorter than their header.
-/

namespace Ftke.H264PayloadParser

open PayloadParser

variable {s : H264PayloadParser} {frag : RefMemFrag} {nal_type : UInt8}

/-! ## The packets -/

/-- The first octet of a packet. -/
def indicator (header nal_type : UInt8) : UInt8 := (header &&& NAL_F_NRI_BIT_MASK) ||| nal_type

/-- The second octet of a fragmentation unit. -/
def fuHeader (bit header : UInt8) : UInt8 := bit ||| (header &&& NAL_TYPE_BIT_MASK)

/-- The first fragmentation unit of a NAL unit: a FU-B with a decoding order number, or a FU-A. -/
def startPacket (header : UInt8) (don : Option UInt16) (octets : List UInt8) : List UInt8 :=
  match don with
  | some don =>
    [indicator header H264_RTP_PAYLOAD_FU_B, fuHeader FU_S_BIT_MASK header] ++ word don.toNat ++ octets
  | none => [indicator header H264_RTP_PAYLOAD_FU_A, fuHeader FU_S_BIT_MASK header] ++ octets

/-- A FU-A behind the first fragmentation unit; `bit` is clear or `FU_E_BIT_MASK`. -/
def fuAPacket (bit header : UInt8) (octets : List UInt8) : List UInt8 :=
  [indicator header H264_RTP_PAYLOAD_FU_A, fuHeader bit header] ++ octets

def startType (don : Option UInt16) : UInt8 :=
  if don.isSome then H264_RTP_PAYLOAD_FU_B else H264_RTP_PAYLOAD_FU_A

/-! ## Bits of an octet -/

theorem or_and (x y z : UInt8) : (x ||| y) &&& z = (x &&& z) ||| (y &&& z) :=
  UInt8.eq_of_toBitVec_eq BitVec.and_or_distrib_right

theorem header_eq (header : UInt8) :
    (header &&& NAL_F_NRI_BIT_MASK) ||| (header &&& NAL_TYPE_BIT_MASK) = header := by
  have hall : NAL_F_NRI_BIT_MASK ||| NAL_TYPE_BIT_MASK = -1 := by decide
  have hdistrib : header &&& (NAL_F_NRI_BIT_MASK ||| NAL_TYPE_BIT_MASK) =
      (header &&& NAL_F_NRI_BIT_MASK) ||| (header &&& NAL_TYPE_BIT_MASK) :=
    UInt8.eq_of_toBitVec_eq BitVec.and_or_distrib_left
  rw [← hdistrib, hall, UInt8.and_neg_one]

theorem and_and_of_disjoint {x mask other : UInt8} (h : mask &&& other = 0) : (x &&& mask) &&& other = 0 := by
  rw [UInt8.and_assoc, h, UInt8.and_zero]

theorem indicator_type {header nal_type : UInt8} (h : nal_type &&& NAL_TYPE_BIT_MASK = nal_type) :
    indicator header nal_type &&& NAL_TYPE_BIT_MASK = nal_type := by
  rw [indicator, or_and, and_and_of_disjoint (by decide), UInt8.zero_or, h]

theorem indicator_nri {header nal_type : UInt8} (h : nal_type &&& NAL_F_NRI_BIT_MASK = 0) :
    indicator header nal_type &&& NAL_F_NRI_BIT_MASK = header &&& NAL_F_NRI_BIT_MASK := by
  rw [indicator, or_and, h, UInt8.or_zero, UInt8.and_assoc, UInt8.and_self]

theorem fuHeader_bit {bit header mask : UInt8} (h : NAL_TYPE_BIT_MASK &&& mask = 0) :
    fuHeader bit header &&& mask = bit &&& mask := by
  rw [fuHeader, or_and, and_and_of_disjoint h, UInt8.or_zero]

theorem fuHeader_type {bit header : UInt8} (h : bit &&& NAL_TYPE_BIT_MASK = 0) :
    fuHeader bit header &&& NAL_TYPE_BIT_MASK = header &&& NAL_TYPE_BIT_MASK := by
  rw [fuHeader, or_and, h, UInt8.zero_or, UInt8.and_assoc, UInt8.and_self]

/-! ## The type of a fragmentation unit -/

theorem fuType_and_three : fuType frag &&& 0x03 = fuType frag := by
  simp only [fuType]
  split
  · rfl
  · split <;> rfl

theorem fuBitMask_type : fuBitMask s frag nal_type &&& 0x03 = fuType frag := by
  have hheader : ((frag.octet 1).toUInt32 <<< 3) &&& 3 = 0 := Words.shiftLeft_and_three _ (by decide)
  have hcount (x : UInt32) : (x <<< 11) &&& 3 = 0 := Words.shiftLeft_and_three x (by decide)
  have hb : (if nal_type = H264_RTP_PAYLOAD_FU_B then (4 : UInt32) else 0) &&& 3 = 0 := by
    split <;> rfl
  simp only [fuBitMask, BIT_SHIFT_FOR_FU_COUNTER]
  generalize (if nal_type = H264_RTP_PAYLOAD_FU_B then (4 : UInt32) else 0) = b at hb ⊢
  have hmask : ((fuType frag ||| b) ||| ((frag.octet 1).toUInt32 <<< 3)) &&& 3 = fuType frag := by
    rw [Words.or_and, Words.or_and, hheader, hb, fuType_and_three, UInt32.or_zero, UInt32.or_zero]
  split
  · rw [Words.or_and, hmask, hcount, UInt32.or_zero]
  · exact hmask

/-! ## One fragmentation unit -/

/-- The type of a packet in its first octet. -/
def nalType (frag : RefMemFrag) : UInt8 := frag.octet 0 &&& NAL_TYPE_BIT_MASK

/-- The timestamp of an output, and the one that is kept for the next fragments. -/
def stamp (fu_type kept rtp_timestamp : UInt32) : UInt32 × UInt32 :=
  let kept := if fu_type = 1 ∨ kept = 0 then rtp_timestamp else kept
  (if kept > 1 then kept else rtp_timestamp, if fu_type = 3 then 0 else kept)

/-- The packet's memory behind `getMemFragPtrLen`. -/
def written (frag : RefMemFrag) (nal_type : UInt8) : RefMemFrag :=
  if fuType frag = 1 then
    let nal_unit_type := (frag.octet 0 &&& NAL_F_NRI_BIT_MASK) ||| (frag.octet 1 &&& NAL_TYPE_BIT_MASK)
    { frag with memory := frag.memory.set (fuOffset 1 nal_type) nal_unit_type }
  else frag

/-- A FU-B has to start a NAL unit. -/
def Refused (frag : RefMemFrag) (nal_type : UInt8) : Prop :=
  nal_type = H264_RTP_PAYLOAD_FU_B ∧ frag.octet 1 &&& FU_S_BIT_MASK = 0

theorem generateFu_eq (hmask : s.iIsFragmentedBitMask &&& 0x03 = fuType frag) (hok : ¬Refused frag nal_type)
    (offset : Nat) :
    ∃ t, generateFu s frag nal_type offset = ⟨.success, t, written frag nal_type,
        [(written frag nal_type).part (fuOffset (fuType frag) nal_type)
          (frag.len - UInt32.ofNat (fuOffset (fuType frag) nal_type))], offset⟩ ∧
      t.iTimestampForFU = s.iTimestampForFU ∧ t.iIsFragmentedBitMask = s.iIsFragmentedBitMask := by
  have hwritten : (if fuType frag = 1 then
      { frag with
        memory := frag.memory.set (fuOffset (fuType frag) nal_type)
          ((frag.octet 0 &&& NAL_F_NRI_BIT_MASK) ||| (frag.octet 1 &&& NAL_TYPE_BIT_MASK)) }
      else frag) = written frag nal_type := by
    rw [written]
    split
    · next hone => rw [hone]
    · rfl
  have hlen : (written frag nal_type).len = frag.len := by
    rw [written]
    split <;> rfl
  simp only [Refused] at hok
  by_cases hb : nal_type = H264_RTP_PAYLOAD_FU_B
  · simp only [generateFu, if_neg hok, if_pos hb, hmask, hwritten, hlen]
    exact ⟨_, rfl, rfl, rfl⟩
  · simp only [generateFu, if_neg hok, if_neg hb, hmask, hwritten, hlen]
    exact ⟨_, rfl, rfl, rfl⟩

theorem setMediaDataTimestamp_fu {fu_type : UInt32} (hmask : s.iIsFragmentedBitMask &&& 0x03 = fu_type)
    (rtp_timestamp : UInt32) :
    (setMediaDataTimestamp s .fu rtp_timestamp).1 = (stamp fu_type s.iTimestampForFU rtp_timestamp).1 ∧
      (setMediaDataTimestamp s .fu rtp_timestamp).2.iTimestampForFU =
        (stamp fu_type s.iTimestampForFU rtp_timestamp).2 := by
  simp only [setMediaDataTimestamp, stamp, hmask]
  by_cases hset : fu_type = 1 ∨ s.iTimestampForFU = 0
  · simp only [if_pos hset]
    exact ⟨trivial, by split <;> rfl⟩
  · simp only [if_neg hset]
    exact ⟨trivial, by split <;> rfl⟩

theorem parseSingle_fu (frag : RefMemFrag) (hu : utilityOf nal_type = .fu) (hok : ¬Refused frag nal_type)
    (inputPacket : Payload) :
    ∃ t out, parseSingle s inputPacket frag nal_type 0 = ⟨.success, t, written frag nal_type, [out], 0⟩ ∧
      out.vfragments = [(written frag nal_type).part (fuOffset (fuType frag) nal_type)
        (frag.len - UInt32.ofNat (fuOffset (fuType frag) nal_type))] ∧
      out.endOfNAL = decide (fuType frag = 3) ∧
      out.timestamp = (stamp (fuType frag) s.iTimestampForFU inputPacket.timestamp).1 ∧
      t.iTimestampForFU = (stamp (fuType frag) s.iTimestampForFU inputPacket.timestamp).2 := by
  obtain ⟨t, hgen, hkept, hmask⟩ := generateFu_eq
    (s := { s with
      iIMP := { s.iIMP with iRtpPayloadPtr := some frag.ptr }
      iIsFragmentedBitMask := fuBitMask s frag nal_type }) fuBitMask_type hok 0
  obtain ⟨hstamp, hnext⟩ := setMediaDataTimestamp_fu (s := t) (by rw [hmask, fuBitMask_type]) inputPacket.timestamp
  rw [hkept] at hstamp hnext
  have hbit : ({ s with iIMP := { s.iIMP with iRtpPayloadPtr := some frag.ptr } } : H264PayloadParser).fuBitMask
      frag nal_type = fuBitMask s frag nal_type := rfl
  simp only [parseSingle, hu, setMarkerInfo, generateMemFrag, hbit, hgen, gt_iff_lt, Nat.lt_irrefl, false_and,
    if_false, ne_eq, not_true_eq_false]
  exact ⟨_, _, rfl, rfl, rfl, hstamp, hnext⟩

/-! ## The octets of a unit -/

/-- A received packet has these octets, all of them in its memory. -/
def Holds (frag : RefMemFrag) (octets : List UInt8) : Prop :=
  frag.bytes = octets ∧ frag.len.toNat ≤ frag.memory.length

variable {header : UInt8} {don : Option UInt16} {first octets : List UInt8} {inputPacket : Payload}

theorem octet_startPacket (h : frag.bytes = startPacket header don first) :
    frag.octet 0 = indicator header (startType don) ∧ frag.octet 1 = fuHeader FU_S_BIT_MASK header := by
  cases don with
  | none => exact ⟨RefMemFrag.octet_of_drop h, RefMemFrag.octet_of_drop (i := 1) (by rw [h]; rfl)⟩
  | some don => exact ⟨RefMemFrag.octet_of_drop h, RefMemFrag.octet_of_drop (i := 1) (by rw [h]; rfl)⟩

theorem startType_mask (don : Option UInt16) : startType don &&& NAL_TYPE_BIT_MASK = startType don ∧
    startType don &&& NAL_F_NRI_BIT_MASK = 0 ∧ utilityOf (startType don) = .fu := by
  simp only [startType]
  cases don.isSome <;> decide

/-- **The first unit gives the NAL unit's header and its octets.** -/
theorem parseSingle_start (inputPacket : Payload) (h : Holds frag (startPacket header don first)) :
    ∃ t out, parseSingle s inputPacket frag (nalType frag) 0 = ⟨.success, t, written frag (nalType frag), [out], 0⟩ ∧
      out.octets = header :: first ∧ out.endOfNAL = false ∧ out.timestamp = inputPacket.timestamp ∧
      t.iTimestampForFU = inputPacket.timestamp := by
  obtain ⟨hzero, hone⟩ := octet_startPacket h.1
  obtain ⟨htype, hnri, hu⟩ := startType_mask don
  have hnal : nalType frag = startType don := by rw [nalType, hzero, indicator_type htype]
  have hbit : frag.octet 1 &&& FU_S_BIT_MASK ≠ 0 := by
    rw [hone, fuHeader_bit (by decide)]
    decide
  have hfu : fuType frag = 1 := by rw [fuType, if_pos hbit]
  rw [hnal]
  obtain ⟨t, out, hparse, hfrags, hend, hstamp, hkept⟩ :=
    parseSingle_fu (s := s) frag hu (fun hr => hbit hr.2) inputPacket
  refine ⟨t, out, hparse, ?_, by rw [hend, hfu]; rfl, ?_, ?_⟩
  · have hlen := congrArg List.length h.1
    rw [RefMemFrag.length_bytes] at hlen
    have hunit : (frag.octet 0 &&& NAL_F_NRI_BIT_MASK) ||| (frag.octet 1 &&& NAL_TYPE_BIT_MASK) = header := by
      rw [hzero, hone, indicator_nri hnri, fuHeader_type (by decide), header_eq]
    have hwritten : written frag (startType don) =
        { frag with memory := frag.memory.set (fuOffset 1 (startType don)) header } := by
      rw [written, if_pos hfu, hunit]
    have hstart : fuOffset 1 (startType don) + 1 ≤ frag.len.toNat ∧ fuOffset 1 (startType don) < 2 ^ 32 ∧
        ((startPacket header don first).set (fuOffset 1 (startType don)) header).drop
          (fuOffset 1 (startType don)) = header :: first := by
      cases don with
      | none =>
        refine ⟨?_, by decide, rfl⟩
        rw [hlen, startPacket, List.length_append]
        exact Nat.le_add_right 2 _
      | some don =>
        refine ⟨?_, (by decide : 3 < 2 ^ 32), rfl⟩
        rw [hlen, startPacket, List.length_append, List.length_append]
        exact Nat.le_add_right 4 _
    obtain ⟨hfits, hsmall, hdrop⟩ := hstart
    have hmem := h.2
    rw [Payload.octets, hfrags, hfu, List.flatMap_cons, List.flatMap_nil, List.append_nil, hwritten]
    generalize hpos : fuOffset 1 (startType don) = pos at hfits hsmall hdrop ⊢
    have hpiece := bytes_piece (m := { frag with memory := frag.memory.set pos header }) hsmall (Nat.le_of_lt hfits)
    rw [bytes_set (by omega), h.1, hdrop] at hpiece
    exact hpiece
  · rw [hstamp, hfu, stamp]
    simp only [true_or, if_true]
    split
    · rfl
    · rfl
  · rw [hkept, hfu, stamp]
    simp only [true_or, if_true]
    rfl

/-- **A further unit gives its octets.** -/
theorem parseSingle_fuA (inputPacket : Payload) (bit : UInt8) (hbit : bit = 0 ∨ bit = FU_E_BIT_MASK)
    (h : frag.bytes = fuAPacket bit header octets) :
    ∃ t out, parseSingle s inputPacket frag (nalType frag) 0 = ⟨.success, t, written frag (nalType frag), [out], 0⟩ ∧
      out.octets = octets ∧ out.endOfNAL = decide (bit = FU_E_BIT_MASK) ∧
      out.timestamp = (if s.iTimestampForFU > 1 then s.iTimestampForFU else inputPacket.timestamp) ∧
      (bit = 0 → t.iTimestampForFU =
        if s.iTimestampForFU = 0 then inputPacket.timestamp else s.iTimestampForFU) := by
  have hzero : frag.octet 0 = indicator header H264_RTP_PAYLOAD_FU_A := RefMemFrag.octet_of_drop h
  have hone : frag.octet 1 = fuHeader bit header := RefMemFrag.octet_of_drop (i := 1) (by rw [h]; rfl)
  have hnal : nalType frag = H264_RTP_PAYLOAD_FU_A := by rw [nalType, hzero, indicator_type (by decide)]
  have hfu : fuType frag = if bit = FU_E_BIT_MASK then 3 else 2 := by
    rw [fuType, hone, fuHeader_bit (by decide), fuHeader_bit (by decide)]
    rcases hbit with rfl | rfl <;> rfl
  have hne : fuType frag ≠ 1 := by
    rw [hfu]
    split <;> decide
  rw [hnal]
  obtain ⟨t, out, hparse, hfrags, hend, hstamp, hkept⟩ :=
    parseSingle_fu (s := s) frag (rfl : utilityOf H264_RTP_PAYLOAD_FU_A = .fu)
      (fun hr => absurd hr.1 (by decide)) inputPacket
  refine ⟨t, out, hparse, ?_, ?_, ?_, ?_⟩
  · have hlen := congrArg List.length h
    rw [RefMemFrag.length_bytes, fuAPacket, List.length_append] at hlen
    have hpos : fuOffset (fuType frag) H264_RTP_PAYLOAD_FU_A = 2 := by
      rw [fuOffset, if_pos hne]
      rfl
    have htwo : 2 ≤ frag.len.toNat := hlen ▸ Nat.le_add_right 2 octets.length
    rw [Payload.octets, hfrags, written, if_neg hne, hpos, List.flatMap_cons, List.flatMap_nil, List.append_nil,
      bytes_piece (by decide) htwo, h]
    rfl
  · rw [hend, hfu]
    rcases hbit with rfl | rfl <;> rfl
  · rw [hstamp, stamp]
    simp only [hne, false_or]
    by_cases hnone : s.iTimestampForFU = 0
    · rw [if_pos hnone, hnone]
      simp
    · rw [if_neg hnone]
  · intro hinner
    rw [hkept, stamp, hfu, hinner]
    simp [FU_E_BIT_MASK]

/-! ## The units of a NAL unit -/

/-- A packet, and the memory of its first fragment. -/
abbrev Received := Payload × RefMemFrag

/-- The units are parsed one after another. -/
def outputs : H264PayloadParser → List Received → List Payload
  | _, [] => []
  | s, (inputPacket, frag) :: received =>
    let r := parseSingle s inputPacket frag (nalType frag) 0
    r.pushed ++ outputs r.parser received

/-- The octets of the units behind the first one. -/
def restPackets (header : UInt8) (inner : List (List UInt8)) (last : List UInt8) : List (List UInt8) :=
  inner.map (fuAPacket 0 header) ++ [fuAPacket FU_E_BIT_MASK header last]

/-- The octets of the units of a NAL unit. -/
def unitPackets (header : UInt8) (don : Option UInt16) (first : List UInt8) (inner : List (List UInt8))
    (last : List UInt8) : List (List UInt8) :=
  startPacket header don first :: restPackets header inner last

/-- The packets that are received hold these octets. -/
def Carry (received : List Received) (packets : List (List UInt8)) : Prop :=
  List.Forall₂ (fun r octets => Holds r.2 octets) received packets

variable {inner : List (List UInt8)} {last : List UInt8} {received : List Received}

/-- The units behind the first one give their octets, and the last one ends the NAL unit. -/
theorem outputs_rest (h : Carry received (restPackets header inner last)) :
    (outputs s received).flatMap Payload.octets = inner.flatten ++ last ∧
      (outputs s received).map Payload.endOfNAL = List.replicate inner.length false ++ [true] := by
  induction inner generalizing s received with
  | nil =>
    obtain ⟨r, received, hr, hnil, rfl⟩ := List.forall₂_cons_right_iff.mp h
    obtain rfl := List.forall₂_nil_right_iff.mp hnil
    obtain ⟨t, out, hparse, hoctets, hend, -⟩ := parseSingle_fuA (s := s) r.1 _ (.inr rfl) hr.1
    simp [outputs, hparse, hoctets, hend]
  | cons octets inner ih =>
    obtain ⟨r, received, hr, hrest, rfl⟩ := List.forall₂_cons_right_iff.mp h
    obtain ⟨t, out, hparse, hoctets, hend, -⟩ := parseSingle_fuA (s := s) r.1 _ (.inl rfl) hr.1
    obtain ⟨ihOctets, ihEnd⟩ := ih (s := t) hrest
    simp [outputs, hparse, hoctets, hend, ihOctets, ihEnd, List.replicate_succ, FU_E_BIT_MASK]

theorem timestamps_rest (h : Carry received (restPackets header inner last)) :
    (∀ out ∈ outputs s received, out.timestamp = s.iTimestampForFU) ↔
      1 < s.iTimestampForFU ∨ ∀ r ∈ received, r.1.timestamp = s.iTimestampForFU := by
  induction inner generalizing s received with
  | nil =>
    obtain ⟨r, received, hr, hnil, rfl⟩ := List.forall₂_cons_right_iff.mp h
    obtain rfl := List.forall₂_nil_right_iff.mp hnil
    obtain ⟨t, out, hparse, -, -, hstamp, -⟩ := parseSingle_fuA (s := s) r.1 _ (.inr rfl) hr.1
    by_cases hkept : 1 < s.iTimestampForFU
    · simp [outputs, hparse, hstamp, hkept]
    · simp [outputs, hparse, hstamp, hkept]
  | cons octets inner ih =>
    obtain ⟨r, received, hr, hrest, rfl⟩ := List.forall₂_cons_right_iff.mp h
    obtain ⟨t, out, hparse, -, -, hstamp, hnext⟩ := parseSingle_fuA (s := s) r.1 _ (.inl rfl) hr.1
    have ih := ih (s := t) hrest
    rw [hnext rfl] at ih
    by_cases hkept : 1 < s.iTimestampForFU
    · have hne : s.iTimestampForFU ≠ 0 := fun hzero => absurd (hzero ▸ hkept) (by decide)
      rw [if_neg hne] at ih
      simp [outputs, hparse, hstamp, hkept, ih]
    · by_cases hsame : r.1.timestamp = s.iTimestampForFU
      · have hnext : (if s.iTimestampForFU = 0 then r.1.timestamp else s.iTimestampForFU) = s.iTimestampForFU := by
          rw [hsame, ite_self]
        rw [hnext] at ih
        simp [outputs, hparse, hstamp, hkept, hsame, ih]
      · simp [outputs, hparse, hstamp, hkept, hsame]

/-- The units' outputs are put together to the NAL unit, the last one alone ends it, and all
have the timestamp of the first unit. -/
structure Reassembled (received : List Received) (out : List Payload) (nal : List UInt8) : Prop where
  octets : out.flatMap Payload.octets = nal
  endOfNAL : ∃ n, out.map Payload.endOfNAL = List.replicate n false ++ [true]
  timestamp : ∀ o ∈ out, received.head?.map (fun r => r.1.timestamp) = some o.timestamp

/-- **The NAL unit is put together again from its units, as long as its timestamp is none of
the two special values.** -/
theorem reassembled_iff (h : Carry received (unitPackets header don first inner last)) :
    Reassembled received (outputs s received) (header :: (first ++ inner.flatten ++ last)) ↔
      ∀ r ∈ received.head?, 1 < r.1.timestamp ∨ ∀ r' ∈ received, r'.1.timestamp = r.1.timestamp := by
  obtain ⟨r, received, hr, hrest, rfl⟩ := List.forall₂_cons_right_iff.mp h
  obtain ⟨t, out, hparse, hoctets, hend, hstamp, hkept⟩ := parseSingle_start (s := s) r.1 hr
  obtain ⟨hflat, hends⟩ := outputs_rest (s := t) hrest
  have hstamps := timestamps_rest (s := t) hrest
  have hout : outputs s (r :: received) = out :: outputs t received := by
    rw [outputs, hparse, List.singleton_append]
  have hhead : (∀ r0 ∈ (r :: received).head?, 1 < r0.1.timestamp ∨
      ∀ r' ∈ r :: received, r'.1.timestamp = r0.1.timestamp) ↔
        1 < t.iTimestampForFU ∨ ∀ r' ∈ received, r'.1.timestamp = t.iTimestampForFU := by
    simp [hkept]
  rw [hhead, ← hstamps, hkept, hout]
  constructor
  · intro hall o ho
    exact (Option.some.inj (hall.timestamp o (List.mem_cons_of_mem _ ho))).symm
  · intro hall
    refine ⟨?_, ⟨inner.length + 1, ?_⟩, ?_⟩
    · rw [List.flatMap_cons, hoctets, hflat, List.cons_append, List.append_assoc]
    · rw [List.map_cons, hend, hends, List.replicate_succ, List.cons_append]
    · intro o ho
      rcases List.mem_cons.mp ho with rfl | ho
      · exact congrArg some hstamp.symm
      · exact congrArg some (hall o ho).symm

/-! ## Units that are shorter than their header -/

/-- No output is longer than the packet. -/
def NoLonger (s : H264PayloadParser) (r : Received) : Prop :=
  ∀ out ∈ (parseSingle s r.1 r.2 (nalType r.2) 0).pushed, ∀ f ∈ out.vfragments, f.len ≤ r.2.len

/-- The packet has the octets before its payload. -/
def HasHeader (frag : RefMemFrag) : Prop := fuOffset (fuType frag) (nalType frag) ≤ frag.len.toNat

theorem fuOffset_le (fu_type : UInt32) (nal_type : UInt8) :
    0 < fuOffset fu_type nal_type ∧ fuOffset fu_type nal_type ≤ 4 := by
  rw [fuOffset]
  split <;> split <;> omega

/-- **A shorter unit that is not refused gives a longer output.** -/
theorem noLonger_iff (hu : utilityOf (nalType frag) = .fu) :
    NoLonger s (inputPacket, frag) ↔ HasHeader frag ∨ Refused frag (nalType frag) := by
  by_cases hok : Refused frag (nalType frag)
  · have hgen (t : H264PayloadParser) : generateFu t frag (nalType frag) 0 = ⟨.failure, t, frag, [], 0⟩ := if_pos hok
    simp [NoLonger, parseSingle, hu, setMarkerInfo, generateMemFrag, hgen, hok]
  · obtain ⟨t, out, hparse, hfrags, -⟩ := parseSingle_fu (s := s) frag hu hok inputPacket
    obtain ⟨hpos, hfour⟩ := fuOffset_le (fuType frag) (nalType frag)
    have hlen := frag.len.toNat_lt
    simp only [NoLonger, hparse, List.mem_singleton, forall_eq, hfrags, HasHeader, hok, or_false]
    generalize fuOffset (fuType frag) (nalType frag) = start at hpos hfour ⊢
    rw [RefMemFrag.part, UInt32.le_iff_toNat_le, UInt32.toNat_sub,
      UInt32.toNat_ofNat_of_lt' (show start < 2 ^ 32 by omega)]
    omega

/-! ## Calls of `Parse` -/

/-- **The units of a NAL unit are put together again exactly when the first timestamp is above
one or all timestamps are the same, and a unit gives no output that is longer than the packet
exactly when it has its header or is refused.** -/
theorem fragmentation_iff (s : H264PayloadParser) (header : UInt8) (don : Option UInt16) (first : List UInt8)
    (inner : List (List UInt8)) (last : List UInt8) (received : List Received)
    (h : Carry received (unitPackets header don first inner last)) (unit : Received)
    (hu : utilityOf (nalType unit.2) = .fu) :
    (Reassembled received (outputs s received) (header :: (first ++ inner.flatten ++ last)) ↔
      ∀ r ∈ received.head?, 1 < r.1.timestamp ∨ ∀ r' ∈ received, r'.1.timestamp = r.1.timestamp) ∧
    (NoLonger s unit ↔ HasHeader unit.2 ∨ Refused unit.2 (nalType unit.2)) :=
  ⟨reassembled_iff h, noLonger_iff hu⟩

/-- A packet with these octets. -/
def receivedOf (timestamp : UInt32) (octets : List UInt8) : Received :=
  let frag : RefMemFrag := ⟨0, UInt32.ofNat octets.length, octets⟩
  (⟨0, timestamp, 0, false, false, false, [frag]⟩, frag)

theorem fragmentation_three_units :
    (Reassembled [receivedOf 90000 [0x7d, 0x85, 0x00, 0x07, 0x11], receivedOf 90000 [0x7c, 0x05, 0x22],
        receivedOf 90000 [0x7c, 0x45, 0x33]]
      (outputs (init 2) [receivedOf 90000 [0x7d, 0x85, 0x00, 0x07, 0x11], receivedOf 90000 [0x7c, 0x05, 0x22],
        receivedOf 90000 [0x7c, 0x45, 0x33]])
      [0x65, 0x11, 0x22, 0x33]) ∧ NoLonger (init 2) (receivedOf 90000 [0x7c, 0x45]) := by
  have h := fragmentation_iff (init 2) 0x65 (some 7) [0x11] [[0x22]] [0x33]
    [receivedOf 90000 [0x7d, 0x85, 0x00, 0x07, 0x11], receivedOf 90000 [0x7c, 0x05, 0x22],
      receivedOf 90000 [0x7c, 0x45, 0x33]]
    (.cons ⟨by decide, by decide⟩ (.cons ⟨by decide, by decide⟩ (.cons ⟨by decide, by decide⟩ .nil)))
    (receivedOf 90000 [0x7c, 0x45]) (by decide)
  refine ⟨h.1.mpr ?_, h.2.mpr (.inl ?_)⟩
  · intro r hr
    exact .inl (Option.some.inj hr ▸ (by decide : (1 : UInt32) < 90000))
  · show 2 ≤ 2
    exact Nat.le_refl 2

/-- Units with the timestamp 1 and then 2, and a unit of one octet. -/
theorem special_timestamp_and_short_unit :
    (Carry [receivedOf 1 [0x7c, 0x85, 0x11], receivedOf 2 [0x7c, 0x45, 0x22]]
        (unitPackets 0x65 none [0x11] [] [0x22]) ∧
      ¬ Reassembled [receivedOf 1 [0x7c, 0x85, 0x11], receivedOf 2 [0x7c, 0x45, 0x22]]
        (outputs (init 0) [receivedOf 1 [0x7c, 0x85, 0x11], receivedOf 2 [0x7c, 0x45, 0x22]])
        [0x65, 0x11, 0x22]) ∧
    utilityOf (nalType (receivedOf 90000 [0x7c]).2) = .fu ∧ ¬ NoLonger (init 0) (receivedOf 90000 [0x7c]) := by
  refine ⟨⟨.cons ⟨by decide, by decide⟩ (.cons ⟨by decide, by decide⟩ .nil), fun h => ?_⟩, by decide, fun h => ?_⟩
  · have hlast := h.timestamp
      ((outputs (init 0) [receivedOf 1 [0x7c, 0x85, 0x11], receivedOf 2 [0x7c, 0x45, 0x22]]).getLast (by decide))
      (List.getLast_mem _)
    exact absurd hlast (by decide)
  · have hlen : (0xffffffff : UInt32) ≤ 1 := h _ (List.mem_singleton.mpr rfl) _ (List.mem_singleton.mpr rfl)
    exact absurd hlen (by decide)

end Ftke.H264PayloadParser
