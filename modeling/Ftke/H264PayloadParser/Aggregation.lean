import Ftke.H264PayloadParser.Packets

/-!
# Ftke.H264PayloadParser.Aggregation

The fragments that are made of aggregation packets: for a packet of complete entries they
are its NAL units in order, and they lie in the packet exactly if the entries are
complete.

The loops look at the place of the next size, never at the size that they have read
(`stapFragments_eq`, `entriesFrom_eq`), so that a declared size may lead out of the
packet.
-/

namespace Ftke.H264PayloadParser

open PayloadParser

variable {frag : RefMemFrag} {s : H264PayloadParser}

/-- The memory fragment lies in the packet. -/
def Inside (frag m : RefMemFrag) : Prop := frag.ptr ≤ m.ptr ∧ m.ptr + m.len.toNat ≤ frag.ptr + frag.len.toNat

variable {start n pos offset : Nat}

theorem inside_part {len : UInt32} :
    Inside frag (frag.part start len) ↔ start + len.toNat ≤ frag.len.toNat := by
  simp only [Inside, RefMemFrag.part]
  omega

theorem toNat_ofNat_size (h : n < 65536) : (UInt32.ofNat n).toNat = n :=
  UInt32.toNat_ofNat_of_lt (Nat.lt_trans h (by decide))

/-! ## Single-time aggregation packets -/

/-- What the loop does not take for an entry: two octets at most, or a size of zero. -/
def Stops (tail : List UInt8) : Prop := tail.length ≤ 2 ∨ tail.take 2 = word 0

/-- The octets behind the header are complete entries. -/
def StapComplete (octets : List UInt8) : Prop :=
  ∃ (nals : List NalUnit) (tail : List UInt8), octets = nals.flatMap NalUnit.entry ++ tail ∧ Stops tail

/-- The parts of the packet in which the NAL units lie. -/
def stapParts (frag : RefMemFrag) : Nat → List NalUnit → List RefMemFrag
  | _, [] => []
  | pos, nal :: nals =>
    frag.part (pos + 2) (UInt32.ofNat nal.octets.length) :: stapParts frag (pos + 2 + nal.octets.length) nals

theorem length_drop_bytes {l : List UInt8} (h : frag.bytes.drop pos = l) :
    frag.len.toNat - pos = l.length := by
  rw [← h, List.length_drop, RefMemFrag.length_bytes]

variable {rest tail : List UInt8}

theorem drop_entry {nal : NalUnit} (h : frag.bytes.drop pos = nal.entry ++ rest) :
    frag.bytes.drop (pos + 2) = nal.octets ++ rest ∧ frag.bytes.drop (pos + 2 + nal.octets.length) = rest := by
  have hbehind : frag.bytes.drop (pos + 2) = nal.octets ++ rest := by
    rw [← List.drop_drop, h]
    rfl
  exact ⟨hbehind, by rw [← List.drop_drop, hbehind, List.drop_left]⟩

theorem stapFragments_eq (htail : Stops tail) : ∀ (nals : List NalUnit) {fuel pos : Nat},
    nals.length ≤ fuel → frag.bytes.drop pos = nals.flatMap NalUnit.entry ++ tail →
      stapFragments frag fuel pos = stapParts frag pos nals
  | [], 0, _, _, _ => rfl
  | [], fuel + 1, pos, _, h => by
    rw [List.flatMap_nil, List.nil_append] at h
    have hlen := length_drop_bytes h
    rw [stapFragments, stapParts]
    split
    · next hlt =>
      have hzero : frag.octets2 pos = 0 := by
        have hbytes : frag.bytes.drop pos = word 0 ++ tail.drop 2 := by
          rw [h, ← htail.resolve_left (by omega), List.take_append_drop]
        exact RefMemFrag.octets2_of_drop (by decide) hbytes
      simp only [hzero, if_true]
    · rfl
  | nal :: nals, fuel + 1, pos, hfuel, h => by
    rw [List.flatMap_cons, List.append_assoc] at h
    have hlen := length_drop_bytes h
    rw [List.length_append, NalUnit.length_entry] at hlen
    have hpos : 0 < nal.octets.length := List.length_pos_of_ne_nil nal.ne
    have hsize : frag.octets2 pos = nal.octets.length :=
      RefMemFrag.octets2_of_drop nal.lt (by rw [h, NalUnit.entry, List.append_assoc])
    have ih := stapFragments_eq htail nals (Nat.le_of_succ_le_succ hfuel) (drop_entry h).2
    rw [stapFragments, if_pos (by omega), stapParts]
    simp only [hsize, if_neg (Nat.ne_of_gt hpos), ih]

theorem bytes_stapParts : ∀ (nals : List NalUnit) {pos : Nat},
    frag.bytes.drop pos = nals.flatMap NalUnit.entry ++ tail →
      (stapParts frag pos nals).map RefMemFrag.bytes = nals.map NalUnit.octets ∧
        ∀ m ∈ stapParts frag pos nals, Inside frag m
  | [], _, _ => ⟨rfl, fun _ h => absurd h List.not_mem_nil⟩
  | nal :: nals, pos, h => by
    rw [List.flatMap_cons, List.append_assoc] at h
    obtain ⟨hbehind, hrest⟩ := drop_entry h
    have hlen := length_drop_bytes hbehind
    have hpos : 0 < nal.octets.length := List.length_pos_of_ne_nil nal.ne
    rw [List.length_append] at hlen
    have hfits : pos + 2 + (UInt32.ofNat nal.octets.length).toNat ≤ frag.len.toNat := by
      rw [toNat_ofNat_size nal.lt]
      omega
    have hbytes : (frag.part (pos + 2) (UInt32.ofNat nal.octets.length)).bytes = nal.octets := by
      rw [RefMemFrag.bytes_part hfits, hbehind, toNat_ofNat_size nal.lt, List.take_left]
    obtain ⟨hmap, hinside⟩ := bytes_stapParts nals hrest
    refine ⟨?_, ?_⟩
    · rw [stapParts, List.map_cons, List.map_cons, hbytes, hmap]
    · rw [stapParts, List.forall_mem_cons]
      exact ⟨inside_part.mpr hfits, hinside⟩

theorem length_le_flatMap : ∀ nals : List NalUnit, nals.length ≤ (nals.flatMap NalUnit.entry).length
  | [] => Nat.le_refl 0
  | nal :: nals => by
    have ih := length_le_flatMap nals
    rw [List.flatMap_cons, List.length_append, NalUnit.length_entry, List.length_cons]
    omega

theorem octets_of_fits (h : pos + n ≤ frag.len.toNat) :
    ∃ octets : List UInt8, octets.length = n ∧ frag.bytes.drop pos = octets ++ frag.bytes.drop (pos + n) := by
  refine ⟨(frag.bytes.drop pos).take n, ?_, ?_⟩
  · rw [List.length_take, List.length_drop, RefMemFrag.length_bytes]
    omega
  · rw [← List.drop_drop, List.take_append_drop]

theorem entry_of_fits (hzero : frag.octets2 pos ≠ 0) (h : pos + 2 + frag.octets2 pos ≤ frag.len.toNat) :
    ∃ nal : NalUnit, frag.bytes.drop pos = nal.entry ++ frag.bytes.drop (pos + 2 + frag.octets2 pos) := by
  obtain ⟨octets, hlen, hoctets⟩ := octets_of_fits h
  have hsize := frag.octets2_lt pos
  refine ⟨⟨octets, List.ne_nil_of_length_pos (by omega), by omega⟩, ?_⟩
  have hword : word octets.length = word (frag.octets2 pos) := congrArg word hlen
  rw [RefMemFrag.drop_octets2 (by omega), hoctets, ← List.append_assoc, ← hword]
  rfl

theorem stapComplete_of_inside : ∀ {fuel pos : Nat}, frag.len.toNat ≤ pos + fuel →
    (∀ m ∈ stapFragments frag fuel pos, Inside frag m) → StapComplete (frag.bytes.drop pos)
  | 0, pos, hfuel, _ => by
    refine ⟨[], [], ?_, Or.inl (Nat.zero_le 2)⟩
    rw [List.drop_eq_nil_of_le (by rw [RefMemFrag.length_bytes]; omega)]
    rfl
  | fuel + 1, pos, hfuel, h => by
    by_cases hlt : pos + 2 < frag.len.toNat
    · have hword := RefMemFrag.drop_octets2 (m := frag) (i := pos) (by omega)
      by_cases hzero : frag.octets2 pos = 0
      · refine ⟨[], frag.bytes.drop pos, rfl, Or.inr ?_⟩
        rw [hword, hzero]
        rfl
      · rw [stapFragments, if_pos hlt] at h
        simp only [if_neg hzero, List.forall_mem_cons] at h
        obtain ⟨hfirst, hrest⟩ := h
        have hsize := frag.octets2_lt pos
        rw [inside_part, toNat_ofNat_size hsize] at hfirst
        obtain ⟨nals, tail, hbytes, hstops⟩ := stapComplete_of_inside (by omega) hrest
        obtain ⟨nal, hentry⟩ := entry_of_fits hzero hfirst
        refine ⟨nal :: nals, tail, ?_, hstops⟩
        rw [hentry, hbytes, List.flatMap_cons, List.append_assoc]
    · refine ⟨[], frag.bytes.drop pos, rfl, Or.inl ?_⟩
      rw [List.length_drop, RefMemFrag.length_bytes]
      omega

/-- **When single-time fragments lie in the packet**: if the octets behind the header are
complete entries. -/
theorem inside_stap_iff (start : Nat) :
    (∀ m ∈ stapFragments frag frag.len.toNat start, Inside frag m) ↔ StapComplete (frag.bytes.drop start) := by
  constructor
  · exact stapComplete_of_inside (Nat.le_add_left _ _)
  · rintro ⟨nals, tail, hbytes, htail⟩
    have hlen := length_drop_bytes hbytes
    have hle := length_le_flatMap nals
    rw [List.length_append] at hlen
    rw [stapFragments_eq htail nals (by omega) hbytes]
    exact (bytes_stapParts nals hbytes).2

/-! ## Multi-time aggregation packets -/

variable {is24 : Bool}

/-- The octets behind the header are complete entries, with less than another behind them. -/
def MtapComplete (is24 : Bool) (octets : List UInt8) : Prop :=
  ∃ (unit : TimedUnit) (units : List TimedUnit) (tail : List UInt8),
    octets = unit.entry is24 ++ (units.flatMap (TimedUnit.entry is24) ++ tail) ∧ tail.length ≤ 5

/-- The fragments of the entries from an offset on. -/
def entriesFrom (is24 : Bool) (frag : RefMemFrag) : Nat → Nat → List RefMemFrag
  | 0, _ => []
  | fuel + 1, pos =>
    if pos + 5 < frag.len.toNat then
      frag.part (pos + headerSize is24) (UInt32.ofNat (frag.octets2 pos)) ::
        entriesFrom is24 frag fuel (pos + headerSize is24 + frag.octets2 pos)
    else []

theorem headerSize_cases (is24 : Bool) : headerSize is24 = 5 ∨ headerSize is24 = 6 := by
  cases is24
  · exact Or.inl rfl
  · exact Or.inr rfl

theorem isMTAPType_mtapType (is24 : Bool) : isMTAPType (mtapType is24) = true := by
  cases is24 <;> rfl

theorem generate_mtap_next (is24 : Bool) (h : HasEntry frag offset) (inputPacket : Payload) (fuel : Nat) :
    ∃ t, (generate inputPacket (mtapType is24) (fuel + 1) s frag offset).pushed.flatMap Payload.vfragments =
      frag.part (entryAt offset + headerSize is24) (UInt32.ofNat (sizeAt frag offset)) ::
        (generate inputPacket (mtapType is24) fuel t frag
          (entryAt offset + headerSize is24 + sizeAt frag offset)).pushed.flatMap Payload.vfragments := by
  obtain ⟨t, out, hr, hout, -⟩ := parseSingle_mtap (s := s) is24 h inputPacket
  refine ⟨{ t with iIMP := t.iIMP.queue (inputPacket.withFrag frag) (mtapType is24) t.iIsFragmentedBitMask }, ?_⟩
  simp only [generate, hr, isMTAPType_mtapType, if_true, reduceCtorEq, if_false, ne_eq, not_true_eq_false,
    List.singleton_append, List.flatMap_cons, hout]

theorem generate_mtap_stops (h : ¬HasEntry frag offset) (inputPacket : Payload) (fuel : Nat) :
    (generate inputPacket (mtapType is24) fuel s frag offset).pushed = [] := by
  cases fuel with
  | zero => rfl
  | succ fuel =>
    obtain ⟨hpushed, hstatus, -⟩ := parseSingle_mtap_end (s := s) is24 h inputPacket
    simp only [generate]
    split
    · exact hpushed
    · exact hpushed

theorem generate_mtap (inputPacket : Payload) : ∀ {fuel pos : Nat} {s : H264PayloadParser}, 0 < pos →
    (generate inputPacket (mtapType is24) fuel s frag pos).pushed.flatMap Payload.vfragments =
      entriesFrom is24 frag fuel pos
  | 0, _, _, _ => rfl
  | fuel + 1, pos, s, hpos => by
    have hentry : entryAt pos = pos := if_neg (Nat.ne_of_gt hpos)
    have hhas : HasEntry frag pos ↔ pos + 5 < frag.len.toNat := by
      rw [HasEntry, if_neg (Nat.ne_of_gt hpos)]
    rw [entriesFrom]
    by_cases hlt : pos + 5 < frag.len.toNat
    · obtain ⟨t, hnext⟩ := generate_mtap_next (s := s) is24 (hhas.mpr hlt) inputPacket fuel
      rw [hentry, sizeAt, hentry] at hnext
      rw [if_pos hlt, hnext, generate_mtap inputPacket (by omega)]
    · rw [if_neg hlt, generate_mtap_stops (fun h => hlt (hhas.mp h))]
      rfl

theorem generate_mtap_first (h : 8 ≤ frag.len.toNat) (inputPacket : Payload) :
    (generate inputPacket (mtapType is24) frag.len.toNat s frag 0).pushed.flatMap Payload.vfragments =
      frag.part (3 + headerSize is24) (UInt32.ofNat (frag.octets2 3)) ::
        entriesFrom is24 frag (frag.len.toNat - 1) (3 + headerSize is24 + frag.octets2 3) := by
  obtain ⟨fuel, hfuel⟩ : ∃ fuel, frag.len.toNat = fuel + 1 := ⟨frag.len.toNat - 1, by omega⟩
  have hhas : HasEntry frag 0 := by
    rw [HasEntry, if_pos rfl]
    exact h
  obtain ⟨t, hnext⟩ := generate_mtap_next (s := s) is24 hhas inputPacket fuel
  rw [hfuel, Nat.add_sub_cancel, hnext, generate_mtap inputPacket (by rw [entryAt, if_pos rfl]; omega)]
  rfl

/-- The parts of the packet in which the NAL units lie. -/
def mtapParts (is24 : Bool) (frag : RefMemFrag) : Nat → List TimedUnit → List RefMemFrag
  | _, [] => []
  | pos, u :: us =>
    frag.part (pos + headerSize is24) (UInt32.ofNat u.octets.length) ::
      mtapParts is24 frag (pos + headerSize is24 + u.octets.length) us

theorem drop_timedEntry {u : TimedUnit} (h : frag.bytes.drop pos = u.entry is24 ++ rest) :
    frag.octets2 pos = u.octets.length ∧ frag.bytes.drop (pos + headerSize is24) = u.octets ++ rest ∧
      frag.bytes.drop (pos + headerSize is24 + u.octets.length) = rest := by
  have hword : frag.bytes.drop pos = word u.octets.length ++ ([u.dond, u.tsOffset.1, u.tsOffset.2.1] ++
      ((if is24 then [u.tsOffset.2.2] else []) ++ (u.octets ++ rest))) := by
    rw [h, TimedUnit.entry, TimedUnit.header, List.append_assoc, List.append_assoc, List.append_assoc]
  have hsize : frag.octets2 pos = u.octets.length := RefMemFrag.octets2_of_drop u.lt hword
  have hbehind : frag.bytes.drop (pos + headerSize is24) = u.octets ++ rest := by
    rw [← List.drop_drop, h, TimedUnit.entry, List.append_assoc, ← TimedUnit.length_header is24 u, List.drop_left]
  exact ⟨hsize, hbehind, by rw [← List.drop_drop, hbehind, List.drop_left]⟩

theorem bytes_timedPart {u : TimedUnit}
    (h : frag.bytes.drop pos = u.entry is24 ++ rest) (hpos : pos ≤ frag.len.toNat) :
    (frag.part (pos + headerSize is24) (UInt32.ofNat u.octets.length)).bytes = u.octets ∧
      Inside frag (frag.part (pos + headerSize is24) (UInt32.ofNat u.octets.length)) := by
  obtain ⟨-, hbehind, -⟩ := drop_timedEntry h
  have hlen := length_drop_bytes h
  rw [List.length_append, TimedUnit.length_entry] at hlen
  have hfits : pos + headerSize is24 + (UInt32.ofNat u.octets.length).toNat ≤ frag.len.toNat := by
    rw [toNat_ofNat_size u.lt]
    omega
  exact ⟨by rw [RefMemFrag.bytes_part hfits, hbehind, toNat_ofNat_size u.lt, List.take_left], inside_part.mpr hfits⟩

theorem inside_entriesFrom (htail : tail.length ≤ 5) : ∀ (units : List TimedUnit)
    {fuel pos : Nat}, frag.bytes.drop pos = units.flatMap (TimedUnit.entry is24) ++ tail →
      ∀ m ∈ entriesFrom is24 frag fuel pos, Inside frag m
  | _, 0, _, _ => fun _ h => absurd h List.not_mem_nil
  | [], fuel + 1, pos, h => by
    have hlen := length_drop_bytes h
    rw [List.flatMap_nil, List.nil_append] at hlen
    rw [entriesFrom, if_neg (by omega)]
    exact fun _ h => absurd h List.not_mem_nil
  | u :: us, fuel + 1, pos, h => by
    rw [List.flatMap_cons, List.append_assoc] at h
    obtain ⟨hsize, -, hrest⟩ := drop_timedEntry h
    rw [entriesFrom]
    split
    · next hlt =>
      rw [hsize, List.forall_mem_cons]
      exact ⟨(bytes_timedPart h (by omega)).2, inside_entriesFrom htail us hrest⟩
    · exact fun _ h => absurd h List.not_mem_nil

theorem timedEntry_of_fits (h : pos + headerSize is24 + frag.octets2 pos ≤ frag.len.toNat) :
    ∃ u : TimedUnit, frag.bytes.drop pos =
      u.entry is24 ++ frag.bytes.drop (pos + headerSize is24 + frag.octets2 pos) := by
  have hcases := headerSize_cases is24
  have hsize := frag.octets2_lt pos
  obtain ⟨octets, hlen, hoctets⟩ := octets_of_fits h
  have hword : word octets.length = word (frag.octets2 pos) := congrArg word hlen
  refine ⟨⟨frag.octet (pos + 2), (frag.octet (pos + 3), frag.octet (pos + 4), frag.octet (pos + 5)), octets,
    by omega⟩, ?_⟩
  rw [TimedUnit.entry, List.append_assoc, ← hoctets, RefMemFrag.drop_octets2 (by omega), ← hword,
    RefMemFrag.drop_bytes (by omega), RefMemFrag.drop_bytes (i := pos + 2 + 1) (by omega),
    RefMemFrag.drop_bytes (i := pos + 2 + 1 + 1) (by omega)]
  cases is24 with
  | false => rfl
  | true =>
    rw [RefMemFrag.drop_bytes (i := pos + 2 + 1 + 1 + 1)]
    · rfl
    · have h6 : headerSize true = 6 := rfl
      omega

theorem complete_of_inside : ∀ {fuel pos : Nat}, frag.len.toNat ≤ pos + fuel →
    (∀ m ∈ entriesFrom is24 frag fuel pos, Inside frag m) → ∃ (units : List TimedUnit) (tail : List UInt8),
      frag.bytes.drop pos = units.flatMap (TimedUnit.entry is24) ++ tail ∧ tail.length ≤ 5
  | 0, pos, hfuel, _ => by
    refine ⟨[], [], ?_, Nat.zero_le 5⟩
    rw [List.drop_eq_nil_of_le (by rw [RefMemFrag.length_bytes]; omega)]
    rfl
  | fuel + 1, pos, hfuel, h => by
    rw [entriesFrom] at h
    split at h
    · rw [List.forall_mem_cons, inside_part, toNat_ofNat_size (frag.octets2_lt pos)] at h
      obtain ⟨hfirst, hrest⟩ := h
      have hcases := headerSize_cases is24
      obtain ⟨u, hu⟩ := timedEntry_of_fits hfirst
      obtain ⟨units, tail, hbytes, htail⟩ := complete_of_inside (by omega) hrest
      refine ⟨u :: units, tail, ?_, htail⟩
      rw [hu, hbytes, List.flatMap_cons, List.append_assoc]
    · refine ⟨[], frag.bytes.drop pos, rfl, ?_⟩
      rw [List.length_drop, RefMemFrag.length_bytes]
      omega

/-- **When multi-time fragments lie in the packet**: if it is too short for an entry, or the
octets behind the header are complete entries. -/
theorem inside_mtap_iff (inputPacket : Payload) :
    (∀ m ∈ (generate inputPacket (mtapType is24) frag.len.toNat s frag 0).pushed.flatMap Payload.vfragments,
        Inside frag m) ↔
      frag.len.toNat < 8 ∨ MtapComplete is24 (frag.bytes.drop 3) := by
  by_cases hshort : frag.len.toNat < 8
  · have hno : ¬HasEntry frag 0 := by
      rw [HasEntry, if_pos rfl]
      omega
    rw [generate_mtap_stops hno]
    exact iff_of_true (fun _ h => absurd h List.not_mem_nil) (Or.inl hshort)
  · rw [generate_mtap_first (Nat.not_lt.mp hshort), List.forall_mem_cons]
    simp only [hshort, false_or]
    have hcases := headerSize_cases is24
    constructor
    · rintro ⟨hfirst, hrest⟩
      rw [inside_part, toNat_ofNat_size (frag.octets2_lt 3)] at hfirst
      obtain ⟨u, hu⟩ := timedEntry_of_fits hfirst
      obtain ⟨units, tail, hbytes, htail⟩ := complete_of_inside (by omega) hrest
      exact ⟨u, units, tail, by rw [hu, hbytes], htail⟩
    · rintro ⟨u, units, tail, hbytes, htail⟩
      obtain ⟨hsize, -, hrest⟩ := drop_timedEntry hbytes
      rw [hsize]
      exact ⟨(bytes_timedPart hbytes (by omega)).2, inside_entriesFrom htail units hrest⟩

theorem bytes_entriesFrom : ∀ {units : List TimedUnit} {fuel pos : Nat}, units.length ≤ fuel →
    (∀ u ∈ units, u.octets ≠ []) → frag.bytes.drop pos = units.flatMap (TimedUnit.entry is24) →
      (entriesFrom is24 frag fuel pos).map RefMemFrag.bytes = units.map TimedUnit.octets
  | [], 0, _, _, _, _ => rfl
  | [], fuel + 1, pos, _, _, h => by
    have hlen := length_drop_bytes h
    rw [List.flatMap_nil, List.length_nil] at hlen
    rw [entriesFrom, if_neg (by omega)]
    rfl
  | u :: us, fuel + 1, pos, hfuel, hne, h => by
    rw [List.flatMap_cons] at h
    rw [List.forall_mem_cons] at hne
    obtain ⟨hsize, -, hrest⟩ := drop_timedEntry h
    have hcases := headerSize_cases is24
    have hpos : 0 < u.octets.length := List.length_pos_of_ne_nil hne.1
    have hlen := length_drop_bytes h
    rw [List.length_append, TimedUnit.length_entry] at hlen
    rw [entriesFrom, if_pos (by omega), hsize, List.map_cons, List.map_cons, (bytes_timedPart h (by omega)).1,
      bytes_entriesFrom (Nat.le_of_succ_le_succ hfuel) hne.2 hrest]

/-! ## Any aggregation packet -/

inductive Aggregation where
  | stapA
  | stapB
  | mtap (is24 : Bool)

/-- The fragments that are made of a packet; a STAP-A does not go through the loop of the
interleaved mode. -/
def fragmentsOf (s : H264PayloadParser) (inputPacket : Payload) (frag : RefMemFrag) : Aggregation → List RefMemFrag
  | .stapA => (parseSingle s inputPacket frag H264_RTP_PAYLOAD_STAP_A 0).pushed.flatMap Payload.vfragments
  | .stapB =>
    (generate inputPacket H264_RTP_PAYLOAD_STAP_B frag.len.toNat s frag 0).pushed.flatMap Payload.vfragments
  | .mtap is24 => (generate inputPacket (mtapType is24) frag.len.toNat s frag 0).pushed.flatMap Payload.vfragments

/-- The entries are complete; a MTAP that is too short for one is refused. -/
def Complete (frag : RefMemFrag) : Aggregation → Prop
  | .stapA => StapComplete (frag.bytes.drop 1)
  | .stapB => StapComplete (frag.bytes.drop 3)
  | .mtap is24 => frag.len.toNat < 8 ∨ MtapComplete is24 (frag.bytes.drop 3)

/-- The packet is its header and the entries of these NAL units, which are not empty. -/
def IsPacketOf (frag : RefMemFrag) (nals : List (List UInt8)) : Aggregation → Prop
  | .stapA => ∃ l : List NalUnit, frag.bytes.drop 1 = l.flatMap NalUnit.entry ∧ l.map NalUnit.octets = nals
  | .stapB => ∃ l : List NalUnit, frag.bytes.drop 3 = l.flatMap NalUnit.entry ∧ l.map NalUnit.octets = nals
  | .mtap is24 => ∃ l : List TimedUnit, (∀ u ∈ l, u.octets ≠ []) ∧
      frag.bytes.drop 3 = l.flatMap (TimedUnit.entry is24) ∧ l.map TimedUnit.octets = nals

/-- The fragments lie in the packet, and of a packet of NAL units they are these in order. -/
def Extracts (s : H264PayloadParser) (inputPacket : Payload) (frag : RefMemFrag) (k : Aggregation) : Prop :=
  (∀ m ∈ fragmentsOf s inputPacket frag k, Inside frag m) ∧
    ∀ nals, IsPacketOf frag nals k → (fragmentsOf s inputPacket frag k).map RefMemFrag.bytes = nals

theorem pushed_stap {nal_type : UInt8} (hu : utilityOf nal_type = .stap) (inputPacket : Payload) :
    (parseSingle s inputPacket frag nal_type 0).pushed.flatMap Payload.vfragments =
      stapFragments frag frag.len.toNat (stapStart nal_type) := by
  have h := parseSingle_stap (s := s) frag hu inputPacket
  split at h
  · next hnil =>
    rw [h.2, hnil]
    rfl
  · obtain ⟨t, out, hr, hout, -⟩ := h
    rw [hr, List.flatMap_singleton, hout]

theorem fragmentsOf_stapB (inputPacket : Payload) :
    fragmentsOf s inputPacket frag .stapB = stapFragments frag frag.len.toNat 3 := by
  have hpushed : (parseSingle s inputPacket frag H264_RTP_PAYLOAD_STAP_B 0).pushed.flatMap Payload.vfragments = _ :=
    pushed_stap rfl inputPacket
  have hstart : stapStart H264_RTP_PAYLOAD_STAP_B = 3 := rfl
  have hmtap : isMTAPType H264_RTP_PAYLOAD_STAP_B = false := rfl
  rw [hstart] at hpushed
  rw [fragmentsOf]
  cases hfuel : frag.len.toNat with
  | zero => rfl
  | succ fuel =>
    rw [hfuel] at hpushed
    rw [generate, hmtap, ← hpushed]
    simp only [Bool.false_eq_true, if_false]
    split
    · rfl
    · split <;> rfl

theorem bytes_stapFragments {l : List NalUnit} (h : frag.bytes.drop start = l.flatMap NalUnit.entry) :
    (stapFragments frag frag.len.toNat start).map RefMemFrag.bytes = l.map NalUnit.octets := by
  have hlen := length_drop_bytes h
  have hle := length_le_flatMap l
  rw [← List.append_nil (l.flatMap NalUnit.entry)] at h
  have hstops : Stops [] := Or.inl (Nat.zero_le 2)
  rw [stapFragments_eq hstops l (by omega) h]
  exact (bytes_stapParts l h).1

theorem length_le_flatMap_timed (is24 : Bool) :
    ∀ l : List TimedUnit, l.length ≤ (l.flatMap (TimedUnit.entry is24)).length
  | [] => Nat.le_refl 0
  | u :: us => by
    have ih := length_le_flatMap_timed is24 us
    have hcases := headerSize_cases is24
    rw [List.flatMap_cons, List.length_append, TimedUnit.length_entry, List.length_cons]
    omega

theorem bytes_fragmentsOf_mtap (inputPacket : Payload) {l : List TimedUnit} (hne : ∀ u ∈ l, u.octets ≠ [])
    (h : frag.bytes.drop 3 = l.flatMap (TimedUnit.entry is24)) :
    (fragmentsOf s inputPacket frag (.mtap is24)).map RefMemFrag.bytes = l.map TimedUnit.octets := by
  have hlen := length_drop_bytes h
  have hcases := headerSize_cases is24
  rw [fragmentsOf]
  cases l with
  | nil =>
    have hno : ¬HasEntry frag 0 := by
      rw [HasEntry, if_pos rfl]
      rw [List.flatMap_nil, List.length_nil] at hlen
      omega
    rw [generate_mtap_stops hno]
    rfl
  | cons u us =>
    rw [List.flatMap_cons] at h hlen
    rw [List.forall_mem_cons] at hne
    have hle := length_le_flatMap_timed is24 us
    have hpos : 0 < u.octets.length := List.length_pos_of_ne_nil hne.1
    rw [List.length_append, TimedUnit.length_entry] at hlen
    obtain ⟨hsize, -, hrest⟩ := drop_timedEntry h
    rw [generate_mtap_first (by omega), hsize, List.map_cons, List.map_cons, (bytes_timedPart h (by omega)).1,
      bytes_entriesFrom (by omega) hne.2 hrest]

/-- **When the NAL units are extracted**: of every packet of complete entries. -/
theorem extracts_iff (s : H264PayloadParser) (inputPacket : Payload) (frag : RefMemFrag) (k : Aggregation) :
    Extracts s inputPacket frag k ↔ Complete frag k := by
  cases k with
  | stapA =>
    have hfragments : fragmentsOf s inputPacket frag .stapA = stapFragments frag frag.len.toNat 1 :=
      pushed_stap rfl inputPacket
    rw [Extracts, hfragments, inside_stap_iff]
    refine and_iff_left ?_
    rintro nals ⟨l, hl, rfl⟩
    exact bytes_stapFragments hl
  | stapB =>
    rw [Extracts, fragmentsOf_stapB, inside_stap_iff]
    refine and_iff_left ?_
    rintro nals ⟨l, hl, rfl⟩
    exact bytes_stapFragments hl
  | mtap is24 =>
    rw [Extracts]
    refine (and_iff_left ?_).trans (inside_mtap_iff inputPacket)
    rintro nals ⟨l, hne, hl, rfl⟩
    exact bytes_fragmentsOf_mtap inputPacket hne hl

/-- A STAP-A whose size leads out of the packet. -/
theorem size_leads_out :
    ¬∀ (s : H264PayloadParser) (inputPacket : Payload) (frag : RefMemFrag) (k : Aggregation),
      Extracts s inputPacket frag k := by
  intro hall
  have hinside := (hall (init 0) ⟨0, 0, 0, false, false, true, []⟩ ⟨0, 4, [24, 0, 5, 1]⟩ .stapA).1
    ⟨3, 5, [1]⟩ (by decide)
  exact absurd hinside.2 (by decide)

end Ftke.H264PayloadParser
