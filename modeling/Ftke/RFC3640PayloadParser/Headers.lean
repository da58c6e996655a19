import Ftke.RFC3640PayloadParser
import Ftke.BitStream.Reads
import Mathlib.Data.List.Forall2

/-!
# Ftke.RFC3640PayloadParser.Headers

What `parse` gives of a packet with access unit headers of 13, 3 and 3 bits.

The loop reads whole headers of 16 bits while less bits are read than declared, so that it
is over after `headers` turns; the fragment is pushed again when the count of the access
units, of eight bits, is back at zero.
-/

namespace Ftke.RFC3640PayloadParser

open PayloadParser BitStream

/-- The parser for AAC-hbr. -/
def aacHbr : RFC3640PayloadParser := (construct.init ⟨"AAC-hbr", 13, 3, 3, 0, 0⟩).2

theorem aacHbr_eq : aacHbr = ⟨true, 16, 13, 3, 3, 0, 0, false, 0⟩ := rfl

/-! ## The headers -/

variable {frag : RefMemFrag} {b : List UInt8} {k : Nat}

/-- A header is read when there is more than it: the last field of three bits may not end
with the packet. -/
theorem readHeader_cursor (accessUnits : UInt8) (hk : k ≤ b.length) :
    readHeader aacHbr accessUnits (cursor b (8 * k)) =
      if k + 2 < b.length then .ok () (cursor b (8 * (k + 2)))
      else .error .errOverflow (cursor b (8 * b.length)) := by
  have hsize : readBits 13 (cursor b (8 * k)) = _ := readBits_cursor (by decide) (by omega)
  have hreadable : Readable b (8 * k) (13 : UInt8).toNat ↔ k + 2 ≤ b.length := by
    simp only [Readable, Tail, show (13 : UInt8).toNat = 13 from rfl]
    omega
  have hindex : (if accessUnits = 0 then (3 : UInt32) else 3).toUInt8 = 3 := by split <;> rfl
  simp only [readHeader, readField, readFlagged, aacHbr_eq, ne_eq, show (13 : UInt32) ≠ 0 by decide,
    show (3 : UInt32) ≠ 0 by decide, not_false_eq_true, if_true, not_true_eq_false, if_false, Bool.false_eq_true,
    bind_apply, pure_apply, hindex]
  rw [show (13 : UInt32).toUInt8 = 13 from rfl, hsize]
  by_cases hfits : k + 2 ≤ b.length
  · have hnext : readBits 3 (cursor b (8 * k + (13 : UInt8).toNat)) = _ :=
      readBits_cursor (by decide) (by rw [show (13 : UInt8).toNat = 13 from rfl]; omega)
    have hreadable' : Readable b (8 * k + (13 : UInt8).toNat) (3 : UInt8).toNat ↔ k + 2 < b.length := by
      simp only [Readable, Tail, show (13 : UInt8).toNat = 13 from rfl, show (3 : UInt8).toNat = 3 from rfl]
      omega
    rw [if_pos (hreadable.mpr hfits)]
    simp only [hnext]
    by_cases hmore : k + 2 < b.length
    · rw [if_pos (hreadable'.mpr hmore), if_pos hmore]
      rfl
    · rw [if_neg (fun h => hmore (hreadable'.mp h)), if_neg hmore]
  · rw [if_neg (fun h => hfits (hreadable.mp h)), if_neg (by omega)]

theorem toNat_bitsRead (hk : k < 2 ^ 29) : (bitsRead (cursor b (8 * k))).toNat = 8 * k := by
  have hbyte : 8 * k / 8 = k := by omega
  have hbit : 7 - (7 - 8 * k % 8) = 0 := by omega
  simp only [bitsRead, cursor, MOST_SIG_BIT, hbyte, hbit]
  rw [UInt32.toNat_add, UInt32.toNat_mul, toNat_ofNat32 (by omega), show (8 : UInt32).toNat = 8 from rfl,
    show (UInt32.ofNat 0).toNat = 0 from rfl]
  omega

/-- How many headers the loop reads behind `k` octets. -/
def remaining (headersLength : UInt16) (k : Nat) : Nat := (headersLength.toNat + 15 - 8 * k) / 16

/-- How often the count of the access units is zero in `n` turns. -/
def pushes (accessUnits : UInt8) : Nat → Nat
  | 0 => 0
  | n + 1 => (if accessUnits = 0 then 1 else 0) + pushes (accessUnits + 1) n

theorem pushes_eq (n : Nat) : ∀ accessUnits : UInt8,
    pushes accessUnits n = (n + (accessUnits.toNat + 255) % 256) / 256 := by
  induction n with
  | zero =>
    intro accessUnits
    simp only [pushes]
    omega
  | succ n ih =>
    intro accessUnits
    have hlt := accessUnits.toNat_lt
    have hzero : accessUnits = 0 ↔ accessUnits.toNat = 0 := UInt8.toNat_inj.symm
    rw [pushes, ih, UInt8.toNat_add, show (1 : UInt8).toNat = 1 from rfl]
    simp only [hzero]
    split <;> omega

theorem accessUnitLoop_cursor (frag : RefMemFrag) (headersLength : UInt16) : ∀ (fuel : Nat) {k : Nat}
    (accessUnits : UInt8), k ≤ b.length → k < 2 ^ 28 → remaining headersLength k < fuel →
    accessUnitLoop aacHbr frag headersLength fuel accessUnits (cursor b (8 * k)) =
      if remaining headersLength k = 0 ∨ k + 2 * remaining headersLength k < b.length then
        .ok (some (List.replicate (pushes accessUnits (remaining headersLength k))
            (behindHeaders frag headersLength)))
          (cursor b (8 * (k + 2 * remaining headersLength k)))
      else .error .errOverflow (cursor b (8 * b.length)) := by
  intro fuel
  induction fuel with
  | zero => intro k _ _ _ hfuel; exact absurd hfuel (Nat.not_lt_zero _)
  | succ fuel ih =>
    intro k accessUnits hk hsmall hfuel
    have hlt := headersLength.toNat_lt
    have hget : (get : ParserM BitStreamParser) (cursor b (8 * k)) = .ok (cursor b (8 * k)) (cursor b (8 * k)) :=
      rfl
    have hmore : bitsRead (cursor b (8 * k)) < headersLength.toUInt32 ↔ remaining headersLength k ≠ 0 := by
      rw [UInt32.lt_iff_toNat_lt, toNat_bitsRead (by omega), UInt16.toNat_toUInt32, remaining]
      omega
    rw [accessUnitLoop, bind_apply, hget]
    simp only [hmore]
    by_cases hzero : remaining headersLength k = 0
    · rw [if_neg (not_not.mpr hzero), if_pos (.inl hzero), hzero]
      rfl
    · have hnext : remaining headersLength (k + 2) + 1 = remaining headersLength k ∧
          8 * k < headersLength.toNat := by
        simp only [remaining] at hzero ⊢
        omega
      rw [if_pos hzero, bind_apply, readHeader_cursor _ hk]
      by_cases hfits : k + 2 < b.length
      · have ih := ih (k := k + 2) (accessUnits + 1) (by omega) (by omega) (by omega)
        rw [if_pos hfits]
        simp only [bind_apply, ih]
        by_cases hrest : remaining headersLength (k + 2) = 0 ∨
            k + 2 + 2 * remaining headersLength (k + 2) < b.length
        · have hpos : k + 2 + 2 * remaining headersLength (k + 2) =
              k + 2 * (remaining headersLength (k + 2) + 1) := by
            omega
          rw [if_pos hrest, if_pos (.inr (by omega)), ← hnext.1, pushes, hpos]
          by_cases hfirst : accessUnits = 0
          · simp only [if_pos hfirst, Nat.add_comm 1, List.replicate_succ]
            rfl
          · simp only [if_neg hfirst, Nat.zero_add]
            rfl
        · rw [if_neg hrest, if_neg (by omega)]
      · rw [if_neg hfits, if_neg (by omega)]

/-! ## One fragment -/

/-- The length of the headers, in bits, as the packet declares it. -/
def declared (frag : RefMemFrag) : Nat := frag.octets2 0

/-- How many headers are read: the length is taken with its own 16 bits, in 16 bits. -/
def headers (frag : RefMemFrag) : Nat := if declared frag < 65520 then (declared frag + 15) / 16 else 0

/-- The fragment ends before or with the headers that are read. -/
def Short (frag : RefMemFrag) : Prop :=
  frag.len.toNat < 2 ∨ (0 < headers frag ∧ frag.len.toNat ≤ 2 + 2 * headers frag)

theorem field_octet {i : Nat} (h : i < frag.len.toNat) : field frag.bytes (8 * i) 8 = (frag.octet i).toNat := by
  have hget : frag.bytes[8 * i / 8]? = some (frag.octet i) := by
    rw [Nat.mul_div_cancel_left i (by decide), RefMemFrag.getElem?_bytes h]
  have hlt := (frag.octet i).toNat_lt
  rw [field_byte hget (by omega), Nat.mul_mod_right, Nat.sub_zero, Nat.sub_self, Nat.pow_zero, Nat.div_one]
  omega

theorem field_declared (h : 2 ≤ frag.len.toNat) : field frag.bytes 0 16 = declared frag := by
  have hfirst := field_octet (show 0 < frag.len.toNat by omega)
  have hsecond := field_octet (show 1 < frag.len.toNat by omega)
  have hlen := frag.length_bytes
  have hlow := (frag.octet 1).toNat_lt
  rw [show (16 : Nat) = 8 + 8 from rfl, field_add (by omega), hfirst, hsecond, declared, RefMemFrag.octets2,
    Bits.or_of_lt (by omega)]

theorem skipPadding_cursor (b : List UInt8) (k : Nat) :
    skipPadding (cursor b (8 * k)) = .ok () (cursor b (8 * k)) := by
  have hget : (get : ParserM BitStreamParser) (cursor b (8 * k)) = .ok (cursor b (8 * k)) (cursor b (8 * k)) := rfl
  have hbit : (cursor b (8 * k)).bitpos = MOST_SIG_BIT := by simp [cursor, MOST_SIG_BIT]
  rw [skipPadding, bind_apply, hget]
  simp only [hbit, ne_eq, not_true_eq_false, if_false]
  rfl

/-- What a turn over a fragment of the packet gives: it is left when the fragment is short. -/
theorem turn_eq (frag : RefMemFrag) {fuel : Nat} (hfuel : 4096 < fuel) :
    (Short frag → ∃ e, turn aacHbr fuel frag = some (.error e)) ∧
      (¬Short frag → turn aacHbr fuel frag = some (.ok (List.replicate ((headers frag + 255) / 256)
        (behindHeaders frag (UInt16.ofNat (declared frag) + BITS_PER_UINT16))))) := by
  have hlen := frag.length_bytes
  have hread := readUInt16_cursor (b := frag.bytes) (P := 0) (Nat.zero_le _)
  have hpresent : aacHbr.headersPresent = true := rfl
  have haux : aacHbr.auxDataSizeLength = 0 := rfl
  by_cases htwo : 2 ≤ frag.len.toNat
  · rw [field_declared htwo, if_pos (by omega)] at hread
    generalize hlength : UInt16.ofNat (declared frag) + BITS_PER_UINT16 = headersLength
    have hnat : headersLength.toNat = (declared frag + 16) % 65536 := by
      rw [← hlength, UInt16.toNat_add, UInt16.toNat_ofNat', show BITS_PER_UINT16.toNat = 16 from rfl]
      omega
    have hdeclared : declared frag < 65536 := RefMemFrag.octets2_lt frag 0
    have hremaining : remaining headersLength 2 = headers frag := by
      rw [remaining, headers, hnat]
      split <;> omega
    have hloop := accessUnitLoop_cursor (b := frag.bytes) frag headersLength fuel (k := 2) 0 (by omega) (by decide)
      (by rw [hremaining, headers]; split <;> omega)
    have hpushes : pushes 0 (headers frag) = (headers frag + 255) / 256 := pushes_eq (headers frag) 0
    rw [hremaining, hpushes] at hloop
    by_cases hfits : headers frag = 0 ∨ 2 + 2 * headers frag < frag.bytes.length
    · have hlong : ¬Short frag := by
        rw [Short]
        omega
      rw [if_pos hfits] at hloop
      refine ⟨fun h => absurd h hlong, fun _ => ?_⟩
      simp only [turn, parseFragment, hpresent, haux, if_true, bind_apply, pure_apply, resetBitStreamParser_eq,
        hread, hlength, Nat.zero_add, show (16 : Nat) = 8 * 2 from rfl, hloop, skipPadding_cursor, ne_eq,
        not_true_eq_false, if_false]
    · have hshort : Short frag := by
        rw [Short]
        omega
      rw [if_neg hfits] at hloop
      refine ⟨fun _ => ⟨.errOverflow, ?_⟩, fun h => absurd hshort h⟩
      simp only [turn, parseFragment, hpresent, if_true, bind_apply, pure_apply, resetBitStreamParser_eq, hread,
        hlength, Nat.zero_add, show (16 : Nat) = 8 * 2 from rfl, hloop]
  · rw [if_neg (by omega)] at hread
    refine ⟨fun _ => ⟨.errOverflow, ?_⟩, fun h => absurd (.inl (by omega)) h⟩
    simp only [turn, parseFragment, hpresent, if_true, bind_apply, resetBitStreamParser_eq, hread]

/-! ## Packets -/

/-- The headers of the fragment are a whole number of octet pairs and lie in it. -/
def Fits (frag : RefMemFrag) : Prop :=
  2 ≤ frag.len.toNat ∧ 0 < declared frag ∧ declared frag % 16 = 0 ∧ 2 + declared frag / 8 ≤ frag.len.toNat

/-- The fragment behind the headers. -/
structure Stripped (frag out : RefMemFrag) : Prop where
  ptr : out.ptr = frag.ptr + (2 + declared frag / 8)
  bytes : out.bytes = frag.bytes.drop (2 + declared frag / 8)

/-- A call ends; it succeeds for fragments with headers that fit, and gives of each the
fragment behind its headers, or fails and pushes nothing. -/
def Strips (s : RFC3640PayloadParser) (inputPacket : Payload) (vParsedPayloads : List Payload) : Prop :=
  ∀ fuel, 4096 < fuel →
    (∃ out pushed, parse s fuel inputPacket vParsedPayloads = some (.success, vParsedPayloads ++ [out]) ∧
      out.vfragments = pushed.flatten ∧
      List.Forall₂ (fun frag fragments => turn s fuel frag = some (.ok fragments) ∧ Fits frag ∧
        ∃ fragment, fragments = [fragment] ∧ Stripped frag fragment) inputPacket.vfragments pushed) ∨
    parse s fuel inputPacket vParsedPayloads = some (.failure, vParsedPayloads)

/-- The headers are declared as whole ones, and as no more than the count of them can count. -/
def WellDeclared (frag : RefMemFrag) : Prop :=
  0 < declared frag ∧ declared frag % 16 = 0 ∧ declared frag ≤ 4096

variable {vfragments : List RefMemFrag} {fuel : Nat}

theorem parseFragments_short (hfuel : 4096 < fuel) (h : ∃ frag ∈ vfragments, Short frag) :
    ∃ e, parseFragments aacHbr fuel vfragments = some (.error e) := by
  induction vfragments with
  | nil =>
    obtain ⟨frag, hmem, -⟩ := h
    contradiction
  | cons frag vfragments ih =>
    by_cases hshort : Short frag
    · obtain ⟨e, hturn⟩ := (turn_eq frag hfuel).1 hshort
      exact ⟨e, by rw [parseFragments, hturn]⟩
    · obtain ⟨frag', hmem, hshort'⟩ := h
      have hrest : frag' ∈ vfragments := by
        rcases List.mem_cons.mp hmem with rfl | hmem
        · exact absurd hshort' hshort
        · exact hmem
      obtain ⟨e, hparse⟩ := ih ⟨frag', hrest, hshort'⟩
      refine ⟨e, ?_⟩
      rw [parseFragments, (turn_eq frag hfuel).2 hshort]
      simp only [hparse, Option.map_some]
      rfl

/-- The fragments that are pushed for a fragment that is not short. -/
def pushedFor (frag : RefMemFrag) : List RefMemFrag :=
  List.replicate ((headers frag + 255) / 256) (behindHeaders frag (UInt16.ofNat (declared frag) + BITS_PER_UINT16))

theorem parseFragments_long (hfuel : 4096 < fuel) (h : ∀ frag ∈ vfragments, ¬Short frag) :
    parseFragments aacHbr fuel vfragments = some (.ok (vfragments.map pushedFor).flatten) := by
  induction vfragments with
  | nil => rfl
  | cons frag vfragments ih =>
    have ih := ih fun frag' hmem => h frag' (List.mem_cons_of_mem _ hmem)
    rw [parseFragments, (turn_eq frag hfuel).2 (h frag List.mem_cons_self)]
    simp only [ih, Option.map_some]
    rfl

/-- One fragment is pushed, the one behind the headers, exactly when they are declared well. -/
theorem pushedFor_iff (hlong : ¬Short frag) :
    (Fits frag ∧ ∃ fragment, pushedFor frag = [fragment] ∧ Stripped frag fragment) ↔ WellDeclared frag := by
  have hdeclared : declared frag < 65536 := RefMemFrag.octets2_lt frag 0
  constructor
  · rintro ⟨⟨-, hpos, hmod, -⟩, fragment, hpushed, -⟩
    have hcount := congrArg List.length hpushed
    rw [pushedFor, List.length_replicate, List.length_singleton, headers] at hcount
    refine ⟨hpos, hmod, ?_⟩
    split at hcount <;> omega
  · rintro ⟨hpos, hmod, hle⟩
    have hheaders : headers frag = declared frag / 16 := by
      rw [headers, if_pos (by omega)]
      omega
    have hfits : 2 + declared frag / 8 < frag.len.toNat := by
      rw [Short, hheaders] at hlong
      omega
    have hstart : (UInt16.ofNat (declared frag) + BITS_PER_UINT16).toNat / 8 = 2 + declared frag / 8 := by
      rw [UInt16.toNat_add, UInt16.toNat_ofNat', show BITS_PER_UINT16.toNat = 16 from rfl]
      omega
    have hcount : (headers frag + 255) / 256 = 1 := by
      rw [hheaders]
      omega
    refine ⟨⟨by omega, hpos, hmod, by omega⟩, _, by rw [pushedFor, hcount]; rfl, ?_⟩
    rw [behindHeaders, hstart]
    exact ⟨rfl, bytes_piece (by omega) (by omega)⟩

theorem parse_short (hfuel : 4096 < fuel) {inputPacket : Payload} (vParsedPayloads : List Payload)
    (h : ∃ frag ∈ inputPacket.vfragments, Short frag) :
    parse aacHbr fuel inputPacket vParsedPayloads = some (.failure, vParsedPayloads) := by
  obtain ⟨e, hparse⟩ := parseFragments_short hfuel h
  rw [parse, hparse]
  rfl

theorem strips_iff_of_long {inputPacket : Payload} (vParsedPayloads : List Payload)
    (h : ∀ frag ∈ inputPacket.vfragments, ¬Short frag) :
    Strips aacHbr inputPacket vParsedPayloads ↔ ∀ frag ∈ inputPacket.vfragments, WellDeclared frag := by
  constructor
  · intro hstrips frag hmem
    rcases hstrips 4097 (by decide) with ⟨out, pushed, -, -, hpushed⟩ | hfailure
    · obtain ⟨i, hi, rfl⟩ := List.mem_iff_getElem.mp hmem
      have hlen : i < pushed.length := hpushed.length_eq ▸ hi
      obtain ⟨hturn, hfits, fragment, hone, hstripped⟩ := hpushed.get hi hlen
      simp only [List.get_eq_getElem] at hturn hfits hone hstripped
      rw [(turn_eq _ (show 4096 < 4097 by decide)).2 (h _ hmem)] at hturn
      refine (pushedFor_iff (h _ hmem)).mp ⟨hfits, fragment, ?_, hstripped⟩
      rw [← hone]
      exact Except.ok.inj (Option.some.inj hturn)
    · rw [parse, parseFragments_long (by decide) h] at hfailure
      exact absurd (congrArg (Option.map Prod.fst) hfailure) (by simp)
  · intro hwell fuel hfuel
    let out : Payload :=
      { inputPacket with
        sequence := inputPacket.sequence + 1
        endOfNAL := false
        vfragments := (inputPacket.vfragments.map pushedFor).flatten }
    refine .inl ⟨out, inputPacket.vfragments.map pushedFor, ?_, rfl, ?_⟩
    · rw [parse, parseFragments_long hfuel h]
      rfl
    · rw [List.forall₂_map_right_iff, List.forall₂_same]
      intro frag hmem
      obtain ⟨hfits, hone⟩ := (pushedFor_iff (h frag hmem)).mpr (hwell frag hmem)
      exact ⟨(turn_eq frag hfuel).2 (h frag hmem), hfits, hone⟩

/-- **A call strips the headers exactly when a fragment is too short for them, so that it
fails, or they are declared well everywhere.** -/
theorem strips_iff (inputPacket : Payload) (vParsedPayloads : List Payload) :
    Strips aacHbr inputPacket vParsedPayloads ↔
      (∃ frag ∈ inputPacket.vfragments, Short frag) ∨ ∀ frag ∈ inputPacket.vfragments, WellDeclared frag := by
  by_cases hshort : ∃ frag ∈ inputPacket.vfragments, Short frag
  · exact ⟨fun _ => .inl hshort, fun _ fuel hfuel => .inr (parse_short hfuel vParsedPayloads hshort)⟩
  · have hlong : ∀ frag ∈ inputPacket.vfragments, ¬Short frag := fun frag hmem h => hshort ⟨frag, hmem, h⟩
    rw [strips_iff_of_long vParsedPayloads hlong]
    exact ⟨.inr, fun h => h.resolve_left hshort⟩

/-- A packet that declares no header, and one with a length that has no room for its own
sixteen bits. -/
theorem no_header_succeeds :
    ¬Strips aacHbr ⟨0, 0, 0, true, true, false, [⟨0, 3, [0x00, 0x00, 0x21]⟩]⟩ [] ∧
      ¬Strips aacHbr ⟨0, 0, 0, true, true, false, [⟨0, 3, [0xff, 0xf0, 0x21]⟩]⟩ [] := by
  constructor <;> intro h
  · have hwell := (strips_iff_of_long [] fun frag hmem => by
      rw [List.mem_singleton.mp hmem, Short]
      decide).mp h _ (List.mem_singleton.mpr rfl)
    exact absurd hwell.1 (by decide)
  · have hwell := (strips_iff_of_long [] fun frag hmem => by
      rw [List.mem_singleton.mp hmem, Short]
      decide).mp h _ (List.mem_singleton.mpr rfl)
    exact absurd hwell.2.2 (by decide)

end Ftke.RFC3640PayloadParser
