import Ftke.Utf8
import Mathlib.Algebra.Ring.Nat
import Mathlib.Data.List.TakeWhile

/-!
# Ftke.StringUtf8

`oscl_str_is_valid_utf8` (`oscl/osclutil/src/oscl_string_utf8.cpp`): whether a string is well-formed UTF-8.

The string ends at its first NUL or after a number of bytes; the scanner takes surrogates and overlong forms of four
bytes for characters, and with a number of bytes it goes on over a NUL.

* `strIsValidAndTruncateUtf8`, `strIsValidUtf8` — the scanner;
* `loop_chars`, `pass_invalid` — it takes the lenient characters one by one, and stops at what is none;
* `valid_iff` — when its answer is right.
-/

namespace Ftke.StringUtf8

open Utf8

/-! ## The scanner -/

def utf8_1ByteMask : UInt8 := 0x80
def utf8_1ByteSig : UInt8 := 0x00
def utf8_2BytesMask1 : UInt8 := 0xE0
def utf8_2BytesSig1 : UInt8 := 0xC0
def utf8_3BytesMask1 : UInt8 := 0xF0
def utf8_3BytesSig1 : UInt8 := 0xE0
def utf8_4BytesMask1 : UInt8 := 0xF8
def utf8_4BytesSig1 : UInt8 := 0xF0

/-- The mask and the signature of the bytes after the first, the same in all forms. -/
def utf8TailMask : UInt8 := 0xC0
def utf8TailSig : UInt8 := 0x80

/-- The variables of the loop; `ptr` is what is read from the pointer on. -/
structure Scan where
  ptr : List UInt8
  bytes_left : UInt32
  total_num_valid_characters : UInt32
  truncate_pos_index : UInt32
  result : Bool
  done : Bool
  deriving DecidableEq

/-- What is found at the pointer: the end of the string, a character of so many bytes, an invalid one, one for which
too few bytes are left, or a byte that starts none. -/
inductive Found where
  | finished
  | char (bytes : Nat)
  | invalid
  | cut
  | noLead
  deriving DecidableEq

/-- The byte at an offset from the pointer, if it is in the buffer. -/
def Scan.byte (s : Scan) (i : Nat) : Option UInt8 := s.ptr[i]?

/-- Whether the byte at an offset has not the signature of a byte after the first. -/
def Scan.notTail (s : Scan) (i : Nat) : Option Bool := do
  let b ← s.byte i
  return b &&& utf8TailMask ≠ utf8TailSig

/-- `a || b`, where `b` is read only if `a` is false. -/
def orElse (a b : Option Bool) : Option Bool := do
  if ← a then return true else b

/-- Whether the next character may be read: there is no limit, or so many bytes are left. -/
def Scan.room (s : Scan) (max_bytes : UInt32) (bytes : UInt32) : Bool := max_bytes = 0 || s.bytes_left ≥ bytes

/-- The branches of the loop over the first byte. -/
def Scan.found (s : Scan) (max_bytes : UInt32) : Option Found := do
  let b ← s.byte 0
  if b &&& utf8_1ByteMask = utf8_1ByteSig then
    if b = 0 ∧ max_bytes = 0 then return .finished
    return .char 1
  else if b &&& utf8_2BytesMask1 = utf8_2BytesSig1 then
    if s.room max_bytes 2 then
      let bad ← orElse (s.notTail 1) (some (b < 0xC2))
      return if bad then .invalid else .char 2
    else return .cut
  else if b &&& utf8_3BytesMask1 = utf8_3BytesSig1 then
    if s.room max_bytes 3 then
      let bad ← orElse (s.notTail 1) (orElse (s.notTail 2) (do return b = 0xE0 ∧ (← s.byte 1) < 0xA0))
      return if bad then .invalid else .char 3
    else return .cut
  else if b &&& utf8_4BytesMask1 = utf8_4BytesSig1 then
    if s.room max_bytes 4 then
      let bad ← orElse (s.notTail 1) (orElse (s.notTail 2) (orElse (s.notTail 3) (orElse (some (b > 0xF4))
        (do return b = 0xF4 ∧ (← s.byte 1) > 0x8F))))
      return if bad then .invalid else .char 4
    else return .cut
  else return .noLead

/-- A character of so many bytes is valid. -/
def Scan.take (s : Scan) (max_bytes : UInt32) (bytes : Nat) : Scan :=
  let bytes_left := if s.bytes_left > 0 then s.bytes_left - UInt32.ofNat bytes else s.bytes_left
  { ptr := s.ptr.drop bytes
    bytes_left
    total_num_valid_characters := s.total_num_valid_characters + 1
    truncate_pos_index := s.truncate_pos_index + UInt32.ofNat bytes
    result := s.result
    done := s.done || (max_bytes ≠ 0 && bytes_left = 0) }

/-- The string is not valid. -/
def Scan.reject (s : Scan) : Scan :=
  { s with
    result := false
    done := true }

/-- A byte less is left. -/
def Scan.skip (s : Scan) : Scan :=
  { s with bytes_left := if s.bytes_left > 0 then s.bytes_left - 1 else s.bytes_left }

/-- The tests at the end of a pass, on the numbers of characters to stop at. -/
def Scan.limit (s : Scan) (num_valid_characters max_char_2_valid : UInt32) : Scan :=
  let stop := (num_valid_characters ≠ 0 && s.total_num_valid_characters = num_valid_characters) ||
    (num_valid_characters = 0 && max_char_2_valid ≠ 0 && s.total_num_valid_characters = max_char_2_valid)
  { s with done := s.done || stop }

/-- One pass of the loop; after the end of the string and after an invalid character it skips the tests. -/
def Scan.pass (num_valid_characters max_bytes max_char_2_valid : UInt32) (s : Scan) : Option Scan := do
  match ← s.found max_bytes with
  | .finished => return { s with
      result := true
      done := true }
  | .char bytes => return (s.take max_bytes bytes).limit num_valid_characters max_char_2_valid
  | .invalid => return s.reject
  | .cut => return s.reject.limit num_valid_characters max_char_2_valid
  | .noLead => return s.reject.skip.limit num_valid_characters max_char_2_valid

/-- The loop, with so many tests of `done` at most. -/
def Scan.loop (num_valid_characters max_bytes max_char_2_valid : UInt32) : Nat → Scan → Option Scan
  | 0, _ => none
  | fuel + 1, s =>
    if s.done then some s
    else do
      let s ← s.pass num_valid_characters max_bytes max_char_2_valid
      loop num_valid_characters max_bytes max_char_2_valid fuel s

/-- `oscl_str_is_valid_and_truncate_utf8`: the result, the number of characters and the bytes they take; `none` if a
byte outside the buffer is read. -/
def strIsValidAndTruncateUtf8 (str_buf : List UInt8) (num_valid_characters max_bytes max_char_2_valid : UInt32) :
    Option (Bool × UInt32 × UInt32) := do
  let s ← Scan.loop num_valid_characters max_bytes max_char_2_valid (str_buf.length + 2)
    { ptr := str_buf
      bytes_left := max_bytes
      total_num_valid_characters := 0
      truncate_pos_index := 0
      result := true
      done := false }
  return (s.result, s.total_num_valid_characters, s.truncate_pos_index)

/-- `oscl_str_is_valid_utf8`. -/
def strIsValidUtf8 (str_buf : List UInt8) (max_bytes max_char_2_valid : UInt32) : Option (Bool × UInt32 × UInt32) :=
  strIsValidAndTruncateUtf8 str_buf 0 max_bytes max_char_2_valid

/-! ## Characters -/

theorem masks : ∀ a : UInt8, (a &&& utf8_1ByteMask = utf8_1ByteSig ↔ a ≤ 0x7F) ∧
    (a &&& utf8_2BytesMask1 = utf8_2BytesSig1 ↔ 0xC0 ≤ a ∧ a ≤ 0xDF) ∧
    (a &&& utf8_3BytesMask1 = utf8_3BytesSig1 ↔ 0xE0 ≤ a ∧ a ≤ 0xEF) ∧
    (a &&& utf8_4BytesMask1 = utf8_4BytesSig1 ↔ 0xF0 ≤ a ∧ a ≤ 0xF7) ∧
    (a &&& utf8TailMask = utf8TailSig ↔ IsTail a) :=
  forall_byte (by decide +kernel)

theorem one_mask (a : UInt8) : a &&& utf8_1ByteMask = utf8_1ByteSig ↔ a ≤ 0x7F := (masks a).1

variable {a : UInt8}

theorem mask_two (h : a &&& utf8_2BytesMask1 = utf8_2BytesSig1) : a ≤ 0xDF := ((masks a).2.1.mp h).2

theorem mask_three (h : a &&& utf8_3BytesMask1 = utf8_3BytesSig1) : 0xE0 ≤ a ∧ a ≤ 0xEF :=
  (masks a).2.2.1.mp h

theorem mask_four (h : a &&& utf8_4BytesMask1 = utf8_4BytesSig1) : 0xF0 ≤ a := ((masks a).2.2.2.1.mp h).1

theorem tail_mask (b : UInt8) : b &&& utf8TailMask = utf8TailSig ↔ IsTail b := (masks b).2.2.2.2

theorem not_le_of_le {a low high : UInt8} (h : low ≤ a) (hlt : high < low) : ¬a ≤ high :=
  UInt8.not_le.mpr (UInt8.lt_of_lt_of_le hlt h)

theorem two_mask (hlow : 0xC2 ≤ a) (hhigh : a ≤ 0xDF) :
    ¬a &&& utf8_1ByteMask = utf8_1ByteSig ∧ a &&& utf8_2BytesMask1 = utf8_2BytesSig1 ∧ ¬a < 0xC2 := by
  rw [one_mask, (masks a).2.1]
  exact ⟨not_le_of_le hlow (by decide), ⟨UInt8.le_trans (by decide) hlow, hhigh⟩, UInt8.not_lt.mpr hlow⟩

theorem three_mask (hlow : 0xE0 ≤ a) (hhigh : a ≤ 0xEF) : ¬a &&& utf8_1ByteMask = utf8_1ByteSig ∧
    ¬a &&& utf8_2BytesMask1 = utf8_2BytesSig1 ∧ a &&& utf8_3BytesMask1 = utf8_3BytesSig1 := by
  rw [one_mask, (masks a).2.1, (masks a).2.2.1]
  exact ⟨not_le_of_le hlow (by decide), fun h => not_le_of_le hlow (by decide) h.2, hlow, hhigh⟩

theorem four_mask (hlow : 0xF0 ≤ a) (hhigh : a ≤ 0xF4) : ¬a &&& utf8_1ByteMask = utf8_1ByteSig ∧
    ¬a &&& utf8_2BytesMask1 = utf8_2BytesSig1 ∧ ¬a &&& utf8_3BytesMask1 = utf8_3BytesSig1 ∧
      a &&& utf8_4BytesMask1 = utf8_4BytesSig1 ∧ ¬a > 0xF4 := by
  rw [one_mask, (masks a).2.1, (masks a).2.2.1, (masks a).2.2.2.1]
  exact ⟨not_le_of_le hlow (by decide), fun h => not_le_of_le hlow (by decide) h.2,
    fun h => not_le_of_le hlow (by decide) h.2, ⟨hlow, UInt8.le_trans hhigh (by decide)⟩, UInt8.not_lt.mpr hhigh⟩

/-- The characters by the conditions that the branches test. -/
inductive Accepted : List UInt8 → Prop
  | one {a : UInt8} : a ≤ 0x7F → Accepted [a]
  | two {a b : UInt8} : 0xC2 ≤ a → a ≤ 0xDF → IsTail b → Accepted [a, b]
  | three {a b c : UInt8} : 0xE0 ≤ a → a ≤ 0xEF → IsTail b → IsTail c → (a = 0xE0 → 0xA0 ≤ b) → Accepted [a, b, c]
  | four {a b c d : UInt8} : 0xF0 ≤ a → a ≤ 0xF4 → IsTail b → IsTail c → IsTail d → (a = 0xF4 → b ≤ 0x8F) →
      Accepted [a, b, c, d]

theorem overlong_or (b : UInt8) : b ≤ 0x8F ∨ 0x90 ≤ b := by
  simp only [UInt8.le_iff_toNat_le, UInt8.reduceToNat]
  omega

theorem surrogate_or (b : UInt8) : b ≤ 0x9F ∨ 0xA0 ≤ b := by
  simp only [UInt8.le_iff_toNat_le, UInt8.reduceToNat]
  omega

variable {c bs rest z str_buf : List UInt8}

/-- The scanner takes surrogates and overlong forms for characters, and nothing else that is none. -/
theorem accepted_iff : Accepted c ↔ IsLenient c := by
  constructor
  · intro h
    cases h with
    | one ha => exact Or.inl (IsChar.one ha)
    | two hlow hhigh hb => exact Or.inl (IsChar.two hlow hhigh hb)
    | @three a b c hlow hhigh hb hc hlong =>
      by_cases hsur : a = 0xED ∧ 0xA0 ≤ b
      · obtain ⟨rfl, hle⟩ := hsur
        exact Or.inr (Or.inl (IsSurrogate.mk hle hb hc))
      · refine Or.inl (IsChar.three hlow hhigh hb hc ⟨hlong, fun ha => ?_, ?_, ?_⟩)
        · exact (surrogate_or b).resolve_right fun hle => hsur ⟨ha, hle⟩
        · rintro rfl
          exact absurd hhigh (by decide)
        · rintro rfl
          exact absurd hhigh (by decide)
    | @four a b c d hlow hhigh hb hc hd hlarge =>
      by_cases hover : a = 0xF0 ∧ b ≤ 0x8F
      · obtain ⟨rfl, hle⟩ := hover
        exact Or.inr (Or.inr (IsOverlong.mk hle hb hc hd))
      · refine Or.inl (IsChar.four hlow hhigh hb hc hd ⟨?_, ?_, fun ha => ?_, hlarge⟩)
        · rintro rfl
          exact absurd hlow (by decide)
        · rintro rfl
          exact absurd hlow (by decide)
        · exact (overlong_or b).resolve_left fun hle => hover ⟨ha, hle⟩
  · rintro (h | h | h)
    · cases h with
      | one ha => exact Accepted.one ha
      | two hlow hhigh hb => exact Accepted.two hlow hhigh hb
      | three hlow hhigh hb hc hok => exact Accepted.three hlow hhigh hb hc hok.notOverlong3
      | four hlow hhigh hb hc hd hok => exact Accepted.four hlow hhigh hb hc hd hok.notTooLarge
    · cases h with
      | mk hle hb hc => exact Accepted.three (by decide) (by decide) hb hc (fun h => absurd h (by decide))
    · cases h with
      | mk hle hb hc hd => exact Accepted.four (by decide) (by decide) hb hc hd (fun h => absurd h (by decide))

variable {max_bytes bytes : UInt32} {s s' : Scan}

theorem found_char {c r : List UInt8} (hc : Accepted c) (hptr : s.ptr = c ++ r)
    (hnul : max_bytes = 0 → c ≠ [0]) (hroom : max_bytes ≠ 0 → c.length ≤ s.bytes_left.toNat) :
    s.found max_bytes = some (.char c.length) := by
  have hroom' : ∀ n : UInt32, n.toNat = c.length → s.room max_bytes n = true := by
    intro n hn
    simp only [Scan.room, Bool.or_eq_true, decide_eq_true_eq]
    by_cases hmax : max_bytes = 0
    · exact Or.inl hmax
    · refine Or.inr (UInt32.le_iff_toNat_le.mpr ?_)
      rw [hn]
      exact hroom hmax
  cases hc with
  | @one a ha =>
    have hnot : ¬(a = 0 ∧ max_bytes = 0) := by
      rintro ⟨rfl, hmax⟩
      exact hnul hmax rfl
    simp [Scan.found, Scan.byte, hptr, (one_mask a).mpr ha, hnot]
  | @two a b hlow hhigh hb =>
    obtain ⟨h1, h2, h3⟩ := two_mask hlow hhigh
    simp [Scan.found, Scan.byte, hptr, h1, h2, h3, hroom' 2 rfl, orElse, Scan.notTail, (tail_mask b).mpr hb]
  | @three a b c hlow hhigh hb hc hlong =>
    obtain ⟨h1, h2, h3⟩ := three_mask hlow hhigh
    simp [Scan.found, Scan.byte, hptr, h1, h2, h3, hroom' 3 rfl, orElse, Scan.notTail, (tail_mask b).mpr hb,
      (tail_mask c).mpr hc]
    exact hlong
  | @four a b c d hlow hhigh hb hc hd hlarge =>
    obtain ⟨h1, h2, h3, h4, h5⟩ := four_mask hlow hhigh
    simp [Scan.found, Scan.byte, hptr, h1, h2, h3, h4, h5, hroom' 4 rfl, orElse, Scan.notTail, (tail_mask b).mpr hb,
      (tail_mask c).mpr hc, (tail_mask d).mpr hd]
    exact hlarge

theorem room_le (h : s.room max_bytes bytes = true) (hmax : max_bytes ≠ 0) :
    bytes.toNat ≤ s.bytes_left.toNat := by
  simp only [Scan.room, Bool.or_eq_true, decide_eq_true_eq] at h
  exact UInt32.le_iff_toNat_le.mp (h.resolve_left hmax)

theorem accepted_of_found {k : Nat} (h : s.found max_bytes = some (.char k)) :
    ∃ c r, Accepted c ∧ s.ptr = c ++ r ∧ c.length = k ∧ (k = 1 ∨ (max_bytes ≠ 0 → k ≤ s.bytes_left.toNat)) := by
  rcases hptr : s.ptr with _ | ⟨a, t⟩
  · simp [Scan.found, Scan.byte, hptr] at h
  simp only [Scan.found, Scan.byte, hptr, List.getElem?_cons_zero, Option.bind_eq_bind, Option.bind_some] at h
  split at h
  · next hone =>
    split at h
    · simp at h
    · obtain rfl : 1 = k := by simpa using h
      exact ⟨[a], t, Accepted.one ((one_mask a).mp hone), rfl, rfl, Or.inl rfl⟩
  split at h
  · next htwo =>
    split at h
    · next hroom =>
      obtain _ | ⟨b, t⟩ := t
      · simp [Scan.notTail, Scan.byte, hptr, orElse] at h
      by_cases hb : IsTail b
      · by_cases ha : a < 0xC2
        · simp [Scan.notTail, Scan.byte, hptr, orElse, tail_mask, hb, ha] at h
        · obtain rfl : 2 = k := by simpa [Scan.notTail, Scan.byte, hptr, orElse, tail_mask, hb, ha] using h
          exact ⟨[a, b], t, Accepted.two (UInt8.not_lt.mp ha) (mask_two htwo) hb, rfl, rfl,
            Or.inr (room_le hroom)⟩
      · simp [Scan.notTail, Scan.byte, hptr, orElse, tail_mask, hb] at h
    · simp at h
  split at h
  · next hthree =>
    split at h
    · next hroom =>
      obtain _ | ⟨b, t⟩ := t
      · simp [Scan.notTail, Scan.byte, hptr, orElse] at h
      by_cases hb : IsTail b
      · obtain _ | ⟨c, t⟩ := t
        · simp [Scan.notTail, Scan.byte, hptr, orElse, tail_mask, hb] at h
        by_cases hc : IsTail c
        · by_cases hlong : a = 0xE0 ∧ b < 0xA0
          · simp [Scan.notTail, Scan.byte, hptr, orElse, tail_mask, hb, hc, hlong.1, hlong.2] at h
          · have hlong' : a = 0xE0 → 0xA0 ≤ b := fun ha => UInt8.not_lt.mp fun hlt => hlong ⟨ha, hlt⟩
            obtain rfl : 3 = k := by
              simp [Scan.notTail, Scan.byte, hptr, orElse, tail_mask, hb, hc] at h
              split at h
              · simp_all
              · simpa using h
            exact ⟨[a, b, c], t, Accepted.three (mask_three hthree).1 (mask_three hthree).2 hb hc hlong', rfl,
              rfl, Or.inr (room_le hroom)⟩
        · simp [Scan.notTail, Scan.byte, hptr, orElse, tail_mask, hb, hc] at h
      · simp [Scan.notTail, Scan.byte, hptr, orElse, tail_mask, hb] at h
    · simp at h
  split at h
  · next hfour =>
    split at h
    · next hroom =>
      obtain _ | ⟨b, t⟩ := t
      · simp [Scan.notTail, Scan.byte, hptr, orElse] at h
      by_cases hb : IsTail b
      · obtain _ | ⟨c, t⟩ := t
        · simp [Scan.notTail, Scan.byte, hptr, orElse, tail_mask, hb] at h
        by_cases hc : IsTail c
        · obtain _ | ⟨d, t⟩ := t
          · simp [Scan.notTail, Scan.byte, hptr, orElse, tail_mask, hb, hc] at h
          by_cases hd : IsTail d
          · by_cases ha : a > 0xF4
            · simp [Scan.notTail, Scan.byte, hptr, orElse, tail_mask, hb, hc, hd, ha] at h
            · have hlarge : a = 0xF4 → b ≤ 0x8F := by
                intro ha'
                by_contra hlt
                simp [Scan.notTail, Scan.byte, hptr, orElse, tail_mask, hb, hc, hd, ha', UInt8.not_le.mp hlt] at h
              obtain rfl : 4 = k := by
                simp [Scan.notTail, Scan.byte, hptr, orElse, tail_mask, hb, hc, hd, ha] at h
                split at h
                · simp_all
                · simpa using h
              exact ⟨[a, b, c, d], t, Accepted.four (mask_four hfour) (UInt8.not_lt.mp ha) hb hc hd hlarge, rfl,
                rfl, Or.inr (room_le hroom)⟩
          · simp [Scan.notTail, Scan.byte, hptr, orElse, tail_mask, hb, hc, hd] at h
        · simp [Scan.notTail, Scan.byte, hptr, orElse, tail_mask, hb, hc] at h
      · simp [Scan.notTail, Scan.byte, hptr, orElse, tail_mask, hb] at h
    · simp at h
  · simp at h

theorem nul_of_finished (h : s.found max_bytes = some .finished) :
    ∃ r, s.ptr = 0 :: r := by
  rcases hptr : s.ptr with _ | ⟨a, t⟩
  · simp [Scan.found, Scan.byte, hptr] at h
  simp only [Scan.found, Scan.byte, hptr, List.getElem?_cons_zero, Option.bind_eq_bind, Option.bind_some] at h
  split at h
  · split at h
    · next hend => exact ⟨t, by rw [hend.1]⟩
    · simp at h
  split at h
  · split at h
    · simp only [Option.bind_eq_some_iff] at h
      obtain ⟨bad, -, h⟩ := h
      cases bad <;> simp at h
    · simp at h
  split at h
  · split at h
    · simp only [Option.bind_eq_some_iff] at h
      obtain ⟨bad, -, h⟩ := h
      cases bad <;> simp at h
    · simp at h
  split at h
  · split at h
    · simp only [Option.bind_eq_some_iff] at h
      obtain ⟨bad, -, h⟩ := h
      cases bad <;> simp at h
    · simp at h
  · simp at h

theorem exists_orElse {a b : Option Bool} (ha : ∃ x, a = some x) (hb : a = some false → ∃ x, b = some x) :
    ∃ x, orElse a b = some x := by
  obtain ⟨x, rfl⟩ := ha
  cases x with
  | true => exact ⟨true, rfl⟩
  | false => exact hb rfl

/-- No byte outside the buffer is read: a NUL is in it, or as many bytes as are left. -/
def Scan.Bounded (s : Scan) (max_bytes : UInt32) : Prop :=
  0 ∈ s.ptr ∨ (max_bytes ≠ 0 ∧ s.bytes_left.toNat ≤ s.ptr.length)

/-- Where there is room for a character and its bytes so far are no NUL, one more is there. -/
theorem next_byte {u t : List UInt8} (h : s.Bounded max_bytes)
    (hroom : s.room max_bytes bytes = true) (hptr : s.ptr = u ++ t) (hu : 0 ∉ u) (hlen : u.length < bytes.toNat) :
    ∃ b r, t = b :: r := by
  obtain _ | ⟨b, r⟩ := t
  · rw [List.append_nil] at hptr
    obtain h | ⟨hmax, hle⟩ := h
    · exact absurd (hptr ▸ h) hu
    · have hbytes := room_le hroom hmax
      rw [hptr] at hle
      omega
  · exact ⟨b, r, rfl⟩

theorem notTail_eq {i : Nat} {b : UInt8} (h : s.byte i = some b) :
    s.notTail i = some (decide ¬IsTail b) := by
  simp [Scan.notTail, h, tail_mask]

theorem exists_branch {room : Bool} {bad : Option Bool} {bytes : Nat} (h : room = true → ∃ x, bad = some x) :
    ∃ f, (if room = true then bad.bind fun bad => some (if bad = true then Found.invalid else Found.char bytes)
      else some Found.cut) = some f := by
  cases room with
  | false => exact ⟨_, rfl⟩
  | true =>
    obtain ⟨x, rfl⟩ := h rfl
    exact ⟨_, rfl⟩

theorem exists_found (h : s.Bounded max_bytes) (hne : s.ptr ≠ []) :
    ∃ f, s.found max_bytes = some f := by
  rcases hptr : s.ptr with _ | ⟨a, t⟩
  · exact absurd hptr hne
  have hbyte : s.byte 0 = some a := by simp [Scan.byte, hptr]
  by_cases h1 : a &&& utf8_1ByteMask = utf8_1ByteSig
  · by_cases hend : a = 0 ∧ max_bytes = 0
    · exact ⟨_, by simp [Scan.found, hbyte, hend]; rfl⟩
    · exact ⟨_, by simp [Scan.found, hbyte, h1, hend]; rfl⟩
  have ha : a ≠ 0 := by
    rintro rfl
    exact h1 rfl
  have hnul : (0 : UInt8) ∉ [a] := by simpa using ha.symm
  have hbad : ∀ (bytes : UInt32), s.room max_bytes bytes = true → 1 < bytes.toNat → ∃ b, s.byte 1 = some b ∧
      (IsTail b → 2 < bytes.toNat → ∃ c, s.byte 2 = some c ∧ (IsTail c → 3 < bytes.toNat → ∃ d, s.byte 3 = some d)) := by
    intro bytes hroom hlen
    obtain ⟨b, t, rfl⟩ := next_byte h hroom (u := [a]) hptr hnul hlen
    refine ⟨b, by simp [Scan.byte, hptr], fun hb hlen => ?_⟩
    have hb0 : b ≠ 0 := by
      rintro rfl
      exact absurd hb (by decide)
    obtain ⟨c, t, rfl⟩ := next_byte h hroom (u := [a, b]) hptr (by simp [ha.symm, hb0.symm]) hlen
    refine ⟨c, by simp [Scan.byte, hptr], fun hc hlen => ?_⟩
    have hc0 : c ≠ 0 := by
      rintro rfl
      exact absurd hc (by decide)
    obtain ⟨d, t, rfl⟩ := next_byte h hroom (u := [a, b, c]) hptr (by simp [ha.symm, hb0.symm, hc0.symm]) hlen
    exact ⟨d, by simp [Scan.byte, hptr]⟩
  have htail : ∀ {i : Nat} {b : UInt8} {more : Option Bool}, s.byte i = some b → (IsTail b → ∃ x, more = some x) →
      ∃ x, orElse (s.notTail i) more = some x := by
    intro i b more hb hmore
    refine exists_orElse ⟨_, notTail_eq hb⟩ fun hfalse => hmore ?_
    rw [notTail_eq hb] at hfalse
    simpa using hfalse
  simp only [Scan.found, hbyte, Option.bind_eq_bind, Option.bind_some, Option.pure_def, if_neg h1]
  by_cases h2 : a &&& utf8_2BytesMask1 = utf8_2BytesSig1
  · rw [if_pos h2]
    refine exists_branch fun hroom => ?_
    obtain ⟨b, hb, -⟩ := hbad 2 hroom (by decide)
    exact htail hb fun _ => ⟨_, rfl⟩
  rw [if_neg h2]
  by_cases h3 : a &&& utf8_3BytesMask1 = utf8_3BytesSig1
  · rw [if_pos h3]
    refine exists_branch fun hroom => ?_
    obtain ⟨b, hb, hmore⟩ := hbad 3 hroom (by decide)
    refine htail hb fun hb' => ?_
    obtain ⟨c, hc, -⟩ := hmore hb' (by decide)
    exact htail hc fun _ => ⟨_, by rw [hb]; rfl⟩
  rw [if_neg h3]
  by_cases h4 : a &&& utf8_4BytesMask1 = utf8_4BytesSig1
  · rw [if_pos h4]
    refine exists_branch fun hroom => ?_
    obtain ⟨b, hb, hmore⟩ := hbad 4 hroom (by decide)
    refine htail hb fun hb' => ?_
    obtain ⟨c, hc, hmore'⟩ := hmore hb' (by decide)
    refine htail hc fun hc' => ?_
    obtain ⟨d, hd⟩ := hmore' hc' (by decide)
    exact htail hd fun _ => exists_orElse ⟨_, rfl⟩ fun _ => ⟨_, by rw [hb]; rfl⟩
  · rw [if_neg h4]
    exact ⟨_, rfl⟩

/-! ## The loop -/

@[simp]
theorem limit_zero (s : Scan) : s.limit 0 0 = s := by
  simp [Scan.limit]

theorem bytes_left_take {n : Nat} (h : n ≤ s.bytes_left.toNat) :
    (s.take max_bytes n).bytes_left.toNat = s.bytes_left.toNat - n := by
  have hlt := s.bytes_left.toNat_lt
  simp only [Scan.take]
  split
  · have hn : (UInt32.ofNat n).toNat = n := UInt32.toNat_ofNat_of_lt' (by simp only [UInt32.size]; omega)
    rw [UInt32.toNat_sub_of_le _ _ (UInt32.le_iff_toNat_le.mpr (by omega)), hn]
  · next hzero =>
    have hzero' : s.bytes_left.toNat = 0 := by
      rw [gt_iff_lt, UInt32.lt_iff_toNat_lt] at hzero
      simpa using hzero
    omega

/-- What the scanner has after some characters. -/
structure Took (max_bytes : UInt32) (s : Scan) (chars : List (List UInt8)) (tail : List UInt8) (s' : Scan) : Prop where
  ptr : s'.ptr = tail
  total : s'.total_num_valid_characters = s.total_num_valid_characters + UInt32.ofNat chars.length
  index : s'.truncate_pos_index = s.truncate_pos_index + UInt32.ofNat chars.flatten.length
  result : s'.result = s.result
  bytes_left : max_bytes ≠ 0 → s'.bytes_left.toNat = s.bytes_left.toNat - chars.flatten.length
  done : s'.done = true ↔ max_bytes ≠ 0 ∧ chars ≠ [] ∧ chars.flatten.length = s.bytes_left.toNat

theorem accepted_length_pos (h : Accepted c) : 0 < c.length :=
  lenient_prefixCode.length_pos (accepted_iff.mp h)

theorem flatten_pos : ∀ {chars : List (List UInt8)}, (∀ c ∈ chars, Accepted c) → chars ≠ [] → 0 < chars.flatten.length
  | [], _, h => absurd rfl h
  | c :: chars, hall, _ => by
    have hpos := accepted_length_pos (hall c List.mem_cons_self)
    rw [List.flatten_cons, List.length_append]
    omega

/-- **The characters**: the loop takes them one by one, and is done if no byte is left after them. -/
theorem loop_chars {max_bytes : UInt32} (fuel : Nat) : ∀ {chars : List (List UInt8)} {tail : List UInt8} {s : Scan},
    (∀ c ∈ chars, Accepted c) → s.done = false → s.ptr = chars.flatten ++ tail →
    (max_bytes = 0 → [0] ∉ chars) → (max_bytes ≠ 0 → chars.flatten.length ≤ s.bytes_left.toNat) →
    ∃ s', Scan.loop 0 max_bytes 0 (fuel + chars.length) s = Scan.loop 0 max_bytes 0 fuel s' ∧
      Took max_bytes s chars tail s'
  | [], tail, s, _, hdone, hptr, _, _ =>
    ⟨s, rfl, hptr, by simp, by simp, rfl, fun _ => by simp, by simp [hdone]⟩
  | c :: chars, tail, s, hall, hdone, hptr, hnul, hroom => by
    have hc := hall c List.mem_cons_self
    have hall' : ∀ d ∈ chars, Accepted d := fun d hd => hall d (List.mem_cons_of_mem c hd)
    rw [List.flatten_cons, List.append_assoc] at hptr
    rw [List.flatten_cons, List.length_append] at hroom
    have hfound := found_char hc hptr (fun hmax heq => hnul hmax (heq ▸ List.mem_cons_self))
      (fun hmax => by have := hroom hmax; omega)
    have hleft : max_bytes ≠ 0 → (s.take max_bytes c.length).bytes_left.toNat = s.bytes_left.toNat - c.length :=
      fun hmax => bytes_left_take (by have := hroom hmax; omega)
    have hstep : Scan.loop 0 max_bytes 0 (fuel + (c :: chars).length) s =
        Scan.loop 0 max_bytes 0 (fuel + chars.length) (s.take max_bytes c.length) := by
      rw [List.length_cons, ← Nat.add_assoc]
      simp [Scan.loop, hdone, Scan.pass, hfound]
    have hdone' : (s.take max_bytes c.length).done = true ↔
        max_bytes ≠ 0 ∧ c.length = s.bytes_left.toNat := by
      have hzero : (s.take max_bytes c.length).done = true ↔
          max_bytes ≠ 0 ∧ (s.take max_bytes c.length).bytes_left = 0 := by
        simp [Scan.take, hdone]
      rw [hzero]
      refine and_congr_right fun hmax => ?_
      have := hroom hmax
      rw [← UInt32.toNat_inj, hleft hmax, UInt32.toNat_zero]
      omega
    by_cases hnil : chars = []
    · subst hnil
      refine ⟨s.take max_bytes c.length, hstep, ?_, ?_, ?_, rfl, ?_, ?_⟩
      · simp [Scan.take, hptr]
      · simp [Scan.take]
      · simp [Scan.take]
      · intro hmax
        simpa using hleft hmax
      · simpa using hdone'
    · have hpos := flatten_pos hall' hnil
      have hfalse : (s.take max_bytes c.length).done = false := by
        rw [Bool.eq_false_iff, ne_eq, hdone']
        rintro ⟨hmax, heq⟩
        have := hroom hmax
        omega
      have hptr' : (s.take max_bytes c.length).ptr = chars.flatten ++ tail := by simp [Scan.take, hptr]
      obtain ⟨s', hloop, htook⟩ := loop_chars fuel hall' hfalse hptr'
        (fun hmax hmem => hnul hmax (List.mem_cons_of_mem c hmem))
        (fun hmax => by rw [hleft hmax]; have := hroom hmax; omega)
      refine ⟨s', hstep.trans hloop, htook.ptr, ?_, ?_, htook.result, ?_, ?_⟩
      · rw [htook.total, List.length_cons, Nat.add_comm, UInt32.ofNat_add, ← UInt32.add_assoc]
        rfl
      · rw [htook.index, List.flatten_cons, List.length_append, UInt32.ofNat_add, ← UInt32.add_assoc]
        rfl
      · intro hmax
        rw [htook.bytes_left hmax, hleft hmax, List.flatten_cons, List.length_append, Nat.sub_sub]
      · rw [htook.done]
        refine and_congr_right fun hmax => ?_
        have := hroom hmax
        rw [hleft hmax, List.flatten_cons, List.length_append]
        simp only [hnil, not_false_eq_true, ne_eq, reduceCtorEq, true_and]
        omega

theorem pass_invalid (hnone : ∀ c r, Accepted c → s.ptr = c ++ r →
    max_bytes ≠ 0 ∧ s.bytes_left.toNat < c.length) (hleft : max_bytes ≠ 0 → 0 < s.bytes_left.toNat)
    (h : s.pass 0 max_bytes 0 = some s') :
    s'.done = true ∧ s'.result = false ∧ s'.total_num_valid_characters = s.total_num_valid_characters ∧
      s'.truncate_pos_index = s.truncate_pos_index := by
  simp only [Scan.pass, Option.bind_eq_bind, Option.bind_eq_some_iff] at h
  obtain ⟨f, hfound, h⟩ := h
  cases f with
  | finished =>
    obtain ⟨r, hptr⟩ := nul_of_finished hfound
    obtain ⟨hmax, hlt⟩ := hnone [0] r (Accepted.one (by decide)) hptr
    have := hleft hmax
    simp at hlt
    omega
  | char k =>
    obtain ⟨c, r, hc, hptr, rfl, hroom⟩ := accepted_of_found hfound
    obtain ⟨hmax, hlt⟩ := hnone c r hc hptr
    have := hleft hmax
    obtain hone | hroom := hroom
    · omega
    · have := hroom hmax
      omega
  | invalid =>
    obtain rfl := by simpa using h
    exact ⟨rfl, rfl, rfl, rfl⟩
  | cut =>
    obtain rfl := by simpa using h
    exact ⟨rfl, rfl, rfl, rfl⟩
  | noLead =>
    obtain rfl := by simpa using h
    exact ⟨rfl, rfl, rfl, rfl⟩

variable {chars : List (List UInt8)}

theorem stops_accepted (h : IsLongest IsLenient bs chars rest) :
    (∀ c ∈ chars, Accepted c) ∧ ∀ c, Accepted c → ¬c <+: rest :=
  ⟨fun c hc => accepted_iff.mpr (h.chars c hc), fun c hc => h.stops c (accepted_iff.mp hc)⟩

/-- The scanner before the first character. -/
def start (str_buf : List UInt8) (max_bytes : UInt32) : Scan where
  ptr := str_buf
  bytes_left := max_bytes
  total_num_valid_characters := 0
  truncate_pos_index := 0
  result := true
  done := false

/-- The answer after some characters. -/
def answer (valid : Bool) (chars : List (List UInt8)) : Bool × UInt32 × UInt32 :=
  (valid, UInt32.ofNat chars.length, UInt32.ofNat chars.flatten.length)

theorem length_le_flatten : ∀ {chars : List (List UInt8)}, (∀ c ∈ chars, Accepted c) →
    chars.length ≤ chars.flatten.length
  | [], _ => Nat.le_refl _
  | c :: chars, hall => by
    have hpos := accepted_length_pos (hall c List.mem_cons_self)
    have hle := length_le_flatten fun d hd => hall d (List.mem_cons_of_mem c hd)
    rw [List.flatten_cons, List.length_append, List.length_cons]
    omega

theorem valid_of_loop {max_bytes : UInt32} {str_buf tail : List UInt8} {chars : List (List UInt8)}
    (hall : ∀ c ∈ chars, Accepted c) (hbuf : str_buf = chars.flatten ++ tail)
    (hnul : max_bytes = 0 → [0] ∉ chars) (hroom : max_bytes ≠ 0 → chars.flatten.length ≤ max_bytes.toNat) :
    ∃ s' fuel, Took max_bytes (start str_buf max_bytes) chars tail s' ∧
      strIsValidUtf8 str_buf max_bytes 0 = (Scan.loop 0 max_bytes 0 (fuel + 2) s').map
        fun s => (s.result, s.total_num_valid_characters, s.truncate_pos_index) := by
  have hle := length_le_flatten hall
  have hlen : chars.flatten.length ≤ str_buf.length := by
    rw [hbuf, List.length_append]
    omega
  obtain ⟨s', hloop, htook⟩ := @loop_chars max_bytes (str_buf.length - chars.length + 2) chars tail
    (start str_buf max_bytes) hall rfl hbuf hnul hroom
  refine ⟨s', str_buf.length - chars.length, htook, ?_⟩
  rw [← hloop, strIsValidUtf8, strIsValidAndTruncateUtf8]
  have hfuel : str_buf.length - chars.length + 2 + chars.length = str_buf.length + 2 := by omega
  rw [hfuel]
  simp only [Option.bind_eq_bind, Option.pure_def, Option.map_eq_bind]
  rfl

theorem stopped {str_buf tail : List UInt8}
    (htook : Took max_bytes (start str_buf max_bytes) chars tail s') (hdone : s'.done = false)
    (hnone : ∀ c r, Accepted c → tail = c ++ r → max_bytes ≠ 0 ∧ s'.bytes_left.toNat < c.length)
    (hleft : max_bytes ≠ 0 → 0 < s'.bytes_left.toNat) (fuel : Nat) :
    (∀ r, Scan.loop 0 max_bytes 0 (fuel + 2) s' = some r →
      (r.result, r.total_num_valid_characters, r.truncate_pos_index) = answer false chars) ∧
      (s'.Bounded max_bytes → tail ≠ [] → ∃ r, Scan.loop 0 max_bytes 0 (fuel + 2) s' = some r) := by
  have hinvalid : ∀ s'', s'.pass 0 max_bytes 0 = some s'' →
      s''.done = true ∧ (s''.result, s''.total_num_valid_characters, s''.truncate_pos_index) = answer false chars := by
    intro s'' hpass
    obtain ⟨hd, hresult, htotal, hindex⟩ := pass_invalid (by rw [htook.ptr]; exact hnone) hleft hpass
    refine ⟨hd, ?_⟩
    rw [hresult, htotal, hindex, htook.total, htook.index, start, answer, UInt32.zero_add, UInt32.zero_add]
  constructor
  · intro r h
    simp only [Scan.loop, hdone, Bool.false_eq_true, if_false, Option.bind_eq_bind, Option.bind_eq_some_iff] at h
    obtain ⟨s'', hpass, h⟩ := h
    obtain ⟨hd, hanswer⟩ := hinvalid s'' hpass
    rw [if_pos hd] at h
    obtain rfl := by simpa using h
    exact hanswer
  · intro hbounded hne
    obtain ⟨f, hfound⟩ := exists_found hbounded (by rw [htook.ptr]; exact hne)
    have hpass : ∃ s'', s'.pass 0 max_bytes 0 = some s'' := by
      simp only [Scan.pass, Option.bind_eq_bind, hfound, Option.bind_some]
      cases f <;> exact ⟨_, rfl⟩
    obtain ⟨s'', hpass⟩ := hpass
    obtain ⟨hd, -⟩ := hinvalid s'' hpass
    exact ⟨s'', by simp [Scan.loop, hdone, hpass, hd]⟩

/-! ## NUL -/

theorem eq_nul (h : Accepted c) (hmem : 0 ∈ c) : c = [0] := by
  have htail : ∀ b : UInt8, IsTail b → 0 ≠ b := by
    rintro b hb rfl
    exact absurd hb (by decide)
  cases h with
  | one _ => rw [List.mem_singleton.mp hmem]
  | @two a b hlow _ hb =>
    have ha : 0 ≠ a := by
      rintro rfl
      exact absurd hlow (by decide)
    simp [ha, htail b hb] at hmem
  | @three a b c hlow _ hb hc _ =>
    have ha : 0 ≠ a := by
      rintro rfl
      exact absurd hlow (by decide)
    simp [ha, htail b hb, htail c hc] at hmem
  | @four a b c d hlow _ hb hc hd _ =>
    have ha : 0 ≠ a := by
      rintro rfl
      exact absurd hlow (by decide)
    simp [ha, htail b hb, htail c hc, htail d hd] at hmem

theorem none_before_nul (hstops : ∀ c, Accepted c → ¬c <+: rest) (hne : rest ≠ [])
    (hc : Accepted c) : ¬c <+: rest ++ 0 :: z := by
  intro hsub
  obtain hle | hlt := Nat.lt_or_ge rest.length c.length
  · have hmem : 0 ∈ c := by
      obtain ⟨r, hr⟩ := hsub
      have hnul : (c ++ r)[rest.length]? = some 0 := by simp [hr]
      rw [List.getElem?_append_left hle] at hnul
      exact List.mem_of_getElem? hnul
    have hpos := List.length_pos_of_ne_nil hne
    rw [eq_nul hc hmem, List.length_singleton] at hle
    omega
  · exact hstops c hc (List.prefix_of_prefix_length_le hsub (List.prefix_append _ _) hlt)

/-! ## The answer -/

theorem valid_nul (hnul : 0 ∉ bs) (h : IsLongest IsLenient bs chars rest) :
    strIsValidUtf8 (bs ++ 0 :: z) 0 0 = some (answer (decide (rest = [])) chars) := by
  obtain ⟨hall, hstops⟩ := stops_accepted h
  have hchars : [0] ∉ chars := by
    intro hmem
    refine hnul ?_
    rw [h.eq]
    exact List.mem_append_left _ (List.mem_flatten.mpr ⟨[0], hmem, List.mem_singleton.mpr rfl⟩)
  obtain ⟨s', fuel, htook, heq⟩ := @valid_of_loop 0 (bs ++ 0 :: z) (rest ++ 0 :: z) chars hall
    (by rw [h.eq, List.append_assoc]) (fun _ => hchars) (fun hne => absurd rfl hne)
  have hdone : s'.done = false := by
    rw [Bool.eq_false_iff, ne_eq, htook.done]
    exact fun h => h.1 rfl
  rw [heq]
  by_cases hrest : rest = []
  · subst hrest
    have hptr := htook.ptr
    rw [List.nil_append] at hptr
    have hfound : s'.found 0 = some .finished := by
      simp [Scan.found, Scan.byte, hptr, utf8_1ByteSig]
    simp [Scan.loop, hdone, Scan.pass, hfound, htook.total, htook.index, answer, start]
  · obtain ⟨hanswer, hsome⟩ := stopped htook hdone
      (fun c r hc heq => absurd ⟨r, heq.symm⟩ (none_before_nul hstops hrest hc)) (fun hne => absurd rfl hne) fuel
    obtain ⟨r, hr⟩ := hsome (Or.inl (by rw [htook.ptr]; simp)) (by simp)
    rw [hr, Option.map_some, hanswer r hr, decide_eq_false hrest]

/-- With a number of bytes the answer is about so many, whether there is a NUL among them or not. -/
theorem valid_bytes (hmax : max_bytes ≠ 0)
    (h : IsLongest IsLenient (str_buf.take max_bytes.toNat) chars rest) :
    (∀ r, strIsValidUtf8 str_buf max_bytes 0 = some r →
      r = answer (decide (rest = [] ∧ max_bytes.toNat ≤ str_buf.length)) chars) ∧
      (max_bytes.toNat ≤ str_buf.length ∨ 0 ∈ rest → ∃ r, strIsValidUtf8 str_buf max_bytes 0 = some r) := by
  obtain ⟨hall, hstops⟩ := stops_accepted h
  have hpos : 0 < max_bytes.toNat := Nat.pos_of_ne_zero fun hz => hmax (UInt32.toNat_inj.mp hz)
  have hlen := congrArg List.length h.eq
  rw [List.length_take, List.length_append] at hlen
  have hbuf : str_buf = chars.flatten ++ (rest ++ str_buf.drop max_bytes.toNat) := by
    rw [← List.append_assoc, ← h.eq, List.take_append_drop]
  obtain ⟨s', fuel, htook, heq⟩ := @valid_of_loop max_bytes str_buf _ chars hall hbuf (fun hz => absurd hz hmax)
    (fun _ => by omega)
  have hleft : s'.bytes_left.toNat = max_bytes.toNat - chars.flatten.length := htook.bytes_left hmax
  rw [heq]
  by_cases hfull : chars.flatten.length = max_bytes.toNat
  · have hne : chars ≠ [] := by
      rintro rfl
      simp at hfull
      omega
    have hdone : s'.done = true := htook.done.mpr ⟨hmax, hne, hfull⟩
    have hrest : rest = [] := List.eq_nil_of_length_eq_zero (by omega)
    have hrun : Scan.loop 0 max_bytes 0 (fuel + 2) s' = some s' := by simp [Scan.loop, hdone]
    rw [hrun]
    refine ⟨?_, fun _ => ⟨_, rfl⟩⟩
    rintro _ ⟨rfl⟩
    have hle : max_bytes.toNat ≤ str_buf.length := by omega
    simp only [htook.result, htook.total, htook.index, decide_eq_true (And.intro hrest hle)]
    simp [answer, start]
  · have hdone : s'.done = false := by
      rw [Bool.eq_false_iff, ne_eq, htook.done]
      exact fun h => hfull h.2.2
    have hnot : ¬(rest = [] ∧ max_bytes.toNat ≤ str_buf.length) := by
      rintro ⟨rfl, hle⟩
      rw [List.length_nil] at hlen
      omega
    obtain ⟨hanswer, hsome⟩ := stopped htook hdone
      (fun c r hc heq => by
        refine ⟨hmax, ?_⟩
        by_contra hle
        have hsub : c <+: rest ++ str_buf.drop max_bytes.toNat := ⟨r, heq.symm⟩
        by_cases hshort : max_bytes.toNat ≤ str_buf.length
        · exact hstops c hc (List.prefix_of_prefix_length_le hsub (List.prefix_append _ _) (by omega))
        · rw [List.drop_of_length_le (by omega), List.append_nil] at hsub
          exact hstops c hc hsub)
      (fun _ => by omega) fuel
    refine ⟨fun r hr => ?_, fun hread => ?_⟩
    · simp only [Option.map_eq_some_iff] at hr
      obtain ⟨s'', hs, rfl⟩ := hr
      rw [hanswer s'' hs, decide_eq_false hnot]
    · have hbounded : s'.Bounded max_bytes := by
        obtain hle | hmem := hread
        · refine Or.inr ⟨hmax, ?_⟩
          rw [htook.ptr, List.length_append, List.length_drop]
          omega
        · refine Or.inl ?_
          rw [htook.ptr]
          exact List.mem_append_left _ hmem
      have hne : rest ++ str_buf.drop max_bytes.toNat ≠ [] := by
        obtain hle | hmem := hread
        · intro hnil
          exact hnot ⟨(List.append_eq_nil_iff.mp hnil).1, hle⟩
        · exact List.ne_nil_of_mem (List.mem_append_left _ hmem)
      obtain ⟨s'', hs⟩ := hsome hbounded hne
      exact ⟨_, by rw [hs]; rfl⟩

theorem valid_within (hmax : max_bytes ≠ 0) (str_buf : List UInt8) :
    strIsValidUtf8 (str_buf.take max_bytes.toNat) max_bytes 0 = strIsValidUtf8 str_buf max_bytes 0 := by
  by_cases hle : max_bytes.toNat ≤ str_buf.length
  · obtain ⟨chars, rest, h⟩ := lenient_prefixCode.exists_longest (str_buf.take max_bytes.toNat)
    have hlen : max_bytes.toNat ≤ (str_buf.take max_bytes.toNat).length := by
      rw [List.length_take]
      omega
    have h' : IsLongest IsLenient ((str_buf.take max_bytes.toNat).take max_bytes.toNat) chars rest := by
      rwa [List.take_take, Nat.min_self]
    obtain ⟨hanswer, hsome⟩ := valid_bytes hmax h
    obtain ⟨hanswer', hsome'⟩ := valid_bytes hmax h'
    obtain ⟨r, hr⟩ := hsome (Or.inl hle)
    obtain ⟨r', hr'⟩ := hsome' (Or.inl hlen)
    rw [hr, hr', hanswer r hr, hanswer' r' hr']
    simp [hle]
  · rw [List.take_of_length_le (by omega)]

/-! ## What the scanner says -/

/-- The string: up to the first NUL, and of so many bytes at most, if there is a number. -/
def scanned (max_bytes : UInt32) (str_buf : List UInt8) : List UInt8 :=
  (if max_bytes = 0 then str_buf else str_buf.take max_bytes.toNat).takeWhile (· ≠ 0)

/-- The scanner says whether the string is well-formed and the number of characters with which it begins, and reads
nothing beyond the number of bytes. -/
def Right (max_bytes : UInt32) (str_buf : List UInt8) : Prop :=
  ∃ valid num_valid_characters num_byte_4_char,
    strIsValidUtf8 str_buf max_bytes 0 = some (valid, num_valid_characters, num_byte_4_char) ∧
    (valid = true ↔ WellFormed (scanned max_bytes str_buf)) ∧
    (∃ chars rest, IsLongest IsChar (scanned max_bytes str_buf) chars rest ∧
      num_valid_characters.toNat = chars.length) ∧
    (max_bytes ≠ 0 → strIsValidUtf8 (str_buf.take max_bytes.toNat) max_bytes 0 =
      some (valid, num_valid_characters, num_byte_4_char))

/-- The condition: of the characters, and of the surrogates and overlong forms (and characters among them) that come
after them, the latter are not taken for such, and a NUL is not gone over. -/
def ToldApart (max_bytes : UInt32) (str_buf : List UInt8) : Prop :=
  ∃ chars rest more rest', IsLongest IsChar (scanned max_bytes str_buf) chars rest ∧
    IsLongest IsLenient rest more rest' ∧ chars.length < 2 ^ 32 ∧
    (rest' = [] → more = [] ∧ (max_bytes = 0 ∨ 0 ∉ str_buf.take max_bytes.toNat)) ∧
    (rest' ≠ [] → more.length % 2 ^ 32 = 0)

theorem takeWhile_append : ∀ {bs : List UInt8}, 0 ∈ bs → ∃ z, bs = bs.takeWhile (· ≠ 0) ++ 0 :: z
  | b :: bs, h => by
    by_cases hb : b = 0
    · exact ⟨bs, by simp [hb]⟩
    · obtain ⟨z, hz⟩ := takeWhile_append ((List.mem_cons.mp h).resolve_left (Ne.symm hb))
      exact ⟨z, by simp [hb]; simpa using hz⟩

theorem not_mem_takeWhile (bs : List UInt8) : 0 ∉ bs.takeWhile (· ≠ 0) := by
  intro h
  simpa using List.mem_takeWhile_imp h

theorem takeWhile_eq (h : 0 ∉ bs) : bs.takeWhile (· ≠ 0) = bs := by
  rw [List.takeWhile_eq_self_iff]
  intro b hb
  have hne : b ≠ 0 := fun heq => h (heq ▸ hb)
  simpa using hne

/-- The string, and the characters that the scanner takes in it: it has them and no more, unless it goes over a NUL. -/
theorem valid_scanned (hbuf : 0 ∈ str_buf ∨ (max_bytes ≠ 0 ∧ max_bytes.toNat ≤ str_buf.length))
    (h : IsLongest IsLenient (scanned max_bytes str_buf) chars rest)
    (hnul : rest ≠ [] ∨ max_bytes = 0 ∨ 0 ∉ str_buf.take max_bytes.toNat) :
    strIsValidUtf8 str_buf max_bytes 0 = some (answer (decide (rest = [])) chars) := by
  by_cases hmax : max_bytes = 0
  · subst hmax
    simp only [scanned, if_true] at h
    obtain ⟨z, hz⟩ := takeWhile_append (hbuf.resolve_right fun h => h.1 rfl)
    rw [hz]
    exact valid_nul (not_mem_takeWhile str_buf) h
  rw [scanned, if_neg hmax] at h
  by_cases hmem : 0 ∈ str_buf.take max_bytes.toNat
  · have hrest : rest ≠ [] := hnul.resolve_right fun h => h.elim hmax fun hnot => hnot hmem
    obtain ⟨z, hz⟩ := takeWhile_append hmem
    obtain ⟨hall, hstops⟩ := stops_accepted h
    have hwhole : IsLongest IsLenient (str_buf.take max_bytes.toNat) chars (rest ++ 0 :: z) := by
      refine ⟨?_, h.chars, fun c hc => none_before_nul hstops hrest (accepted_iff.mpr hc)⟩
      rw [← List.append_assoc, ← h.eq]
      exact hz
    obtain ⟨hanswer, hsome⟩ := valid_bytes hmax hwhole
    obtain ⟨r, hr⟩ := hsome (Or.inr (by simp))
    rw [hr, hanswer r hr]
    simp [hrest]
  · rw [takeWhile_eq hmem] at h
    have hle : max_bytes.toNat ≤ str_buf.length := by
      obtain hbuf | ⟨-, hle⟩ := hbuf
      · by_contra hlt
        exact hmem (by rwa [List.take_of_length_le (by omega)])
      · exact hle
    obtain ⟨hanswer, hsome⟩ := valid_bytes hmax h
    obtain ⟨r, hr⟩ := hsome (Or.inl hle)
    rw [hr, hanswer r hr]
    simp [hle]

theorem counts_nul (hmax : max_bytes ≠ 0)
    (h : IsLongest IsLenient (scanned max_bytes str_buf) chars []) (hmem : 0 ∈ str_buf.take max_bytes.toNat)
    {r : Bool × UInt32 × UInt32} (hr : strIsValidUtf8 str_buf max_bytes 0 = some r) :
    chars.length < r.2.1.toNat := by
  rw [scanned, if_neg hmax] at h
  obtain ⟨z, hz⟩ := takeWhile_append hmem
  obtain ⟨chars', rest', h'⟩ := lenient_prefixCode.exists_longest (str_buf.take max_bytes.toNat)
  obtain ⟨hall, -⟩ := stops_accepted h'
  have hone : IsLenient [0] := Or.inl (IsChar.one (by decide))
  have heq := h.eq
  rw [List.append_nil] at heq
  have hle := @IsLongest.le _ _ lenient_prefixCode _ _ _ (chars ++ [[0]]) h'
    (fun c hc => by
      obtain hc | hc := List.mem_append.mp hc
      · exact h.chars c hc
      · rw [List.mem_singleton.mp hc]
        exact hone)
    ⟨z, by rw [List.flatten_append, ← heq]; simpa using hz.symm⟩
  have hlen := length_le_flatten hall
  have htotal := congrArg List.length h'.eq
  rw [List.length_take, List.length_append] at htotal
  have hlt := max_bytes.toNat_lt
  rw [(valid_bytes hmax h').1 r hr]
  simp only [answer]
  rw [UInt32.toNat_ofNat_of_lt' (by simp only [UInt32.size]; omega)]
  rw [List.length_append, List.length_singleton] at hle
  omega

/-- **When the scanner is right**: exactly if surrogates, overlong forms and a NUL before the last byte are told apart
from characters, and the characters can be counted. -/
theorem valid_iff (max_bytes : UInt32) (str_buf : List UInt8)
    (hbuf : 0 ∈ str_buf ∨ (max_bytes ≠ 0 ∧ max_bytes.toNat ≤ str_buf.length)) :
    Right max_bytes str_buf ↔ ToldApart max_bytes str_buf := by
  have hmod : ∀ n, (UInt32.ofNat n).toNat = n % 2 ^ 32 := fun n => UInt32.toNat_ofNat
  constructor
  · rintro ⟨valid, num, index, hrun, hvalid, ⟨chars, rest, h, hnum⟩, -⟩
    obtain ⟨more, rest', hmore⟩ := lenient_prefixCode.exists_longest rest
    have hall := h.append hmore fun c hc => Or.inl hc
    have hchars : chars.length < 2 ^ 32 := hnum ▸ num.toNat_lt
    by_cases hnul : rest' ≠ [] ∨ max_bytes = 0 ∨ 0 ∉ str_buf.take max_bytes.toNat
    · have hanswer := valid_scanned hbuf hall hnul
      rw [hrun, Option.some_inj, answer] at hanswer
      obtain ⟨rfl, rfl, -⟩ := hanswer
      rw [hmod, List.length_append] at hnum
      refine ⟨chars, rest, more, rest', h, hmore, hchars, fun hnil => ⟨?_, ?_⟩, fun _ => by omega⟩
      · rw [decide_eq_true hnil, WellFormed, h.made_iff char_prefixCode] at hvalid
        obtain rfl := hvalid.mp rfl
        have heq := congrArg List.length hmore.eq
        rw [List.length_nil, List.length_append] at heq
        by_contra hne
        have hpos := flatten_pos (stops_accepted hmore).1 hne
        omega
      · exact hnul.resolve_left fun hne => hne hnil
    · simp only [ne_eq, not_or, not_not] at hnul
      obtain ⟨rfl, hmax, hmem⟩ := hnul
      have hlt := counts_nul hmax hall hmem hrun
      rw [List.length_append] at hlt
      simp only at hlt
      omega
  · rintro ⟨chars, rest, more, rest', h, hmore, hchars, htaken, hcount⟩
    have hall := h.append hmore fun c hc => Or.inl hc
    have hnul : rest' ≠ [] ∨ max_bytes = 0 ∨ 0 ∉ str_buf.take max_bytes.toNat := by
      by_cases hnil : rest' = []
      · exact Or.inr (htaken hnil).2
      · exact Or.inl hnil
    have hanswer := valid_scanned hbuf hall hnul
    refine ⟨_, _, _, hanswer, ?_, ⟨chars, rest, h, ?_⟩, fun hmax => by rw [valid_within hmax, hanswer]; rfl⟩
    · rw [WellFormed, h.made_iff char_prefixCode, decide_eq_true_eq]
      constructor
      · intro hnil
        rw [hmore.eq, (htaken hnil).1, hnil]
        rfl
      · rintro rfl
        have heq := hmore.eq
        exact (List.append_eq_nil_iff.mp heq.symm).2
    · rw [hmod, List.length_append]
      by_cases hnil : rest' = []
      · rw [(htaken hnil).1, List.length_nil, Nat.add_zero, Nat.mod_eq_of_lt hchars]
      · have hzero := hcount hnil
        omega

/-- A surrogate after A, and nothing after it. -/
def surrogate : List UInt8 := [0x41, 0xED, 0xA0, 0x80, 0]

theorem valid_iff_surrogate : Right 0 surrogate ↔ ToldApart 0 surrogate := valid_iff 0 surrogate (Or.inl (by decide))

/-- **A surrogate taken for a character**: the answer is that the string is valid, and of two characters. -/
theorem surrogate_taken : strIsValidUtf8 surrogate 0 0 = some (true, 2, 4) ∧ ¬WellFormed (scanned 0 surrogate) ∧
    ¬Right 0 surrogate := by
  have hrun : strIsValidUtf8 surrogate 0 0 = some (true, 2, 4) := by decide
  have hlongest : IsLongest IsChar (scanned 0 surrogate) [[0x41]] [0xED, 0xA0, 0x80] := by
    refine ⟨by decide, ?_, ?_⟩
    · intro c hc
      rw [List.mem_singleton.mp hc]
      exact IsChar.one (by decide)
    · intro c hc ⟨r, hr⟩
      cases hc with
      | one ha =>
        obtain ⟨rfl, -⟩ := List.cons.inj hr
        exact absurd ha (by decide)
      | two _ hhigh _ =>
        obtain ⟨rfl, -⟩ := List.cons.inj hr
        exact absurd hhigh (by decide)
      | three _ _ _ _ hok =>
        simp only [List.cons_append, List.nil_append, List.cons.injEq] at hr
        obtain ⟨rfl, rfl, -⟩ := hr
        exact absurd (hok.notSurrogate rfl) (by decide)
      | four hlow _ _ _ _ _ =>
        obtain ⟨rfl, -⟩ := List.cons.inj hr
        exact absurd hlow (by decide)
  have hnot : ¬WellFormed (scanned 0 surrogate) := by
    rw [WellFormed, hlongest.made_iff char_prefixCode]
    simp
  refine ⟨hrun, hnot, ?_⟩
  rintro ⟨valid, num, index, hrun', hvalid, -⟩
  rw [hrun, Option.some_inj, Prod.mk.injEq] at hrun'
  exact hnot (hvalid.mp hrun'.1.symm)

end Ftke.StringUtf8
