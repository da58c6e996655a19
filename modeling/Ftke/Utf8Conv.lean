import Ftke.Bits
import Ftke.Utf8

/-!
# Ftke.Utf8Conv

`oscl_UnicodeToUTF8`, `oscl_UTF8ToUnicode` (`oscl/osclutil/src/oscl_utf8conv.cpp`): strings of 16-bit units and their
UTF-8.

Surrogates are converted one by one, and the first byte of three is not masked when it is shifted.

* `unicodeToUtf8`, `utf8ToUnicode` — the conversions;
* `unicodeToUtf8_text` — the bytes of a text in which no character takes a pair of surrogates;
* `utf8ToUnicode_bytes` — what the bytes are converted back to;
* `conv_iff` — when the text comes back, and when its bytes are right.
-/

namespace Ftke.Utf8Conv

open Utf8

/-! ## The conversions -/

/-- The platforms' `wchar_t`. -/
inductive Wchar
  | bits16
  | bits32
  deriving DecidableEq

def Wchar.bits : Wchar → Nat
  | bits16 => 16
  | bits32 => 32

/-- What a conversion returns, and what it writes before the terminating zero, if it writes at all. -/
structure Output (α : Type) where
  ret : Int
  strDest : Option (List α)
  deriving DecidableEq

/-- The branches of `oscl_UnicodeToUTF8` over a unit: the room that is asked for, and the bytes. -/
def unitToBytes (u : Nat) : Nat × List UInt8 :=
  if u < 0x80 then (1, [UInt8.ofNat u])
  else if u < 0x800 then (2, [UInt8.ofNat (u >>> 6 ||| 0xc0), UInt8.ofNat (u &&& 0x3f ||| 0x80)])
  else if u < 0xdfff ∧ 0xd800 < u then
    let ch_tmp_byte := (u &&& 0x3c0) >>> 6 + 1
    (4, [UInt8.ofNat (ch_tmp_byte >>> 2 ||| 0xf0), UInt8.ofNat (ch_tmp_byte &&& 0x03 ||| 0x80 ||| (u &&& 0x3e) >>> 2)])
  else (3, [UInt8.ofNat (u >>> 12 ||| 0xe0), UInt8.ofNat (u >>> 6 &&& 0x3f ||| 0x80), UInt8.ofNat (u &&& 0x3f ||| 0x80)])

/-- The loop over the units: whether all are converted, and the bytes written. -/
def unicodeToUtf8Loop (nDestLen : Int) : List Nat → List UInt8 → Bool × List UInt8
  | [], strDest => (true, strDest)
  | u :: us, strDest =>
    let (room, bytes) := unitToBytes u
    if strDest.length + room < nDestLen then unicodeToUtf8Loop nDestLen us (strDest ++ bytes) else (false, strDest)

/-- `oscl_UnicodeToUTF8`; `szSrc` is the string of `nSrcLen` units. -/
def unicodeToUtf8 (szSrc : List Nat) (nDestLen : Int) : Output UInt8 :=
  if nDestLen ≤ 0 then ⟨0, none⟩
  else
    let (whole, strDest) := unicodeToUtf8Loop nDestLen szSrc []
    ⟨if whole then strDest.length else 0, some strDest⟩

/-- The unit of three bytes: `wchar_t` cuts off what is shifted too far. -/
def threeBytes (w : Wchar) (a b c : UInt8) : Nat :=
  (a.toNat <<< 12 ||| (b.toNat &&& 0x3f) <<< 6 ||| c.toNat &&& 0x3f) % 2 ^ w.bits

def twoBytes (w : Wchar) (a b : UInt8) : Nat := ((a.toNat &&& 0x3f) <<< 6 ||| b.toNat &&& 0x7f) % 2 ^ w.bits

/-- The loop over the bytes: whether all are converted, and the units written. -/
def utf8ToUnicodeLoop (w : Wchar) (nDestLen : Int) : List UInt8 → List Nat → Bool × List Nat
  | [], strDest => (true, strDest)
  | a :: bs, strDest =>
    if 0xe0 ≤ a then
      match bs with
      | b :: c :: bs =>
        if strDest.length + 1 < nDestLen then utf8ToUnicodeLoop w nDestLen bs (strDest ++ [threeBytes w a b c])
        else (false, strDest)
      | _ => (false, strDest)
    else if 0xc0 ≤ a then
      match bs with
      | b :: bs =>
        if strDest.length + 1 < nDestLen then utf8ToUnicodeLoop w nDestLen bs (strDest ++ [twoBytes w a b])
        else (false, strDest)
      | _ => (false, strDest)
    else if strDest.length + 1 < nDestLen then utf8ToUnicodeLoop w nDestLen bs (strDest ++ [a.toNat])
    else (false, strDest)

/-- `oscl_UTF8ToUnicode`; `szSrc` is the string of `nSrcLen` bytes. -/
def utf8ToUnicode (w : Wchar) (szSrc : List UInt8) (nDestLen : Int) : Output Nat :=
  if nDestLen ≤ 0 then ⟨0, none⟩
  else
    let (whole, strDest) := utf8ToUnicodeLoop w nDestLen szSrc []
    ⟨if whole then strDest.length else 0, some strDest⟩

/-! ## Units to bytes -/

theorem or_add {x y i : Nat} (h : y < 2 ^ i) (k : Nat) (hk : k = x * 2 ^ i) : y ||| k = k + y := by
  rw [hk, Nat.or_comm, ← Nat.shiftLeft_eq, Bits.or_of_lt h, Nat.shiftLeft_eq]

theorem and_mask {u i : Nat} (k : Nat) (hk : k = 2 ^ i - 1) : u &&& k = u % 2 ^ i := by
  rw [hk, Nat.and_two_pow_sub_one_eq_mod]

theorem low_bits (u : Nat) : u &&& 0x3f ||| 0x80 = 0x80 + u % 64 := by
  rw [and_mask (i := 6) 0x3f rfl, or_add (x := 2) (Nat.mod_lt u (by decide)) 0x80 rfl]
  rfl

variable {u n : Nat}

theorem unitToBytes_plain (h : IsScalar u) (hu : u < 0x10000) :
    unitToBytes u = ((encode u).length, encode u) := by
  unfold IsScalar at h
  rw [unitToBytes, encode]
  by_cases h1 : u < 0x80
  · rw [if_pos h1, if_pos h1]
    rfl
  rw [if_neg h1, if_neg h1]
  by_cases h2 : u < 0x800
  · have hdiv : u / 2 ^ 6 < 2 ^ 6 := by omega
    rw [if_pos h2, if_pos h2, low_bits, Nat.shiftRight_eq_div_pow, or_add (x := 3) hdiv 0xc0 rfl]
    rfl
  have hsur : ¬(u < 0xdfff ∧ 0xd800 < u) := by omega
  have hdiv : u / 2 ^ 12 < 2 ^ 5 := by omega
  rw [if_neg h2, if_neg h2, if_neg hsur, if_pos hu, low_bits, low_bits, Nat.shiftRight_eq_div_pow,
    Nat.shiftRight_eq_div_pow, or_add (x := 7) hdiv 0xe0 rfl]
  rfl

theorem unicodeToUtf8Loop_text (nDestLen : Int) : ∀ (text : List Nat) (strDest : List UInt8),
    (∀ u ∈ text, IsScalar u ∧ u < 0x10000) → strDest.length + (text.flatMap encode).length < nDestLen →
    unicodeToUtf8Loop nDestLen text strDest = (true, strDest ++ text.flatMap encode)
  | [], strDest, _, _ => by simp [unicodeToUtf8Loop]
  | u :: us, strDest, hall, hroom => by
    obtain ⟨hscalar, hu⟩ := hall u List.mem_cons_self
    rw [List.flatMap_cons, List.length_append] at hroom
    simp only [unicodeToUtf8Loop, unitToBytes_plain hscalar hu]
    rw [if_pos (by omega), unicodeToUtf8Loop_text nDestLen us _ (fun v hv => hall v (List.mem_cons_of_mem u hv))
      (by rw [List.length_append]; omega), List.flatMap_cons, List.append_assoc]

/-- **The bytes of a text** without surrogates. -/
theorem unicodeToUtf8_text {text : List Nat} (hall : ∀ u ∈ text, IsScalar u ∧ u < 0x10000) {nDestLen : Int}
    (hroom : (text.flatMap encode).length < nDestLen) :
    unicodeToUtf8 text nDestLen = ⟨(text.flatMap encode).length, some (text.flatMap encode)⟩ := by
  have hloop := unicodeToUtf8Loop_text nDestLen text [] hall (by simpa using hroom)
  rw [unicodeToUtf8, if_neg (by omega), hloop]
  simp

theorem unicodeToUtf8Loop_cases (nDestLen : Int) : ∀ (us : List Nat) (strDest : List UInt8),
    unicodeToUtf8Loop nDestLen us strDest = (true, strDest ++ us.flatMap fun u => (unitToBytes u).2) ∨
      (unicodeToUtf8Loop nDestLen us strDest).1 = false
  | [], strDest => Or.inl (by simp [unicodeToUtf8Loop])
  | u :: us, strDest => by
    simp only [unicodeToUtf8Loop]
    split
    · have h := unicodeToUtf8Loop_cases nDestLen us (strDest ++ (unitToBytes u).2)
      rwa [List.flatMap_cons, ← List.append_assoc]
    · exact Or.inr rfl

theorem low_first (hlow : 0xDC00 ≤ u) (hhigh : u ≤ 0xDFFF) :
    ∃ c bytes, (unitToBytes u).2 = c :: bytes ∧ ¬IsTail c := by
  rw [unitToBytes, if_neg (by omega), if_neg (by omega)]
  by_cases hlast : u < 0xdfff ∧ 0xd800 < u
  · rw [if_pos hlast]
    refine ⟨_, _, rfl, fun htail => ?_⟩
    have hdiv : ((u &&& 0x3c0) >>> 6 + 1) >>> 2 < 2 ^ 4 := by
      have hle : u &&& 0x3c0 ≤ 0x3c0 := Nat.and_le_right
      simp only [Nat.shiftRight_eq_div_pow]
      omega
    have hle := htail.2
    rw [Nat.or_comm, Nat.or_comm, or_add (x := 15) hdiv 0xf0 rfl, byte_le (by omega)] at hle
    simp only [UInt8.reduceToNat] at hle
    omega
  · obtain rfl : u = 0xdfff := by omega
    rw [if_neg hlast]
    exact ⟨_, _, rfl, by decide⟩

theorem pair_bytes (hn : 0x10000 ≤ n) (h : IsScalar n) (x y : List UInt8) :
    (utf16 n).flatMap (fun u => (unitToBytes u).2) ++ x ≠ encode n ++ y := by
  unfold IsScalar at h
  have hpair : utf16 n = [0xD800 + (n - 0x10000) / 1024, 0xDC00 + n % 1024] := by rw [utf16, if_neg (by omega)]
  have hencode : encode n = [UInt8.ofNat (0xF0 + n / 262144), UInt8.ofNat (0x80 + n / 4096 % 64),
      UInt8.ofNat (0x80 + n / 64 % 64), UInt8.ofNat (0x80 + n % 64)] := by
    rw [encode, if_neg (by omega), if_neg (by omega), if_neg (by omega)]
  obtain ⟨c, bytes, hlow, htail⟩ := low_first (u := 0xDC00 + n % 1024) (by omega) (by omega)
  intro heq
  simp only [hpair, hencode, List.flatMap_cons, List.flatMap_nil, hlow] at heq
  by_cases hfirst : (n - 0x10000) / 1024 = 0
  · rw [hfirst] at heq
    have hhead := congrArg List.head? heq
    have hdiv : n / 262144 = 0 := by omega
    rw [hdiv] at hhead
    revert hhead
    simp [unitToBytes]
  · rw [unitToBytes, if_neg (by omega), if_neg (by omega), if_pos (by omega)] at heq
    simp only [List.cons_append, List.nil_append, List.cons.injEq] at heq
    exact htail (heq.2.2.1 ▸ isTail_byte (Nat.mod_lt _ (by decide)))

/-- What the encoder should make of a text. -/
def Encodes (text : List Nat) (nDestLen : Int) : Prop :=
  unicodeToUtf8 (text.flatMap utf16) nDestLen = ⟨(text.flatMap encode).length, some (text.flatMap encode)⟩

theorem utf16_plain (h : n < 0x10000) : utf16 n = [n] := if_pos h

theorem flatMap_bytes_ne : ∀ {text : List Nat}, (∀ n ∈ text, IsScalar n) → ¬(∀ n ∈ text, n < 0x10000) →
    (text.flatMap utf16).flatMap (fun u => (unitToBytes u).2) ≠ text.flatMap encode
  | [], _, hnot => absurd (by simp) hnot
  | n :: text, hall, hnot => by
    have hscalar := hall n List.mem_cons_self
    rw [List.flatMap_cons, List.flatMap_append, List.flatMap_cons]
    by_cases hn : n < 0x10000
    · have hrest : ¬∀ m ∈ text, m < 0x10000 := by
        intro hsmall
        refine hnot fun m hm => ?_
        obtain rfl | hm := List.mem_cons.mp hm
        · exact hn
        · exact hsmall m hm
      have hne := flatMap_bytes_ne (fun m hm => hall m (List.mem_cons_of_mem n hm)) hrest
      rw [utf16_plain hn, List.flatMap_singleton, unitToBytes_plain hscalar hn]
      exact fun heq => hne (List.append_cancel_left heq)
    · exact pair_bytes (by omega) hscalar _ _

/-- The encoder is right exactly where no character of the text takes a pair of surrogates. -/
theorem encodes_iff {text : List Nat} (hall : ∀ n ∈ text, IsScalar n) {nDestLen : Int}
    (hroom : (text.flatMap encode).length < nDestLen) : Encodes text nDestLen ↔ ∀ n ∈ text, n < 0x10000 := by
  constructor
  · intro h
    by_contra hnot
    have hne := flatMap_bytes_ne hall hnot
    have hpos : 0 < (text.flatMap encode).length := by
      obtain _ | ⟨n, text⟩ := text
      · exact absurd (by simp) hnot
      · have hlen := char_prefixCode.length_pos (encode_isChar (hall n List.mem_cons_self))
        rw [List.flatMap_cons, List.length_append]
        omega
    rw [Encodes, unicodeToUtf8, if_neg (by omega)] at h
    obtain hloop | hloop := unicodeToUtf8Loop_cases nDestLen (text.flatMap utf16) []
    · simp only [hloop, List.nil_append, Output.mk.injEq, Option.some_inj] at h
      exact hne h.2
    · simp only [hloop, Bool.false_eq_true, if_false, Output.mk.injEq] at h
      omega
  · intro hsmall
    have hsame : text.flatMap utf16 = text := by
      rw [List.flatMap_congr (g := fun n => [n]) fun n hn => utf16_plain (hsmall n hn)]
      exact List.flatMap_singleton' text
    rw [Encodes, hsame]
    exact unicodeToUtf8_text (fun n hn => ⟨hall n hn, hsmall n hn⟩) hroom

/-! ## Bytes to units -/

/-- What the bytes of a unit are converted back to: three bytes leave the bits of their first byte in it, if
`wchar_t` has room for them. -/
def readBack (w : Wchar) (u : Nat) : Nat := if u < 0x800 then u else (0xE0000 + u) % 2 ^ w.bits

theorem mod_wchar (w : Wchar) (h : u < 0x10000) : u % 2 ^ w.bits = u := by
  refine Nat.mod_eq_of_lt (Nat.lt_of_lt_of_le h ?_)
  cases w <;> decide

theorem readBack_eq_iff (w : Wchar) (h : u < 0x10000) : readBack w u = u ↔ w = .bits16 ∨ u < 0x800 := by
  rw [readBack]
  split
  · next hu => simp [hu]
  · next hu =>
    cases w with
    | bits16 =>
      have hmod : (0xE0000 + u) % 2 ^ 16 = u := by omega
      simp only [Wchar.bits, hmod, true_or]
    | bits32 =>
      have hmod : (0xE0000 + u) % 2 ^ 32 = 0xE0000 + u := by omega
      simp only [Wchar.bits, hmod, reduceCtorEq, hu, or_self, iff_false]
      omega

theorem tail_bits {x : Nat} (h : x < 64) : (UInt8.ofNat (0x80 + x)).toNat &&& 0x3f = x := by
  rw [toNat_byte (by omega), and_mask (i := 6) 0x3f rfl]
  omega

theorem utf8ToUnicodeLoop_unit (w : Wchar) (nDestLen : Int) (h : u < 0x10000) (bs : List UInt8)
    (strDest : List Nat) : utf8ToUnicodeLoop w nDestLen (encode u ++ bs) strDest =
      if strDest.length + 1 < nDestLen then utf8ToUnicodeLoop w nDestLen bs (strDest ++ [readBack w u])
      else (false, strDest) := by
  rw [encode, readBack]
  by_cases h1 : u < 0x80
  · have hlow : ¬(0xe0 : UInt8) ≤ UInt8.ofNat u := by
      rw [le_byte (by omega)]
      exact Nat.not_le.mpr (Nat.lt_of_lt_of_le h1 (by decide))
    have hlow' : ¬(0xc0 : UInt8) ≤ UInt8.ofNat u := by
      rw [le_byte (by omega)]
      exact Nat.not_le.mpr (Nat.lt_of_lt_of_le h1 (by decide))
    rw [if_pos h1, if_pos (show u < 0x800 by omega), utf8ToUnicodeLoop.eq_def]
    simp only [List.cons_append, List.nil_append, if_neg hlow, if_neg hlow', toNat_byte (show u < 256 by omega)]
  by_cases h2 : u < 0x800
  · have hfirst : ¬(0xe0 : UInt8) ≤ UInt8.ofNat (0xC0 + u / 64) := by
      rw [le_byte (by omega)]
      simp only [UInt8.reduceToNat]
      omega
    have hsecond : (0xc0 : UInt8) ≤ UInt8.ofNat (0xC0 + u / 64) := by
      rw [le_byte (by omega)]
      exact Nat.le_add_right _ _
    have hunit : twoBytes w (UInt8.ofNat (0xC0 + u / 64)) (UInt8.ofNat (0x80 + u % 64)) = u := by
      rw [twoBytes, toNat_byte (by omega), toNat_byte (by omega), and_mask (i := 6) 0x3f rfl,
        and_mask (i := 7) 0x7f rfl, Bits.or_of_lt (i := 6) (by omega)]
      have hsum : (0xC0 + u / 64) % 2 ^ 6 * 2 ^ 6 + (0x80 + u % 64) % 2 ^ 7 = u := by omega
      rw [hsum, mod_wchar w h]
    rw [if_neg h1, if_pos h2, if_pos h2, utf8ToUnicodeLoop.eq_def]
    simp only [List.cons_append, List.nil_append, if_neg hfirst, if_pos hsecond, hunit]
  · have hfirst : (0xe0 : UInt8) ≤ UInt8.ofNat (0xE0 + u / 4096) := by
      rw [le_byte (by omega)]
      exact Nat.le_add_right _ _
    have hunit : threeBytes w (UInt8.ofNat (0xE0 + u / 4096)) (UInt8.ofNat (0x80 + u / 64 % 64))
        (UInt8.ofNat (0x80 + u % 64)) = (0xE0000 + u) % 2 ^ w.bits := by
      have hlow : u / 64 % 64 * 2 ^ 6 + u % 64 < 2 ^ 12 := by omega
      rw [threeBytes, toNat_byte (by omega), tail_bits (Nat.mod_lt _ (by decide)), tail_bits (Nat.mod_lt _ (by decide)),
        Nat.or_assoc, Bits.or_of_lt (show u % 64 < 2 ^ 6 by omega), Bits.or_of_lt hlow]
      congr 1
      omega
    rw [if_neg h1, if_neg h2, if_pos h, if_neg h2, utf8ToUnicodeLoop.eq_def]
    simp only [List.cons_append, List.nil_append, if_pos hfirst, hunit]

theorem utf8ToUnicodeLoop_text (w : Wchar) (nDestLen : Int) : ∀ (text strDest : List Nat),
    (∀ u ∈ text, u < 0x10000) → strDest.length + text.length < nDestLen →
    utf8ToUnicodeLoop w nDestLen (text.flatMap encode) strDest = (true, strDest ++ text.map (readBack w))
  | [], strDest, _, _ => by simp [utf8ToUnicodeLoop]
  | u :: us, strDest, hall, hroom => by
    rw [List.length_cons] at hroom
    rw [List.flatMap_cons, utf8ToUnicodeLoop_unit w nDestLen (hall u List.mem_cons_self), if_pos (by omega),
      utf8ToUnicodeLoop_text w nDestLen us _ (fun v hv => hall v (List.mem_cons_of_mem u hv))
        (by rw [List.length_append, List.length_singleton]; omega)]
    simp

/-- **The units of bytes** that are a text's without surrogates. -/
theorem utf8ToUnicode_bytes (w : Wchar) {text : List Nat} (hall : ∀ u ∈ text, u < 0x10000) {nDestLen : Int}
    (hroom : text.length < nDestLen) :
    utf8ToUnicode w (text.flatMap encode) nDestLen = ⟨text.length, some (text.map (readBack w))⟩ := by
  have hloop := utf8ToUnicodeLoop_text w nDestLen text [] hall (by simpa using hroom)
  rw [utf8ToUnicode, if_neg (by omega), hloop]
  simp

/-! ## Both conversions -/

/-- The string comes back, and what is returned is what is written. -/
def RoundTrips (w : Wchar) (s : List Nat) (nDestLen nDestLen' : Int) : Prop :=
  ∃ bytes : List UInt8, unicodeToUtf8 s nDestLen = ⟨bytes.length, some bytes⟩ ∧
    utf8ToUnicode w bytes nDestLen' = ⟨s.length, some s⟩

theorem roundTrips_iff (w : Wchar) {s : List Nat} (hall : ∀ u ∈ s, IsScalar u ∧ u < 0x10000) {nDestLen nDestLen' : Int}
    (hroom : (s.flatMap encode).length < nDestLen) (hroom' : s.length < nDestLen') :
    RoundTrips w s nDestLen nDestLen' ↔ w = .bits16 ∨ ∀ u ∈ s, u < 0x800 := by
  have hback := utf8ToUnicode_bytes w (fun u hu => (hall u hu).2) hroom'
  have hsame : s.map (readBack w) = s ↔ w = .bits16 ∨ ∀ u ∈ s, u < 0x800 := by
    have hmap := List.map_inj_left (f := readBack w) (g := id) (l := s)
    rw [List.map_id] at hmap
    rw [hmap]
    constructor
    · intro h
      refine Or.imp_right (fun hw u hu => ?_) (Classical.em (w = .bits16))
      exact ((readBack_eq_iff w (hall u hu).2).mp (h u hu)).resolve_left hw
    · intro h u hu
      exact (readBack_eq_iff w (hall u hu).2).mpr (h.imp_right fun hsmall => hsmall u hu)
  rw [← hsame]
  constructor
  · rintro ⟨bytes, hbytes, hunits⟩
    rw [unicodeToUtf8_text hall hroom, Output.mk.injEq, Option.some_inj] at hbytes
    rw [← hbytes.2, hback, Output.mk.injEq, Option.some_inj] at hunits
    exact hunits.2
  · intro h
    rw [h] at hback
    exact ⟨_, unicodeToUtf8_text hall hroom, hback⟩

/-- **When the conversions are right**: a string without surrogates comes back exactly if `wchar_t` has 16 bits or no
unit takes three bytes, and a text gets its bytes exactly if no character takes a pair of surrogates. -/
theorem conv_iff (w : Wchar) {s : List Nat} (hs : ∀ u ∈ s, IsScalar u ∧ u < 0x10000) {nDestLen nDestLen' : Int}
    (hroom : (s.flatMap encode).length < nDestLen) (hroom' : s.length < nDestLen') {text : List Nat}
    (htext : ∀ n ∈ text, IsScalar n) {nDestLen'' : Int} (hroom'' : (text.flatMap encode).length < nDestLen'') :
    (RoundTrips w s nDestLen nDestLen' ↔ w = .bits16 ∨ ∀ u ∈ s, u < 0x800) ∧
      (Encodes text nDestLen'' ↔ ∀ n ∈ text, n < 0x10000) :=
  ⟨roundTrips_iff w hs hroom hroom', encodes_iff htext hroom''⟩

theorem conv_iff_euro : (RoundTrips .bits32 [0x20AC] 4 2 ↔ Wchar.bits32 = .bits16 ∨ ∀ u ∈ [0x20AC], u < 0x800) ∧
    (Encodes [0x41] 2 ↔ ∀ n ∈ [0x41], n < 0x10000) := by
  refine conv_iff .bits32 ?_ (by decide) (by decide) ?_ (by decide)
  · intro u hu
    rw [List.mem_singleton.mp hu]
    exact ⟨Or.inl (by decide), by decide⟩
  · intro n hn
    rw [List.mem_singleton.mp hn]
    exact Or.inl (by decide)

/-- **What does not come back**: with a `wchar_t` of 32 bits the euro sign comes back as 0xE20AC, and with either the
pair of U+1F600 gets the bytes F0 8F F2 81 and not F0 9F 98 80. -/
theorem euro_lost : unicodeToUtf8 [0x20AC] 4 = ⟨3, some [0xE2, 0x82, 0xAC]⟩ ∧
    utf8ToUnicode .bits32 [0xE2, 0x82, 0xAC] 2 = ⟨1, some [0xE20AC]⟩ ∧ ¬RoundTrips .bits32 [0x20AC] 4 2 ∧
    unicodeToUtf8 (utf16 0x1F600) 9 = ⟨4, some [0xF0, 0x8F, 0xF2, 0x81]⟩ ∧ ¬Encodes [0x1F600] 9 := by
  have hback : utf8ToUnicode .bits32 [0xE2, 0x82, 0xAC] 2 = ⟨1, some [0xE20AC]⟩ := by decide
  have hbytes : unicodeToUtf8 [0x20AC] 4 = ⟨3, some [0xE2, 0x82, 0xAC]⟩ := by decide
  refine ⟨hbytes, hback, ?_, by decide, by unfold Encodes; decide⟩
  rintro ⟨bytes, hbytes', hunits⟩
  rw [hbytes, Output.mk.injEq, Option.some_inj] at hbytes'
  rw [← hbytes'.2, hback] at hunits
  revert hunits
  decide

end Ftke.Utf8Conv
