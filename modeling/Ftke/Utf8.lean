import Ftke.PrefixCode

/-!
# Ftke.Utf8

Well-formed UTF-8, and what a lenient reader takes for it.

* `IsChar` — the byte sequences that are a character;
* `WellFormed` — a sequence of characters;
* `encode`, `utf16` — the bytes and the 16-bit units of a code point, `encode_isChar`;
* `IsSurrogate`, `IsOverlong` — what has the form of a character but is none.
-/

namespace Ftke.Utf8

/-! ## Bytes -/

theorem forall_byte {p : UInt8 → Prop} (h : ∀ n : Fin 256, p (UInt8.ofFin n)) (b : UInt8) : p b := h b.toFin

/-- A byte after the first of a character. -/
def IsTail (b : UInt8) : Prop := 0x80 ≤ b ∧ b ≤ 0xBF

instance (b : UInt8) : Decidable (IsTail b) := inferInstanceAs (Decidable (_ ∧ _))

/-- The length of a character that starts with the byte. -/
def leadLength (a : UInt8) : Nat := if a ≤ 0x7F then 1 else if a ≤ 0xDF then 2 else if a ≤ 0xEF then 3 else 4

theorem leadLength_of : ∀ a : UInt8, (0xC2 ≤ a → a ≤ 0xDF → leadLength a = 2) ∧
    (0xE0 ≤ a → a ≤ 0xEF → leadLength a = 3) ∧ (0xF0 ≤ a → leadLength a = 4) :=
  forall_byte (by decide +kernel)

/-! ## Characters -/

/-- The second byte makes the character long enough, and no surrogate, and not too large. -/
structure SecondOk (a b : UInt8) : Prop where
  notOverlong3 : a = 0xE0 → 0xA0 ≤ b
  notSurrogate : a = 0xED → b ≤ 0x9F
  notOverlong4 : a = 0xF0 → 0x90 ≤ b
  notTooLarge : a = 0xF4 → b ≤ 0x8F

/-- The byte sequences that are a character. -/
inductive IsChar : List UInt8 → Prop
  | one {a : UInt8} : a ≤ 0x7F → IsChar [a]
  | two {a b : UInt8} : 0xC2 ≤ a → a ≤ 0xDF → IsTail b → IsChar [a, b]
  | three {a b c : UInt8} : 0xE0 ≤ a → a ≤ 0xEF → IsTail b → IsTail c → SecondOk a b → IsChar [a, b, c]
  | four {a b c d : UInt8} : 0xF0 ≤ a → a ≤ 0xF4 → IsTail b → IsTail c → IsTail d → SecondOk a b →
      IsChar [a, b, c, d]

/-- A surrogate: a code point that is no character, in three bytes. -/
inductive IsSurrogate : List UInt8 → Prop
  | mk {b c : UInt8} : 0xA0 ≤ b → IsTail b → IsTail c → IsSurrogate [0xED, b, c]

/-- Four bytes for a code point that three are enough for. -/
inductive IsOverlong : List UInt8 → Prop
  | mk {b c d : UInt8} : b ≤ 0x8F → IsTail b → IsTail c → IsTail d → IsOverlong [0xF0, b, c, d]

/-- What a lenient reader takes for a character. -/
def IsLenient (c : List UInt8) : Prop := IsChar c ∨ IsSurrogate c ∨ IsOverlong c

theorem IsLenient.lead {c : List UInt8} (h : IsLenient c) : ∃ a t, c = a :: t ∧ c.length = leadLength a := by
  obtain h | h | h := h
  · cases h with
    | one ha => exact ⟨_, _, rfl, by simp [leadLength, ha]⟩
    | two hlow hhigh _ => exact ⟨_, _, rfl, ((leadLength_of _).1 hlow hhigh).symm⟩
    | three hlow hhigh _ _ _ => exact ⟨_, _, rfl, ((leadLength_of _).2.1 hlow hhigh).symm⟩
    | four hlow _ _ _ _ _ => exact ⟨_, _, rfl, ((leadLength_of _).2.2 hlow).symm⟩
  · cases h with
    | mk _ _ _ => exact ⟨_, _, rfl, rfl⟩
  · cases h with
    | mk _ _ _ _ => exact ⟨_, _, rfl, rfl⟩

theorem lenient_prefixCode : PrefixCode IsLenient := PrefixCode.of_length fun _ h => h.lead

theorem char_prefixCode : PrefixCode IsChar := PrefixCode.of_length fun _ h => IsLenient.lead (Or.inl h)

/-- A sequence of characters. -/
def WellFormed : List UInt8 → Prop := Made IsChar

/-! ## Code points -/

/-- The code points that are characters. -/
def IsScalar (n : Nat) : Prop := n < 0xD800 ∨ (0xE000 ≤ n ∧ n < 0x110000)

/-- The bytes of a code point. -/
def encode (n : Nat) : List UInt8 :=
  if n < 0x80 then [UInt8.ofNat n]
  else if n < 0x800 then [UInt8.ofNat (0xC0 + n / 64), UInt8.ofNat (0x80 + n % 64)]
  else if n < 0x10000 then
    [UInt8.ofNat (0xE0 + n / 4096), UInt8.ofNat (0x80 + n / 64 % 64), UInt8.ofNat (0x80 + n % 64)]
  else
    [UInt8.ofNat (0xF0 + n / 262144), UInt8.ofNat (0x80 + n / 4096 % 64), UInt8.ofNat (0x80 + n / 64 % 64),
      UInt8.ofNat (0x80 + n % 64)]

/-- The 16-bit units of a code point: from 0x10000 on, a pair of surrogates. -/
def utf16 (n : Nat) : List Nat :=
  if n < 0x10000 then [n] else [0xD800 + (n - 0x10000) / 1024, 0xDC00 + n % 1024]

variable {n : Nat}

theorem toNat_byte (h : n < 256) : (UInt8.ofNat n).toNat = n := UInt8.toNat_ofNat_of_lt' h

theorem byte_le (h : n < 256) (b : UInt8) : UInt8.ofNat n ≤ b ↔ n ≤ b.toNat := by
  rw [UInt8.le_iff_toNat_le, toNat_byte h]

theorem le_byte (h : n < 256) (b : UInt8) : b ≤ UInt8.ofNat n ↔ b.toNat ≤ n := by
  rw [UInt8.le_iff_toNat_le, toNat_byte h]

theorem byte_eq (h : n < 256) (b : UInt8) : UInt8.ofNat n = b ↔ n = b.toNat := by
  rw [← UInt8.toNat_inj, toNat_byte h]

theorem isTail_byte {x : Nat} (h : x < 64) : IsTail (UInt8.ofNat (0x80 + x)) := by
  constructor
  · rw [le_byte (by omega)]
    exact Nat.le_add_right _ _
  · rw [byte_le (by omega)]
    exact Nat.add_le_add_left (by omega : x ≤ 63) _

/-- **The bytes of a code point** are a character. -/
theorem encode_isChar (h : IsScalar n) : IsChar (encode n) := by
  have hn : n < 0x110000 := by
    unfold IsScalar at h
    omega
  rw [encode]
  split
  · refine IsChar.one ?_
    rw [byte_le (by omega)]
    show n ≤ 127
    omega
  split
  · refine IsChar.two ?_ ?_ (isTail_byte (Nat.mod_lt _ (by decide)))
    · rw [le_byte (by omega)]
      show 194 ≤ _
      omega
    · rw [byte_le (by omega)]
      show _ ≤ 223
      omega
  split
  · refine IsChar.three ?_ ?_ (isTail_byte (Nat.mod_lt _ (by decide))) (isTail_byte (Nat.mod_lt _ (by decide)))
      ⟨fun heq => ?_, fun heq => ?_, fun heq => ?_, fun heq => ?_⟩
    · rw [le_byte (by omega)]
      exact Nat.le_add_right _ _
    · rw [byte_le (by omega)]
      show _ ≤ 239
      omega
    all_goals
      rw [byte_eq (by omega)] at heq
      simp only [UInt8.reduceToNat] at heq
    · rw [le_byte (by omega)]
      show 160 ≤ _
      omega
    · rw [byte_le (by omega)]
      show _ ≤ 159
      unfold IsScalar at h
      omega
    · omega
    · omega
  · refine IsChar.four ?_ ?_ (isTail_byte (Nat.mod_lt _ (by decide))) (isTail_byte (Nat.mod_lt _ (by decide)))
      (isTail_byte (Nat.mod_lt _ (by decide))) ⟨fun heq => ?_, fun heq => ?_, fun heq => ?_, fun heq => ?_⟩
    · rw [le_byte (by omega)]
      exact Nat.le_add_right _ _
    · rw [byte_le (by omega)]
      show _ ≤ 244
      omega
    all_goals
      rw [byte_eq (by omega)] at heq
      simp only [UInt8.reduceToNat] at heq
    · omega
    · omega
    · rw [le_byte (by omega)]
      show 144 ≤ _
      omega
    · rw [byte_le (by omega)]
      show _ ≤ 143
      omega

end Ftke.Utf8
