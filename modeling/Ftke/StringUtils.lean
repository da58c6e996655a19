import Mathlib.Data.Nat.Digits.Defs

/-!
# Ftke.StringUtils

`PV_atoi` (`oscl/osclbase/src/oscl_string_utils.cpp`): the number that a string of digits denotes, in 32 or 64 bits.

An overflow is taken to be seen in that the value gets smaller.

* `pvAtoi32`, `pvAtoi64` — the two overloads, `pvAtoi` for a number of bits;
* `number` — the number that digits denote;
* `readDigits_eq` — what the loop returns: it goes on while the number does not get smaller modulo a power of 2;
* `pvAtoi_right_iff` — when an overflow is seen.
-/

namespace Ftke.StringUtils

/-! ## The conversion -/

def decimalDigit (c : UInt8) : Option Nat :=
  if c ≥ 48 ∧ c ≤ 57 then some (c.toNat - 48) else none

def hexDigit (c : UInt8) : Option Nat :=
  if c = 97 ∨ c = 65 then some 10
  else if c = 98 ∨ c = 66 then some 11
  else if c = 99 ∨ c = 67 then some 12
  else if c = 100 ∨ c = 68 then some 13
  else if c = 101 ∨ c = 69 then some 14
  else if c = 102 ∨ c = 70 then some 15
  else decimalDigit c

/-- The digits of a format: hexadecimal for x, otherwise decimal. -/
def digit (new_format : Char) : UInt8 → Option Nat :=
  if new_format = 'x' then hexDigit else decimalDigit

def base (new_format : Char) : Nat := if new_format = 'x' then 16 else 10

/-- The loop over the characters, from a value of `bits` bits. -/
def readDigits (bits : Nat) (new_format : Char) : List UInt8 → Nat → Bool × Nat
  | [], value => (true, value)
  | c :: cs, value =>
    match digit new_format c with
    | none => (false, value)
    | some temp =>
      let old := value
      let value := (value * base new_format + temp) % 2 ^ bits
      if old > value then (false, value) else readDigits bits new_format cs value

/-- `PV_atoi` with a length; the buffer, unless it is a null pointer, has so many characters or more. -/
def pvAtoi (bits : Nat) (buf : Option (List UInt8)) (new_format : Char) (length : Nat) : Bool × Nat :=
  match buf with
  | none => (false, 0)
  | some buf => readDigits bits new_format (buf.take length) 0

/-- The overload for `uint32`. -/
def pvAtoi32 : Option (List UInt8) → Char → Nat → Bool × Nat := pvAtoi 32

/-- The overload for `uint64`. -/
def pvAtoi64 : Option (List UInt8) → Char → Nat → Bool × Nat := pvAtoi 64

/-! ## Numbers -/

/-- The number that digits denote, the most significant first. -/
def number (b : Nat) (ds : List Nat) : Nat := Nat.ofDigits b ds.reverse

theorem number_nil (b : Nat) : number b [] = 0 := rfl

theorem number_concat (b : Nat) (ds : List Nat) (d : Nat) : number b (ds ++ [d]) = number b ds * b + d := by
  simp only [number, List.reverse_append, List.reverse_singleton, List.singleton_append, Nat.ofDigits_cons]
  rw [Nat.mul_comm, Nat.add_comm]

theorem number_take_le {b : Nat} (hb : 0 < b) (ds : List Nat) (k : Nat) :
    number b (ds.take k) ≤ number b (ds.take (k + 1)) := by
  rw [List.take_add_one]
  cases ds[k]? with
  | none => simp
  | some d =>
    have hmul := Nat.le_mul_of_pos_right (number b (ds.take k)) hb
    rw [Option.toList_some, number_concat]
    omega

theorem number_take_le_all {b : Nat} (hb : 0 < b) (ds : List Nat) : ∀ n k, k + n = ds.length →
    number b (ds.take k) ≤ number b ds
  | 0, k, h => by rw [List.take_of_length_le (by omega)]
  | n + 1, k, h => Nat.le_trans (number_take_le hb ds k) (number_take_le_all hb ds n (k + 1) (by omega))

theorem base_pos (new_format : Char) : 0 < base new_format := by
  rw [base]
  split <;> decide

/-- The digits of a string, if all characters are digits. -/
def digits (new_format : Char) : List UInt8 → Option (List Nat)
  | [] => some []
  | c :: cs =>
    match digit new_format c, digits new_format cs with
    | some d, some ds => some (d :: ds)
    | _, _ => none

/-! ## The loop -/

/-- Modulo a power of 2 the number does not get smaller from the first `k` digits on. -/
def Ascending (bits b : Nat) (ds : List Nat) (k : Nat) : Prop :=
  ∀ i, k ≤ i → i < ds.length → number b (ds.take i) % 2 ^ bits ≤ number b (ds.take (i + 1)) % 2 ^ bits

/-- **The loop**: where all characters are digits, it comes to the end exactly if the number never gets smaller modulo
the power of 2, and then has the number modulo it. -/
theorem readDigits_eq (bits : Nat) (new_format : Char) : ∀ (cs : List UInt8) (ds rest : List Nat),
    digits new_format cs = some rest →
    ((readDigits bits new_format cs (number (base new_format) ds % 2 ^ bits)).1 = true ↔
        Ascending bits (base new_format) (ds ++ rest) ds.length) ∧
      ((readDigits bits new_format cs (number (base new_format) ds % 2 ^ bits)).1 = true →
        (readDigits bits new_format cs (number (base new_format) ds % 2 ^ bits)).2 =
          number (base new_format) (ds ++ rest) % 2 ^ bits)
  | [], ds, rest, h => by
    obtain rfl : rest = [] := by simpa [digits] using h.symm
    rw [List.append_nil]
    exact ⟨iff_of_true rfl fun i hi hlt => by omega, fun _ => rfl⟩
  | c :: cs, ds, rest, h => by
    rw [digits] at h
    split at h
    · next d rest' hd hrest =>
      obtain rfl : rest = d :: rest' := by simpa using h.symm
      have hnext : (number (base new_format) ds % 2 ^ bits * base new_format + d) % 2 ^ bits =
          number (base new_format) (ds ++ [d]) % 2 ^ bits := by
        rw [number_concat, Nat.add_mod, Nat.mod_mul_mod, ← Nat.add_mod]
      have hlist : ds ++ d :: rest' = ds ++ [d] ++ rest' := by simp
      have hlast : (ds ++ [d] ++ rest').take ds.length = ds := by simp
      have hlast' : (ds ++ [d] ++ rest').take (ds.length + 1) = ds ++ [d] := List.take_left' (by simp)
      obtain ⟨hiff, hval⟩ := readDigits_eq bits new_format cs (ds ++ [d]) rest' hrest
      simp only [readDigits, hd, hnext]
      rw [hlist]
      by_cases hless : number (base new_format) ds % 2 ^ bits > number (base new_format) (ds ++ [d]) % 2 ^ bits
      · rw [if_pos hless]
        refine ⟨iff_of_false (by simp) fun hasc => ?_, fun hfalse => by simp at hfalse⟩
        have hstep := hasc ds.length (Nat.le_refl _) (by simp)
        rw [hlast, hlast'] at hstep
        omega
      · rw [if_neg hless, hiff]
        refine ⟨⟨fun hasc i hi hlt => ?_, fun hasc i hi hlt => hasc i ?_ hlt⟩,
          fun hasc => hval (hiff.mpr hasc)⟩
        · obtain rfl | hlater := Nat.eq_or_lt_of_le hi
          · rw [hlast, hlast']
            omega
          · refine hasc i ?_ hlt
            rw [List.length_append, List.length_singleton]
            exact hlater
        · rw [List.length_append, List.length_singleton] at hi
          omega
    · simp at h

theorem readDigits_not_digits (bits : Nat) (new_format : Char) : ∀ (cs : List UInt8) (value : Nat),
    digits new_format cs = none → (readDigits bits new_format cs value).1 = false
  | [], _, h => by simp [digits] at h
  | c :: cs, value, h => by
    rw [readDigits]
    cases hd : digit new_format c with
    | none => rfl
    | some d =>
      cases hrest : digits new_format cs with
      | none =>
        simp only
        split
        · rfl
        · exact readDigits_not_digits bits new_format cs _ hrest
      | some ds => simp [digits, hd, hrest] at h

/-! ## What the conversion says -/

/-- The conversion says whether all characters are digits and denote a number of so many bits, and then gives it. -/
def Right (bits : Nat) (new_format : Char) (cs : List UInt8) (r : Bool × Nat) : Prop :=
  (r.1 = true ↔ ∃ ds, digits new_format cs = some ds ∧ number (base new_format) ds < 2 ^ bits) ∧
    ∀ ds, digits new_format cs = some ds → r.1 = true → r.2 = number (base new_format) ds

/-- An overflow is seen: a number that has too many bits gets smaller, modulo the power of 2, by one of its digits. -/
def OverflowSeen (bits : Nat) (new_format : Char) (cs : List UInt8) : Prop :=
  ∀ ds, digits new_format cs = some ds → 2 ^ bits ≤ number (base new_format) ds →
    ∃ i, i < ds.length ∧
      number (base new_format) (ds.take (i + 1)) % 2 ^ bits < number (base new_format) (ds.take i) % 2 ^ bits

theorem ascending_of_lt {bits b : Nat} (hb : 0 < b) {ds : List Nat} (h : number b ds < 2 ^ bits) (k : Nat) :
    Ascending bits b ds k := by
  intro i _ hlt
  have hle := number_take_le_all hb ds (ds.length - i) i (by omega)
  have hle' := number_take_le_all hb ds (ds.length - (i + 1)) (i + 1) (by omega)
  rw [Nat.mod_eq_of_lt (Nat.lt_of_le_of_lt hle h), Nat.mod_eq_of_lt (Nat.lt_of_le_of_lt hle' h)]
  exact number_take_le hb ds i

theorem pvAtoi_right (bits : Nat) (new_format : Char) (buf : List UInt8) (length : Nat) :
    Right bits new_format (buf.take length) (pvAtoi bits (some buf) new_format length) ↔
      OverflowSeen bits new_format (buf.take length) := by
  have hb := base_pos new_format
  simp only [pvAtoi, Right, OverflowSeen]
  cases hds : digits new_format (buf.take length) with
  | none =>
    have hfalse := readDigits_not_digits bits new_format _ 0 hds
    simp [hfalse]
  | some ds =>
    have hzero : number (base new_format) [] % 2 ^ bits = 0 := by rw [number_nil, Nat.zero_mod]
    have hloop := readDigits_eq bits new_format (buf.take length) [] ds hds
    rw [hzero, List.nil_append] at hloop
    obtain ⟨hiff, hval⟩ := hloop
    rw [hiff]
    by_cases hlt : number (base new_format) ds < 2 ^ bits
    · have hasc := ascending_of_lt hb hlt 0
      have hvalue := hval (hiff.mpr hasc)
      rw [Nat.mod_eq_of_lt hlt] at hvalue
      refine iff_of_true ⟨iff_of_true hasc ⟨ds, rfl, hlt⟩, ?_⟩ ?_
      · rintro _ ⟨rfl⟩ -
        exact hvalue
      · rintro _ ⟨rfl⟩ hle
        omega
    · constructor
      · rintro ⟨hright, -⟩ _ ⟨rfl⟩ _
        by_contra hnone
        have hasc : Ascending bits (base new_format) ds 0 := by
          intro i _ hi
          by_contra hless
          exact hnone ⟨i, hi, by omega⟩
        obtain ⟨_, ⟨rfl⟩, hlt'⟩ := hright.mp hasc
        exact hlt hlt'
      · intro hseen
        obtain ⟨i, hi, hless⟩ := hseen ds rfl (by omega)
        have hnot : ¬Ascending bits (base new_format) ds 0 := by
          intro hasc
          have hstep := hasc i (Nat.zero_le i) hi
          omega
        refine ⟨iff_of_false hnot ?_, fun _ _ htrue => absurd htrue hnot⟩
        rintro ⟨_, ⟨rfl⟩, hlt'⟩
        exact hlt hlt'

/-- **When the conversion is right**: for both overloads, exactly if an overflow is seen. -/
theorem pvAtoi_right_iff (new_format : Char) (buf : List UInt8) (length : Nat) :
    (Right 32 new_format (buf.take length) (pvAtoi32 (some buf) new_format length) ↔
        OverflowSeen 32 new_format (buf.take length)) ∧
      (Right 64 new_format (buf.take length) (pvAtoi64 (some buf) new_format length) ↔
        OverflowSeen 64 new_format (buf.take length)) :=
  ⟨pvAtoi_right 32 new_format buf length, pvAtoi_right 64 new_format buf length⟩

/-- **An overflow that is not seen**: of 4999999999 the loop makes 705032703, which is more than the 499999999 before
the last digit. -/
theorem overflow_not_seen :
    let buf : List UInt8 := [52, 57, 57, 57, 57, 57, 57, 57, 57, 57]
    pvAtoi32 (some buf) 'd' 10 = (true, 705032703) ∧
      (digits 'd' buf).map (number (base 'd')) = some 4999999999 ∧
      ¬Right 32 'd' (buf.take 10) (pvAtoi32 (some buf) 'd' 10) := by
  refine ⟨by decide, by decide, fun hright => ?_⟩
  have hvalue := hright.2 [4, 9, 9, 9, 9, 9, 9, 9, 9, 9] (by decide) (by decide)
  revert hvalue
  decide

end Ftke.StringUtils
