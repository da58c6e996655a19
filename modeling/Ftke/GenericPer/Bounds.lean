import Ftke.GenericPer.Streams

/-!
# Ftke.GenericPer.Bounds

What the integer routines return on any input.

`GetInteger` and `GetSignedInteger` check that `lower + value` is not above `upper`, in 32
bits.  A value that the stream may carry, but the range does not have, can make the sum
wrap to a number below `lower`, which passes: `maxOffset` is the largest such value, and the
result is always within the bounds where the sum with it does not wrap (`getInteger_within_iff`,
`getSignedInteger_within_iff`).  `GetUnboundedInteger` stores as many octets as the length
determinant says (`getUnboundedInteger_stores_iff`).
-/

namespace Ftke.GenericPer

open Bits BitFields Words

variable {mem : Nat → UInt8}

/-! ## What is read -/

/-- The largest value that `getOffset` may read. -/
def maxOffset (range : Int) : Nat :=
  if range < 256 then 2 ^ fieldWidth range - 1
  else if range = 256 then 2 ^ 8 - 1
  else if range ≤ 65536 then 2 ^ 16 - 1
  else 2 ^ 32 - 1

theorem cursor_eq {s : InStream} (hs : s.bitIndex < 8) : s = cursor (8 * s.data + s.bitIndex) := by
  obtain ⟨d, b⟩ := s
  simp only [cursor, InStream.mk.injEq] at hs ⊢
  omega

theorem readBits_lt (mem : Nat → UInt8) {n : Nat} (hn : n ≤ 8) {s : InStream} (hs : s.bitIndex < 8) :
    ∃ v s', readBits mem n s = .ok (v, s') ∧ v.toNat < 2 ^ n ∧ s'.bitIndex < 8 := by
  rw [cursor_eq hs]
  refine ⟨_, _, readBits_cursor hn _, ?_, Nat.mod_lt _ (by decide)⟩
  have hlt := ofBits_lt (bitsFrom mem (8 * s.data + s.bitIndex) n)
  rw [length_bitsFrom] at hlt
  exact Nat.lt_of_le_of_lt (Nat.mod_le ..) hlt

theorem stored_lt : ∀ octets : List UInt8, octets.length ≤ 4 → (stored octets).toNat < 256 ^ octets.length
  | [], _ => by simp [stored]
  | b :: octets, h => by
    have hrest := stored_lt octets (by simp only [List.length_cons] at h; omega)
    have hb := b.toNat_lt
    rw [toNat_stored_cons, List.length_cons, Nat.pow_succ]
    exact Nat.lt_of_le_of_lt (Nat.mod_le ..) (by omega)

theorem length_ordered (reorder : Bool) (octets : List UInt8) : (ordered reorder octets).length = octets.length := by
  rw [ordered]
  split
  · exact List.length_reverse
  · rfl

theorem readWord_lt {n : Nat} (hn : n ≤ 4) (s : InStream) :
    ∃ v s', readWord mem n s = .ok (v, s') ∧ v.toNat < 256 ^ n := by
  refine ⟨_, _, by rw [readWord, if_neg (by omega)], ?_⟩
  have hlen : (readOctets mem n true s).1.length = n := by
    rw [readOctets, length_ordered, List.length_map, List.length_range]
  have hlt := stored_lt _ (Nat.le_of_eq hlen |>.trans hn)
  rwa [hlen] at hlt

theorem readSized_ok {s : InStream} (hs : s.bitIndex < 8) :
    ∃ v s', (readBits mem 2 s).bind (fun r => readWord mem (r.1.toNat + 1) r.2) = .ok (v, s') := by
  obtain ⟨n, s₁, hbits, hlt, -⟩ := readBits_lt mem (show 2 ≤ 8 by decide) hs
  obtain ⟨v, s₂, hword, -⟩ := @readWord_lt mem (n.toNat + 1) (by omega) s₁
  exact ⟨v, s₂, by rw [hbits, ok_bind, hword]⟩

theorem getOffset_le (mem : Nat → UInt8) (range : Int) {s : InStream} (hs : s.bitIndex < 8) :
    ∃ v s', getOffset mem range s = .ok (v, s') ∧ v.toNat ≤ maxOffset range := by
  rw [getOffset, maxOffset]
  split
  · obtain ⟨v, s', hbits, hlt, -⟩ := readBits_lt mem (fieldWidth_le range) hs
    exact ⟨v.toUInt32, s', by rw [hbits, ok_map], by rw [UInt8.toNat_toUInt32]; omega⟩
  · split
    · obtain ⟨v, s', hword, hlt⟩ := @readWord_lt mem 1 (by decide) s
      exact ⟨v, s', hword, by omega⟩
    · split
      · obtain ⟨v, s', hword, hlt⟩ := @readWord_lt mem 2 (by decide) s
        exact ⟨v, s', hword, by omega⟩
      · obtain ⟨v, s', hsized⟩ := @readSized_ok mem s hs
        exact ⟨v, s', hsized, by have := v.toNat_lt; omega⟩

/-- The stream of ones. -/
def ones : Nat → UInt8 := fun _ => 0xff

theorem bitsFrom_ones (q n : Nat) : bitsFrom ones q n = List.replicate n true := by
  have hbit : ∀ i, bitAt ones i = true := by
    intro i
    have hbits : ∀ k < 8, (255 : Nat).testBit (7 - k) = true := by decide
    exact hbits (i % 8) (Nat.mod_lt _ (by decide))
  simp [bitsFrom, hbit, List.map_const']

theorem ofBits_ones (n : Nat) : ofBits (List.replicate n true) + 1 = 2 ^ n := by
  induction n with
  | zero => rfl
  | succ n ih => simp [List.replicate_succ, ofBits, Nat.pow_succ] at ih ⊢; omega

theorem readBits_ones {n : Nat} (hn : n ≤ 8) :
    readBits ones n (cursor 0) = .ok (UInt8.ofNat (2 ^ n - 1), cursor n) := by
  have hbits := ofBits_ones n
  rw [readBits_cursor hn, bitsFrom_ones, Nat.zero_add, ← hbits, Nat.add_sub_cancel]

theorem getOffset_ones (range : Int) :
    ∃ s, getOffset ones range (cursor 0) = .ok (UInt32.ofNat (maxOffset range), s) := by
  rw [getOffset, maxOffset]
  split
  · have hle : 2 ^ fieldWidth range ≤ 2 ^ 8 := Nat.pow_le_pow_right (by decide) (fieldWidth_le range)
    refine ⟨cursor (fieldWidth range), ?_⟩
    rw [readBits_ones (fieldWidth_le range), ok_map]
    refine congrArg Except.ok (Prod.ext (UInt32.toNat_inj.mp ?_) rfl)
    simp only [UInt8.toNat_toUInt32, UInt8.toNat_ofNat', UInt32.toNat_ofNat']
    omega
  · split
    · exact ⟨_, rfl⟩
    · split
      · exact ⟨_, rfl⟩
      · exact ⟨_, rfl⟩

/-! ## Constrained integers -/

/-- The bounds of `GetInteger` for which the sum with no value wraps. -/
def IntegerSafe (lower upper : UInt32) : Prop :=
  lower = upper ∨ lower.toNat + maxOffset (upper.toNat - lower.toNat + 1 : Nat) < 2 ^ 32

/-- The bounds of `GetSignedInteger` for which no value gives a number below `lower`.  A range
of 2^31 or more is negative as an `int32`, and one bit is read. -/
def SignedSafe (lower upper : Int32) : Prop :=
  let range := upper.toInt - lower.toInt + 1
  range = 1 ∨ 2 ^ 31 ≤ range ∨ (range ≤ 65536 ∧ lower.toInt + maxOffset range < 2 ^ 31) ∨
    (65536 < range ∧ lower.toInt = -2 ^ 31)

theorem maxOffset_lt (range : Int) : maxOffset range < 2 ^ 32 := by
  have hle : 2 ^ fieldWidth range ≤ 2 ^ 8 := Nat.pow_le_pow_right (by decide) (fieldWidth_le range)
  rw [maxOffset]
  split
  · omega
  · split
    · decide
    · split <;> decide

theorem getInteger_eq {lower upper : UInt32} (hle : lower ≤ upper) (hne : lower ≠ upper)
    (hfull : upper.toNat - lower.toNat + 1 ≠ 2 ^ 32) (mem : Nat → UInt8) (s : InStream) :
    ∃ msg, getInteger mem lower upper s =
      (getOffset mem (upper.toNat - lower.toNat + 1 : Nat) s).bind fun r =>
        if lower + r.1 > upper then .error (.leave msg) else .ok (lower + r.1, r.2) := by
  have hle' : lower.toNat ≤ upper.toNat := hle
  have hupper := upper.toNat_lt
  have hne' : lower.toNat ≠ upper.toNat := fun h => hne (UInt32.toNat_inj.mp h)
  have hnot : ¬lower > upper := fun hgt => absurd (show upper.toNat < lower.toNat from hgt) (by omega)
  have hrange := toNat_range lower upper hle'
  rw [Nat.mod_eq_of_lt (by omega)] at hrange
  have hzero : upper - lower + 1 ≠ 0 := fun h => by rw [h] at hrange; simp at hrange
  have hone : upper - lower + 1 ≠ 1 := fun h => by rw [h] at hrange; simp at hrange; omega
  refine ⟨if upper - lower + 1 < 256 then "GetInteger(): Integer exceeds range"
    else "GetInteger(): exceeds range", ?_⟩
  rw [getInteger, if_neg hnot, if_neg hzero, if_neg hone, hrange]

/-- **When GetInteger stays within its bounds**, on every stream. -/
theorem getInteger_within_iff {lower upper : UInt32} (hle : lower ≤ upper) :
    (∀ (mem : Nat → UInt8) (s : InStream) (r : UInt32 × InStream), s.bitIndex < 8 →
        getInteger mem lower upper s = .ok r → lower ≤ r.1 ∧ r.1 ≤ upper) ↔ IntegerSafe lower upper := by
  have hle' : lower.toNat ≤ upper.toNat := hle
  have hlower := lower.toNat_lt
  have hupper := upper.toNat_lt
  have hmax := maxOffset_lt (upper.toNat - lower.toNat + 1 : Nat)
  have hnot : ¬lower > upper := fun hgt => absurd (show upper.toNat < lower.toNat from hgt) (by omega)
  rw [IntegerSafe]
  constructor
  · intro hwithin
    by_contra hunsafe
    obtain ⟨hne, hbig⟩ := not_or.mp hunsafe
    obtain ⟨msg, hget⟩ := getInteger_eq hle hne (by omega) ones (cursor 0)
    obtain ⟨s, hones⟩ := getOffset_ones (upper.toNat - lower.toNat + 1 : Nat)
    have hsum : (lower + UInt32.ofNat (maxOffset (upper.toNat - lower.toNat + 1 : Nat))).toNat =
        lower.toNat + maxOffset (upper.toNat - lower.toNat + 1 : Nat) - 2 ^ 32 := by
      rw [UInt32.toNat_add, UInt32.toNat_ofNat']
      omega
    rw [hones, ok_bind, if_neg (fun hgt => by
      have hgt' : upper.toNat < _ := UInt32.lt_iff_toNat_lt.mp hgt
      rw [hsum] at hgt'
      omega)] at hget
    have hin := UInt32.le_iff_toNat_le.mp (hwithin _ _ _ (by decide) hget).1
    rw [hsum] at hin
    omega
  · rintro hsafe mem s ⟨v, s'⟩ hs hget
    by_cases hone : lower = upper
    · subst hone
      have hrange : lower - lower + 1 = 1 := by simp
      rw [getInteger, if_neg hnot, if_neg (by rw [hrange]; decide), if_pos hrange] at hget
      obtain ⟨rfl, -⟩ := Prod.mk.inj (Except.ok.inj hget)
      exact ⟨UInt32.le_refl _, UInt32.le_refl _⟩
    · by_cases hfull : upper.toNat - lower.toNat + 1 = 2 ^ 32
      · have hv := v.toNat_lt
        exact ⟨UInt32.le_iff_toNat_le.mpr (by omega), UInt32.le_iff_toNat_le.mpr (by dsimp only; omega)⟩
      · obtain ⟨msg, heq⟩ := getInteger_eq hle hone hfull mem s
        obtain ⟨w, s₁, hoffset, hw⟩ := getOffset_le mem (upper.toNat - lower.toNat + 1 : Nat) hs
        rw [heq, hoffset, ok_bind] at hget
        dsimp only at hget
        split at hget
        · cases hget
        · next hcheck =>
          obtain ⟨rfl, -⟩ := Prod.mk.inj (Except.ok.inj hget)
          have hcheck' := UInt32.not_lt.mp hcheck
          have hfit := hsafe.resolve_left hone
          refine ⟨UInt32.le_iff_toNat_le.mpr ?_, hcheck'⟩
          rw [UInt32.toNat_add]
          omega

theorem getSignedInteger_eq {lower upper : Int32} (hle : lower ≤ upper) (hne : lower ≠ upper)
    (hfull : upper.toInt - lower.toInt + 1 ≠ 2 ^ 32) (mem : Nat → UInt8) (s : InStream) :
    ∃ msg, getSignedInteger mem lower upper s =
      (getOffset mem ((upper.toInt - lower.toInt + 1).bmod (2 ^ 32)) s).bind fun r =>
        if lower + r.1.toInt32 > upper then .error (.leave msg) else .ok (lower + r.1.toInt32, r.2) := by
  have hle' := Int32.le_iff_toInt_le.mp hle
  have hne' : lower.toInt ≠ upper.toInt := fun h => hne (Int32.toInt_inj.mp h)
  have hupper := upper.toInt_lt
  have hlower := lower.le_toInt
  have hnot : ¬lower > upper := fun hgt => absurd (Int32.lt_iff_toInt_lt.mp hgt) (by omega)
  have hrange := toInt_range lower upper
  have hzero : upper - lower + 1 ≠ 0 := fun h => by
    rw [h, bmod_word, Int32.toInt_zero] at hrange
    omega
  have hone : upper - lower + 1 ≠ 1 := fun h => by
    rw [h, bmod_word, Int32.toInt_one] at hrange
    omega
  refine ⟨if upper - lower + 1 < 256 then "GetSignedInteger(): Integer exceeds range"
    else "GetSignedInteger(): GetInteger exceeds range", ?_⟩
  rw [getSignedInteger, if_neg hnot, if_neg hzero, if_neg hone, hrange]

theorem toInt_add_toInt32 (lower : Int32) (v : UInt32) :
    (lower + v.toInt32).toInt = (lower.toInt + v.toNat).bmod (2 ^ 32) := by
  have hv : v.toInt32.toInt = (v.toNat : Int).bmod (2 ^ 32) := BitVec.toInt_eq_toNat_bmod v.toBitVec
  rw [Int32.toInt_add, hv, Int.add_bmod_bmod]

theorem maxOffset_small {range : Int} (h : range ≤ 65536) : maxOffset range < 2 ^ 16 := by
  have hle : 2 ^ fieldWidth range ≤ 2 ^ 8 := Nat.pow_le_pow_right (by decide) (fieldWidth_le range)
  rw [maxOffset]
  split
  · omega
  · split <;> decide

theorem maxOffset_large {range : Int} (h : 65536 < range) : maxOffset range = 2 ^ 32 - 1 := by
  rw [maxOffset, if_neg (by omega), if_neg (by omega), if_neg (by omega)]

/-- **When GetSignedInteger stays within its bounds**, on every stream. -/
theorem getSignedInteger_within_iff {lower upper : Int32} (hle : lower ≤ upper) :
    (∀ (mem : Nat → UInt8) (s : InStream) (r : Int32 × InStream), s.bitIndex < 8 →
        getSignedInteger mem lower upper s = .ok r → lower ≤ r.1 ∧ r.1 ≤ upper) ↔ SignedSafe lower upper := by
  have hle' := Int32.le_iff_toInt_le.mp hle
  have hupper := upper.toInt_lt
  have hlower := lower.le_toInt
  have hnot : ¬lower > upper := fun hgt => absurd (Int32.lt_iff_toInt_lt.mp hgt) (by omega)
  rw [SignedSafe]
  constructor
  · intro hwithin
    by_contra hunsafe
    simp only [not_or, not_and] at hunsafe
    obtain ⟨hne, hbig, hsmall, hlarge⟩ := hunsafe
    have hbmod : (upper.toInt - lower.toInt + 1).bmod (2 ^ 32) = upper.toInt - lower.toInt + 1 := by
      rw [bmod_word]
      omega
    obtain ⟨msg, hget⟩ := getSignedInteger_eq hle (by rintro rfl; omega) (by omega) ones (cursor 0)
    rw [hbmod] at hget
    obtain ⟨s, hones⟩ := getOffset_ones (upper.toInt - lower.toInt + 1)
    have hmax := maxOffset_lt (upper.toInt - lower.toInt + 1)
    have hsum : (lower + (UInt32.ofNat (maxOffset (upper.toInt - lower.toInt + 1))).toInt32).toInt <
        lower.toInt := by
      rw [toInt_add_toInt32, UInt32.toNat_ofNat', Nat.mod_eq_of_lt hmax, bmod_word]
      by_cases h16 : upper.toInt - lower.toInt + 1 ≤ 65536
      · have hlow := maxOffset_small h16
        have hwrap := hsmall h16
        omega
      · have hmax' := maxOffset_large (Int.not_le.mp h16)
        have hlow := hlarge (Int.not_le.mp h16)
        omega
    rw [hones, ok_bind, if_neg (fun hgt => by
      have hgt' := Int32.lt_iff_toInt_lt.mp hgt
      dsimp only at hgt'
      omega)] at hget
    have hin := Int32.le_iff_toInt_le.mp (hwithin _ _ _ (by decide) hget).1
    dsimp only at hin
    omega
  · rintro hsafe mem s ⟨v, s'⟩ hs hget
    by_cases hone : lower = upper
    · subst hone
      have hrange : lower - lower + 1 = 1 := by simp
      rw [getSignedInteger, if_neg hnot, if_neg (by rw [hrange]; decide), if_pos hrange] at hget
      obtain ⟨rfl, -⟩ := Prod.mk.inj (Except.ok.inj hget)
      exact ⟨Int32.le_refl _, Int32.le_refl _⟩
    · have hne : lower.toInt ≠ upper.toInt := fun h => hone (Int32.toInt_inj.mp h)
      by_cases hfull : upper.toInt - lower.toInt + 1 = 2 ^ 32
      · exact ⟨Int32.le_iff_toInt_le.mpr (by have := v.le_toInt; dsimp only; omega),
          Int32.le_iff_toInt_le.mpr (by have := v.toInt_lt; dsimp only; omega)⟩
      · obtain ⟨msg, heq⟩ := getSignedInteger_eq hle hone hfull mem s
        obtain ⟨w, s₁, hoffset, hw⟩ :=
          getOffset_le mem ((upper.toInt - lower.toInt + 1).bmod (2 ^ 32)) hs
        rw [heq, hoffset, ok_bind] at hget
        dsimp only at hget
        split at hget
        · cases hget
        · next hcheck =>
          obtain ⟨rfl, -⟩ := Prod.mk.inj (Except.ok.inj hget)
          have hcheck' := Int32.not_lt.mp hcheck
          refine ⟨Int32.le_iff_toInt_le.mpr ?_, hcheck'⟩
          have hupper' := Int32.le_iff_toInt_le.mp hcheck'
          dsimp only at hupper' ⊢
          rw [toInt_add_toInt32, bmod_word] at hupper' ⊢
          rcases hsafe with h1 | hbig | ⟨h16, hfit⟩ | ⟨-, hleast⟩
          · omega
          · -- the range is negative, and one bit is read
            have hneg : (upper.toInt - lower.toInt + 1).bmod (2 ^ 32) ≤ 2 := by rw [bmod_word]; omega
            have hbit : maxOffset ((upper.toInt - lower.toInt + 1).bmod (2 ^ 32)) = 1 := by
              rw [maxOffset, if_pos (by omega), fieldWidth, if_pos hneg]
              rfl
            omega
          · have hbmod : (upper.toInt - lower.toInt + 1).bmod (2 ^ 32) = upper.toInt - lower.toInt + 1 := by
              rw [bmod_word]
              omega
            rw [hbmod] at hw
            omega
          · omega

/-! ## Unbounded integers -/

/-- An octet of the stream, from the next octet boundary on. -/
def alignedOctet (mem : Nat → UInt8) (s : InStream) (i : Nat) : UInt8 := mem ((readRemainingBits s).data + i)

/-- The length determinant says four octets or less, or is one that is not supported. -/
def LengthFits (mem : Nat → UInt8) (s : InStream) : Prop :=
  let octet := fun i => (alignedOctet mem s i).toNat
  octet 0 ≤ 4 ∨ (octet 0 = 128 ∧ octet 1 ≤ 4) ∨ 192 ≤ octet 0

theorem getLengthDet_eq (mem : Nat → UInt8) (s : InStream) :
    ∃ s', getLengthDet mem s =
      if (alignedOctet mem s 0).toNat < 128 then .ok (UInt32.ofNat (alignedOctet mem s 0).toNat, s')
      else if (alignedOctet mem s 0).toNat < 192 then
        .ok (UInt32.ofNat ((alignedOctet mem s 0).toNat % 64 * 256 + (alignedOctet mem s 1).toNat), s')
      else .error (.leave "GetLengthDet(): Fragmented Length Dets Not Supported.") := by
  have hbit : (readRemainingBits s).bitIndex = 0 := by
    rw [readRemainingBits]
    split
    · rfl
    · next h => exact not_not.mp h
  have hone : ∀ t : InStream, readOctets mem 1 false t =
      ([mem (readRemainingBits t).data], ⟨(readRemainingBits t).data + 1, (readRemainingBits t).bitIndex⟩) := by
    intro t
    simp [readOctets, ordered, List.range_succ]
  have haligned : readRemainingBits ⟨(readRemainingBits s).data + 1, 0⟩ = ⟨(readRemainingBits s).data + 1, 0⟩ := rfl
  have hfirst : mem (readRemainingBits s).data = alignedOctet mem s 0 := rfl
  have hsecond : mem ((readRemainingBits s).data + 1) = alignedOctet mem s 1 := rfl
  rw [getLengthDet, hone, hbit]
  simp only [List.getD_cons_zero, hone, haligned, and_80_iff, and_40_iff, hfirst, hsecond]
  generalize alignedOctet mem s 0 = b
  generalize alignedOctet mem s 1 = b'
  have hb := b.toNat_lt
  have hb' := b'.toNat_lt
  by_cases hshort : b.toNat < 128
  · refine ⟨⟨(readRemainingBits s).data + 1, 0⟩, ?_⟩
    rw [if_pos hshort, if_pos hshort]
    refine congrArg Except.ok (Prod.ext (UInt32.toNat_inj.mp ?_) rfl)
    simp only [UInt8.toNat_toUInt32, UInt32.toNat_ofNat']
    omega
  · refine ⟨⟨(readRemainingBits s).data + 1 + 1, 0⟩, ?_⟩
    rw [if_neg hshort, if_neg hshort]
    by_cases hlong : b.toNat < 192
    · rw [if_pos (by omega), if_pos hlong]
      have hmask : (b &&& 0x3f).toNat = b.toNat % 64 := by
        rw [UInt8.toNat_and]
        exact Nat.and_two_pow_sub_one_eq_mod _ 6
      refine congrArg Except.ok (Prod.ext (UInt32.toNat_inj.mp ?_) rfl)
      rw [UInt32.toNat_add, UInt32.toNat_shiftLeft, UInt8.toNat_toUInt32, UInt8.toNat_toUInt32, hmask,
        UInt32.toNat_ofNat', Nat.shiftLeft_eq]
      simp
    · rw [if_neg (by omega), if_neg hlong]

/-- **When GetUnboundedInteger keeps to the four octets of its result.** -/
theorem getUnboundedInteger_stores_iff (mem : Nat → UInt8) (s : InStream) :
    getUnboundedInteger mem s ≠ .error .overrun ↔ LengthFits mem s := by
  obtain ⟨s', hlength⟩ := getLengthDet_eq mem s
  have h0 := (alignedOctet mem s 0).toNat_lt
  have h1 := (alignedOctet mem s 1).toNat_lt
  have hstores : ∀ n, n < 2 ^ 32 → getLengthDet mem s = .ok (UInt32.ofNat n, s') →
      (getUnboundedInteger mem s ≠ .error .overrun ↔ n ≤ 4) := by
    intro n hn heq
    rw [getUnboundedInteger, heq, ok_bind]
    simp only [readWord, UInt32.toNat_ofNat', Nat.mod_eq_of_lt hn]
    by_cases hfit : n > 4
    · rw [if_pos hfit]
      simp [Except.bind]
      omega
    · rw [if_neg hfit, ok_bind]
      refine iff_of_true ?_ (by omega)
      dsimp only
      split <;> simp
  simp only [LengthFits]
  split at hlength
  · rw [hstores _ (by omega) hlength]
    omega
  · split at hlength
    · rw [hstores _ (by omega) hlength]
      omega
    · rw [getUnboundedInteger, hlength]
      simp [Except.bind]
      omega

/-! ## All three -/

/-- **What the integer routines keep to**: their bounds on every stream, exactly for the bounds
that are safe; and the octets of the result, exactly for the lengths that fit. -/
theorem integers_within_iff {lower upper : UInt32} {lower' upper' : Int32} (hle : lower ≤ upper)
    (hle' : lower' ≤ upper') (mem : Nat → UInt8) (s : InStream) :
    ((∀ (mem : Nat → UInt8) (s : InStream) (r : UInt32 × InStream), s.bitIndex < 8 →
        getInteger mem lower upper s = .ok r → lower ≤ r.1 ∧ r.1 ≤ upper) ↔ IntegerSafe lower upper) ∧
      ((∀ (mem : Nat → UInt8) (s : InStream) (r : Int32 × InStream), s.bitIndex < 8 →
        getSignedInteger mem lower' upper' s = .ok r → lower' ≤ r.1 ∧ r.1 ≤ upper') ↔ SignedSafe lower' upper') ∧
      (getUnboundedInteger mem s ≠ .error .overrun ↔ LengthFits mem s) :=
  ⟨getInteger_within_iff hle, getSignedInteger_within_iff hle', getUnboundedInteger_stores_iff mem s⟩

/-- The bounds 1 to 100 and -3 to 3, and a length determinant of two. -/
theorem integers_within_small :
    ((∀ (mem : Nat → UInt8) (s : InStream) (r : UInt32 × InStream), s.bitIndex < 8 →
        getInteger mem 1 100 s = .ok r → 1 ≤ r.1 ∧ r.1 ≤ 100) ↔ IntegerSafe 1 100) ∧
      ((∀ (mem : Nat → UInt8) (s : InStream) (r : Int32 × InStream), s.bitIndex < 8 →
        getSignedInteger mem (-3) 3 s = .ok r → -3 ≤ r.1 ∧ r.1 ≤ 3) ↔ SignedSafe (-3) 3) ∧
      (getUnboundedInteger (fun _ => 2) ⟨0, 0⟩ ≠ .error .overrun ↔ LengthFits (fun _ => 2) ⟨0, 0⟩) :=
  integers_within_iff (by decide) (by decide) (fun _ => 2) ⟨0, 0⟩

/-- **Below the lower bound**: from ones, `GetInteger` with the bounds 1 to 100000 returns 0,
and so does `GetSignedInteger`; and a length determinant of five stores five octets. -/
theorem integer_below :
    (getInteger ones 1 100000 ⟨0, 0⟩ = .ok (0, ⟨5, 0⟩) ∧ getSignedInteger ones 1 100000 ⟨0, 0⟩ = .ok (0, ⟨5, 0⟩) ∧
      getUnboundedInteger (fun _ => 5) ⟨0, 0⟩ = .error .overrun) ∧
      ¬((1 : UInt32) ≤ 0 ∧ (0 : UInt32) ≤ 100000) ∧ ¬((1 : Int32) ≤ 0 ∧ (0 : Int32) ≤ 100000) := by
  decide

end Ftke.GenericPer
