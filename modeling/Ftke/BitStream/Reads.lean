import Ftke.BitStream
import Mathlib.Tactic.IntervalCases

/-!
# Ftke.BitStream.Reads

What every read of the parser answers, whatever position it starts from.

The state of the parser over a buffer is a bit position (`cursor`), and a read
moves it.  All reads that go through `ReadBits` rest on one lemma about its loop
(`readLoop_cursor`): the answer is the next field of the buffer, except that a
read of the rest of the last byte leaves, because `NextBits` looks at the
position behind the bits it has just passed.
-/

namespace Ftke.BitStream

open Bits

/-! ## Positions -/

/-- The parser with its position at bit `P`. -/
def BitStreamParser.seek (s : BitStreamParser) (P : Nat) : BitStreamParser :=
  { s with bytepos := P / 8, bitpos := 7 - P % 8 }

/-- A parser over a whole buffer, at bit `P`. -/
def cursor (b : List UInt8) (P : Nat) : BitStreamParser := ⟨b, b.length, P / 8, 7 - P % 8⟩

theorem resetBitStreamParser_eq (b : List UInt8) : resetBitStreamParser b b.length = cursor b 0 := rfl

theorem toNat_ofNat32 {n : Nat} (h : n < 2 ^ 32) : (UInt32.ofNat n).toNat = n :=
  Nat.mod_eq_of_lt h

theorem toNat_nextBits {k P : Nat} (hk : k ≤ 2 ^ 16) :
    (UInt32.ofNat k + (7 - UInt32.ofNat (7 - P % 8))).toNat = k + P % 8 := by
  have hP := Nat.mod_lt P (show 0 < 8 by decide)
  have hle : UInt32.ofNat (7 - P % 8) ≤ 7 := by
    rw [UInt32.le_iff_toNat_le, toNat_ofNat32 (by omega)]
    show 7 - P % 8 ≤ 7
    omega
  have hsub : (7 - UInt32.ofNat (7 - P % 8)).toNat = P % 8 := by
    rw [UInt32.toNat_sub_of_le _ _ hle, toNat_ofNat32 (by omega)]
    show 7 - (7 - P % 8) = P % 8
    omega
  rw [UInt32.toNat_add, hsub, toNat_ofNat32 (by omega)]
  omega

theorem nextBits_seek (s : BitStreamParser) {k P : Nat} (hk : k ≤ 2 ^ 16) :
    nextBits (UInt32.ofNat k) (s.seek P) =
      if 8 * s.size ≤ P + k then .error .errOverflow (s.seek (P + k)) else .ok () (s.seek (P + k)) := by
  have hbit : (k + P % 8) % 8 = (P + k) % 8 := by omega
  have hbyte : P / 8 + (k + P % 8) / 8 = (P + k) / 8 := by omega
  have hend : s.size ≤ (P + k) / 8 ↔ 8 * s.size ≤ P + k := by omega
  simp only [nextBits, BitStreamParser.seek, toNat_nextBits hk, hbit, hbyte, hend]

/-! ## Fields -/

/-- The number in the `n` bits of a buffer from bit `P` on. -/
def field (b : List UInt8) (P n : Nat) : Nat := ofBits (((bitsOf b).drop P).take n)

variable {b : List UInt8} {P n : Nat}

theorem field_zero (b : List UInt8) (P : Nat) : field b P 0 = 0 := by
  rw [field, List.take_zero, ofBits]

theorem field_lt (b : List UInt8) (P n : Nat) : field b P n < 2 ^ n := by
  have hlt := ofBits_lt (((bitsOf b).drop P).take n)
  exact hlt.trans_le (Nat.pow_le_pow_right (by decide) (List.length_take_le _ _))

theorem field_add {m : Nat} (h : P + m + n ≤ 8 * b.length) :
    field b P (m + n) = field b P m * 2 ^ n + field b (P + m) n := by
  have hlen : (((bitsOf b).drop (P + m)).take n).length = n := by
    rw [List.length_take, List.length_drop, length_bitsOf]
    omega
  rw [field, List.take_add, ofBits_append, List.drop_drop, hlen]
  rfl

theorem field_byte {byte : UInt8} (hb : b[P / 8]? = some byte) (hn : P % 8 + n ≤ 8) :
    field b P n = byte.toNat / 2 ^ (8 - P % 8 - n) % 2 ^ n := by
  have hsplit : (bitsOf b).drop P =
      (toBits 8 byte.toNat).drop (P % 8) ++ bitsOf (b.drop (P / 8 + 1)) := by
    rw [← drop_bitsOf_byte hb (by omega), Nat.div_add_mod]
  rw [field, hsplit, List.take_append_of_le_length (by rw [List.length_drop, length_toBits]; omega),
    ofBits_take_drop_byte hn]

/-! ## `ReadBits` -/

theorem toNat_bitmask : ∀ k ≤ 8, (bitmask.getD k 0).toNat = 2 ^ k - 1 := by decide

theorem toNat_masked (byte : UInt8) {d k : Nat} (hk : 0 < k) (h : d + k ≤ 8) :
    ((byte >>> UInt8.ofNat (8 - d - k)) &&& bitmask.getD k 0).toNat =
      byte.toNat / 2 ^ (8 - d - k) % 2 ^ k := by
  rw [UInt8.toNat_and, toNat_bitmask k (by omega), Nat.and_two_pow_sub_one_eq_mod,
    UInt8.toNat_shiftRight, UInt8.toNat_ofNat', Nat.mod_eq_of_lt (show 8 - d - k < 2 ^ 8 by omega),
    Nat.mod_eq_of_lt (show 8 - d - k < 8 by omega), Nat.shiftRight_eq_div_pow]

theorem toNat_shiftIn {output : UInt32} {f : UInt8} {k : Nat} (hk : k ≤ 8)
    (hout : output.toNat * 2 ^ k < 2 ^ 32) (hf : f.toNat < 2 ^ k) :
    ((output <<< UInt32.ofNat k) ||| f.toUInt32).toNat = output.toNat * 2 ^ k + f.toNat := by
  rw [UInt32.toNat_or, UInt32.toNat_shiftLeft, toNat_ofNat32 (by omega),
    Nat.mod_eq_of_lt (show k < 32 by omega), UInt8.toNat_toUInt32, Nat.shiftLeft_eq,
    Nat.mod_eq_of_lt hout, ← Nat.shiftLeft_eq, Nat.shiftLeft_add_eq_or_of_lt hf]

/-- A read of `n` bits from `P` on that takes the rest of the last byte, from
its middle. -/
def Tail (b : List UInt8) (P n : Nat) : Prop := P % 8 ≠ 0 ∧ P + n = 8 * b.length ∧ n < 8

/-- The bits are there and `NextBits` lets them pass. -/
def Readable (b : List UInt8) (P n : Nat) : Prop := P + n ≤ 8 * b.length ∧ ¬ Tail b P n

instance : Decidable (Readable b P n) :=
  inferInstanceAs (Decidable (_ ∧ ¬ (_ ∧ _ ∧ _)))

theorem room_shiftIn {o f k n : Nat} (hk : k ≤ n) (hout : (o + 1) * 2 ^ n ≤ 2 ^ 32)
    (hf : f < 2 ^ k) : (o * 2 ^ k + f + 1) * 2 ^ (n - k) ≤ 2 ^ 32 := by
  have hpow : 2 ^ n = 2 ^ k * 2 ^ (n - k) := by rw [← Nat.pow_add, Nat.add_sub_cancel' hk]
  calc (o * 2 ^ k + f + 1) * 2 ^ (n - k)
      ≤ ((o + 1) * 2 ^ k) * 2 ^ (n - k) := Nat.mul_le_mul_right _ (by rw [Nat.add_mul]; omega)
    _ = (o + 1) * 2 ^ n := by rw [hpow, Nat.mul_assoc]
    _ ≤ 2 ^ 32 := hout

theorem output_add {o k : Nat} (hk : k ≤ n) (h : P + n ≤ 8 * b.length) :
    (o * 2 ^ k + field b P k) * 2 ^ (n - k) + field b (P + k) (n - k) =
      o * 2 ^ n + field b P n := by
  have hadd := field_add (b := b) (P := P) (m := k) (n := n - k) (by omega)
  have hpow : 2 ^ n = 2 ^ k * 2 ^ (n - k) := by rw [← Nat.pow_add, Nat.add_sub_cancel' hk]
  rw [Nat.add_sub_cancel' hk] at hadd
  rw [hadd, hpow, Nat.add_mul, Nat.mul_assoc, Nat.add_assoc]

/-- **The loop of `ReadBits`.** -/
theorem readLoop_cursor : ∀ (fuel : Nat) {n : Nat} {output : UInt32} {P : Nat}, n ≤ fuel →
    (output.toNat + 1) * 2 ^ n ≤ 2 ^ 32 → P ≤ 8 * b.length →
    readLoop fuel n output (cursor b P) =
      if Readable b P n then
        .ok (UInt32.ofNat (output.toNat * 2 ^ n + field b P n)) (cursor b (P + n))
      else .error .errOverflow (cursor b (8 * b.length))
  | 0, n, output, P, hfuel, hout, hP => by
    obtain rfl : n = 0 := by omega
    have hread : Readable b P 0 := ⟨hP, fun h => by have := h.1; have := h.2.1; omega⟩
    rw [readLoop, if_pos hread, field_zero, Nat.pow_zero, Nat.mul_one, Nat.add_zero, Nat.add_zero,
      UInt32.ofNat_toNat]
  | fuel + 1, n, output, P, hfuel, hout, hP => by
    by_cases hn : n = 0
    · subst hn
      have hread : Readable b P 0 := ⟨hP, fun h => by have := h.1; have := h.2.1; omega⟩
      simp only [readLoop, if_true, if_pos hread, field_zero, Nat.pow_zero, Nat.mul_one,
        Nat.add_zero, UInt32.ofNat_toNat]
    by_cases hend : b.length ≤ P / 8
    · -- at the end of the buffer
      obtain rfl : P = 8 * b.length := by omega
      have hread : ¬ Readable b (8 * b.length) n := fun h => by have := h.1; omega
      have hcheck : (cursor b (8 * b.length)).size ≤ (cursor b (8 * b.length)).bytepos := hend
      simp only [readLoop, if_neg hn, if_pos hcheck, if_neg hread]
    obtain ⟨byte, hbyte⟩ : ∃ byte, b[P / 8]? = some byte := ⟨_, List.getElem?_eq_getElem (by omega)⟩
    have hcheck : ¬ (cursor b P).size ≤ (cursor b P).bytepos := hend
    have hload : (cursor b P).start[(cursor b P).bytepos]? = some byte := hbyte
    simp only [readLoop, if_neg hn, if_neg hcheck, hload]
    -- a piece of `k` bits, then the rest of the read
    have hrest : ∀ (k : Nat) (output' : UInt32), 0 < k → k ≤ n → P + k ≤ 8 * b.length →
        output'.toNat = output.toNat * 2 ^ k + field b P k →
        (Readable b (P + k) (n - k) ↔ Readable b P n) →
        readLoop fuel (n - k) output' (cursor b (P + k)) =
          if Readable b P n then
            .ok (UInt32.ofNat (output.toNat * 2 ^ n + field b P n)) (cursor b (P + n))
          else .error .errOverflow (cursor b (8 * b.length)) := by
      intro k output' hk hkn hPk hval hiff
      rw [readLoop_cursor fuel (by omega) (hval ▸ room_shiftIn hkn hout (field_lt b P k)) hPk]
      simp only [hiff, hval]
      split
      · next hr => rw [output_add hkn hr.1, Nat.add_assoc, Nat.add_sub_cancel' hkn]
      · rfl
    have hroom : ∀ k ≤ n, output.toNat * 2 ^ k < 2 ^ 32 := fun k hk => by
      have hle := Nat.mul_le_mul_left output.toNat (Nat.pow_le_pow_right (show 0 < 2 by decide) hk)
      have hpos := Nat.two_pow_pos n
      rw [Nat.add_mul] at hout
      omega
    by_cases hfast : 8 ≤ n ∧ (cursor b P).bitpos = 7
    · -- a whole byte
      rw [if_pos hfast]
      obtain ⟨h8, hbit7⟩ := hfast
      have hal : P % 8 = 0 := by
        have hbit : (cursor b P).bitpos = 7 - P % 8 := rfl
        omega
      have hf : byte.toNat = field b P 8 := by
        have hlt := byte.toNat_lt
        rw [field_byte hbyte (by omega), hal, Nat.sub_zero, Nat.sub_self, Nat.pow_zero, Nat.div_one,
          Nat.mod_eq_of_lt hlt]
      have hmove : ({ cursor b P with bytepos := (cursor b P).bytepos + 1 } : BitStreamParser) =
          cursor b (P + 8) := by
        simp only [cursor, show (P + 8) / 8 = P / 8 + 1 by omega, Nat.add_mod_right]
      rw [hmove]
      refine hrest 8 _ (by decide) h8 (by omega) ?_ (by unfold Readable Tail; omega)
      rw [← hf]
      exact toNat_shiftIn (k := 8) (Nat.le_refl 8) (hroom 8 h8) byte.toNat_lt
    · -- a piece of the byte
      rw [if_neg hfast]
      have hbit : (cursor b P).bitpos + 1 = 8 - P % 8 := by
        show 7 - P % 8 + 1 = _
        omega
      simp only [hbit]
      have hk8 : P % 8 + min (8 - P % 8) n ≤ 8 := by omega
      have hkn : min (8 - P % 8) n ≤ n := Nat.min_le_right _ _
      have hslow : ¬ (8 ≤ n ∧ P % 8 = 0) := fun h => hfast ⟨h.1, by show 7 - P % 8 = 7; omega⟩
      have hpos : 0 < min (8 - P % 8) n := by omega
      have hends : min (8 - P % 8) n = n ∨ min (8 - P % 8) n + P % 8 = 8 := by omega
      generalize min (8 - P % 8) n = k at hk8 hkn hpos hends
      have hseek : cursor b P = (cursor b P).seek P := rfl
      rw [hseek, nextBits_seek _ (by omega)]
      have hmask := toNat_masked byte hpos hk8
      rw [← field_byte hbyte hk8] at hmask
      have hsize : (cursor b P).size = b.length := rfl
      by_cases hleave : 8 * (cursor b P).size ≤ P + k
      · -- `NextBits` leaves at the end of the buffer
        have hnot : ¬ Readable b P n := by
          unfold Readable Tail
          omega
        rw [if_pos hleave, if_neg hnot, show P + k = 8 * b.length by omega]
        rfl
      · rw [if_neg hleave]
        refine hrest k _ hpos hkn (by omega) ?_ (by unfold Readable Tail; omega)
        rw [toNat_shiftIn (by omega) (hroom k hkn) (hmask ▸ field_lt b P k), hmask]

theorem readBits_cursor {numberOfBits : UInt8} (hn : numberOfBits.toNat ≤ 32)
    (hP : P ≤ 8 * b.length) :
    readBits numberOfBits (cursor b P) =
      if Readable b P numberOfBits.toNat then
        .ok (UInt32.ofNat (field b P numberOfBits.toNat)) (cursor b (P + numberOfBits.toNat))
      else .error .errOverflow (cursor b (8 * b.length)) := by
  have hle : ¬ numberOfBits > 32 := by
    rw [gt_iff_lt, UInt8.lt_iff_toNat_lt]
    exact Nat.not_lt.mpr hn
  have hpow := Nat.pow_le_pow_right (show 0 < 2 by decide) hn
  have hloop := readLoop_cursor (b := b) numberOfBits.toNat (Nat.le_refl _)
    (show ((0 : UInt32).toNat + 1) * 2 ^ numberOfBits.toNat ≤ 2 ^ 32 by simpa using hpow) hP
  rw [show (0 : UInt32).toNat = 0 from rfl, Nat.zero_mul, Nat.zero_add] at hloop
  simp only [readBits, if_neg hle, hloop]

/-! ## The other reads -/

/-- `ReadUInt8` answers the next eight bits: inside a byte through `ReadBits`,
which cannot meet its end there, else by itself. -/
theorem readUInt8_cursor (hP : P ≤ 8 * b.length) :
    readUInt8 (cursor b P) =
      if P + 8 ≤ 8 * b.length then .ok (UInt8.ofNat (field b P 8)) (cursor b (P + 8))
      else .error .errOverflow (cursor b (8 * b.length)) := by
  unfold readUInt8
  by_cases hal : P % 8 = 0
  · have hbit : ¬ (cursor b P).bitpos ≠ 7 := not_not.mpr (show 7 - P % 8 = 7 by omega)
    rw [if_neg hbit]
    by_cases hend : P + 8 ≤ 8 * b.length
    · have hcheck : ¬ (cursor b P).size ≤ (cursor b P).bytepos := by
        show ¬ b.length ≤ P / 8
        omega
      obtain ⟨byte, hbyte⟩ : ∃ byte, b[P / 8]? = some byte := ⟨_, List.getElem?_eq_getElem (by omega)⟩
      have hload : (cursor b P).start[(cursor b P).bytepos]? = some byte := hbyte
      have hf : field b P 8 = byte.toNat := by
        rw [field_byte hbyte (by omega), hal, Nat.sub_zero, Nat.sub_self, Nat.pow_zero, Nat.div_one,
          Nat.mod_eq_of_lt byte.toNat_lt]
      rw [if_neg hcheck, hload, if_pos hend, hf, UInt8.ofNat_toNat]
      simp only [cursor, show (P + 8) / 8 = P / 8 + 1 by omega, Nat.add_mod_right]
    · obtain rfl : P = 8 * b.length := by omega
      have hcheck : (cursor b (8 * b.length)).size ≤ (cursor b (8 * b.length)).bytepos := by
        show b.length ≤ 8 * b.length / 8
        omega
      rw [if_pos hcheck, if_neg hend]
  · have hbit : (cursor b P).bitpos ≠ 7 := by
      show 7 - P % 8 ≠ 7
      omega
    have hiff : Readable b P 8 ↔ P + 8 ≤ 8 * b.length := by
      unfold Readable Tail
      omega
    rw [if_pos hbit, readBits_cursor (by decide) hP]
    simp only [show (8 : UInt8).toNat = 8 from rfl, hiff]
    by_cases hend : P + 8 ≤ 8 * b.length
    · have hcast : (UInt32.ofNat (field b P 8)).toUInt8 = UInt8.ofNat (field b P 8) :=
        UInt8.toNat_inj.mp (by simp)
      simp only [if_pos hend, hcast]
    · simp only [if_neg hend]

theorem bind_apply {α β : Type} (x : ParserM α) (f : α → ParserM β) (s : BitStreamParser) :
    (x >>= f) s = match x s with
      | .ok a s => f a s
      | .error e s => .error e s := by
  show EStateM.bind x f s = _
  unfold EStateM.bind
  cases x s <;> rfl

theorem pure_apply {α : Type} (a : α) (s : BitStreamParser) : (pure a : ParserM α) s = .ok a s := rfl

theorem toNat_field8 (b : List UInt8) (P : Nat) : (UInt8.ofNat (field b P 8)).toNat = field b P 8 :=
  Nat.mod_eq_of_lt (field_lt b P 8)

theorem readUInt16_cursor (hP : P ≤ 8 * b.length) :
    readUInt16 (cursor b P) =
      if P + 16 ≤ 8 * b.length then .ok (UInt16.ofNat (field b P 16)) (cursor b (P + 16))
      else .error .errOverflow (cursor b (8 * b.length)) := by
  have h0 := readUInt8_cursor hP
  by_cases hend0 : P + 8 ≤ 8 * b.length
  · have h1 := readUInt8_cursor hend0
    rw [if_pos hend0] at h0
    simp only [readUInt16, bind_apply, pure_apply, h0, h1]
    by_cases hend : P + 16 ≤ 8 * b.length
    · simp only [if_pos hend]
      congr 1
      refine UInt16.toNat_inj.mp ?_
      have hlt0 := field_lt b P 8
      have hlt1 := field_lt b (P + 8) 8
      rw [UInt16.toNat_or, UInt16.toNat_shiftLeft, UInt8.toNat_toUInt16, UInt8.toNat_toUInt16,
        toNat_field8, toNat_field8, show (8 : UInt16).toNat % 16 = 8 from rfl,
        Nat.mod_eq_of_lt (by rw [Nat.shiftLeft_eq]; omega), or_of_lt hlt1,
        ← field_add (by omega : P + 8 + 8 ≤ 8 * b.length)]
      exact (Nat.mod_eq_of_lt (field_lt b P 16)).symm
    · simp only [if_neg hend]
  · rw [if_neg hend0] at h0
    simp only [readUInt16, bind_apply, h0, if_neg (show ¬ P + 16 ≤ 8 * b.length by omega)]

theorem or_four {x y z w : Nat} (hx : x < 2 ^ 8) (hy : y < 2 ^ 8) (hz : z < 2 ^ 8) (hw : w < 2 ^ 8) :
    x <<< 24 % 2 ^ 32 ||| y <<< 16 % 2 ^ 32 ||| z <<< 8 % 2 ^ 32 ||| w =
      ((x * 2 ^ 8 + y) * 2 ^ 8 + z) * 2 ^ 8 + w := by
  have hxs : x <<< 24 % 2 ^ 32 = x <<< 24 := Nat.mod_eq_of_lt (by rw [Nat.shiftLeft_eq]; omega)
  have hys : y <<< 16 % 2 ^ 32 = y <<< 16 := Nat.mod_eq_of_lt (by rw [Nat.shiftLeft_eq]; omega)
  have hzs : z <<< 8 % 2 ^ 32 = z <<< 8 := Nat.mod_eq_of_lt (by rw [Nat.shiftLeft_eq]; omega)
  have hxy : x <<< 24 ||| y <<< 16 = (x * 2 ^ 8 + y) <<< 16 := by
    rw [or_of_lt (by rw [Nat.shiftLeft_eq]; omega), Nat.shiftLeft_eq, Nat.shiftLeft_eq]
    omega
  have hxyz : (x * 2 ^ 8 + y) <<< 16 ||| z <<< 8 = ((x * 2 ^ 8 + y) * 2 ^ 8 + z) <<< 8 := by
    rw [or_of_lt (by rw [Nat.shiftLeft_eq]; omega), Nat.shiftLeft_eq, Nat.shiftLeft_eq]
    omega
  rw [hxs, hys, hzs, hxy, hxyz, or_of_lt hw]

theorem readUInt32_cursor (hP : P ≤ 8 * b.length) :
    readUInt32 (cursor b P) =
      if P + 32 ≤ 8 * b.length then .ok (UInt32.ofNat (field b P 32)) (cursor b (P + 32))
      else .error .errOverflow (cursor b (8 * b.length)) := by
  have h0 := readUInt8_cursor hP
  by_cases hend0 : P + 8 ≤ 8 * b.length
  swap
  · rw [if_neg hend0] at h0
    simp only [readUInt32, bind_apply, h0, if_neg (show ¬ P + 32 ≤ 8 * b.length by omega)]
  have h1 := readUInt8_cursor hend0
  rw [if_pos hend0] at h0
  by_cases hend1 : P + 8 + 8 ≤ 8 * b.length
  swap
  · rw [if_neg hend1] at h1
    simp only [readUInt32, bind_apply, h0, h1, if_neg (show ¬ P + 32 ≤ 8 * b.length by omega)]
  have h2 := readUInt8_cursor hend1
  rw [if_pos hend1] at h1
  by_cases hend2 : P + 8 + 8 + 8 ≤ 8 * b.length
  swap
  · rw [if_neg hend2] at h2
    simp only [readUInt32, bind_apply, h0, h1, h2, if_neg (show ¬ P + 32 ≤ 8 * b.length by omega)]
  have h3 := readUInt8_cursor hend2
  rw [if_pos hend2] at h2
  by_cases hend : P + 32 ≤ 8 * b.length
  swap
  · rw [if_neg hend] at h3
    simp only [readUInt32, bind_apply, h0, h1, h2, h3, if_neg hend]
  rw [if_pos hend] at h3
  simp only [readUInt32, bind_apply, pure_apply, h0, h1, h2, h3, if_pos hend]
  congr 1
  refine UInt32.toNat_inj.mp ?_
  have hadd3 := field_add (b := b) (P := P) (m := 8 + 8 + 8) (n := 8) hend
  have hadd2 := field_add (b := b) (P := P) (m := 8 + 8) (n := 8) (by omega)
  have hadd1 := field_add (b := b) (P := P) (m := 8) (n := 8) (by omega)
  rw [hadd2, hadd1] at hadd3
  have hfour := or_four (field_lt b P 8) (field_lt b (P + 8) 8) (field_lt b (P + 8 + 8) 8)
    (field_lt b (P + 8 + 8 + 8) 8)
  simp only [UInt32.toNat_or, UInt32.toNat_shiftLeft, UInt8.toNat_toUInt32, toNat_field8]
  exact (hfour.trans hadd3.symm).trans (toNat_ofNat32 (field_lt b P 32)).symm

/-! ## All reads -/

/-- A read that the calls allow: `ReadBits` of 32 bits at most. -/
def Read.Valid (r : Read) : Prop := r.width ≤ 32

/-- **What a read does**: it answers the next field, or leaves with everything
behind it. -/
theorem exec_cursor {r : Read} (hr : r.Valid) (hP : P ≤ 8 * b.length) :
    r.exec (cursor b P) =
      if P + r.width ≤ 8 * b.length ∧ ¬ r.TakesTail (8 * b.length) P then
        .ok (field b P r.width) (cursor b (P + r.width))
      else .error .errOverflow (cursor b (8 * b.length)) := by
  by_cases h : P + r.width ≤ 8 * b.length ∧ ¬ r.TakesTail (8 * b.length) P
  · rw [if_pos h]
    cases r with
    | readBits numberOfBits =>
      have hlt := (field_lt b P numberOfBits.toNat).trans_le (Nat.pow_le_pow_right (by decide) hr)
      have hread := readBits_cursor hr hP
      rw [if_pos (show Readable b P numberOfBits.toNat from h)] at hread
      simp only [Read.exec, bind_apply, pure_apply, Read.width, hread, toNat_ofNat32 hlt]
    | readUInt8 =>
      have hread := readUInt8_cursor hP
      rw [if_pos (show P + 8 ≤ 8 * b.length from h.1)] at hread
      simp only [Read.exec, bind_apply, pure_apply, Read.width, hread, toNat_field8]
    | readUInt16 =>
      have hread := readUInt16_cursor hP
      rw [if_pos (show P + 16 ≤ 8 * b.length from h.1)] at hread
      have hval : (UInt16.ofNat (field b P 16)).toNat = field b P 16 :=
        Nat.mod_eq_of_lt (field_lt b P 16)
      simp only [Read.exec, bind_apply, pure_apply, Read.width, hread, hval]
    | readUInt32 =>
      have hread := readUInt32_cursor hP
      rw [if_pos (show P + 32 ≤ 8 * b.length from h.1)] at hread
      simp only [Read.exec, bind_apply, pure_apply, Read.width, hread,
        toNat_ofNat32 (field_lt b P 32)]
  · rw [if_neg h]
    cases r with
    | readBits numberOfBits =>
      have hread := readBits_cursor hr hP
      rw [if_neg (show ¬ Readable b P numberOfBits.toNat from h)] at hread
      simp only [Read.exec, bind_apply, hread]
    | readUInt8 =>
      have hread := readUInt8_cursor hP
      rw [if_neg (show ¬ P + 8 ≤ 8 * b.length from fun hend => h ⟨hend, not_false⟩)] at hread
      simp only [Read.exec, bind_apply, hread]
    | readUInt16 =>
      have hread := readUInt16_cursor hP
      rw [if_neg (show ¬ P + 16 ≤ 8 * b.length from fun hend => h ⟨hend, not_false⟩)] at hread
      simp only [Read.exec, bind_apply, hread]
    | readUInt32 =>
      have hread := readUInt32_cursor hP
      rw [if_neg (show ¬ P + 32 ≤ 8 * b.length from fun hend => h ⟨hend, not_false⟩)] at hread
      simp only [Read.exec, bind_apply, hread]

end Ftke.BitStream
