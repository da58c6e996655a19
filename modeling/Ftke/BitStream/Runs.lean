import Ftke.BitStream.Reads

/-!
# Ftke.BitStream.Runs

Sequences of reads, and sequences of writes read back.

A sequence of reads gives the bits of the buffer exactly when no read takes the
tail of the last byte.  `WriteBits` reads its data with a parser of its own, and
the last bit of the data always is such a tail: it never returns, and a sequence
of writes comes back exactly when it has no `WriteBits`.
-/

namespace Ftke.BitStream

open Bits

variable {b : List UInt8}

/-! ## Reads -/

/-- **A sequence of reads** from bit `P` on. -/
theorem readAll_cursor_iff : ∀ {reads : List Read} {P : Nat}, (∀ r ∈ reads, r.Valid) →
    P ≤ 8 * b.length →
    (readAll reads (cursor b P) = answers ((bitsOf b).drop P) reads ↔
      NoTail (8 * b.length) P reads)
  | [], _, _, _ => ⟨fun _ => trivial, fun _ => rfl⟩
  | r :: reads, P, hv, hP => by
    have hvr := hv r List.mem_cons_self
    have hvs : ∀ r ∈ reads, r.Valid := fun r hr => hv r (List.mem_cons_of_mem _ hr)
    have hexec := exec_cursor hvr hP
    have hlen : r.width ≤ ((bitsOf b).drop P).length ↔ P + r.width ≤ 8 * b.length := by
      rw [List.length_drop, length_bitsOf]
      omega
    have hnil : (bitsOf b).drop (8 * b.length) = [] :=
      List.drop_eq_nil_of_le (Nat.le_of_eq (length_bitsOf b))
    simp only [readAll, answers, NoTail, hlen]
    by_cases hend : P + r.width ≤ 8 * b.length
    · by_cases htail : r.TakesTail (8 * b.length) P
      · -- the bits are there and the read leaves
        rw [if_neg fun h => h.2 htail] at hexec
        simp [hexec, hend, htail]
      · have ih := readAll_cursor_iff hvs hend
        rw [if_pos ⟨hend, htail⟩] at hexec
        simp only [hexec, if_pos hend, List.drop_drop, List.cons.injEq, htail, not_false_eq_true,
          true_and, ← ih]
        exact ⟨fun h => h.2, fun h => ⟨rfl, h⟩⟩
    · have htail : ¬ r.TakesTail (8 * b.length) P := by
        cases r with
        | readBits numberOfBits => exact fun h => hend h.2.1.le
        | _ => exact not_false
      have ih := readAll_cursor_iff hvs (Nat.le_refl (8 * b.length))
      rw [hnil] at ih
      rw [if_neg fun h => hend h.1] at hexec
      simp only [hexec, if_neg hend, List.cons.injEq, htail, not_false_eq_true, true_and, ih]

/-- However the bits are grouped into reads, the answers together are the front
of the bit string. -/
theorem flatten_answers : ∀ {reads : List Read} {values : List Nat} {bits : List Bool},
    answers bits reads = values.map .ok →
    (List.zipWith (fun r v => toBits r.width v) reads values).flatten =
      bits.take (reads.map Read.width).sum
  | [], values, bits, h => by simp
  | r :: reads, [], bits, h => by
    rw [answers] at h
    split at h <;> simp at h
  | r :: reads, v :: values, bits, h => by
    rw [answers] at h
    split at h
    · next hle =>
        simp only [List.map_cons, List.cons.injEq, Except.ok.injEq] at h
        have hlen : (bits.take r.width).length = r.width := List.length_take_of_le hle
        have hbits := toBits_ofBits (bits.take r.width)
        rw [hlen] at hbits
        rw [List.zipWith_cons_cons, List.flatten_cons, flatten_answers h.2, ← h.1, hbits,
          List.map_cons, List.sum_cons, List.take_add]
    · simp at h

/-! ## `WriteBits` -/

theorem readBits_one {s s' : BitStreamParser} {P : Nat} {v : UInt32}
    (h : readBits 1 (s.seek P) = .ok v s') : P + 1 < 8 * s.size ∧ s' = s.seek (P + 1) := by
  have hP := Nat.mod_lt P (show 0 < 8 by decide)
  have hk : min ((s.seek P).bitpos + 1) 1 = 1 := by omega
  have hslow : ¬ (8 ≤ 1 ∧ (s.seek P).bitpos = 7) := fun h => absurd h.1 (by decide)
  simp only [readBits, show ¬ (1 : UInt8) > 32 by decide, if_false, show (1 : UInt8).toNat = 1 from rfl,
    readLoop, Nat.one_ne_zero, hslow, hk, nextBits_seek s (show 1 ≤ 2 ^ 16 by decide)] at h
  split at h
  · contradiction
  · split at h
    · contradiction
    · split at h
      · contradiction
      · next hnext =>
          obtain ⟨-, rfl⟩ := EStateM.Result.ok.inj h
          split at hnext
          · contradiction
          · next hlt =>
              obtain ⟨-, rfl⟩ := EStateM.Result.ok.inj hnext
              exact ⟨by omega, rfl⟩

theorem writeLoop_ne_ok {t : BitStreamParser} : ∀ {m P : Nat} {s s' : BitStreamParser},
    P + (m + 1) = 8 * t.size → writeLoop (m + 1) (t.seek P) s ≠ .ok () s' := by
  intro m
  induction m with
  | zero =>
    intro P s s' hP h
    simp only [writeLoop] at h
    split at h
    · contradiction
    · split at h
      · contradiction
      · next hread =>
          have hlt := (readBits_one hread).1
          omega
  | succ m ih =>
    intro P s s' hP h
    simp only [writeLoop] at h
    split at h
    · contradiction
    · split at h
      · contradiction
      · next hread =>
          obtain ⟨-, rfl⟩ := readBits_one hread
          split at h
          · contradiction
          · exact ih (P := P + 1) (by omega) (by simpa only [writeLoop] using h)

theorem skipped (numberOfBits : UInt8) (data : List UInt8) :
    ∃ k, (resetBitStreamParser data (bitsToBytes numberOfBits.toNat)).bitsLeft -
        numberOfBits.toUInt32 = UInt32.ofNat k ∧ k < 8 ∧
      k + numberOfBits.toNat = 8 * bitsToBytes numberOfBits.toNat := by
  have hlt := numberOfBits.toNat_lt
  have hle : numberOfBits.toNat ≤ 8 * bitsToBytes numberOfBits.toNat := by
    unfold bitsToBytes
    omega
  refine ⟨8 * bitsToBytes numberOfBits.toNat - numberOfBits.toNat, ?_, ?_, by omega⟩
  · have hleft : (resetBitStreamParser data (bitsToBytes numberOfBits.toNat)).bitsLeft =
        UInt32.ofNat (8 * bitsToBytes numberOfBits.toNat) := by
      simp only [BitStreamParser.bitsLeft, resetBitStreamParser]
      rw [UInt32.ofNat_mul]
      generalize UInt32.ofNat (bitsToBytes numberOfBits.toNat) = x
      show (x - 0 - 1) * 8 + (1 + 7) = 8 * x
      grind
    have hcast : numberOfBits.toUInt32 = UInt32.ofNat numberOfBits.toNat :=
      UInt32.toNat_inj.mp (by simp)
    rw [hleft, hcast, UInt32.ofNat_sub hle]
  · unfold bitsToBytes
    omega

/-- **`WriteBits` never returns.** -/
theorem writeBits_ne_ok (numberOfBits : UInt8) (data : List UInt8) (s s' : BitStreamParser) :
    writeBits numberOfBits data s ≠ .ok () s' := by
  obtain ⟨k, hk, hk8, hsum⟩ := skipped numberOfBits data
  have hseek : resetBitStreamParser data (bitsToBytes numberOfBits.toNat) =
      (resetBitStreamParser data (bitsToBytes numberOfBits.toNat)).seek 0 := rfl
  intro h
  simp only [writeBits, hk] at h
  rw [hseek, nextBits_seek _ (by omega)] at h
  have hsize : (resetBitStreamParser data (bitsToBytes numberOfBits.toNat)).size =
      bitsToBytes numberOfBits.toNat := rfl
  by_cases hleave : 8 * bitsToBytes numberOfBits.toNat ≤ 0 + k
  · rw [hsize, if_pos hleave] at h
    contradiction
  · obtain ⟨m, hm⟩ : ∃ m, numberOfBits.toNat = m + 1 := ⟨numberOfBits.toNat - 1, by omega⟩
    rw [hsize, if_neg hleave] at h
    simp only [hm] at h
    exact writeLoop_ne_ok (by rw [← hm]; show 0 + k + _ = 8 * bitsToBytes _; omega) h

theorem writeAll_ne_ok : ∀ {writes : List Write} {s s' : BitStreamParser},
    (∃ w ∈ writes, ¬ w.Whole) → writeAll writes s ≠ .ok () s'
  | [], _, _, ⟨_, hw, _⟩, _ => absurd hw List.not_mem_nil
  | w :: writes, s, s', ⟨w', hw', hnot⟩, h => by
    rw [writeAll, bind_apply] at h
    cases hexec : w.exec s with
    | error e t =>
      rw [hexec] at h
      contradiction
    | ok u t =>
      rw [hexec] at h
      rcases List.mem_cons.mp hw' with rfl | hw'
      · cases w' with
        | writeBits numberOfBits data => exact writeBits_ne_ok _ _ _ _ hexec
        | _ => exact hnot trivial
      · exact writeAll_ne_ok ⟨w', hw', hnot⟩ h

/-! ## Whole bytes -/

/-- The bytes of a write of whole bytes. -/
def Write.bytes : Write → List UInt8
  | .writeBits _ _ => []
  | .writeUInt8 data => [data]
  | .writeUInt16 data => [(data >>> 8).toUInt8, data.toUInt8]
  | .writeUInt32 data =>
    [(data >>> 24).toUInt8, (data >>> 16).toUInt8, (data >>> 8).toUInt8, data.toUInt8]

variable {w : Write} {writes : List Write}

theorem width_eq (hw : w.Whole) : w.read.width = 8 * w.bytes.length := by
  cases w with
  | writeBits => exact hw.elim
  | _ => rfl

theorem writeUInt8_cursor (pre rest : List UInt8) (x data : UInt8) :
    writeUInt8 data (cursor (pre ++ x :: rest) (8 * pre.length)) =
      .ok () (cursor (pre ++ data :: rest) (8 * (pre.length + 1))) := by
  have hbit : ¬ (cursor (pre ++ x :: rest) (8 * pre.length)).bitpos ≠ 7 :=
    not_not.mpr (show 7 - 8 * pre.length % 8 = 7 by omega)
  have hpos : 8 * pre.length / 8 = pre.length := by omega
  unfold writeUInt8
  rw [if_neg hbit]
  simp only [cursor, hpos, List.length_append, List.length_cons,
    if_neg (show ¬ pre.length + (rest.length + 1) ≤ pre.length by omega), Nat.mul_mod_right,
    show 8 * (pre.length + 1) / 8 = pre.length + 1 by omega]
  rw [List.set_append_right _ _ (Nat.le_refl _), Nat.sub_self, List.set_cons_zero]

/-- The bytes written one by one. -/
def writeBytes : List UInt8 → ParserM Unit
  | [] => pure ()
  | d :: ds => do
    writeUInt8 d
    writeBytes ds

theorem writeBytes_append (ds : List UInt8) : ∀ (cs : List UInt8) (s : BitStreamParser),
    writeBytes (cs ++ ds) s = (writeBytes cs >>= fun _ => writeBytes ds) s
  | [], s => rfl
  | c :: cs, s => by
    simp only [List.cons_append, writeBytes, bind_apply]
    cases writeUInt8 c s with
    | error e t => rfl
    | ok u t =>
      have ih := writeBytes_append ds cs t
      rw [bind_apply] at ih
      exact ih

theorem writeBytes_singleton (d : UInt8) : writeBytes [d] = writeUInt8 d := by
  funext s
  simp only [writeBytes, bind_apply, pure_apply]
  cases writeUInt8 d s <;> rfl

theorem exec_whole (hw : w.Whole) : w.exec = writeBytes w.bytes := by
  cases w with
  | writeBits => exact hw.elim
  | writeUInt8 data => exact (writeBytes_singleton data).symm
  | writeUInt16 data =>
    simp only [Write.exec, writeUInt16, Write.bytes, ← writeBytes_singleton data.toUInt8]
    rfl
  | writeUInt32 data =>
    simp only [Write.exec, writeUInt32, Write.bytes, ← writeBytes_singleton data.toUInt8]
    rfl

theorem writeAll_whole : ∀ {writes : List Write}, (∀ w ∈ writes, w.Whole) →
    writeAll writes = writeBytes (writes.flatMap Write.bytes)
  | [], _ => rfl
  | w :: writes, hw => by
    have ih := writeAll_whole fun w h => hw w (List.mem_cons_of_mem _ h)
    funext s
    rw [List.flatMap_cons, writeBytes_append, writeAll, exec_whole (hw w List.mem_cons_self), ih]

theorem writeBytes_cursor : ∀ (ds pre rest : List UInt8), ds.length ≤ rest.length →
    writeBytes ds (cursor (pre ++ rest) (8 * pre.length)) =
      .ok () (cursor (pre ++ ds ++ rest.drop ds.length) (8 * (pre.length + ds.length)))
  | [], pre, rest, _ => by
    rw [List.append_nil]
    rfl
  | d :: ds, pre, [], h => absurd h (by simp)
  | d :: ds, pre, x :: rest, h => by
    have ih := writeBytes_cursor ds (pre ++ [d]) rest (by simpa using h)
    rw [List.append_assoc pre, List.singleton_append, List.length_append, List.length_singleton] at ih
    simp only [writeBytes, bind_apply, writeUInt8_cursor, ih, List.length_cons, List.drop_succ_cons]
    rw [List.append_assoc pre, List.singleton_append, Nat.add_assoc, Nat.add_comm 1]

/-! ## Reading back -/

theorem ofBits_bitsOf_cons (x : UInt8) (l : List UInt8) :
    ofBits (bitsOf (x :: l)) = x.toNat * 2 ^ (8 * l.length) + ofBits (bitsOf l) := by
  rw [bitsOf_cons, ofBits_append, ofBits_toBits, length_bitsOf, Nat.mod_eq_of_lt x.toNat_lt]

theorem ofBits_bytes (hw : w.Whole) : ofBits (bitsOf w.bytes) = w.value := by
  have hnil : ofBits [] = 0 := rfl
  cases w with
  | writeBits => exact hw.elim
  | writeUInt8 data =>
    simp only [Write.bytes, Write.value, ofBits_bitsOf_cons, bitsOf_nil, hnil]
    simp
  | writeUInt16 data =>
    have hlt := data.toNat_lt
    simp only [Write.bytes, Write.value, ofBits_bitsOf_cons, bitsOf_nil, hnil]
    simp [Nat.shiftRight_eq_div_pow]
    omega
  | writeUInt32 data =>
    have hlt := data.toNat_lt
    simp only [Write.bytes, Write.value, ofBits_bitsOf_cons, bitsOf_nil, hnil]
    simp [Nat.shiftRight_eq_div_pow]
    omega

theorem writtenBits_eq : ∀ {writes : List Write}, (∀ w ∈ writes, w.Whole) →
    writtenBits writes = 8 * (writes.flatMap Write.bytes).length
  | [], _ => rfl
  | w :: writes, hw => by
    have ih := writtenBits_eq fun w h => hw w (List.mem_cons_of_mem _ h)
    have hwidth := width_eq (hw w List.mem_cons_self)
    unfold writtenBits at ih ⊢
    rw [List.map_cons, List.sum_cons, ih, hwidth, List.flatMap_cons, List.length_append, Nat.mul_add]

theorem answers_bytes (rest : List UInt8) : ∀ {writes : List Write}, (∀ w ∈ writes, w.Whole) →
    answers (bitsOf (writes.flatMap Write.bytes ++ rest)) (writes.map Write.read) =
      writes.map fun w => .ok w.value
  | [], _ => rfl
  | w :: writes, hw => by
    have hww := hw w List.mem_cons_self
    have ih := answers_bytes rest fun w h => hw w (List.mem_cons_of_mem _ h)
    have hlen : (bitsOf w.bytes).length = w.read.width := by
      rw [length_bitsOf, width_eq hww]
    rw [List.flatMap_cons, List.append_assoc, bitsOf_append, List.map_cons, answers,
      if_pos (by rw [List.length_append, hlen]; omega), List.take_left' hlen, List.drop_left' hlen,
      ih, ofBits_bytes hww, List.map_cons]

theorem noTail_whole (total : Nat) : ∀ {writes : List Write} (P : Nat), (∀ w ∈ writes, w.Whole) →
    NoTail total P (writes.map Write.read)
  | [], _, _ => trivial
  | w :: writes, P, hw => by
    refine ⟨?_, noTail_whole total _ fun w h => hw w (List.mem_cons_of_mem _ h)⟩
    have hww := hw w List.mem_cons_self
    cases w with
    | writeBits => exact hww.elim
    | _ => exact not_false

/-- **A sequence of writes** that fits comes back exactly when it writes whole
bytes only. -/
theorem writesBack_iff (buffer : List UInt8) (writes : List Write)
    (hfits : writtenBits writes ≤ 8 * buffer.length) :
    WritesBack buffer writes ↔ ∀ w ∈ writes, w.Whole := by
  constructor
  · rintro ⟨s, hs, -⟩ w hw
    by_contra hnot
    exact writeAll_ne_ok ⟨w, hw, hnot⟩ hs
  · intro hw
    have hbits := writtenBits_eq hw
    rw [hbits] at hfits
    have hrun := writeBytes_cursor (writes.flatMap Write.bytes) [] buffer (by omega)
    have hvalid : ∀ r ∈ writes.map Write.read, r.Valid := fun r hr => by
      obtain ⟨w, hwm, rfl⟩ := List.mem_map.mp hr
      cases w with
      | writeBits => exact (hw _ hwm).elim
      | _ => simp [Read.Valid, Write.read, Read.width]
    rw [List.nil_append, List.nil_append] at hrun
    refine ⟨_, (congrFun (writeAll_whole hw) _).trans hrun, ?_, ?_⟩
    · exact ((readAll_cursor_iff hvalid (Nat.zero_le _)).mpr (noTail_whole _ 0 hw)).trans
        (answers_bytes _ hw)
    · show (bitsOf (_ ++ _)).drop _ = _
      rw [hbits, drop_bitsOf, drop_bitsOf, List.drop_left' rfl]

/-! ## The parser -/

/-- **Reads and writes of the parser.**  A sequence of reads answers the bits of
the buffer exactly when none of them takes the tail of the last byte, and then
the answers together do not depend on the grouping; a sequence of writes that
fits comes back exactly when none of them is a `WriteBits`. -/
theorem parser_iff (buffer : List UInt8) :
    (∀ reads : List Read, (∀ r ∈ reads, r.Valid) →
      (ReadsAgree buffer reads ↔ NoTail (8 * buffer.length) 0 reads) ∧
      ∀ values : List Nat, ReadsAgree buffer reads →
        readAll reads (resetBitStreamParser buffer buffer.length) = values.map .ok →
        (List.zipWith (fun r v => toBits r.width v) reads values).flatten =
          (bitsOf buffer).take (reads.map Read.width).sum) ∧
    (∀ writes : List Write, writtenBits writes ≤ 8 * buffer.length →
      (WritesBack buffer writes ↔ ∀ w ∈ writes, w.Whole)) :=
  ⟨fun _ hv => ⟨readAll_cursor_iff hv (Nat.zero_le _), fun _ hagree hvalues =>
    flatten_answers (hagree.symm.trans hvalues)⟩, writesBack_iff buffer⟩

/-- Three bytes read in four pieces, and two writes read back. -/
theorem parser_iff_three_bytes :
    ReadsAgree [0xab, 0xcd, 0xef] [.readBits 3, .readBits 9, .readBits 4, .readUInt8, .readBits 1] ∧
      WritesBack [0xab, 0xcd, 0xef] [.writeUInt8 0x12, .writeUInt16 0x3456] :=
  ⟨((parser_iff [0xab, 0xcd, 0xef]).1 _ (by simp [Read.Valid, Read.width])).1.mpr (by decide),
    ((parser_iff [0xab, 0xcd, 0xef]).2 _ (by decide)).mpr (by simp [Write.Whole])⟩

/-- A byte read in two halves leaves, and so does one written by `WriteBits`. -/
theorem half_byte_leaves :
    (¬ ∀ (buffer : List UInt8) (reads : List Read), (∀ r ∈ reads, r.Valid) →
      ReadsAgree buffer reads) ∧
    ¬ ∀ (buffer : List UInt8) (writes : List Write), writtenBits writes ≤ 8 * buffer.length →
      WritesBack buffer writes := by
  refine ⟨fun h => ?_, fun h => ?_⟩
  · have hread := h [0xab] [.readBits 4, .readBits 4] (by simp [Read.Valid, Read.width])
    exact absurd ((readAll_cursor_iff (by simp [Read.Valid, Read.width]) (Nat.zero_le _)).mp hread)
      (by decide)
  · have hwhole := (writesBack_iff _ _ (by decide)).mp (h [0xab] [.writeBits 8 [0xcd]] (by decide))
    exact hwhole _ List.mem_cons_self

end Ftke.BitStream
