import Ftke.Level0PduParcom
import Mathlib.Order.Basic

/-!
# Ftke.Level0PduParcom.Frames

The first frame behind a flag.

A flag ends what is stored, but it clears not everything.  With fewer than eight
bits stored `Remove0` is not called and they stay in `iRecvByte`, in front of the
next frame; and `Remove0` leaves the bits of an incomplete octet in
`iZeroBitRemovedOutput`, which are put over the header of the next frame.  The
next frame is indicated as it was sent exactly when neither happened
(`frames_iff`).
-/

namespace Ftke.Level0PduParcom

open BitStuffing ZeroRemoval

/-! ## Frames -/

/-- A MUX-PDU of level 0. -/
structure MuxPdu where
  closing : Bool
  muxCode : Nat
  payload : List UInt8
  muxCode_lt : muxCode < 16

/-- `iHecCrc`. -/
def hecCrc : List Nat := [0, 5, 7, 2, 3, 6, 4, 1, 6, 3, 1, 4, 5, 0, 2, 7]

namespace MuxPdu

/-- The header octet. -/
def header (p : MuxPdu) : Nat := (hecCrc.getD p.muxCode 0 <<< 5) + (p.muxCode <<< 1) + p.closing.toNat

def octets (p : MuxPdu) : List UInt8 := UInt8.ofNat p.header :: p.payload

/-- The bits between the flags. -/
def stuffed (p : MuxPdu) : List Bool := stuff (p.octets.flatMap bits)

/-- It fits the buffer of `H223_MAX_DEMUX_PDU_SIZE` octets. -/
def Fits (p : MuxPdu) : Prop := p.stuffed.length < 8 * 1024

end MuxPdu

/-- A flag, `HDLC`. -/
def flagBits : List Bool := [false, true, true, true, true, true, true, false]

/-- The frame is indicated with its own payload and multiplex entry, and nothing else. -/
def Exact (s : Level0PduParcom) (p : MuxPdu) : Prop :=
  ((p.stuffed ++ flagBits).foldl recvBit s).indicated =
    s.indicated ++ [⟨p.payload, (p.closing.toNat : Int), (p.muxCode : Int)⟩]

/-- No bits are left of what came before the flag. -/
def Clean (s : Level0PduParcom) : Prop := s.iRecvByte = [] ∧ s.removal.iZeroBitRemovedOutput % 32 = 0

/-! ## Storing bits -/

/-- Outside of `Remove0` its window and its output are empty. -/
structure Inv (s : Level0PduParcom) : Prop where
  window : s.removal.iRecvByte0 = []
  pos : s.removal.iZeroBitRemovedOutputPos = 0
  output : s.removal.iZeroBitRemovedOutput < 2 ^ 8
  recvByte : s.iRecvByte.length < 8
  pdu : s.iPdu.length ≤ endPos

theorem inv_construct : Inv construct := ⟨rfl, rfl, by decide, by decide, by decide⟩

variable {s : Level0PduParcom}

theorem inv_remove0 (hwindow : s.removal.iRecvByte0 = [])
    (hpos : s.removal.iZeroBitRemovedOutputPos = 0) (houtput : s.removal.iZeroBitRemovedOutput < 2 ^ 8) :
    Inv (remove0 s) := by
  rw [remove0_spec hwindow hpos]
  refine ⟨rfl, rfl, ?_, by simp, by simp⟩
  simp only [afterRemoval]
  generalize unstuff s.stored = u
  have hlt : value u ||| s.removal.iZeroBitRemovedOutput < 2 ^ (8 + 8 * (u.length / 8)) :=
    Nat.or_lt_two_pow (lt_of_lt_of_le (value_lt u) (Nat.pow_le_pow_right (by omega) (by omega)))
      (lt_of_lt_of_le houtput (Nat.pow_le_pow_right (by omega) (by omega)))
  rw [Nat.shiftRight_eq_div_pow]
  apply Nat.div_lt_of_lt_mul
  rw [← Nat.pow_add, Nat.add_comm]
  exact hlt

theorem length_stored (s : Level0PduParcom) : s.stored.length = 8 * s.iPdu.length + s.iRecvByte.length := by
  rw [stored, List.length_append, length_flatMap_bits]

variable {l w : List Bool}

theorem bits_value (h : l.length = 8) : bits (UInt8.ofNat (value l)) = l := by
  match l, h with
  | [b0, b1, b2, b3, b4, b5, b6, b7], _ =>
    revert b0 b1 b2 b3 b4 b5 b6 b7
    decide

theorem appendBit_room (h : Inv s) (c : Bool) (hroom : s.stored.length + 1 < 8 * 1024) :
    (appendBit s c).stored = s.stored ++ [c] ∧ (appendBit s c).removal = s.removal ∧
      (appendBit s c).indicated = s.indicated ∧ Inv (appendBit s c) := by
  rw [length_stored] at hroom
  rw [appendBit]
  simp only
  split
  · next hfull =>
    have hlen : s.iRecvByte.length + 1 = 8 := by simpa using hfull
    have hnot : ¬s.iPdu.length = endPos := by
      rw [endPos]
      omega
    rw [if_neg hnot]
    refine ⟨?_, rfl, rfl, ⟨h.window, h.pos, h.output, by simp, ?_⟩⟩
    · simp only [stored, List.flatMap_append, List.flatMap_singleton, List.append_nil, bits_value hfull,
        List.append_assoc]
    · have hle := h.pdu
      simp only [List.length_append, List.length_singleton]
      omega
  · next hmore =>
    refine ⟨by simp only [stored, List.append_assoc], rfl, rfl, ⟨h.window, h.pos, h.output, ?_, h.pdu⟩⟩
    have hlt := h.recvByte
    simp only [List.length_append, List.length_singleton] at hmore ⊢
    omega

theorem appendBit_full (h : Inv s) (c : Bool) (hfull : 8 * 1024 ≤ s.stored.length + 1) :
    (appendBit s c).indicated.length = s.indicated.length + 1 ∧ (appendBit s c).iPdu ≠ [] ∧
      Inv (appendBit s c) := by
  have hpdu := h.pdu
  have hbyte := h.recvByte
  rw [length_stored] at hfull
  rw [endPos] at hpdu
  have hlen : (s.iRecvByte ++ [c]).length = 8 := by
    rw [List.length_append, List.length_singleton]
    omega
  have hend : s.iPdu.length = endPos := by
    rw [endPos]
    omega
  have hinv := inv_remove0 (s := { s with iRecvByte := s.iRecvByte ++ [c] }) h.window h.pos h.output
  rw [appendBit]
  simp only [if_pos hlen, if_pos hend]
  refine ⟨?_, by simp, ⟨hinv.window, hinv.pos, hinv.output, by simp, ?_⟩⟩
  · rw [remove0_spec (by exact h.window) (by exact h.pos)]
    simp
  · rw [remove0_spec (by exact h.window) (by exact h.pos)]
    simp [endPos]

theorem inv_appendBit (h : Inv s) (c : Bool) : Inv (appendBit s c) := by
  by_cases hroom : s.stored.length + 1 < 8 * 1024
  · exact (appendBit_room h c hroom).2.2.2
  · exact (appendBit_full h c (by omega)).2.2

theorem store_room (h : Inv s) (hroom : s.stored.length + w.length < 8 * 1024) :
    (w.foldl appendBit s).stored = s.stored ++ w ∧ (w.foldl appendBit s).removal = s.removal ∧
      (w.foldl appendBit s).indicated = s.indicated ∧ Inv (w.foldl appendBit s) := by
  induction w generalizing s with
  | nil => exact ⟨(List.append_nil _).symm, rfl, rfl, h⟩
  | cons c w ih =>
    rw [List.length_cons] at hroom
    obtain ⟨hstored, hremoval, hindicated, hinv⟩ := appendBit_room h c (by omega)
    obtain ⟨hstored', hremoval', hindicated', hinv'⟩ := ih hinv (by
      rw [hstored, List.length_append, List.length_singleton]
      omega)
    refine ⟨?_, hremoval'.trans hremoval, hindicated'.trans hindicated, hinv'⟩
    rw [List.foldl_cons, hstored', hstored, List.append_assoc, List.singleton_append]

theorem store_mono (h : Inv s) (hne : s.iPdu ≠ []) :
    s.indicated.length ≤ (w.foldl appendBit s).indicated.length ∧ (w.foldl appendBit s).iPdu ≠ [] ∧
      Inv (w.foldl appendBit s) := by
  induction w generalizing s with
  | nil => exact ⟨le_rfl, hne, h⟩
  | cons c w ih =>
    have hstep : s.indicated.length ≤ (appendBit s c).indicated.length ∧ (appendBit s c).iPdu ≠ [] := by
      by_cases hroom : s.stored.length + 1 < 8 * 1024
      · refine ⟨(congrArg List.length (appendBit_room h c hroom).2.2.1).ge, ?_⟩
        rw [appendBit]
        simp only [List.length_append, List.length_singleton]
        split
        · next hfull => simp
        · exact hne
      · have hfull := appendBit_full h c (by omega)
        exact ⟨by omega, hfull.2.1⟩
    obtain ⟨hle, hne', hinv⟩ := ih (inv_appendBit h c) hstep.2
    exact ⟨hstep.1.trans hle, hne', hinv⟩

theorem store_full (h : Inv s) (hw : w ≠ []) (hfull : 8 * 1024 ≤ s.stored.length + w.length) :
    s.indicated.length < (w.foldl appendBit s).indicated.length ∧ (w.foldl appendBit s).iPdu ≠ [] ∧
      Inv (w.foldl appendBit s) := by
  induction w generalizing s with
  | nil => exact absurd rfl hw
  | cons c w ih =>
    rw [List.length_cons] at hfull
    by_cases hroom : s.stored.length + 1 < 8 * 1024
    · obtain ⟨hstored, -, hindicated, hinv⟩ := appendBit_room h c hroom
      have hne : w ≠ [] := by
        rintro rfl
        rw [List.length_nil] at hfull
        omega
      have hrest := ih hinv hne (by
        rw [hstored, List.length_append, List.length_singleton]
        omega)
      rwa [hindicated] at hrest
    · obtain ⟨hlen, hne, hinv⟩ := appendBit_full h c (by omega)
      obtain ⟨hle, hne', hinv'⟩ := store_mono (w := w) hinv hne
      exact ⟨by rw [List.foldl_cons]; omega, hne', hinv'⟩

/-! ## Finding the flag -/

/-- The state behind a flag. -/
def flagged (s : Level0PduParcom) : Level0PduParcom :=
  { (if s.iPdu.length ≠ 0 then remove0 s else s) with iRecvBits := [] }

theorem isFlag_iff {b : Bool} (h : l.length = 7) : isFlag (b :: l) = true ↔ Ones 6 l := by
  match l, h with
  | [b0, b1, b2, b3, b4, b5, b6], _ =>
    revert b b0 b1 b2 b3 b4 b5 b6
    decide

theorem appendBit_recvBits (s : Level0PduParcom) (q : List Bool) (c : Bool) :
    appendBit { s with iRecvBits := q } c = { appendBit s c with iRecvBits := q } := by
  simp only [appendBit]
  split
  · split <;> rfl
  · rfl

theorem flagged_recvBits (s : Level0PduParcom) (q : List Bool) :
    flagged { s with iRecvBits := q } = flagged s := by
  simp only [flagged]
  split <;> rfl

theorem recvBit_fill (q : List Bool) (h : s.iRecvBits.length + q.length < 8) :
    q.foldl recvBit s = { s with iRecvBits := s.iRecvBits ++ q } := by
  induction q generalizing s with
  | nil => simp
  | cons b q ih =>
    rw [List.length_cons] at h
    have hstep : recvBit s b = { s with iRecvBits := s.iRecvBits ++ [b] } := by
      have hmore : ¬(s.iRecvBits ++ [b]).length = 8 := by
        rw [List.length_append, List.length_singleton]
        omega
      simp only [recvBit, if_neg hmore]
    rw [List.foldl_cons, hstep, ih (by simp only [List.length_append, List.length_singleton]; omega)]
    simp only [List.append_assoc, List.singleton_append]

theorem recvBit_window (hw : ∀ i, ¬Ones 6 (w.drop i)) (s : Level0PduParcom) :
    ((w ++ flagBits).drop 7).foldl recvBit { s with iRecvBits := (w ++ flagBits).take 7 } =
      flagged (w.foldl appendBit s) := by
  induction w generalizing s with
  | nil =>
    have hflag : ((([] : List Bool) ++ flagBits).drop 7).foldl recvBit
        { s with iRecvBits := (([] : List Bool) ++ flagBits).take 7 } =
          flagged { s with iRecvBits := flagBits.take 7 } := by
      simp [flagBits, recvBit, isFlag, value, flagged]
    rw [hflag, flagged_recvBits]
    rfl
  | cons b w ih =>
    have hlen : 7 ≤ (w ++ flagBits).length := by
      rw [List.length_append, flagBits]
      simp
    have htake : ((w ++ flagBits).take 7).length = 7 := by
      rw [List.length_take]
      omega
    have hwindow : ((b :: w ++ flagBits).take 7) ++ [(w ++ flagBits)[6]] = b :: (w ++ flagBits).take 7 := by
      rw [List.cons_append, List.take_succ_cons, List.cons_append, List.take_append_getElem]
    have hdrop : (b :: w ++ flagBits).drop 7 = (w ++ flagBits)[6] :: (w ++ flagBits).drop 7 := by
      rw [List.cons_append, List.drop_succ_cons, ← List.drop_eq_getElem_cons]
    have hno : isFlag (b :: (w ++ flagBits).take 7) = false := by
      rw [← Bool.not_eq_true, isFlag_iff htake]
      intro hsix
      rw [Ones, List.take_take] at hsix
      exact no_six_append (hw 1) _ hsix
    have hstep : recvBit { s with iRecvBits := (b :: w ++ flagBits).take 7 } (w ++ flagBits)[6] =
        { appendBit s b with iRecvBits := (w ++ flagBits).take 7 } := by
      simp only [recvBit, hwindow, List.length_cons, htake, hno, List.headD_cons, List.tail_cons, appendBit_recvBits]
      rfl
    rw [hdrop, List.foldl_cons, hstep, ih (fun i => hw (i + 1)), List.foldl_cons]

/-- **What stands in front of a flag is stored**, and then indicated if an octet is complete. -/
theorem recv_flag (hw : ∀ i, ¬Ones 6 (w.drop i)) (hs : s.iRecvBits = []) :
    (w ++ flagBits).foldl recvBit s = flagged (w.foldl appendBit s) := by
  have hlen : 7 ≤ (w ++ flagBits).length := by
    rw [List.length_append, flagBits]
    simp
  have hsplit : (w ++ flagBits).foldl recvBit s =
      ((w ++ flagBits).drop 7).foldl recvBit (((w ++ flagBits).take 7).foldl recvBit s) := by
    rw [← List.foldl_append, List.take_append_drop]
  have hfill : s.iRecvBits.length + ((w ++ flagBits).take 7).length < 8 := by
    rw [hs, List.length_take, List.length_nil]
    omega
  rw [hsplit, recvBit_fill _ hfill, hs, List.nil_append, recvBit_window hw]

/-! ## What is indicated -/

theorem indication_octets {r : ZeroRemoval} {n v : Nat} (h : r.zeroRemoved = octets (n + 1) v) (iPdu : List UInt8) :
    indication r iPdu = ⟨(octets n (v / 256) ++ iPdu.drop (n + 1)).take ((n + 1 + 65535) % 65536),
      ((v % 2 : Nat) : Int), ((v / 2 % 16 : Nat) : Int)⟩ := by
  have hone : ∀ m : Nat, m &&& 1 = m % 2 := Nat.and_one_is_mod
  have hlow : ∀ m : Nat, m &&& 0xf = m % 16 := fun m => Nat.and_two_pow_sub_one_eq_mod m 4
  have hclosing : v % 256 % 2 = v % 2 := by omega
  have hmux : v % 256 / 2 % 16 = v / 2 % 16 := by omega
  simp only [indication, h, octets, List.length_cons, length_octets, List.cons_append, List.headD_cons,
    List.drop_succ_cons, List.drop_zero, UInt8.toNat_ofNat', hone, hlow, Nat.shiftRight_eq_div_pow, Nat.reducePow,
    hclosing, hmux, pow_one]

theorem flagged_stored (h : Inv s) (hlen : 8 ≤ s.stored.length) :
    flagged s = { remove0 s with iRecvBits := [] } := by
  have hne : s.iPdu.length ≠ 0 := by
    have hlt := h.recvByte
    rw [length_stored] at hlen
    omega
  rw [flagged, if_pos hne]

/-- **What is indicated of the bits `w` behind a flag**: those that were left are in
front of them. -/
theorem recv_frame (h : Inv s) (hbits : s.iRecvBits = []) (hpdu : s.iPdu = [])
    (hw : ∀ i, ¬Ones 6 (w.drop i)) (hlen : 8 ≤ w.length) (hroom : s.iRecvByte.length + w.length < 8 * 1024) :
    ∃ t, (w ++ flagBits).foldl recvBit s = t ∧ t.iRecvByte = [] ∧
      t.removal = afterRemoval (s.iRecvByte ++ w) s.removal.iZeroBitRemovedOutput ∧
        ∃ iPdu, t.indicated = s.indicated ++ [indication t.removal iPdu] := by
  have hstored : s.stored = s.iRecvByte := by rw [stored, hpdu, List.flatMap_nil, List.nil_append]
  obtain ⟨hall, hremoval, hindicated, hinv⟩ := store_room h (w := w) (by rw [hstored]; exact hroom)
  have hlen' : 8 ≤ (w.foldl appendBit s).stored.length := by
    rw [hall, List.length_append]
    omega
  rw [recv_flag hw hbits, flagged_stored hinv hlen', remove0_spec hinv.window hinv.pos, hall, hstored, hremoval,
    hindicated]
  exact ⟨_, rfl, rfl, rfl, _, rfl⟩

namespace MuxPdu

theorem header_eq (p : MuxPdu) : ∃ hec ≤ 7, p.header = 32 * hec + 2 * p.muxCode + p.closing.toNat := by
  have hhec : ∀ m < 16, hecCrc.getD m 0 ≤ 7 := by decide
  refine ⟨hecCrc.getD p.muxCode 0, hhec _ p.muxCode_lt, ?_⟩
  rw [header, Nat.shiftLeft_eq, Nat.shiftLeft_eq]
  omega

theorem header_lt (p : MuxPdu) : p.header < 256 := by
  obtain ⟨hec, hle, heq⟩ := p.header_eq
  have hmux := p.muxCode_lt
  have hclosing := p.closing.toNat_le
  omega

theorem value_bits (p : MuxPdu) :
    value (p.octets.flatMap bits) = p.header + 256 * value (p.payload.flatMap bits) := by
  have hheader : (UInt8.ofNat p.header).toNat = p.header := by
    rw [UInt8.toNat_ofNat']
    exact Nat.mod_eq_of_lt p.header_lt
  rw [octets, List.flatMap_cons, value_append, BitStuffing.value_bits, hheader, length_bits]
  rfl

theorem length_bits (p : MuxPdu) : (p.octets.flatMap bits).length = 8 * (p.payload.length + 1) := by
  rw [length_flatMap_bits, octets, List.length_cons]

theorem le_stuffed (p : MuxPdu) : 8 * (p.payload.length + 1) ≤ p.stuffed.length := by
  rw [← p.length_bits]
  exact le_length_stuff _

end MuxPdu

/-- **From a clean state the frame is indicated as it was sent**, and the state is clean
again. -/
theorem exact_of_clean (h : Inv s) (hbits : s.iRecvBits = []) (hpdu : s.iPdu = [])
    (hclean : Clean s) {p : MuxPdu} (hfits : p.Fits) :
    Exact s p ∧ Clean ((p.stuffed ++ flagBits).foldl recvBit s) := by
  obtain ⟨hbyte, hleft⟩ := hclean
  have hle := p.le_stuffed
  have hroom : s.iRecvByte.length + p.stuffed.length < 8 * 1024 := by
    rw [hbyte, List.length_nil, Nat.zero_add]
    exact hfits
  have hno : ∀ i, ¬Ones 6 (p.stuffed.drop i) := stuff_no_six _
  obtain ⟨t, ht, hbyte', hremoval, iPdu, hindicated⟩ := recv_frame h hbits hpdu hno (by omega) hroom
  rw [MuxPdu.Fits] at hfits
  generalize hout : s.removal.iZeroBitRemovedOutput = left at hleft hremoval
  have hlt : left < 2 ^ 8 := hout ▸ h.output
  have hunstuff : unstuff (s.iRecvByte ++ p.stuffed) = p.octets.flatMap bits := by
    rw [hbyte, List.nil_append]
    exact unstuff_stuff _
  have hvalue := p.value_bits
  obtain ⟨hec, hhec, hheader⟩ := p.header_eq
  have hmux := p.muxCode_lt
  have hclosing := p.closing.toNat_le
  have hlow : (value (p.octets.flatMap bits) ||| left) % 32 = 2 * p.muxCode + p.closing.toNat := by
    rw [show 32 = 2 ^ 5 from rfl, Nat.or_mod_two_pow, show left % 2 ^ 5 = 0 from hleft, Nat.or_zero, hvalue]
    omega
  have hhigh : (value (p.octets.flatMap bits) ||| left) / 256 = value (p.payload.flatMap bits) := by
    have hleft' : left / 2 ^ 8 = 0 := Nat.div_eq_of_lt hlt
    have hpayload : value (p.octets.flatMap bits) / 2 ^ 8 = value (p.payload.flatMap bits) := by
      rw [hvalue]
      omega
    rw [show 256 = 2 ^ 8 from rfl, Nat.or_div_two_pow, hleft', hpayload, Nat.or_zero]
  have hcount : (p.octets.flatMap bits).length / 8 = p.payload.length + 1 := by
    rw [p.length_bits]
    omega
  have hremoved : t.removal.zeroRemoved =
      octets (p.payload.length + 1) (value (p.octets.flatMap bits) ||| left) := by
    rw [hremoval, afterRemoval, hunstuff, hcount]
  constructor
  · have hsize : (p.payload.length + 1 + 65535) % 65536 = p.payload.length := by omega
    rw [Exact, ht, hindicated, indication_octets hremoved, hhigh, octets_bits, hsize, List.take_left,
      show (value (p.octets.flatMap bits) ||| left) % 2 = p.closing.toNat by omega,
      show (value (p.octets.flatMap bits) ||| left) / 2 % 16 = p.muxCode by omega]
  · rw [ht]
    refine ⟨hbyte', ?_⟩
    have hzero : (value (p.octets.flatMap bits) ||| left) >>> (8 * (p.payload.length + 1)) = 0 := by
      rw [Nat.shiftRight_eq_div_pow]
      have hleft' : left < 2 ^ (8 * (p.payload.length + 1)) :=
        lt_of_lt_of_le hlt (Nat.pow_le_pow_right (by omega) (by omega))
      refine Nat.div_eq_of_lt (Nat.or_lt_two_pow ?_ hleft')
      rw [← p.length_bits]
      exact value_lt _
    rw [hremoval, afterRemoval, hunstuff, hcount]
    simp only [hzero]

/-! ## What is left over -/

/-- An empty frame of entry 0. -/
def probe (closing : Bool) : MuxPdu := ⟨closing, 0, [], by decide⟩

theorem stuffed_probe (closing : Bool) :
    (probe closing).stuffed = [closing, false, false, false, false, false, false, false] := by
  cases closing <;> rfl

theorem fits_probe (closing : Bool) : (probe closing).Fits := by
  rw [MuxPdu.Fits, stuffed_probe]
  simp

theorem indication_probe (h : Inv s) (hbits : s.iRecvBits = []) (hpdu : s.iPdu = [])
    {closing : Bool} (hexact : Exact s (probe closing)) :
    ∃ iPdu, indication (afterRemoval (s.iRecvByte ++ (probe closing).stuffed) s.removal.iZeroBitRemovedOutput) iPdu =
      ⟨[], (closing.toNat : Int), 0⟩ := by
  have hno : ∀ i, ¬Ones 6 ((probe closing).stuffed.drop i) := stuff_no_six _
  have hlen : (probe closing).stuffed.length = 8 := by rw [stuffed_probe]; rfl
  have hroom : s.iRecvByte.length + (probe closing).stuffed.length < 8 * 1024 := by
    have hlt := h.recvByte
    omega
  obtain ⟨t, ht, -, hremoval, iPdu, hindicated⟩ := recv_frame h hbits hpdu hno hlen.ge hroom
  rw [Exact, ht, hindicated] at hexact
  have hone := List.append_cancel_left hexact
  injection hone with hone
  exact ⟨iPdu, hremoval ▸ hone⟩

/-- **If every frame is indicated as it was sent, then no bits were left.** -/
theorem clean_of_exact (h : Inv s) (hbits : s.iRecvBits = []) (hpdu : s.iPdu = [])
    (hexact : ∀ p : MuxPdu, p.Fits → Exact s p) : Clean s := by
  have hprobe := fun c => indication_probe h hbits hpdu (hexact (probe c) (fits_probe c))
  generalize hout : s.removal.iZeroBitRemovedOutput = left at hprobe
  cases hbyte : s.iRecvByte with
  | nil =>
    -- the left bits of the output stand in the header
    obtain ⟨iPdu, hsame⟩ := hprobe false
    have hunstuff : unstuff (s.iRecvByte ++ (probe false).stuffed) = List.replicate 8 false := by
      rw [hbyte, stuffed_probe]
      rfl
    have hremoved : (afterRemoval (s.iRecvByte ++ (probe false).stuffed) left).zeroRemoved =
        octets (0 + 1) left := by
      rw [afterRemoval, hunstuff]
      simp [value]
    rw [indication_octets hremoved] at hsame
    injection hsame with hpayload hclosing hmux
    refine ⟨hbyte, ?_⟩
    rw [hout]
    simp only [Bool.toNat_false] at hclosing
    omega
  | cons b rest =>
    -- the first of the left bits is taken for the closing mark
    have hfirst : ∀ c : Bool, (c.toNat : Int) = (((value [b] ||| left) % 2 : Nat) : Int) := by
      intro c
      obtain ⟨iPdu, hsame⟩ := hprobe c
      rw [hbyte, List.cons_append] at hsame
      obtain ⟨u, hu⟩ := unstuff_head b (rest ++ (probe c).stuffed)
      have hcount := length_unstuff (b :: (rest ++ (probe c).stuffed))
      rw [hu, stuffed_probe] at hcount
      simp only [List.length_cons, List.length_append, List.length_nil] at hcount
      obtain ⟨n, hn⟩ : ∃ n, (b :: u).length / 8 = n + 1 := ⟨(b :: u).length / 8 - 1, by
        simp only [List.length_cons]
        omega⟩
      have hremoved : (afterRemoval (b :: (rest ++ (probe c).stuffed)) left).zeroRemoved =
          octets (n + 1) (value (b :: u) ||| left) := by
        rw [afterRemoval, hu, hn]
      rw [indication_octets hremoved] at hsame
      have hclosing := congrArg MuxPduIndication.closing hsame
      have hlow : (value (b :: u) ||| left) % 2 = (value [b] ||| left) % 2 := by
        have hb : value (b :: u) % 2 ^ 1 = value [b] % 2 ^ 1 := by
          simp only [value]
          omega
        have hor := Nat.or_mod_two_pow (a := value (b :: u)) (b := left) (n := 1)
        rwa [hb, ← Nat.or_mod_two_pow] at hor
      exact hclosing.symm.trans (congrArg _ hlow)
    have htrue := hfirst true
    have hfalse := hfirst false
    rw [← hfalse] at htrue
    simp at htrue

theorem fits_of_exact (h : Inv s) (hbits : s.iRecvBits = []) {p : MuxPdu} (hexact : Exact s p) : p.Fits := by
  by_contra hfits
  have hno : ∀ i, ¬Ones 6 (p.stuffed.drop i) := stuff_no_six _
  have hle := p.le_stuffed
  rw [MuxPdu.Fits] at hfits
  have hne : p.stuffed ≠ [] := by
    intro hnil
    rw [hnil, List.length_nil] at hle
    omega
  obtain ⟨hmore, hpdu, hinv⟩ := store_full h hne (by omega)
  rw [Exact, recv_flag hno hbits, flagged, if_pos (by simpa using hpdu), remove0_spec hinv.window hinv.pos] at hexact
  have hlen := congrArg List.length hexact
  simp only [List.length_append, List.length_singleton] at hlen
  omega

/-! ## Every stream -/

theorem inv_recvBit (h : Inv s) (b : Bool) : Inv (recvBit s b) := by
  rw [recvBit]
  simp only
  split
  · split
    · split
      · have hinv := inv_remove0 h.window h.pos h.output
        exact ⟨hinv.window, hinv.pos, hinv.output, hinv.recvByte, hinv.pdu⟩
      · exact ⟨h.window, h.pos, h.output, h.recvByte, h.pdu⟩
    · have hinv := inv_appendBit h ((s.iRecvBits ++ [b]).headD false)
      exact ⟨hinv.window, hinv.pos, hinv.output, hinv.recvByte, hinv.pdu⟩
  · exact ⟨h.window, h.pos, h.output, h.recvByte, h.pdu⟩

theorem inv_foldl {stream : List Bool} (h : Inv s) : Inv (stream.foldl recvBit s) := by
  induction stream generalizing s with
  | nil => exact h
  | cons b stream ih => exact ih (inv_recvBit h b)

theorem recvBit_flag (h : Inv s) {b : Bool} (hflag : flagFound s b = true) :
    (recvBit s b).iRecvBits = [] ∧ (recvBit s b).iPdu = [] := by
  rw [flagFound, Bool.and_eq_true, beq_iff_eq] at hflag
  have hlen : (s.iRecvBits ++ [b]).length = 8 := by
    rw [List.length_append, hflag.1, List.length_singleton]
  have hrecv : recvBit s b = flagged s := by
    simp only [recvBit, if_pos hlen, if_pos hflag.2, flagged]
  rw [hrecv, flagged]
  refine ⟨rfl, ?_⟩
  split
  · rw [remove0_spec h.window h.pos]
  · next hzero => simpa using hzero

/-- **After any bits that end with a flag, the next frame is indicated as it was sent,
whatever it is, exactly when no bits are left over**; a frame that does not fit the
buffer never is. -/
theorem frames_iff (stream : List Bool) (b : Bool) (hflag : flagFound (stream.foldl recvBit construct) b = true) :
    ((∀ p : MuxPdu, p.Fits → Exact ((stream ++ [b]).foldl recvBit construct) p) ↔
      Clean ((stream ++ [b]).foldl recvBit construct)) ∧
    ∀ p : MuxPdu, Exact ((stream ++ [b]).foldl recvBit construct) p → p.Fits := by
  have hinv : Inv ((stream ++ [b]).foldl recvBit construct) := inv_foldl inv_construct
  have hstep : (stream ++ [b]).foldl recvBit construct = recvBit (stream.foldl recvBit construct) b := by
    rw [List.foldl_append]
    rfl
  have hbefore : Inv (stream.foldl recvBit construct) := inv_foldl inv_construct
  obtain ⟨hbits, hpdu⟩ := recvBit_flag hbefore hflag
  rw [← hstep] at hbits hpdu
  exact ⟨⟨clean_of_exact hinv hbits hpdu, fun hclean p hfits => (exact_of_clean hinv hbits hpdu hclean hfits).1⟩,
    fun p hexact => fits_of_exact hinv hbits hexact⟩

/-- Behind a flag at the very beginning every frame is received. -/
theorem frames_first :
    ((∀ p : MuxPdu, p.Fits → Exact (flagBits.foldl recvBit construct) p) ↔
      Clean (flagBits.foldl recvBit construct)) ∧
    ∀ p : MuxPdu, Exact (flagBits.foldl recvBit construct) p → p.Fits :=
  frames_iff [false, true, true, true, true, true, true] false (by decide)

/-- One bit of noise in front of a flag gets into the next frame. -/
theorem noise_leaks :
    ¬∀ (stream : List Bool) (b : Bool), flagFound (stream.foldl recvBit construct) b = true →
      ∀ p : MuxPdu, p.Fits → Exact ((stream ++ [b]).foldl recvBit construct) p := by
  intro hall
  have hexact := hall [true, false, true, true, true, true, true, true] false (by decide)
  have hinv : Inv (([true, false, true, true, true, true, true, true] ++ [false]).foldl recvBit construct) :=
    inv_foldl inv_construct
  have hclean := clean_of_exact hinv rfl rfl hexact
  exact absurd hclean.1 (by decide)

end Ftke.Level0PduParcom
