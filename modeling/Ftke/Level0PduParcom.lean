import Ftke.BitStuffing
import Ftke.PduParcom

/-!
# Ftke.Level0PduParcom

The receiving half of `Level0PduParcom` (`level0.cpp`): bits in, MUX-PDUs out.

The bits between two flags are stored in `iPdu`; at a flag the inserted zeros are
removed within the buffer and the result is indicated.  `remove0_spec` says what
`Remove0` leaves behind, `recv_frame` how a stuffed bit string is received.

`iRecvBits`, `iRecvByte` and `iRecvByte0` are always set to zero together with
their counts; they are modelled by the bits in them, the first one first.
`iZeroBitRemovedOutput` is not, and is a number here.
-/

namespace Ftke

open BitStuffing

/-- The members that the zero-bit removal works with; `zeroRemoved` are the octets of
`iPdu` before `iPduPosZeroRemoved`. -/
structure ZeroRemoval where
  iRecvByte0 : List Bool
  iZeroBitRemovedOutput : Nat
  iZeroBitRemovedOutputPos : Nat
  zeroRemoved : List UInt8

/-- The members of `Level0PduParcom` for the receiving side: of `iPdu` the octets before
`iPduPos`, and the calls of the observer. -/
structure Level0PduParcom where
  iRecvBits : List Bool
  iRecvByte : List Bool
  removal : ZeroRemoval
  iPdu : List UInt8
  indicated : List MuxPduIndication

namespace ZeroRemoval

/-- The loop of `AppendBits0`. -/
def flush (r : ZeroRemoval) : ZeroRemoval :=
  if 8 ≤ r.iZeroBitRemovedOutputPos then
    flush { r with
      zeroRemoved := r.zeroRemoved ++ [UInt8.ofNat r.iZeroBitRemovedOutput]
      iZeroBitRemovedOutput := r.iZeroBitRemovedOutput >>> 8
      iZeroBitRemovedOutputPos := r.iZeroBitRemovedOutputPos - 8 }
  else r
termination_by r.iZeroBitRemovedOutputPos

/-- `AppendBits0`. -/
def appendBits0 (r : ZeroRemoval) (num_bits bits : Nat) : ZeroRemoval :=
  flush { r with
    iZeroBitRemovedOutput := r.iZeroBitRemovedOutput ||| (bits <<< r.iZeroBitRemovedOutputPos)
    iZeroBitRemovedOutputPos := r.iZeroBitRemovedOutputPos + num_bits }

/-- A turn of `Remove0Octet`. -/
def remove0Bit (r : ZeroRemoval) (cur_bit : Bool) : ZeroRemoval :=
  let iRecvByte0 := r.iRecvByte0 ++ [cur_bit]
  if iRecvByte0.length = 6 then
    if value iRecvByte0 &&& 0x1F = 0x1F then { appendBits0 r 5 0x1F with iRecvByte0 := [] }
    else { appendBits0 r 1 (value iRecvByte0 &&& 1) with iRecvByte0 := iRecvByte0.tail }
  else { r with iRecvByte0 := iRecvByte0 }

/-- `Remove0Octet`, of the bits that it is called for. -/
def remove0Octet (r : ZeroRemoval) (cur_byte : List Bool) : ZeroRemoval := cur_byte.foldl remove0Bit r

end ZeroRemoval

namespace Level0PduParcom

open ZeroRemoval

/-- The constructor. -/
def construct : Level0PduParcom := ⟨[], [], ⟨[], 0, 0, []⟩, [], []⟩

/-- `iPduEndPos - iPdu`: `H223_MAX_DEMUX_PDU_SIZE - 1`. -/
def endPos : Nat := 1023

/-- What `Remove0` gives to `MuxPduIndicate`.  When not one octet is written, the header
is the one that stands in the buffer and the size wraps around. -/
def indication (r : ZeroRemoval) (iPdu : List UInt8) : MuxPduIndication :=
  let buf := r.zeroRemoved ++ iPdu.drop r.zeroRemoved.length
  let header := (buf.headD 0).toNat
  { pdu := (buf.drop 1).take ((r.zeroRemoved.length + 65535) % 65536)
    closing := ((header &&& 1 : Nat) : Int)
    muxCode := (((header >>> 1) &&& 0xf : Nat) : Int) }

/-- `Remove0`. -/
def remove0 (s : Level0PduParcom) : Level0PduParcom :=
  let r := s.iPdu.foldl (fun r o => remove0Octet r (bits o)) { s.removal with zeroRemoved := [] }
  let r := remove0Octet r s.iRecvByte
  let r := { appendBits0 r r.iRecvByte0.length (value r.iRecvByte0) with iRecvByte0 := [] }
  let r := { r with iZeroBitRemovedOutputPos := 0 }
  { s with
    iRecvByte := []
    removal := r
    indicated := s.indicated ++ [indication r s.iPdu]
    iPdu := [] }

/-- `AppendBit`. -/
def appendBit (s : Level0PduParcom) (c : Bool) : Level0PduParcom :=
  let s := { s with iRecvByte := s.iRecvByte ++ [c] }
  if s.iRecvByte.length = 8 then
    let s := if s.iPdu.length = endPos then remove0 s else s
    { s with iPdu := s.iPdu ++ [UInt8.ofNat (value s.iRecvByte)], iRecvByte := [] }
  else s

/-- The test for a flag, over the last eight bits. -/
def isFlag (iRecvBits : List Bool) : Bool := value iRecvBits &&& 0x7e == 0x7e

/-- The bit `cur_bit` is the last one of a flag. -/
def flagFound (s : Level0PduParcom) (cur_bit : Bool) : Bool :=
  s.iRecvBits.length == 7 && isFlag (s.iRecvBits ++ [cur_bit])

/-- A turn of the inner loop of `SearchForHdlcFlag`. -/
def recvBit (s : Level0PduParcom) (cur_bit : Bool) : Level0PduParcom :=
  let iRecvBits := s.iRecvBits ++ [cur_bit]
  if iRecvBits.length = 8 then
    if isFlag iRecvBits then
      let s := if s.iPdu.length ≠ 0 then remove0 s else s
      { s with iRecvBits := [] }
    else { appendBit s (iRecvBits.headD false) with iRecvBits := iRecvBits.tail }
  else { s with iRecvBits := iRecvBits }

/-- `Parse`, by `SearchForHdlcFlag`. -/
def parse (s : Level0PduParcom) (bsbuf : List UInt8) : Level0PduParcom :=
  bsbuf.foldl (fun s cur_byte => (bits cur_byte).foldl recvBit s) s

theorem parse_eq (s : Level0PduParcom) (bsbuf : List UInt8) :
    parse s bsbuf = (bsbuf.flatMap bits).foldl recvBit s := by
  rw [List.foldl_flatMap]
  rfl

end Level0PduParcom

/-! ## The zero-bit removal -/

namespace ZeroRemoval

theorem flush_spec (n v : Nat) {q : Nat} (r : ZeroRemoval) (hremoved : r.zeroRemoved = octets q v)
    (houtput : r.iZeroBitRemovedOutput = v >>> (8 * q)) (hpos : r.iZeroBitRemovedOutputPos + 8 * q = n) :
    flush r = { r with
      zeroRemoved := octets (n / 8) v
      iZeroBitRemovedOutput := v >>> (8 * (n / 8))
      iZeroBitRemovedOutputPos := n % 8 } := by
  induction r using flush.induct generalizing q with
  | case1 r hle ih =>
    rw [flush, if_pos hle, ih (q := q + 1)]
    · simp only
      rw [hremoved, houtput, octets_succ]
    · simp only
      rw [houtput, ← Nat.shiftRight_add, Nat.mul_add]
    · simp only
      omega
  | case2 r hlt =>
    obtain rfl : q = n / 8 := by omega
    obtain ⟨iRecvByte0, output, pos, zeroRemoved⟩ := r
    simp only at hremoved houtput hpos hlt
    rw [flush, if_neg hlt, hremoved, houtput, show pos = n % 8 by omega]

/-- The bits `e` have been written behind what was left in the output. -/
structure Written (r : ZeroRemoval) (left : Nat) (e : List Bool) : Prop where
  removed : r.zeroRemoved = octets (e.length / 8) (value e ||| left)
  output : r.iZeroBitRemovedOutput = (value e ||| left) >>> (8 * (e.length / 8))
  pos : r.iZeroBitRemovedOutputPos = e.length % 8

theorem value_append_or (l m : List Bool) : value (l ++ m) = value l ||| (value m <<< l.length) := by
  rw [value_append, Nat.shiftLeft_eq, Nat.mul_comm (value m), Nat.or_comm, Nat.add_comm]
  exact Nat.two_pow_add_eq_or_of_lt (value_lt l) _

theorem Written.append {r : ZeroRemoval} {left : Nat} {e : List Bool} (h : Written r left e) (l : List Bool) :
    Written (appendBits0 r l.length (value l)) left (e ++ l) ∧
      (appendBits0 r l.length (value l)).iRecvByte0 = r.iRecvByte0 := by
  obtain ⟨hremoved, houtput, hpos⟩ := h
  have hvalue : value (e ++ l) ||| left = (value e ||| left) ||| (value l <<< e.length) := by
    rw [value_append_or]
    ac_rfl
  have hplace : (value l <<< e.length) >>> (8 * (e.length / 8)) = value l <<< (e.length % 8) := by
    generalize hq : 8 * (e.length / 8) = q
    rw [show e.length = e.length % 8 + q by omega, Nat.shiftLeft_add, Nat.shiftLeft_shiftRight]
    congr 1
    omega
  rw [appendBits0, flush_spec (e ++ l).length (value (e ++ l) ||| left) (q := e.length / 8)]
  · exact ⟨⟨rfl, rfl, rfl⟩, rfl⟩
  · rw [hvalue, octets_or _ _ _ (by omega)]
    exact hremoved
  · rw [hvalue, Nat.shiftRight_or_distrib, hplace]
    simp only
    rw [houtput, hpos]
  · rw [List.length_append]
    simp only
    omega

/-- The bits `x` have been looked at. -/
structure Removing (r : ZeroRemoval) (left : Nat) (x : List Bool) : Prop where
  window : r.iRecvByte0.length < 6
  written : ∃ e, Written r left e ∧ ∀ y, unstuff (x ++ y) = e ++ unstuff (r.iRecvByte0 ++ y)

theorem window_ones {w : List Bool} (h : w.length = 6) :
    value w &&& 0x1F = 0x1F ↔ ∃ b, w = [true, true, true, true, true, b] := by
  match w, h with
  | [b0, b1, b2, b3, b4, b5], _ =>
    cases b0 <;> cases b1 <;> cases b2 <;> cases b3 <;> cases b4 <;> cases b5 <;> simp [value]

theorem Removing.step {r : ZeroRemoval} {left : Nat} {x : List Bool} (h : Removing r left x) (b : Bool) :
    Removing (remove0Bit r b) left (x ++ [b]) := by
  obtain ⟨hwindow, e, hwritten, hunstuff⟩ := h
  rw [remove0Bit]
  simp only
  split
  · next hfull =>
    split
    · next hones =>
      obtain ⟨b5, hw⟩ := (window_ones hfull).mp hones
      obtain ⟨happend, -⟩ := hwritten.append [true, true, true, true, true]
      refine ⟨by simp, e ++ [true, true, true, true, true], ⟨happend.removed, happend.output, happend.pos⟩, ?_⟩
      intro y
      have hnext := hunstuff ([b] ++ y)
      rw [← List.append_assoc, ← List.append_assoc, hw] at hnext
      rw [hnext, List.append_assoc]
      exact congrArg _ (unstuff_ones b5 y)
    · next hones =>
      obtain ⟨b0, rest, hw⟩ := List.exists_cons_of_length_pos (show 0 < (r.iRecvByte0 ++ [b]).length by omega)
      obtain ⟨happend, -⟩ := hwritten.append [b0]
      have hfirst : value (r.iRecvByte0 ++ [b]) &&& 1 = value [b0] := by
        rw [hw, value, value, value, Nat.and_one_is_mod]
        cases b0 <;> simp
      rw [hfirst]
      refine ⟨?_, e ++ [b0], ⟨happend.removed, happend.output, happend.pos⟩, ?_⟩
      · simp only [List.length_tail]
        omega
      · intro y
        have hnext := hunstuff ([b] ++ y)
        rw [← List.append_assoc, ← List.append_assoc, hw] at hnext
        rw [hnext, hw]
        have hnot : ¬Ones 5 (b0 :: (rest ++ y)) := by
          intro hfive
          have hlen : (b0 :: rest).length = 6 := by rw [← hw]; exact hfull
          rw [Ones, ← List.cons_append, List.take_append_of_le_length (by omega)] at hfive
          obtain ⟨tail, htail⟩ := ones_five.mp hfive
          simp only [htail, List.length_cons] at hlen
          obtain ⟨b5, rfl⟩ := List.length_eq_one_iff.mp (show tail.length = 1 by omega)
          exact hones ((window_ones hfull).mpr ⟨b5, hw.trans htail⟩)
        simp [unstuff_cons hnot]
  · next hshort =>
    refine ⟨?_, e, ⟨hwritten.removed, hwritten.output, hwritten.pos⟩, ?_⟩
    · simp only [List.length_append, List.length_singleton] at hshort ⊢
      omega
    · intro y
      simp only [List.append_assoc]
      exact hunstuff ([b] ++ y)

theorem Removing.foldl {left : Nat} (y : List Bool) {r : ZeroRemoval} {x : List Bool} (h : Removing r left x) :
    Removing (remove0Octet r y) left (x ++ y) := by
  induction y generalizing r x with
  | nil => rwa [List.append_nil]
  | cons b y ih =>
    have hnext := ih (h.step b)
    rwa [List.append_assoc, List.singleton_append] at hnext

theorem foldl_remove0Octet (iPdu : List UInt8) (r : ZeroRemoval) :
    iPdu.foldl (fun r o => remove0Octet r (bits o)) r = remove0Octet r (iPdu.flatMap bits) := by
  rw [remove0Octet, List.foldl_flatMap]
  rfl

theorem Removing.finish {r : ZeroRemoval} {left : Nat} {x : List Bool} (h : Removing r left x) :
    Written (appendBits0 r r.iRecvByte0.length (value r.iRecvByte0)) left (unstuff x) := by
  obtain ⟨hwindow, e, hwritten, hunstuff⟩ := h
  have hall := hunstuff []
  rw [List.append_nil, List.append_nil, unstuff_short hwindow] at hall
  rw [hall]
  exact (hwritten.append r.iRecvByte0).1

end ZeroRemoval

namespace Level0PduParcom

open ZeroRemoval

/-- The bits stored since the last flag. -/
def stored (s : Level0PduParcom) : List Bool := s.iPdu.flatMap bits ++ s.iRecvByte

/-- What is left in the removal between two frames. -/
def afterRemoval (x : List Bool) (left : Nat) : ZeroRemoval where
  iRecvByte0 := []
  iZeroBitRemovedOutput := (value (unstuff x) ||| left) >>> (8 * ((unstuff x).length / 8))
  iZeroBitRemovedOutputPos := 0
  zeroRemoved := octets ((unstuff x).length / 8) (value (unstuff x) ||| left)

/-- **`Remove0` writes the stored bits without the inserted zeros**, behind what was
left over in `iZeroBitRemovedOutput`. -/
theorem remove0_spec {s : Level0PduParcom} (hwindow : s.removal.iRecvByte0 = [])
    (hpos : s.removal.iZeroBitRemovedOutputPos = 0) :
    remove0 s = { s with
      iRecvByte := []
      removal := afterRemoval s.stored s.removal.iZeroBitRemovedOutput
      indicated := s.indicated ++ [indication (afterRemoval s.stored s.removal.iZeroBitRemovedOutput) s.iPdu]
      iPdu := [] } := by
  have hstart : Removing { s.removal with zeroRemoved := [] } s.removal.iZeroBitRemovedOutput [] := by
    refine ⟨by simp [hwindow], [], ⟨rfl, ?_, hpos⟩, fun y => by simp [hwindow]⟩
    simp [value]
  have hall := (hstart.foldl (s.iPdu.flatMap bits)).foldl s.iRecvByte
  rw [List.nil_append] at hall
  obtain ⟨hremoved, houtput, -⟩ := hall.finish
  rw [remove0]
  simp only [foldl_remove0Octet]
  rw [hremoved, houtput]
  rfl

end Level0PduParcom

end Ftke
