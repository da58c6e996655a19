import Ftke.Level0PduParcom.Frames
import Mathlib.Data.List.Induction

/-!
# Ftke.Level0PduParcom.Transmit

The sending half of `Level0PduParcom` (`level0.cpp`): MUX-PDUs in, octets out.

Bits wait in two places: in `iTxCheck0` until it is known whether a zero has to be
inserted behind them, and in `iTxByte0` until an octet is complete.  What
`Insert0Octet` writes is the stuffed bit string (`Inserting.octet`), and a call
leaves less than an octet for the next one (`completePdu_spec`,
`getStuffing_spec`).
-/

namespace Ftke.Level0PduParcom

open BitStuffing

/-- The members of `Level0PduParcom` for the sending side, and the octets before the
write position of the call. -/
structure Tx where
  iTxByte0 : Nat
  iTxByte0Pos : Nat
  iTxCheck0 : Nat
  iTxCheck0Pos : Nat
  written : List UInt8

namespace Tx

/-- The constructor. -/
def construct : Tx := ⟨0, 0, 0, 0, []⟩

def HDLC : UInt8 := 0x7e

/-- `H223_MAX_MUX_PDU_SIZE`, for which the fragments of `iPduFragmentAlloc` are made. -/
def fragmentSize : Nat := 512

/-- The loop of `AppendTxBits0`. -/
def flush (t : Tx) : Tx :=
  if t.iTxByte0Pos ≥ 8 then
    flush { t with
      written := t.written ++ [UInt8.ofNat t.iTxByte0]
      iTxByte0 := t.iTxByte0 >>> 8
      iTxByte0Pos := t.iTxByte0Pos - 8 }
  else t
termination_by t.iTxByte0Pos

/-- `AppendTxBits0`. -/
def appendTxBits0 (t : Tx) (num_bits bits : Nat) : Tx :=
  flush { t with
    iTxByte0 := t.iTxByte0 ||| (bits <<< t.iTxByte0Pos)
    iTxByte0Pos := t.iTxByte0Pos + num_bits }

/-- `AppendTxOctet`. -/
def appendTxOctet (t : Tx) (octet : UInt8) : Tx :=
  let t :=
    if t.iTxCheck0Pos ≠ 0 then
      { appendTxBits0 t t.iTxCheck0Pos t.iTxCheck0 with iTxCheck0Pos := 0, iTxCheck0 := 0 }
    else t
  appendTxBits0 t 8 octet.toNat

@[simp] theorem flush_check (t : Tx) :
    (flush t).iTxCheck0 = t.iTxCheck0 ∧ (flush t).iTxCheck0Pos = t.iTxCheck0Pos := by
  induction t using flush.induct with
  | case1 t hfull ih => rwa [flush, if_pos hfull]
  | case2 t hless => rw [flush, if_neg hless]; exact ⟨rfl, rfl⟩

theorem appendTxBits0_check (t : Tx) (num_bits bits : Nat) :
    (appendTxBits0 t num_bits bits).iTxCheck0 = t.iTxCheck0 ∧
      (appendTxBits0 t num_bits bits).iTxCheck0Pos = t.iTxCheck0Pos := flush_check _

/-- The loop of `Insert0Octet`. -/
def insert0 (t : Tx) : Tx :=
  if h : t.iTxCheck0Pos ≥ 5 then
    if t.iTxCheck0 &&& 0x1F = 0x1F then
      insert0 { appendTxBits0 (appendTxBits0 t 5 (t.iTxCheck0 &&& 0x1F)) 1 0 with
        iTxCheck0 := t.iTxCheck0 >>> 5
        iTxCheck0Pos := t.iTxCheck0Pos - 5 }
    else
      insert0 { appendTxBits0 t 1 (t.iTxCheck0 &&& 1) with
        iTxCheck0 := t.iTxCheck0 >>> 1
        iTxCheck0Pos := t.iTxCheck0Pos - 1 }
  else t
termination_by t.iTxCheck0Pos

/-- `Insert0Octet`, which is called for all eight bits. -/
def insert0Octet (t : Tx) (octet : UInt8) : Tx :=
  insert0 { t with
    iTxCheck0 := t.iTxCheck0 ||| (octet.toNat <<< t.iTxCheck0Pos)
    iTxCheck0Pos := t.iTxCheck0Pos + 8 }

/-- The header octet. -/
def header (MuxTblNum : Nat) : UInt8 := UInt8.ofNat ((hecCrc.getD MuxTblNum 0 <<< 5) ||| (MuxTblNum <<< 1))

/-- The octets that `CompletePdu` writes; `payload` are those of the fragments behind the
first, which `Insert0` goes through. -/
def writePdu (t : Tx) (payload : List UInt8) (MuxTblNum : Nat) (pm : Bool) : Tx :=
  let t := { t with written := [] }
  let t := appendTxOctet t HDLC
  let t := appendTxOctet t HDLC
  let t := insert0Octet t (header MuxTblNum)
  let t := payload.foldl insert0Octet t
  let t := appendTxOctet t HDLC
  let t := if pm then appendTxOctet (insert0Octet t 1) HDLC else t
  appendTxOctet t HDLC

/-- `CompletePdu`; `none` when it writes behind the end of the fragment. -/
def completePdu (t : Tx) (payload : List UInt8) (MuxTblNum : Nat) (pm : Bool) : Option (List UInt8 × Tx) :=
  let t := writePdu t payload MuxTblNum pm
  if t.written.length ≤ fragmentSize then some (t.written, t) else none

/-- The loop of `GetStuffing`. -/
def stuffing : Nat → Tx → Tx
  | 0, t => t
  | n + 1, t => stuffing n (appendTxOctet t HDLC)

/-- `GetStuffing`, which returns the number of octets as a `uint16`. -/
def getStuffing (t : Tx) (max_size : UInt32) : List UInt8 × Tx :=
  let t := stuffing max_size.toNat { t with written := [] }
  (t.written.take (t.written.length % 65536), t)

/-! ## Bits that are written -/

/-- The bits `b` have been written or wait in `iTxByte0`, the bits `c` wait in `iTxCheck0`. -/
structure Holds (t : Tx) (b c : List Bool) : Prop where
  byte : ∃ p, p.length < 8 ∧ t.written.flatMap bits ++ p = b ∧ t.iTxByte0 = value p ∧ t.iTxByte0Pos = p.length
  check : t.iTxCheck0 = value c
  checkPos : t.iTxCheck0Pos = c.length

variable {l q b c x p : List Bool}

theorem value_drop {k : Nat} (hk : k ≤ l.length) : value l >>> k = value (l.drop k) := by
  have hsplit := value_append (l.take k) (l.drop k)
  have hlt := value_lt (l.take k)
  rw [List.take_append_drop, List.length_take, Nat.min_eq_left hk] at hsplit
  rw [List.length_take, Nat.min_eq_left hk] at hlt
  rw [hsplit, Nat.shiftRight_eq_div_pow, Nat.add_mul_div_left _ _ (Nat.two_pow_pos k), Nat.div_eq_of_lt hlt,
    Nat.zero_add]

theorem flush_byte (t : Tx) (hbyte : t.iTxByte0 = value q) (hpos : t.iTxByte0Pos = q.length) :
    ∃ p, p.length < 8 ∧ (flush t).written.flatMap bits ++ p = t.written.flatMap bits ++ q ∧
      (flush t).iTxByte0 = value p ∧ (flush t).iTxByte0Pos = p.length := by
  induction t using flush.induct generalizing q with
  | case1 t hfull ih =>
    rw [hpos] at hfull
    obtain ⟨p, hp, hbits, hvalue, hlen⟩ := ih (q := q.drop 8) (by rw [← value_drop hfull, hbyte])
      (by simp only [List.length_drop]; omega)
    have hoctet : bits (UInt8.ofNat t.iTxByte0) = q.take 8 := by
      have htake : (q.take 8).length = 8 := by rw [List.length_take]; omega
      have hmod : UInt8.ofNat t.iTxByte0 = UInt8.ofNat (value (q.take 8)) := by
        rw [hbyte, ← UInt8.toNat_inj, UInt8.toNat_ofNat', UInt8.toNat_ofNat']
        have hsplit := value_append (q.take 8) (q.drop 8)
        rw [List.take_append_drop, htake] at hsplit
        omega
      rw [hmod, bits_value htake]
    rw [flush, if_pos (by rw [hpos]; exact hfull)]
    refine ⟨p, hp, ?_, hvalue, hlen⟩
    rw [hbits]
    simp only [List.flatMap_append, List.flatMap_singleton, hoctet, List.append_assoc, List.take_append_drop]
  | case2 t hless =>
    rw [flush, if_neg hless]
    exact ⟨q, by omega, rfl, hbyte, hpos⟩

variable {t : Tx}

theorem Holds.bits0 (h : Holds t b c) (l : List Bool) :
    Holds (appendTxBits0 t l.length (value l)) (b ++ l) c := by
  obtain ⟨⟨p, hp, hbits, hbyte, hpos⟩, hcheck, hcheckPos⟩ := h
  obtain ⟨hkeep, hkeepPos⟩ := appendTxBits0_check t l.length (value l)
  obtain ⟨p', hp', hbits', hbyte', hpos'⟩ := flush_byte (q := p ++ l)
    { t with iTxByte0 := t.iTxByte0 ||| (value l <<< t.iTxByte0Pos), iTxByte0Pos := t.iTxByte0Pos + l.length }
    (by rw [ZeroRemoval.value_append_or, ← hbyte, ← hpos]) (by simp only [List.length_append]; omega)
  refine ⟨⟨p', hp', ?_, hbyte', hpos'⟩, hkeep.trans hcheck, hkeepPos.trans hcheckPos⟩
  rw [← hbits, List.append_assoc]
  exact hbits'

theorem Holds.octet (h : Holds t b c) (octet : UInt8) :
    Holds (appendTxOctet t octet) (b ++ c ++ bits octet) [] := by
  have hoctet := value_bits octet
  have hlen := length_bits octet
  have hflushed : Holds (if t.iTxCheck0Pos ≠ 0 then
      { appendTxBits0 t t.iTxCheck0Pos t.iTxCheck0 with iTxCheck0Pos := 0, iTxCheck0 := 0 } else t) (b ++ c) [] := by
    split
    · have hnext := h.bits0 c
      rw [← h.check, ← h.checkPos] at hnext
      exact ⟨hnext.byte, rfl, rfl⟩
    · next hzero =>
      have hnil : c = [] := List.eq_nil_of_length_eq_zero (by rw [← h.checkPos]; simpa using hzero)
      subst hnil
      rw [List.append_nil]
      exact h
  have hnext := hflushed.bits0 (bits octet)
  rwa [hoctet, hlen] at hnext

/-! ## Inserted zeros -/

theorem check_ones (h : 5 ≤ c.length) : value c &&& 0x1F = 0x1F ↔ Ones 5 c := by
  match c, h with
  | b0 :: b1 :: b2 :: b3 :: b4 :: rest, _ =>
    have hmod : value (b0 :: b1 :: b2 :: b3 :: b4 :: rest) &&& 0x1F = value [b0, b1, b2, b3, b4] := by
      rw [show ∀ n : Nat, n &&& 0x1F = n % 32 from fun n => Nat.and_two_pow_sub_one_eq_mod n 5]
      simp only [value]
      have h0 := b0.toNat_le
      have h1 := b1.toNat_le
      have h2 := b2.toNat_le
      have h3 := b3.toNat_le
      have h4 := b4.toNat_le
      omega
    rw [hmod, Ones]
    cases b0 <;> cases b1 <;> cases b2 <;> cases b3 <;> cases b4 <;> simp [value]

/-- The bits `x` have been given to `Insert0Octet`, behind the bits `b`. -/
def Inserting (t : Tx) (b x : List Bool) : Prop :=
  ∃ e c, c.length < 5 ∧ Holds t (b ++ e) c ∧ ∀ y, stuff (x ++ y) = e ++ stuff (c ++ y)

theorem insert0_spec (t : Tx) {b e c x : List Bool} (h : Holds t (b ++ e) c)
    (hx : ∀ y, stuff (x ++ y) = e ++ stuff (c ++ y)) : Inserting (insert0 t) b x := by
  induction t using insert0.induct generalizing e c with
  | case1 t hfull hones ih =>
    rw [h.checkPos] at hfull
    rw [h.check] at hones
    obtain ⟨rest, hc⟩ := ones_five.mp ((check_ones hfull).mp hones)
    have hfive := (h.bits0 [true, true, true, true, true]).bits0 [false]
    have hrest : value c >>> 5 = value rest := by rw [value_drop hfull, hc]; rfl
    have hlen : c.length - 5 = rest.length := by rw [hc]; rfl
    rw [insert0, dif_pos (by rw [h.checkPos]; exact hfull), if_pos (by rw [h.check]; exact hones)]
    refine ih (e := e ++ [true, true, true, true, true, false]) (c := rest) ⟨?_, ?_, ?_⟩ fun y => ?_
    · rw [h.check, hones]
      obtain ⟨p, hp, hbits, hbyte⟩ := hfive.byte
      exact ⟨p, hp, hbits.trans (by simp), hbyte⟩
    · simp only [h.check, hrest]
    · simp only [h.checkPos, hlen]
    · rw [hx, hc]
      simp only [List.cons_append, stuff_ones, List.append_assoc, List.nil_append]
  | case2 t hfull hones ih =>
    rw [h.checkPos] at hfull
    rw [h.check] at hones
    obtain ⟨b0, rest, hc⟩ := List.exists_cons_of_length_pos (show 0 < c.length by omega)
    have hone := h.bits0 [b0]
    have hfirst : value c &&& 1 = value [b0] := by
      rw [hc, Nat.and_one_is_mod, value, value, value]
      cases b0 <;> simp
    have hrest : value c >>> 1 = value rest := by rw [value_drop (by omega), hc]; rfl
    have hlen : c.length - 1 = rest.length := by rw [hc]; rfl
    rw [insert0, dif_pos (by rw [h.checkPos]; exact hfull), if_neg (by rw [h.check]; exact hones)]
    refine ih (e := e ++ [b0]) (c := rest) ⟨?_, ?_, ?_⟩ fun y => ?_
    · rw [h.check, hfirst, ← List.append_assoc]
      exact hone.byte
    · simp only [h.check, hrest]
    · simp only [h.checkPos, hlen]
    · have hnot : ¬Ones 5 (b0 :: (rest ++ y)) := by
        rw [← List.cons_append, ← hc, Ones, List.take_append_of_le_length hfull]
        exact fun hfive => hones ((check_ones hfull).mpr hfive)
      rw [hx, hc, List.cons_append, stuff_cons hnot, List.append_assoc, List.singleton_append]
  | case3 t hless =>
    rw [insert0, dif_neg hless]
    exact ⟨e, c, by rw [← h.checkPos]; omega, h, hx⟩

/-- **`Insert0Octet` writes the stuffed bit string**, all but the bits that wait. -/
theorem Inserting.octet (h : Inserting t b x) (octet : UInt8) :
    Inserting (insert0Octet t octet) b (x ++ bits octet) := by
  obtain ⟨e, c, _, hholds, hx⟩ := h
  refine insert0_spec _ (e := e) (c := c ++ bits octet) ⟨hholds.byte, ?_, ?_⟩ fun y => ?_
  · simp only [hholds.check, hholds.checkPos]
    rw [ZeroRemoval.value_append_or, value_bits]
  · simp only [hholds.checkPos, List.length_append, length_bits]
  · rw [List.append_assoc, hx, List.append_assoc]

theorem Inserting.foldl (h : Inserting t b x) (octets : List UInt8) :
    Inserting (octets.foldl insert0Octet t) b (x ++ octets.flatMap bits) := by
  induction octets generalizing t x with
  | nil => simpa using h
  | cons octet octets ih =>
    have hnext := ih (h.octet octet)
    rwa [List.append_assoc] at hnext

theorem inserting_nil (h : Holds t b []) : Inserting t b [] :=
  ⟨[], [], by simp, by rwa [List.append_nil], fun y => rfl⟩

theorem stuff_short (h : l.length < 5) : stuff l = l := by
  induction l with
  | nil => rfl
  | cons b l ih =>
    have hnot : ¬Ones 5 (b :: l) := by
      intro hfive
      obtain ⟨rest, hrest⟩ := ones_five.mp hfive
      rw [hrest] at h
      simp only [List.length_cons] at h
      omega
    rw [stuff_cons hnot, ih (by rw [List.length_cons] at h; omega)]

theorem bits_HDLC : bits HDLC = flagBits := rfl

theorem Inserting.flag (h : Inserting t b x) :
    Holds (appendTxOctet t HDLC) (b ++ stuff x ++ flagBits) [] := by
  obtain ⟨e, c, hc, hholds, hx⟩ := h
  have hshort := stuff_short hc
  have hall := hx []
  rw [List.append_nil, List.append_nil, hshort] at hall
  have hnext := hholds.octet HDLC
  rw [hall, ← List.append_assoc]
  exact hnext

/-! ## Calls -/

/-- Between two calls nothing waits to be checked, and what waits in `iTxByte0` is the
end of a flag. -/
structure Between (t : Tx) (p : List Bool) : Prop where
  byte : t.iTxByte0 = value p
  pos : t.iTxByte0Pos = p.length
  check : t.iTxCheck0 = 0
  checkPos : t.iTxCheck0Pos = 0
  length_lt : p.length < 8
  suffix : p <:+ flagBits

theorem between_construct : Between construct [] := ⟨rfl, rfl, rfl, rfl, by simp, List.nil_suffix⟩

theorem Between.start (h : Between t p) : Holds { t with written := [] } p [] :=
  ⟨⟨p, h.length_lt, rfl, h.byte, h.pos⟩, h.check, h.checkPos⟩

/-- The bits of frames, a flag behind each. -/
def framed (segments : List (List Bool)) : List Bool := segments.flatMap fun w => w ++ flagBits

@[simp] theorem framed_cons (w : List Bool) (segments : List (List Bool)) :
    framed (w :: segments) = w ++ (flagBits ++ framed segments) := by simp [framed]

@[simp] theorem framed_nil : framed [] = [] := rfl

theorem framed_append (l m : List (List Bool)) : framed (l ++ m) = framed l ++ framed m := by simp [framed]

theorem suffix_framed {segments : List (List Bool)} (hp : p <:+ flagBits)
    (hq : q <:+ p ++ framed segments) (hlen : q.length < 8) : q <:+ flagBits := by
  cases segments using List.reverseRecOn with
  | nil =>
    rw [framed_nil, List.append_nil] at hq
    exact hq.trans hp
  | append_singleton segments w =>
    rw [framed_append, framed_cons, framed_nil, List.append_nil, ← List.append_assoc, ← List.append_assoc] at hq
    exact List.suffix_of_suffix_length_le hq (List.suffix_append ..) (Nat.le_of_lt hlen)

/-- What `CompletePdu` sends: two flags, the PDU, a flag, behind a packet marker an empty
PDU that is closing, and a flag. -/
def pduSegments (payload : List UInt8) (MuxTblNum : Nat) (pm : Bool) : List (List Bool) :=
  [[], [], stuff ((header MuxTblNum :: payload).flatMap bits)] ++ (if pm then [stuff (bits 1)] else []) ++ [[]]

theorem writePdu_spec (h : Between t p) (payload : List UInt8) (MuxTblNum : Nat) (pm : Bool) :
    ∃ q, Between (writePdu t payload MuxTblNum pm) q ∧
      (writePdu t payload MuxTblNum pm).written.flatMap bits ++ q =
        p ++ framed (pduSegments payload MuxTblNum pm) := by
  have hflags := (h.start.octet HDLC).octet HDLC
  have hbody := ((inserting_nil hflags).octet (header MuxTblNum)).foldl payload
  have hend := hbody.flag
  have hall : Holds (writePdu t payload MuxTblNum pm) (p ++ framed (pduSegments payload MuxTblNum pm)) [] := by
    cases pm with
    | false =>
      have hlast := hend.octet HDLC
      have hbits : p ++ framed (pduSegments payload MuxTblNum false) = p ++ [] ++ bits HDLC ++ [] ++ bits HDLC ++
          stuff ([] ++ bits (header MuxTblNum) ++ payload.flatMap bits) ++ flagBits ++ [] ++ bits HDLC := by
        simp [pduSegments, bits_HDLC]
      rw [hbits]
      exact hlast
    | true =>
      have hlast := ((inserting_nil hend).octet 1).flag.octet HDLC
      have hbits : p ++ framed (pduSegments payload MuxTblNum true) = p ++ [] ++ bits HDLC ++ [] ++ bits HDLC ++
          stuff ([] ++ bits (header MuxTblNum) ++ payload.flatMap bits) ++ flagBits ++ stuff ([] ++ bits 1) ++
            flagBits ++ [] ++ bits HDLC := by
        simp [pduSegments, bits_HDLC]
      rw [hbits]
      exact hlast
  obtain ⟨⟨q, hq, hbits, hbyte, hpos⟩, hcheck, hcheckPos⟩ := hall
  exact ⟨q, ⟨hbyte, hpos, hcheck, hcheckPos, hq, suffix_framed h.suffix ⟨_, hbits⟩ hq⟩, hbits⟩

/-- How many octets `CompletePdu` writes: those that the bits which wait and its own fill. -/
theorem length_writePdu (h : Between t p) (payload : List UInt8) (MuxTblNum : Nat) (pm : Bool) :
    (writePdu t payload MuxTblNum pm).written.length =
      (p.length + (framed (pduSegments payload MuxTblNum pm)).length) / 8 := by
  obtain ⟨q, hq, hbits⟩ := writePdu_spec h payload MuxTblNum pm
  have hlen := congrArg List.length hbits
  rw [List.length_append, List.length_append, length_flatMap_bits] at hlen
  have hlt := hq.length_lt
  omega

theorem stuffing_holds (n : Nat) (h : Holds t b []) :
    Holds (stuffing n t) (b ++ framed (List.replicate n [])) [] := by
  induction n generalizing t b with
  | zero =>
    rw [List.replicate_zero, framed_nil, List.append_nil]
    exact h
  | succ n ih =>
    have hnext := ih (h.octet HDLC)
    rw [List.append_nil, bits_HDLC, List.append_assoc] at hnext
    exact hnext

theorem length_framed_flags (n : Nat) : (framed (List.replicate n [])).length = 8 * n := by
  induction n with
  | zero => rfl
  | succ n ih =>
    rw [List.replicate_succ, framed_cons, List.nil_append, List.length_append, ih, flagBits]
    simp only [List.length_cons, List.length_nil]
    omega

/-- **What `GetStuffing` returns are flags**; of more than 65535 the first ones, after
which the next call goes on as if the others had not been written. -/
theorem getStuffing_spec (h : Between t p) (max_size : UInt32) :
    ∃ q, Between (getStuffing t max_size).2 q ∧
      (getStuffing t max_size).1.flatMap bits ++ q =
        p ++ framed (List.replicate (max_size.toNat % 65536) []) := by
  obtain ⟨⟨q, hq, hbits, hbyte, hpos⟩, hcheck, hcheckPos⟩ := stuffing_holds max_size.toNat h.start
  rw [getStuffing]
  simp only
  generalize max_size.toNat = n at hbits hbyte hpos hcheck hcheckPos ⊢
  generalize stuffing n { t with written := [] } = u at hbits hbyte hpos hcheck hcheckPos ⊢
  have hsuffix : q <:+ flagBits := suffix_framed h.suffix ⟨_, hbits⟩ hq
  have hplt := h.length_lt
  have hlen := congrArg List.length hbits
  rw [List.length_append, List.length_append, length_flatMap_bits, length_framed_flags] at hlen
  have hwritten : u.written.length = n := by omega
  have hsame : q.length = p.length := by omega
  refine ⟨q, ⟨hbyte, hpos, hcheck, hcheckPos, hq, hsuffix⟩, ?_⟩
  have hle : n % 65536 ≤ n := Nat.mod_le ..
  rw [hwritten]
  generalize n % 65536 = k at hle ⊢
  -- the bits behind the first `k` octets of `p` and `k` flags are the end of a flag, too
  have hrest : (p ++ framed (List.replicate k [])).drop (8 * k) = q := by
    have hdrop : (p ++ framed (List.replicate k [])).drop (8 * k) <:+ p ++ framed (List.replicate k []) :=
      List.drop_suffix ..
    have hdropLen : ((p ++ framed (List.replicate k [])).drop (8 * k)).length = q.length := by
      rw [List.length_drop, List.length_append, length_framed_flags]
      omega
    have hdropFlag := suffix_framed h.suffix hdrop (by omega)
    exact (List.suffix_of_suffix_length_le hdropFlag hsuffix (Nat.le_of_eq hdropLen)).eq_of_length hdropLen
  have htake : (u.written.take k).flatMap bits = (p ++ framed (List.replicate k [])).take (8 * k) := by
    have hsplit : (u.written.flatMap bits).take (8 * k) = (u.written.take k).flatMap bits := by
      conv =>
        lhs
        rw [← List.take_append_drop k u.written]
      rw [List.flatMap_append, List.take_left' (by rw [length_flatMap_bits, List.length_take]; omega)]
    have hflags : framed (List.replicate n []) =
        framed (List.replicate k []) ++ framed (List.replicate (n - k) []) := by
      rw [← framed_append, List.replicate_append_replicate]
      congr 2
      omega
    have hwait : (u.written.flatMap bits).take (8 * k) = (u.written.flatMap bits ++ q).take (8 * k) :=
      (List.take_append_of_le_length (by rw [length_flatMap_bits]; omega)).symm
    rw [← hsplit, hwait, hbits, hflags, ← List.append_assoc,
      List.take_append_of_le_length (by rw [List.length_append, length_framed_flags]; omega)]
  rw [htake, ← hrest, List.take_append_drop]

end Tx

end Ftke.Level0PduParcom
