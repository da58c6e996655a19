import Ftke.Bits
import Ftke.PduParcom
import Mathlib.Algebra.Ring.Int.Defs
import Mathlib.Algebra.Ring.Nat
import Mathlib.Data.List.Induction

/-!
# Ftke.Level1PduParcom

`Level1PduParcom` (`level1.cpp`): MUX-PDUs between flags of two octets, or of
four in double flag mode.

The receiver takes the octets behind a flag in a group of the flag's size, which
is either another flag or the beginning of a PDU, and looks for the next flag
behind that group (`foldl_body`).
-/

namespace Ftke

/-- `EOperationId`. -/
inductive Level1PduParcom.OperationId where
  | lookForStartFlag
  | skipFlags
  | lookForEndFlag
deriving DecidableEq

/-- The members of `Level1PduParcom` that `Parse` works with: of `iPdu` the octets
before `iPduPos`, `none` when that is `NULL`, and the calls of the observer. -/
structure Level1PduParcom where
  iDf : Bool
  iCurrentInt32 : UInt32
  iSkipBytes : Nat
  iCurrentOp : Level1PduParcom.OperationId
  iPduPos : Option (List UInt8)
  observed : List ObserverCall

namespace Level1PduParcom

def H223_MAX_MUX_PDU_SIZE : Nat := 512

def iHecCrc : List Nat := [0, 5, 7, 2, 3, 6, 4, 1, 6, 3, 1, 4, 5, 0, 2, 7]

/-! ## Sending -/

/-- The octets of a flag. -/
def flag (iDf : Bool) : List UInt8 := if iDf then [0xe1, 0x4d, 0xe1, 0x4d] else [0xe1, 0x4d]

/-- The octet behind the flag; `pm` is its lowest bit. -/
def header (MuxTblNum : Nat) (pm : Bool) : UInt8 :=
  UInt8.ofNat ((iHecCrc.getD MuxTblNum 0 <<< 5) ||| (MuxTblNum <<< 1) ||| pm.toNat)

/-- `CompletePdu`: the octets of the packet whose fragments behind the header hold `payload`. -/
def completePdu (iDf : Bool) (payload : List UInt8) (MuxTblNum : Nat) (pm : Bool) : List UInt8 :=
  flag iDf ++ header MuxTblNum false :: payload ++ if pm then flag iDf ++ [header MuxTblNum true] else []

theorem length_flag_pos (iDf : Bool) : 0 < (flag iDf).length := by cases iDf <;> decide

/-- The loop of `GetStuffing`. -/
def stuffingLoop (iDf : Bool) (size_left : Int) : List UInt8 :=
  if size_left ≥ (flag iDf).length then flag iDf ++ stuffingLoop iDf (size_left - (flag iDf).length) else []
termination_by size_left.toNat
decreasing_by
  have hpos := length_flag_pos iDf
  omega

/-- `GetStuffing`, which takes the size for an `int32`. -/
def getStuffing (iDf : Bool) (buf_size : UInt32) : List UInt8 := stuffingLoop iDf buf_size.toInt32.toInt

/-! ## Receiving -/

/-- The constructor, and `UseDf`. -/
def construct (iDf : Bool) : Level1PduParcom := ⟨iDf, 0, 0, .lookForStartFlag, none, []⟩

def FLAG (iDf : Bool) : UInt32 := if iDf then 0xE14DE14D else 0xE14D
def FLAG_SZ (iDf : Bool) : Nat := if iDf then 4 else 2
def FLAG_MASK (iDf : Bool) : UInt32 := if iDf then 0xFFFFFFFF else 0xFFFF

/-- An octet is shifted into `iCurrentInt32`. -/
def shift (v : UInt32) (b : UInt8) : UInt32 := (v <<< 8) ||| b.toUInt32

/-- The loop that writes the group, last octet first. -/
def copyGroup : Nat → UInt32 → List UInt8 → List UInt8
  | 0, _, written => written
  | n + 1, copy_from, written => copyGroup n (copy_from >>> 8) (copy_from.toUInt8 :: written)

/-- The call that `IndicatePdu` makes for the octets of a PDU. -/
def indication : List UInt8 → List ObserverCall
  | [] => []
  | pdu :: payload =>
    let muxCode := (pdu.toNat >>> 1) &&& 0xf
    if iHecCrc.getD muxCode 0 ≠ pdu.toNat >>> 5 then [.muxPduErrIndicate .headerErr]
    else [.muxPduIndicate ⟨payload, (pdu.toNat &&& 1 : Nat), muxCode⟩]

def indicatePdu (s : Level1PduParcom) : Level1PduParcom :=
  { s with observed := s.observed ++ indication (s.iPduPos.getD []), iPduPos := none }

/-- `case ESkipFlags` of `Parse`. -/
def skipFlags (s : Level1PduParcom) : Level1PduParcom :=
  let s := { s with iSkipBytes := s.iSkipBytes + 1 }
  if s.iSkipBytes = FLAG_SZ s.iDf then
    if s.iCurrentInt32 &&& FLAG_MASK s.iDf ≠ FLAG s.iDf then
      { s with
        iPduPos := some (s.iPduPos.getD [] ++ copyGroup (FLAG_SZ s.iDf) s.iCurrentInt32 [])
        iCurrentOp := .lookForEndFlag
        iSkipBytes := 0 }
    else { s with iSkipBytes := 0 }
  else s

/-- `case ELookForEndFlag` of `Parse`; `iPduPos` is not `NULL` there. -/
def lookForEndFlag (s : Level1PduParcom) (b : UInt8) : Level1PduParcom :=
  let pdu := s.iPduPos.getD []
  if s.iCurrentInt32 &&& FLAG_MASK s.iDf = FLAG s.iDf then
    { indicatePdu { s with iPduPos := some (pdu.take (pdu.length - (FLAG_SZ s.iDf - 1))) } with
      iCurrentOp := .skipFlags }
  else if pdu.length + 1 = H223_MAX_MUX_PDU_SIZE then
    { s with
      observed := s.observed ++ [.muxPduErrIndicate .sizeErr]
      iPduPos := none
      iCurrentOp := .lookForStartFlag }
  else { s with iPduPos := some (pdu ++ [b]) }

/-- One turn of the loop of `Parse`. -/
def recvOctet (s : Level1PduParcom) (b : UInt8) : Level1PduParcom :=
  let s := { s with iCurrentInt32 := shift s.iCurrentInt32 b }
  match s.iCurrentOp with
  | .lookForStartFlag =>
    if s.iCurrentInt32 &&& FLAG_MASK s.iDf = FLAG s.iDf then
      { s with iCurrentOp := .skipFlags, iPduPos := some [] }
    else s
  | .skipFlags => skipFlags s
  | .lookForEndFlag => lookForEndFlag s b

/-- `Parse`. -/
def parse (s : Level1PduParcom) (bsbuf : List UInt8) : Level1PduParcom := bsbuf.foldl recvOctet s

theorem foldl_parse (bufs : List (List UInt8)) (s : Level1PduParcom) :
    bufs.foldl parse s = bufs.flatten.foldl recvOctet s := by
  rw [List.foldl_flatten]
  rfl

/-! ## The shift register -/

@[simp] theorem length_flag (iDf : Bool) : (flag iDf).length = FLAG_SZ iDf := by cases iDf <;> rfl

theorem toNat_shift (v : UInt32) (b : UInt8) : (shift v b).toNat = v.toNat % 2 ^ 24 * 2 ^ 8 + b.toNat := by
  have hb : b.toNat < 2 ^ 8 := b.toNat_lt
  have hshl : (v.toNat <<< (8 % 32)) % 2 ^ 32 = (v.toNat % 2 ^ 24) <<< 8 := by
    rw [Nat.shiftLeft_eq, Nat.shiftLeft_eq]
    simp only [Nat.reduceMod, Nat.reducePow]
    omega
  rw [shift, UInt32.toNat_or, UInt32.toNat_shiftLeft, UInt8.toNat_toUInt32]
  rw [show (8 : UInt32).toNat = 8 from rfl, hshl, Bits.or_of_lt hb]

/-- The value of the octets of a group. -/
def groupValue (g : List UInt8) : Nat := g.foldl (fun v b => v * 2 ^ 8 + b.toNat) 0

variable {g octets body : List UInt8}

theorem masked_group {iDf : Bool} (hg : g.length = FLAG_SZ iDf) (v : UInt32) :
    (g.foldl shift v &&& FLAG_MASK iDf).toNat = groupValue g := by
  rw [UInt32.toNat_and]
  cases iDf
  · match g, hg with
    | [a, b], _ =>
      have ha := a.toNat_lt
      have hb := b.toNat_lt
      have hmask : ∀ n, n &&& 0xFFFF = n % 2 ^ 16 := fun n => Nat.and_two_pow_sub_one_eq_mod n 16
      simp only [FLAG_MASK, List.foldl_cons, List.foldl_nil, toNat_shift, groupValue, Bool.false_eq_true,
        if_false, UInt32.reduceToNat, hmask]
      omega
  · match g, hg with
    | [a, b, c, d], _ =>
      have ha := a.toNat_lt
      have hb := b.toNat_lt
      have hc := c.toNat_lt
      have hd := d.toNat_lt
      have hmask : ∀ n, n &&& 0xFFFFFFFF = n % 2 ^ 32 := fun n => Nat.and_two_pow_sub_one_eq_mod n 32
      simp only [FLAG_MASK, List.foldl_cons, List.foldl_nil, toNat_shift, groupValue, if_true,
        UInt32.reduceToNat, hmask]
      omega

/-- **The comparison with the flag** is one of the octets. -/
theorem masked_eq_iff {iDf : Bool} (hg : g.length = FLAG_SZ iDf) (v : UInt32) :
    g.foldl shift v &&& FLAG_MASK iDf = FLAG iDf ↔ g = flag iDf := by
  rw [← UInt32.toNat_inj, masked_group hg]
  cases iDf
  · match g, hg with
    | [a, b], _ =>
      have hb := b.toNat_lt
      simp only [FLAG, flag, groupValue, List.foldl_cons, List.foldl_nil, Bool.false_eq_true, if_false,
        List.cons.injEq, and_true, ← UInt8.toNat_inj, UInt32.reduceToNat, UInt8.reduceToNat]
      omega
  · match g, hg with
    | [a, b, c, d], _ =>
      have hb := b.toNat_lt
      have hc := c.toNat_lt
      have hd := d.toNat_lt
      simp only [FLAG, flag, groupValue, List.foldl_cons, List.foldl_nil, if_true,
        List.cons.injEq, and_true, ← UInt8.toNat_inj, UInt32.reduceToNat, UInt8.reduceToNat]
      omega

theorem copyGroup_congr {n : Nat} {v w : UInt32} (h : v.toNat % 2 ^ (8 * n) = w.toNat % 2 ^ (8 * n))
    (written : List UInt8) : copyGroup n v written = copyGroup n w written := by
  induction n generalizing v w written with
  | zero => rfl
  | succ n ih =>
    have hsplit : 2 ^ (8 * (n + 1)) = 2 ^ 8 * 2 ^ (8 * n) := by rw [← Nat.pow_add]; congr 1; omega
    have hdvd : 2 ^ 8 ∣ 2 ^ (8 * (n + 1)) := hsplit ▸ Nat.dvd_mul_right ..
    have hlow : v.toUInt8 = w.toUInt8 := by
      rw [← UInt8.toNat_inj, UInt32.toNat_toUInt8, UInt32.toNat_toUInt8, ← Nat.mod_mod_of_dvd v.toNat hdvd, h,
        Nat.mod_mod_of_dvd _ hdvd]
    have hhigh : (v >>> 8).toNat % 2 ^ (8 * n) = (w >>> 8).toNat % 2 ^ (8 * n) := by
      have hdiv : ∀ u : UInt32, (u >>> 8).toNat = u.toNat / 2 ^ 8 := fun u => by
        rw [UInt32.toNat_shiftRight, Nat.shiftRight_eq_div_pow]
        rfl
      rw [hdiv, hdiv, ← Nat.mod_mul_right_div_self, ← Nat.mod_mul_right_div_self, ← hsplit, h]
    rw [copyGroup, copyGroup, hlow, ih hhigh]

theorem copyGroup_shift {n : Nat} (hn : n ≤ 3) (v : UInt32) (b : UInt8) (written : List UInt8) :
    copyGroup (n + 1) (shift v b) written = copyGroup n v (b :: written) := by
  have hb : b.toNat < 2 ^ 8 := b.toNat_lt
  have hlow : (shift v b).toUInt8 = b := by
    rw [← UInt8.toNat_inj, UInt32.toNat_toUInt8, toNat_shift]
    omega
  have hhigh : (shift v b >>> 8).toNat = v.toNat % 2 ^ (8 * 3) := by
    have hdiv : (shift v b >>> 8).toNat = (shift v b).toNat / 2 ^ 8 := by
      rw [UInt32.toNat_shiftRight, Nat.shiftRight_eq_div_pow]
      rfl
    rw [hdiv, toNat_shift]
    omega
  have hsame : (shift v b >>> 8).toNat % 2 ^ (8 * n) = v.toNat % 2 ^ (8 * n) := by
    rw [hhigh, Nat.mod_mod_of_dvd _ (Nat.pow_dvd_pow 2 (by omega))]
  rw [copyGroup, hlow, copyGroup_congr hsame]

/-- **What is copied out of the register is the group.** -/
theorem copyGroup_foldl (hg : g.length ≤ 4) (v : UInt32) (written : List UInt8) :
    copyGroup g.length (g.foldl shift v) written = g ++ written := by
  induction g using List.reverseRecOn generalizing written with
  | nil => rfl
  | append_singleton g b ih =>
    rw [List.length_append, List.length_singleton] at hg
    rw [List.foldl_append, List.length_append, List.length_singleton, List.foldl_cons, List.foldl_nil,
      copyGroup_shift (by omega), ih (by omega), List.append_assoc, List.singleton_append]

/-! ## Groups and flags -/

/-- The state behind a flag. -/
structure BehindFlag (s : Level1PduParcom) : Prop where
  op : s.iCurrentOp = .skipFlags
  skipBytes : s.iSkipBytes = 0
  pdu : s.iPduPos.getD [] = []

variable {s : Level1PduParcom}

theorem foldl_group (hs : BehindFlag s) (hg : g.length = FLAG_SZ s.iDf) :
    g.foldl recvOctet s =
      if g = flag s.iDf then { s with iCurrentInt32 := g.foldl shift s.iCurrentInt32 }
      else { s with
        iCurrentInt32 := g.foldl shift s.iCurrentInt32
        iPduPos := some g
        iCurrentOp := .lookForEndFlag } := by
  have hmasked := masked_eq_iff hg s.iCurrentInt32
  have hcopy := copyGroup_foldl (g := g) (by rw [hg, FLAG_SZ]; split <;> omega) s.iCurrentInt32 []
  obtain ⟨iDf, iCurrentInt32, iSkipBytes, iCurrentOp, iPduPos, observed⟩ := s
  obtain ⟨hop, hskip, hpdu⟩ := hs
  simp only at hop hskip hpdu hg hmasked hcopy
  subst hop hskip
  rw [hg, List.append_nil] at hcopy
  simp only [← hmasked]
  cases iDf
  · match g, hg with
    | [a, b], _ =>
      have hcopy : copyGroup 2 (shift (shift iCurrentInt32 a) b) [] = [a, b] := hcopy
      by_cases hflag : shift (shift iCurrentInt32 a) b &&& FLAG_MASK false = FLAG false <;>
        simp [recvOctet, skipFlags, FLAG_SZ, hpdu, hcopy, hflag]
  · match g, hg with
    | [a, b, c, d], _ =>
      have hcopy : copyGroup 4 (shift (shift (shift (shift iCurrentInt32 a) b) c) d) [] = [a, b, c, d] := hcopy
      by_cases hflag : shift (shift (shift (shift iCurrentInt32 a) b) c) d &&& FLAG_MASK true = FLAG true <;>
        simp [recvOctet, skipFlags, FLAG_SZ, hpdu, hcopy, hflag]

variable {b : UInt8}

theorem lookForEndFlag_flag (pdu : List UInt8) (hop : s.iCurrentOp = .lookForEndFlag)
    (hpdu : s.iPduPos = some pdu) (hflag : shift s.iCurrentInt32 b &&& FLAG_MASK s.iDf = FLAG s.iDf) :
    recvOctet s b = { s with
      iCurrentInt32 := shift s.iCurrentInt32 b
      iCurrentOp := .skipFlags
      iPduPos := none
      observed := s.observed ++ indication (pdu.take (pdu.length - (FLAG_SZ s.iDf - 1))) } := by
  simp [recvOctet, hop, lookForEndFlag, hflag, indicatePdu, hpdu]

theorem lookForEndFlag_room (pdu : List UInt8) (hop : s.iCurrentOp = .lookForEndFlag)
    (hpdu : s.iPduPos = some pdu) (hflag : shift s.iCurrentInt32 b &&& FLAG_MASK s.iDf ≠ FLAG s.iDf)
    (hroom : pdu.length + 1 ≠ H223_MAX_MUX_PDU_SIZE) :
    recvOctet s b = { s with iCurrentInt32 := shift s.iCurrentInt32 b, iPduPos := some (pdu ++ [b]) } := by
  simp [recvOctet, hop, lookForEndFlag, hflag, hpdu, hroom]

theorem lookForEndFlag_full (pdu : List UInt8) (hop : s.iCurrentOp = .lookForEndFlag)
    (hpdu : s.iPduPos = some pdu) (hflag : shift s.iCurrentInt32 b &&& FLAG_MASK s.iDf ≠ FLAG s.iDf)
    (hfull : pdu.length + 1 = H223_MAX_MUX_PDU_SIZE) :
    recvOctet s b = { s with
      iCurrentInt32 := shift s.iCurrentInt32 b
      iCurrentOp := .lookForStartFlag
      iPduPos := none
      observed := s.observed ++ [.muxPduErrIndicate .sizeErr] } := by
  simp [recvOctet, hop, lookForEndFlag, hflag, hpdu, hfull]

/-- The octets of the flag's size that begin at `i` are no flag. -/
def NoFlagAt (iDf : Bool) (stream : List UInt8) (i : Nat) : Prop :=
  (stream.drop i).take (FLAG_SZ iDf) ≠ flag iDf

instance (iDf : Bool) (stream : List UInt8) (i : Nat) : Decidable (NoFlagAt iDf stream i) :=
  inferInstanceAs (Decidable (_ ≠ _))

theorem FLAG_SZ_pos (iDf : Bool) : 0 < FLAG_SZ iDf := by cases iDf <;> decide

theorem shift_ne_flag {iDf : Bool} (hlen : FLAG_SZ iDf ≤ octets.length + 1)
    (hflag : NoFlagAt iDf (octets ++ [b]) (octets.length + 1 - FLAG_SZ iDf)) (v : UInt32) :
    shift (octets.foldl shift v) b &&& FLAG_MASK iDf ≠ FLAG iDf := by
  have hall : shift (octets.foldl shift v) b = (octets ++ [b]).foldl shift v := by simp
  have hg : ((octets ++ [b]).drop (octets.length + 1 - FLAG_SZ iDf)).length = FLAG_SZ iDf := by
    simp only [List.length_drop, List.length_append, List.length_singleton]
    omega
  rw [hall, ← List.take_append_drop (octets.length + 1 - FLAG_SZ iDf) (octets ++ [b]), List.foldl_append, ne_eq,
    masked_eq_iff hg]
  rwa [NoFlagAt, List.take_of_length_le (Nat.le_of_eq hg)] at hflag

theorem foldl_octets {pdu : List UInt8} (hop : s.iCurrentOp = .lookForEndFlag)
    (hpdu : s.iPduPos = some pdu) {v : UInt32} (hv : s.iCurrentInt32 = pdu.foldl shift v)
    (hlen : FLAG_SZ s.iDf ≤ pdu.length) (octets : List UInt8)
    (hflag : ∀ i, i + FLAG_SZ s.iDf ≤ pdu.length + octets.length → NoFlagAt s.iDf (pdu ++ octets) i)
    (hroom : pdu.length + octets.length < H223_MAX_MUX_PDU_SIZE) :
    octets.foldl recvOctet s = { s with
      iCurrentInt32 := (pdu ++ octets).foldl shift v
      iPduPos := some (pdu ++ octets) } := by
  induction octets using List.reverseRecOn with
  | nil => simp [← hv, ← hpdu]
  | append_singleton octets b ih =>
    rw [List.length_append, List.length_singleton] at hflag hroom
    have hbefore : ∀ i, i + FLAG_SZ s.iDf ≤ pdu.length + octets.length → NoFlagAt s.iDf (pdu ++ octets) i := by
      intro i hi
      have h := hflag i (by omega)
      rwa [NoFlagAt, ← List.append_assoc, List.drop_append_of_le_length (by rw [List.length_append]; omega),
        List.take_append_of_le_length (by rw [List.length_drop, List.length_append]; omega)] at h
    have hlast := hflag (pdu.length + octets.length + 1 - FLAG_SZ s.iDf) (by omega)
    have hnone : shift ((pdu ++ octets).foldl shift v) b &&& FLAG_MASK s.iDf ≠ FLAG s.iDf := by
      refine shift_ne_flag (by rw [List.length_append]; omega) ?_ v
      rwa [List.append_assoc, List.length_append]
    rw [List.foldl_append, ih hbefore (by omega), List.foldl_cons, List.foldl_nil,
      lookForEndFlag_room (pdu ++ octets) (by exact hop) rfl (by exact hnone)
        (by rw [List.length_append]; omega)]
    simp

theorem foldl_short (hop : s.iCurrentOp = .skipFlags)
    (hlen : s.iSkipBytes + octets.length < FLAG_SZ s.iDf) : (octets.foldl recvOctet s).observed = s.observed := by
  induction octets generalizing s with
  | nil => rfl
  | cons b octets ih =>
    rw [List.length_cons] at hlen
    have hstep : recvOctet s b =
        { s with iCurrentInt32 := shift s.iCurrentInt32 b, iSkipBytes := s.iSkipBytes + 1 } := by
      have hne : s.iSkipBytes + 1 ≠ FLAG_SZ s.iDf := by omega
      simp [recvOctet, hop, skipFlags, hne]
    rw [List.foldl_cons, hstep, ih (by exact hop) (by simp only; omega)]

theorem foldl_long (hs : BehindFlag s) (octets : List UInt8) (hlen : FLAG_SZ s.iDf ≤ octets.length)
    (hflag : ∀ i, i + FLAG_SZ s.iDf ≤ octets.length → NoFlagAt s.iDf octets i)
    (hroom : octets.length < H223_MAX_MUX_PDU_SIZE) :
    octets.foldl recvOctet s = { s with
      iCurrentInt32 := octets.foldl shift s.iCurrentInt32
      iPduPos := some octets
      iCurrentOp := .lookForEndFlag } := by
  have hg : (octets.take (FLAG_SZ s.iDf)).length = FLAG_SZ s.iDf := by rw [List.length_take]; omega
  have hfirst : octets.take (FLAG_SZ s.iDf) ≠ flag s.iDf := hflag 0 (by omega)
  have hgroup := foldl_group hs hg
  rw [if_neg hfirst] at hgroup
  have hrest := foldl_octets (s := { s with
      iCurrentInt32 := (octets.take (FLAG_SZ s.iDf)).foldl shift s.iCurrentInt32
      iPduPos := some (octets.take (FLAG_SZ s.iDf))
      iCurrentOp := .lookForEndFlag }) rfl rfl rfl (Nat.le_of_eq hg.symm) (octets.drop (FLAG_SZ s.iDf))
    (by rw [List.take_append_drop, ← List.length_append, List.take_append_drop]; exact hflag)
    (by rw [← List.length_append, List.take_append_drop]; exact hroom)
  rw [List.take_append_drop] at hrest
  conv =>
    lhs
    rw [← List.take_append_drop (FLAG_SZ s.iDf) octets]
  rw [List.foldl_append, hgroup, hrest]

/-- No flag begins in `body`, also with the flag behind it. -/
def NoFlagIn (iDf : Bool) (body : List UInt8) : Prop := ∀ i < body.length, NoFlagAt iDf (body ++ flag iDf) i

instance (iDf : Bool) (body : List UInt8) : Decidable (NoFlagIn iDf body) :=
  inferInstanceAs (Decidable (∀ i < body.length, _))

/-- No flag ends in a beginning of the body and the flag behind it without its last octet. -/
theorem NoFlagIn.cut {iDf : Bool} (h : NoFlagIn iDf body) {octets rest : List UInt8}
    (hall : body ++ flag iDf = octets ++ rest) (hne : rest ≠ []) (i : Nat) (hi : i + FLAG_SZ iDf ≤ octets.length) :
    NoFlagAt iDf octets i := by
  have hpos := List.length_pos_iff.mpr hne
  have hlen := congrArg List.length hall
  rw [List.length_append, List.length_append, length_flag] at hlen
  have hat := h i (by omega)
  rwa [NoFlagAt, hall, List.drop_append_of_le_length (by omega),
    List.take_append_of_le_length (by rw [List.length_drop]; omega)] at hat

theorem foldl_open (hs : BehindFlag s) (hflag : NoFlagIn s.iDf body)
    (hroom : body.length + FLAG_SZ s.iDf ≤ H223_MAX_MUX_PDU_SIZE) :
    (body.foldl recvOctet s).observed = s.observed := by
  have hk := FLAG_SZ_pos s.iDf
  by_cases hlen : FLAG_SZ s.iDf ≤ body.length
  · have hne : flag s.iDf ≠ [] := List.length_pos_iff.mp (length_flag_pos s.iDf)
    rw [foldl_long hs body hlen (hflag.cut rfl hne) (by omega)]
  · rw [foldl_short hs.op (by rw [hs.skipBytes]; omega)]

/-- **The octets of a PDU and the flag behind it**: the PDU is indicated. -/
theorem foldl_body (hs : BehindFlag s) (hne : body ≠ [])
    (hflag : NoFlagIn s.iDf body) (hroom : body.length + FLAG_SZ s.iDf ≤ H223_MAX_MUX_PDU_SIZE) :
    ∃ t, BehindFlag t ∧ t.iDf = s.iDf ∧ t.observed = s.observed ++ indication body ∧
      (body ++ flag s.iDf).foldl recvOctet s = t := by
  have hpos := List.length_pos_iff.mpr hne
  have hk := FLAG_SZ_pos s.iDf
  have hend : flag s.iDf = (flag s.iDf).dropLast ++ [0x4d] := by cases s.iDf <;> rfl
  have hdrop : (flag s.iDf).dropLast.length = FLAG_SZ s.iDf - 1 := by rw [List.length_dropLast, length_flag]
  obtain ⟨octets, hoctets⟩ : ∃ octets, octets = body ++ (flag s.iDf).dropLast := ⟨_, rfl⟩
  have hall : body ++ flag s.iDf = octets ++ [0x4d] := by rw [hoctets, List.append_assoc, ← hend]
  have hlen : octets.length = body.length + FLAG_SZ s.iDf - 1 := by
    rw [hoctets, List.length_append, hdrop]
    omega
  have hlong := foldl_long hs octets (by omega) (hflag.cut hall (by simp)) (by omega)
  have hmasked : shift (octets.foldl shift s.iCurrentInt32) 0x4d &&& FLAG_MASK s.iDf = FLAG s.iDf := by
    have hfold : shift (octets.foldl shift s.iCurrentInt32) 0x4d =
        (flag s.iDf).foldl shift (body.foldl shift s.iCurrentInt32) := by
      rw [← List.foldl_append, hall]
      simp
    rw [hfold, masked_eq_iff (length_flag s.iDf)]
  have hbody : octets.take (octets.length - (FLAG_SZ s.iDf - 1)) = body := by
    rw [hlen, show body.length + FLAG_SZ s.iDf - 1 - (FLAG_SZ s.iDf - 1) = body.length by omega, hoctets,
      List.take_left]
  refine ⟨{ s with
    iCurrentInt32 := shift (octets.foldl shift s.iCurrentInt32) 0x4d
    iCurrentOp := .skipFlags
    iPduPos := none
    observed := s.observed ++ indication body }, ⟨rfl, hs.skipBytes, rfl⟩, rfl, rfl, ?_⟩
  rw [hall, List.foldl_append, hlong, List.foldl_cons, List.foldl_nil,
    lookForEndFlag_flag octets rfl rfl (by exact hmasked), hbody]

theorem foldl_full (hs : BehindFlag s) (hlen : octets.length + 1 = H223_MAX_MUX_PDU_SIZE)
    (hflag : ∀ i, i + FLAG_SZ s.iDf ≤ octets.length + 1 → NoFlagAt s.iDf (octets ++ [b]) i) :
    ((octets ++ [b]).foldl recvOctet s).observed = s.observed ++ [.muxPduErrIndicate .sizeErr] := by
  have hsz : FLAG_SZ s.iDf ≤ 4 := by cases s.iDf <;> decide
  have hsize : H223_MAX_MUX_PDU_SIZE = 512 := rfl
  have hbefore : ∀ i, i + FLAG_SZ s.iDf ≤ octets.length → NoFlagAt s.iDf octets i := by
    intro i hi
    have h := hflag i (by omega)
    rwa [NoFlagAt, List.drop_append_of_le_length (by omega),
      List.take_append_of_le_length (by rw [List.length_drop]; omega)] at h
  have hnone : shift (octets.foldl shift s.iCurrentInt32) b &&& FLAG_MASK s.iDf ≠ FLAG s.iDf :=
    shift_ne_flag (by omega) (hflag _ (by omega)) s.iCurrentInt32
  rw [List.foldl_append, foldl_long hs octets (by omega) hbefore (by omega), List.foldl_cons, List.foldl_nil,
    lookForEndFlag_full octets rfl rfl (by exact hnone) hlen]

theorem foldl_flag (hs : BehindFlag s) :
    ∃ t, BehindFlag t ∧ t.iDf = s.iDf ∧ t.observed = s.observed ∧ (flag s.iDf).foldl recvOctet s = t := by
  have hgroup := foldl_group hs (length_flag s.iDf)
  rw [if_pos rfl] at hgroup
  exact ⟨{ s with iCurrentInt32 := (flag s.iDf).foldl shift s.iCurrentInt32 }, ⟨hs.op, hs.skipBytes, hs.pdu⟩, rfl,
    rfl, hgroup⟩

theorem foldl_start (iDf : Bool) :
    ∃ t, BehindFlag t ∧ t.iDf = iDf ∧ t.observed = [] ∧ (flag iDf).foldl recvOctet (construct iDf) = t := by
  cases iDf
  · exact ⟨_, ⟨rfl, rfl, rfl⟩, rfl, rfl, rfl⟩
  · exact ⟨_, ⟨rfl, rfl, rfl⟩, rfl, rfl, rfl⟩

end Level1PduParcom

end Ftke
