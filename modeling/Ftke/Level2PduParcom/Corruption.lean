import Ftke.Level2PduParcom

/-!
# Ftke.Level2PduParcom.Corruption

Streams of MUX-PDUs with bits of the headers flipped.

`Parse` trusts a header by the number of errors that `GolayDec` counts, which is
that of the syndrome.  A header with flips in the check bits only is read as it
was sent; one with a flip in the data is dropped, although the table would
correct it, and its PDU with it (`pdus_iff`).
-/

namespace Ftke.Level2PduParcom

open Golay

/-! ## Streams -/

/-- What the header of a MUX-PDU says, and the flag in front of it. -/
structure MuxPduHdr where
  closing : Bool
  muxCode : Nat
  mpl : Nat
  optionalHeader : UInt8
  muxCode_lt : muxCode < 16
  mpl_le : mpl ≤ LEVEL2_MAX_PDU_SZ

/-- No bit is flipped. -/
def noFlips : Flips := ⟨0, by decide, by decide, by decide⟩

def flagOctets (closing : Bool) : List UInt8 := if closing then [0x1E, 0xB2] else [0xE1, 0x4D]

/-- The three octets of a header word, as `CompletePdu` writes them. -/
def wordOctets (code : Nat) : List UInt8 :=
  [UInt8.ofNat ((code >>> 12) &&& 0xff), UInt8.ofNat (((code >>> 20) &&& 0xf) + ((code &&& 0xf) <<< 4)),
    UInt8.ofNat ((code >>> 4) &&& 0xff)]

/-- The data of the header word. -/
def MuxPduHdr.code (h : MuxPduHdr) : Nat := (h.mpl <<< 4) + h.muxCode

/-- The octets behind the flag, with the bits of `f` flipped. -/
def hdrOctets (oh : Bool) (h : MuxPduHdr) (f : Flips) : List UInt8 :=
  wordOctets (encTab h.code ^^^ f.mask) ++ if oh then [h.optionalHeader] else []

/-- The MUX-PDUs with the given headers and payloads, and the flag that ends the last. -/
def stream (oh : Bool) : List (MuxPduHdr × Flips) → List (List UInt8) → Bool → List UInt8
  | (h, f) :: hs, p :: ps, last => flagOctets h.closing ++ (hdrOctets oh h f ++ (p ++ stream oh hs ps last))
  | _, _, last => flagOctets last

/-- The stream as it was sent. -/
def clean (hs : List (MuxPduHdr × Flips)) : List (MuxPduHdr × Flips) := hs.map fun hf => (hf.1, noFlips)

/-- For all payloads the same PDUs are indicated as for the uncorrupted stream, in
whatever buffers the two come in. -/
def SamePdus (oh : Bool) (closing_cur : Int) (hs : List (MuxPduHdr × Flips)) (last : Bool) : Prop :=
  ∀ ps : List (List UInt8), List.Forall₂ (fun hf p => p.length = hf.1.mpl) hs ps →
    ∀ bufs bufs' : List (List UInt8),
      bufs.flatten = stream oh (clean hs) ps last → bufs'.flatten = stream oh hs ps last →
        (bufs'.foldl parse (construct oh closing_cur)).indicated =
          (bufs.foldl parse (construct oh closing_cur)).indicated

/-- No data bit is flipped, or there is nothing that could be lost. -/
def Trusted (h : MuxPduHdr) (f : Flips) : Prop :=
  f.data = 0 ∨ (h.mpl = 0 ∧ h.muxCode = 0 ∧ h.closing = false)

/-! ## Flags -/

/-- A state in which the next flag is found: between two PDUs, or while octets `0` are
searched for a flag. -/
structure AtFlag (s : Level2PduParcom) : Prop where
  op : s.iCurrentOp = .copyHdr
  hdr : s.iPduHdr = [] ∨ s.iPduHdr = [0]
  threshold : s.iThreshold = 15 ∨ s.iThreshold = 13

/-- The indications made and the one that the next flag makes. -/
def total (s : Level2PduParcom) : List MuxPduIndication := s.indicated ++ s.pending

/-- The state behind a flag. -/
def afterFlag (s : Level2PduParcom) (closing : Bool) : Level2PduParcom :=
  { s with
    iUseOh := false
    iThreshold := LEVEL2_THRESHOLD_DATA
    iPduHdr := flagOctets closing
    iPdu := []
    iMpl := 0
    iMplRemaining := 0
    iMuxCode := -1
    iClosingCur := closing.toNat
    iClosingNextRx := closing.toNat
    indicated := s.total }

theorem checkFlag_flag (closing : Bool) {trsld : Nat} (h : trsld = 15 ∨ trsld = 13) :
    checkFlag (flagOctets closing)[0]! (flagOctets closing)[1]! trsld = some (closing.toNat : Int) := by
  obtain rfl | rfl := h <;> cases closing <;> decide

theorem checkFlag_zero {b : UInt8} (hb : b = 0 ∨ b = 0xE1 ∨ b = 0x1E) {trsld : Nat} (h : trsld = 15 ∨ trsld = 13) :
    checkFlag 0 b trsld = none := by
  obtain rfl | rfl := h <;> obtain rfl | rfl | rfl := hb <;> decide

variable {s : Level2PduParcom}

theorem copyHdr_nil (h : s.iPduHdr = []) (b : UInt8) :
    copyHdr s b = { s with iPduHdr := [b] } := by
  have hsz : ¬0 + 1 = s.hdrSz := by
    rw [hdrSz, LEVEL2OH_STUFFING_SZ, LEVEL2_STUFFING_SZ]
    split <;> omega
  simp only [copyHdr, h, List.length_nil, if_neg hsz, List.nil_append]

theorem copyHdr_one {b0 : UInt8} (h : s.iPduHdr = [b0]) (b : UInt8) :
    copyHdr s b = searchFlag s b0 b := by
  simp only [copyHdr, h]

theorem searchFlag_flag (s : Level2PduParcom) (closing : Bool) (h : s.iThreshold = 15 ∨ s.iThreshold = 13) :
    searchFlag s (flagOctets closing)[0]! (flagOctets closing)[1]! = afterFlag s closing := by
  rw [searchFlag, checkFlag_flag closing h]
  cases closing <;> simp [indicatePdu, resetPdu, afterFlag, total, pending, flagOctets]

/-- An octet `0` that no flag begins with: what is pending is indicated. -/
def miss (s : Level2PduParcom) (b : UInt8) : Level2PduParcom :=
  { s with
    iUseOh := false
    iThreshold := LEVEL2_THRESHOLD_SYNC
    iPduHdr := [b]
    iPdu := []
    iMpl := 0
    iMplRemaining := 0
    iMuxCode := -1
    iClosingCur := 0
    iClosingNextRx := 0
    indicated := s.total }

theorem searchFlag_zero {b : UInt8} (hb : b = 0 ∨ b = 0xE1 ∨ b = 0x1E)
    (h : s.iThreshold = 15 ∨ s.iThreshold = 13) : searchFlag s 0 b = miss s b := by
  rw [searchFlag, checkFlag_zero hb h]
  simp [indicatePdu, resetPdu, miss, total, pending]

@[simp] theorem total_miss (s : Level2PduParcom) (b : UInt8) : total (miss s b) = total s := by
  simp [total, pending, miss]

theorem afterFlag_miss (s : Level2PduParcom) (b : UInt8) (closing : Bool) :
    afterFlag (miss s b) closing = afterFlag s closing := by
  simp only [afterFlag, total_miss]
  rfl

/-- **A flag ends what is pending**, wherever it is found. -/
theorem parse_flag (h : AtFlag s) (closing : Bool) (rest : List UInt8) :
    parse s (flagOctets closing ++ rest) = parse (afterFlag s closing) rest := by
  have hflag : flagOctets closing ++ rest =
      (flagOctets closing)[0]! :: (flagOctets closing)[1]! :: rest := by cases closing <;> rfl
  have hfirst : (flagOctets closing)[0]! = 0 ∨ (flagOctets closing)[0]! = 0xE1 ∨
      (flagOctets closing)[0]! = 0x1E := by
    cases closing <;> decide
  rw [hflag, parse_copyHdr h.op]
  obtain hhdr | hhdr := h.hdr
  · rw [copyHdr_nil hhdr, parse_copyHdr (by exact h.op), copyHdr_one rfl, searchFlag_flag _ _ (by exact h.threshold)]
    rfl
  · rw [copyHdr_one hhdr, searchFlag_zero hfirst h.threshold, parse_copyHdr (by exact h.op), copyHdr_one rfl,
      searchFlag_flag _ _ (Or.inl rfl), afterFlag_miss]

/-! ## Headers -/

theorem code_lt (h : MuxPduHdr) : h.code < 4096 := by
  have hmpl : h.mpl ≤ 254 := h.mpl_le
  have hmux := h.muxCode_lt
  rw [MuxPduHdr.code, Nat.shiftLeft_eq]
  omega

theorem hdrCode_wordOctets {code : Nat} (h : code < 2 ^ 24) :
    hdrCode ((wordOctets code).getD 0 0).toNat ((wordOctets code).getD 1 0).toNat
      ((wordOctets code).getD 2 0).toNat = code := by
  have hlow : ∀ n : Nat, n &&& 0xf = n % 16 := fun n => Nat.and_two_pow_sub_one_eq_mod n 4
  have hoctet : ∀ n : Nat, n &&& 0xff = n % 256 := fun n => Nat.and_two_pow_sub_one_eq_mod n 8
  simp only [wordOctets, hdrCode, List.getD_cons_zero, List.getD_cons_succ, UInt8.toNat_ofNat', hlow, hoctet,
    Nat.shiftLeft_eq, Nat.shiftRight_eq_div_pow, Nat.reducePow]
  have hhigh : code / 1048576 < 16 := by omega
  have hmiddle : (code / 1048576 % 16 + code % 16 * 16) % 256 = code / 1048576 + 16 * (code % 16) := by
    rw [Nat.mod_eq_of_lt hhigh]
    omega
  have hfirst : code / 4096 % 256 % 256 = code / 4096 % 256 := Nat.mod_mod ..
  have hlast : code / 16 % 256 % 256 = code / 16 % 256 := Nat.mod_mod ..
  have hmod : (code / 1048576 + 16 * (code % 16)) % 16 = code / 1048576 := by omega
  have hdiv : (code / 1048576 + 16 * (code % 16)) / 16 = code % 16 := by omega
  have hnest : code / 4096 / 256 = code / 1048576 := Nat.div_div_eq_div_mul ..
  have hnest' : code / 16 / 256 = code / 4096 := Nat.div_div_eq_div_mul ..
  rw [hmiddle, hfirst, hlast, hmod, hdiv]
  omega

theorem copyHdr_more {hdr : List UInt8} (h : s.iPduHdr = hdr) (hlen : 2 ≤ hdr.length)
    (hlt : hdr.length + 1 < s.hdrSz) (b : UInt8) : copyHdr s b = { s with iPduHdr := hdr ++ [b] } := by
  match hdr, hlen with
  | b0 :: b1 :: hdr, _ => simp only [copyHdr, h, if_neg hlt.ne]

theorem copyHdr_last {hdr : List UInt8} (h : s.iPduHdr = hdr) (hlen : 2 ≤ hdr.length)
    (hsz : hdr.length + 1 = s.hdrSz) (b : UInt8) : copyHdr s b = takeHdr s (hdr ++ [b]) := by
  match hdr, hlen with
  | b0 :: b1 :: hdr, _ => simp only [copyHdr, h, if_pos hsz]

theorem takeHdr_iPduHdr (s : Level2PduParcom) (read hdr : List UInt8) :
    takeHdr { s with iPduHdr := read } hdr = takeHdr s hdr := by
  rw [takeHdr, takeHdr]
  generalize parseHdr hdr = parsed
  obtain ⟨mpl, muxCode, num_errors⟩ := parsed
  simp only
  split <;> try split
  all_goals rfl

theorem parse_hdr {octets : List UInt8} (hne : octets ≠ []) (rest : List UInt8)
    (hop : s.iCurrentOp = .copyHdr) (hlen : 2 ≤ s.iPduHdr.length) (hsz : (s.iPduHdr ++ octets).length = s.hdrSz) :
    parse s (octets ++ rest) = parse (takeHdr s (s.iPduHdr ++ octets)) rest := by
  induction octets generalizing s with
  | nil => exact absurd rfl hne
  | cons b octets ih =>
    rw [List.length_append, List.length_cons] at hsz
    rw [List.cons_append, parse_copyHdr hop]
    by_cases hnil : octets = []
    · subst hnil
      rw [copyHdr_last rfl hlen hsz, List.nil_append]
    · have hpos := List.length_pos_iff.mpr hnil
      rw [copyHdr_more rfl hlen (by omega)]
      have hlen' : 2 ≤ (s.iPduHdr ++ [b]).length := by
        rw [List.length_append]
        omega
      have hsz' : (s.iPduHdr ++ [b] ++ octets).length = s.hdrSz := by
        rw [List.append_assoc, List.length_append]
        exact hsz
      rw [ih hnil (by exact hop) hlen' hsz']
      rw [takeHdr_iPduHdr]
      simp

theorem parseHdr_hdrOctets (oh closing : Bool) (h : MuxPduHdr) (f : Flips) :
    parseHdr (flagOctets closing ++ hdrOctets oh h f) =
      let (code, numErrors) := golayDec (encTab h.code ^^^ f.mask)
      if code >>> 4 ≥ 255 then (0, -1, numErrors) else (code >>> 4, ((code &&& 0xF : Nat) : Int), numErrors) := by
  have hword := hdrCode_wordOctets (Nat.xor_lt_two_pow (encTab_lt (code_lt h)) f.lt)
  have hparse : parseHdr (flagOctets closing ++ hdrOctets oh h f) =
      let (code, numErrors) := golayDec (hdrCode ((wordOctets (encTab h.code ^^^ f.mask)).getD 0 0).toNat
        ((wordOctets (encTab h.code ^^^ f.mask)).getD 1 0).toNat
        ((wordOctets (encTab h.code ^^^ f.mask)).getD 2 0).toNat)
      if code >>> 4 ≥ 255 then (0, -1, numErrors) else (code >>> 4, ((code &&& 0xF : Nat) : Int), numErrors) := by
    cases closing <;> rfl
  rw [hparse, hword]

/-- **A header with flips in the check bits only is read as it was sent.** -/
theorem takeHdr_checkBits (hop : s.iCurrentOp = .copyHdr) (hthr : s.iThreshold = 13)
    (hmpl : s.iMplRemaining = 0) (oh closing : Bool) (h : MuxPduHdr) {f : Flips} (hf : f.data = 0) :
    takeHdr s (flagOctets closing ++ hdrOctets oh h f) =
      { s with
        iPduHdr := []
        iMpl := h.mpl
        iMuxCode := h.muxCode
        iCurrentOp := if 0 < h.mpl then .copyData else .copyHdr
        iMplRemaining := h.mpl } := by
  have hle : h.mpl ≤ 254 := h.mpl_le
  have hlt := h.muxCode_lt
  have hfew := f.ones_le
  have hcode : h.code >>> 4 = h.mpl := by
    rw [MuxPduHdr.code, Nat.shiftLeft_eq, Nat.shiftRight_eq_div_pow]
    omega
  have hmux : h.code &&& 0xF = h.muxCode := by
    rw [MuxPduHdr.code, Nat.shiftLeft_eq, show ∀ n : Nat, n &&& 0xF = n % 16 from
      fun n => Nat.and_two_pow_sub_one_eq_mod n 4]
    omega
  have hparsed : parseHdr (flagOctets closing ++ hdrOctets oh h f) =
      (h.mpl, (h.muxCode : Int), ones 11 f.checkBits) := by
    rw [parseHdr_hdrOctets, golayDec_checkBits f (code_lt h) hf]
    simp only [hcode, hmux]
    exact if_neg (by omega)
  have hn : ones 11 f.checkBits < 4 := by omega
  rw [takeHdr, hparsed]
  simp only [if_pos hn]
  obtain ⟨iOh, iThreshold, iUseOh, iCurrentOp, iPduHdr, iPdu, iMpl, iMplRemaining, iMuxCode, iClosingCur,
    iClosingNextRx, indicated⟩ := s
  simp only at hop hthr hmpl
  subst hop hthr hmpl
  by_cases hpos : 0 < h.mpl
  · simp [hpos, LEVEL2_THRESHOLD_DATA]
  · simp [show h.mpl = 0 by omega]

/-- **A header with a flip in the data is dropped.** -/
theorem takeHdr_data (hop : s.iCurrentOp = .copyHdr) (hmpl : s.iMpl = 0)
    (hmux : s.iMuxCode = -1) (oh closing : Bool) (h : MuxPduHdr) {f : Flips} (hf : f.data ≠ 0) :
    ∃ useOh : Bool, takeHdr s (flagOctets closing ++ hdrOctets oh h f) =
      { s with iPduHdr := [], iUseOh := useOh } := by
  have hfour := golayDec_data f (code_lt h) hf
  obtain ⟨mpl, muxCode, hparsed⟩ : ∃ mpl muxCode, parseHdr (flagOctets closing ++ hdrOctets oh h f) =
      (mpl, muxCode, (golayDec (encTab h.code ^^^ f.mask)).2) := by
    rw [parseHdr_hdrOctets]
    generalize golayDec (encTab h.code ^^^ f.mask) = decoded
    obtain ⟨code, numErrors⟩ := decoded
    simp only
    split
    · exact ⟨_, _, rfl⟩
    · exact ⟨_, _, rfl⟩
  rw [takeHdr, hparsed]
  generalize (golayDec (encTab h.code ^^^ f.mask)).2 = n at hfour
  obtain ⟨iOh, iThreshold, iUseOh, iCurrentOp, iPduHdr, iPdu, iMpl, iMplRemaining, iMuxCode, iClosingCur,
    iClosingNextRx, indicated⟩ := s
  simp only at hop hmpl hmux
  subst hop hmpl hmux
  simp only [if_neg (show ¬n < 4 by omega)]
  by_cases heq : n = 4
  · exact ⟨true, by simp [heq]⟩
  · exact ⟨iUseOh, by simp [heq]⟩

/-! ## Frames -/

/-- What is indicated of a PDU whose header is read. -/
def pduOf (h : MuxPduHdr) (p : List UInt8) : List MuxPduIndication :=
  if h.mpl ≠ 0 ∨ 0 < h.muxCode ∨ h.closing then [⟨p, (h.closing.toNat : Int), h.muxCode⟩] else []

/-- What is indicated of one whose header is dropped, the payload being no flag. -/
def lostOf (h : MuxPduHdr) : List MuxPduIndication := if h.closing then [⟨[], 1, -1⟩] else []

theorem parse_zeros (n : Nat) (hs : AtFlag s) :
    ∃ t, AtFlag t ∧ t.iOh = s.iOh ∧ total t = total s ∧
      ∀ rest, parse s (List.replicate n 0 ++ rest) = parse t rest := by
  induction n generalizing s with
  | zero => exact ⟨s, hs, rfl, rfl, fun _ => rfl⟩
  | succ n ih =>
    have hstep : ∃ u, AtFlag u ∧ u.iOh = s.iOh ∧ total u = total s ∧ copyHdr s 0 = u := by
      obtain hhdr | hhdr := hs.hdr
      · exact ⟨{ s with iPduHdr := [0] }, ⟨hs.op, Or.inr rfl, hs.threshold⟩, rfl, rfl, copyHdr_nil hhdr 0⟩
      · exact ⟨miss s 0, ⟨hs.op, Or.inr rfl, Or.inl rfl⟩, rfl, total_miss s 0,
          (copyHdr_one hhdr 0).trans (searchFlag_zero (Or.inl rfl) hs.threshold)⟩
    obtain ⟨u, hu, hoh, htotal, hcopy⟩ := hstep
    obtain ⟨t, ht, hoh', htotal', hparse⟩ := ih hu
    refine ⟨t, ht, hoh'.trans hoh, htotal'.trans htotal, fun rest => ?_⟩
    rw [List.replicate_succ, List.cons_append, parse_copyHdr hs.op, hcopy, hparse]

theorem parse_flag_hdr (hs : AtFlag s) (h : MuxPduHdr) (f : Flips) (rest : List UInt8) :
    parse s (flagOctets h.closing ++ (hdrOctets s.iOh h f ++ rest)) =
      parse (takeHdr (afterFlag s h.closing) (flagOctets h.closing ++ hdrOctets s.iOh h f)) rest := by
  have hflag : (flagOctets h.closing).length = 2 := by cases h.closing <;> rfl
  have hlen : (hdrOctets s.iOh h f).length + 2 = s.hdrSz := by
    rw [hdrOctets, hdrSz, LEVEL2OH_STUFFING_SZ, LEVEL2_STUFFING_SZ]
    cases s.iOh <;> rfl
  have hne : hdrOctets s.iOh h f ≠ [] := by simp [hdrOctets, wordOctets]
  have hpdu : (afterFlag s h.closing).iPduHdr = flagOctets h.closing := rfl
  have hsz : ((afterFlag s h.closing).iPduHdr ++ hdrOctets s.iOh h f).length = (afterFlag s h.closing).hdrSz := by
    rw [hpdu, List.length_append, hflag, Nat.add_comm]
    exact hlen
  rw [parse_flag hs, parse_hdr hne rest (by exact hs.op) (by rw [hpdu, hflag]) hsz, hpdu]

/-- **A frame whose header is read.** -/
theorem parse_frame (hs : AtFlag s) {h : MuxPduHdr} {f : Flips} (hf : f.data = 0)
    {p : List UInt8} (hp : p.length = h.mpl) :
    ∃ t, AtFlag t ∧ t.iOh = s.iOh ∧ t.indicated = total s ∧ total t = total s ++ pduOf h p ∧
      ∀ rest, parse s (flagOctets h.closing ++ (hdrOctets s.iOh h f ++ (p ++ rest))) = parse t rest := by
  have htake := takeHdr_checkBits (s := afterFlag s h.closing) hs.op rfl rfl s.iOh h.closing h hf
  refine ⟨{ afterFlag s h.closing with iPduHdr := [], iPdu := p, iMpl := h.mpl, iMuxCode := h.muxCode },
    ⟨hs.op, Or.inl rfl, Or.inr rfl⟩, rfl, rfl, ?_, fun rest => ?_⟩
  · have hpayload : p.take h.mpl = p := List.take_of_length_le hp.le
    have hclosing : (h.closing.toNat : Int) ≠ 0 ↔ h.closing = true := by cases h.closing <;> simp
    simp only [total, pending, pduOf, afterFlag, hpayload, hclosing, Int.natCast_pos, gt_iff_lt]
  · rw [parse_flag_hdr hs, htake]
    by_cases hpos : 0 < h.mpl
    · have hne : p ++ rest ≠ [] := by
        intro hnil
        rw [(List.append_eq_nil_iff.mp hnil).1, List.length_nil] at hp
        omega
      rw [parse_copyData (by exact if_pos hpos) hne]
      simp [copyData, hp.symm, afterFlag, hs.op]
    · have hnil : p = [] := List.eq_nil_of_length_eq_zero (by omega)
      subst hnil
      simp [hp.symm, afterFlag, hs.op]

/-- **A frame whose header is dropped**, the payload being octets `0`. -/
theorem parse_lost (hs : AtFlag s) (h : MuxPduHdr) {f : Flips} (hf : f.data ≠ 0) :
    ∃ t, AtFlag t ∧ t.iOh = s.iOh ∧ total t = total s ++ lostOf h ∧
      ∀ rest, parse s (flagOctets h.closing ++ (hdrOctets s.iOh h f ++ (List.replicate h.mpl 0 ++ rest))) =
        parse t rest := by
  obtain ⟨useOh, htake⟩ := takeHdr_data (s := afterFlag s h.closing) hs.op rfl rfl s.iOh h.closing h hf
  obtain ⟨t, ht, hoh, htotal, hparse⟩ := parse_zeros h.mpl
    (s := { afterFlag s h.closing with iPduHdr := [], iUseOh := useOh }) ⟨hs.op, Or.inl rfl, Or.inr rfl⟩
  refine ⟨t, ht, hoh, htotal.trans ?_, fun rest => ?_⟩
  · cases hclosing : h.closing <;> simp [total, pending, lostOf, afterFlag, hclosing]
  · rw [parse_flag_hdr hs, htake, hparse]

/-! ## Streams with flipped bits -/

/-- What is indicated of one frame. -/
def heard (h : MuxPduHdr) (f : Flips) (p : List UInt8) : List MuxPduIndication :=
  if f.data = 0 then pduOf h p else lostOf h

/-- What is indicated of the frames of a stream. -/
def heardAll : List (MuxPduHdr × Flips) → List (List UInt8) → List MuxPduIndication
  | (h, f) :: hs, p :: ps => heard h f p ++ heardAll hs ps
  | _, _ => []

/-- A payload of which it is known what is indicated. -/
def Known (hf : MuxPduHdr × Flips) (p : List UInt8) : Prop :=
  p.length = hf.1.mpl ∧ (hf.2.data = 0 ∨ p = List.replicate hf.1.mpl 0)

variable {hs : List (MuxPduHdr × Flips)} {ps : List (List UInt8)}

theorem parse_stream (hps : List.Forall₂ Known hs ps) (last : Bool) (hs' : AtFlag s) :
    (parse s (stream s.iOh hs ps last)).indicated = total s ++ heardAll hs ps := by
  induction hps generalizing s with
  | nil =>
    have hparse := parse_flag hs' last []
    rw [List.append_nil, parse_nil] at hparse
    have hend : stream s.iOh [] [] last = flagOctets last := rfl
    rw [hend, hparse]
    exact (List.append_nil (total s)).symm
  | @cons hf p hs ps hp _ ih =>
    obtain ⟨h, f⟩ := hf
    obtain ⟨hlen, hcontent⟩ := hp
    have hframe : ∃ t, AtFlag t ∧ t.iOh = s.iOh ∧ total t = total s ++ heard h f p ∧
        ∀ rest, parse s (flagOctets h.closing ++ (hdrOctets s.iOh h f ++ (p ++ rest))) = parse t rest := by
      by_cases hf : f.data = 0
      · rw [heard, if_pos hf]
        obtain ⟨t, ht, hoh, _, hframe⟩ := parse_frame hs' hf hlen
        exact ⟨t, ht, hoh, hframe⟩
      · obtain rfl := hcontent.resolve_left hf
        rw [heard, if_neg hf]
        exact parse_lost hs' h hf
    obtain ⟨t, ht, hoh, htotal, hparse⟩ := hframe
    rw [stream, hparse, ← hoh, ih ht, htotal, heardAll, List.append_assoc]

theorem atFlag_construct (oh : Bool) (closing_cur : Int) : AtFlag (construct oh closing_cur) :=
  ⟨rfl, Or.inl rfl, Or.inl rfl⟩

theorem indicated_bufs (oh : Bool) (closing_cur : Int)
    (hps : List.Forall₂ Known hs ps) (last : Bool) {bufs : List (List UInt8)}
    (hbufs : bufs.flatten = stream oh hs ps last) :
    (bufs.foldl parse (construct oh closing_cur)).indicated =
      total (construct oh closing_cur) ++ heardAll hs ps := by
  rw [foldl_parse, hbufs]
  exact parse_stream hps last (atFlag_construct oh closing_cur)

theorem known_clean
    (hps : List.Forall₂ (fun hf p => p.length = hf.1.mpl) hs ps) : List.Forall₂ Known (clean hs) ps := by
  rw [clean, List.forall₂_map_left_iff]
  exact hps.imp fun _ _ hp => ⟨hp, Or.inl (Nat.zero_div _)⟩

theorem known_of_trusted
    (hps : List.Forall₂ (fun hf p => p.length = hf.1.mpl) hs ps) (htrust : ∀ hf ∈ hs, Trusted hf.1 hf.2) :
    List.Forall₂ Known hs ps ∧ heardAll hs ps = heardAll (clean hs) ps := by
  induction hps with
  | nil => exact ⟨.nil, rfl⟩
  | @cons hf p hs ps hp _ ih =>
    obtain ⟨h, f⟩ := hf
    obtain ⟨hknown, hheard⟩ := ih fun hf hmem => htrust hf (List.mem_cons_of_mem _ hmem)
    have hnone : heard h noFlips p = pduOf h p := rfl
    have hthis : Trusted h f := htrust (h, f) List.mem_cons_self
    obtain hdata | ⟨hmpl, hmux, hclosing⟩ := hthis
    · refine ⟨.cons ⟨hp, Or.inl hdata⟩ hknown, ?_⟩
      have hsame : heard h f p = pduOf h p := if_pos hdata
      simp only [clean, List.map_cons, heardAll, hnone, hsame]
      rw [hheard, clean]
    · -- nothing is indicated of it in either stream
      refine ⟨.cons ⟨hp, Or.inr (List.eq_replicate_iff.mpr ⟨hp, fun b hb => ?_⟩)⟩ hknown, ?_⟩
      · have hnil : p = [] := List.eq_nil_of_length_eq_zero (by rw [hp]; exact hmpl)
        simp [hnil] at hb
      · have hpdu : pduOf h p = [] := by simp [pduOf, hmpl, hmux, hclosing]
        have hsame : heard h f p = [] := by
          rw [heard, hpdu, lostOf, hclosing]
          split <;> rfl
        simp only [clean, List.map_cons, heardAll, hnone, hsame, hpdu]
        rw [hheard, clean]

/-- The indications with a multiplex entry. -/
def withEntry (l : List MuxPduIndication) : Nat := l.countP fun i => decide (0 ≤ i.muxCode)

theorem withEntry_append (l m : List MuxPduIndication) : withEntry (l ++ m) = withEntry l + withEntry m :=
  List.countP_append

theorem withEntry_heard (h : MuxPduHdr) (f : Flips) (p : List UInt8) :
    withEntry (heard h f p) ≤ withEntry (pduOf h p) ∧
      (withEntry (heard h f p) = withEntry (pduOf h p) → Trusted h f) := by
  by_cases hf : f.data = 0
  · rw [heard, if_pos hf]
    exact ⟨le_rfl, fun _ => Or.inl hf⟩
  · have hlost : withEntry (lostOf h) = 0 := by
      rw [lostOf]
      split <;> rfl
    rw [heard, if_neg hf, hlost]
    refine ⟨Nat.zero_le _, fun heq => Or.inr ?_⟩
    by_contra hsome
    have hpdu : h.mpl ≠ 0 ∨ 0 < h.muxCode ∨ h.closing = true := by
      by_contra hnone
      simp only [not_or, not_not, Nat.not_lt, Bool.not_eq_true] at hnone
      exact hsome ⟨hnone.1, by omega, hnone.2.2⟩
    rw [pduOf, if_pos hpdu] at heq
    simp [withEntry] at heq

theorem withEntry_heardAll (hlen : hs.length = ps.length) :
    withEntry (heardAll hs ps) ≤ withEntry (heardAll (clean hs) ps) ∧
      (withEntry (heardAll hs ps) = withEntry (heardAll (clean hs) ps) → ∀ hf ∈ hs, Trusted hf.1 hf.2) := by
  induction hs generalizing ps with
  | nil => exact ⟨le_rfl, fun _ _ hmem => absurd hmem List.not_mem_nil⟩
  | cons hf hs ih =>
    obtain ⟨h, f⟩ := hf
    match ps, hlen with
    | p :: ps, hlen =>
      obtain ⟨hle, heq⟩ := ih (Nat.succ.inj hlen)
      obtain ⟨hle', heq'⟩ := withEntry_heard h f p
      have hcons : heardAll (clean ((h, f) :: hs)) (p :: ps) = pduOf h p ++ heardAll (clean hs) ps := rfl
      rw [hcons, heardAll, withEntry_append, withEntry_append]
      refine ⟨by omega, fun hsum hf hmem => ?_⟩
      obtain rfl | hmem := List.mem_cons.mp hmem
      · exact heq' (by omega)
      · exact heq (by omega) hf hmem

theorem same_of_trusted {oh : Bool} {closing_cur : Int} {last : Bool}
    (htrust : ∀ hf ∈ hs, Trusted hf.1 hf.2) : SamePdus oh closing_cur hs last := by
  intro ps hps bufs bufs' hbufs hbufs'
  obtain ⟨hknown, hheard⟩ := known_of_trusted hps htrust
  rw [indicated_bufs oh closing_cur hknown last hbufs', indicated_bufs oh closing_cur (known_clean hps) last hbufs,
    hheard]

theorem trusted_of_same {oh : Bool} {closing_cur : Int} {last : Bool}
    (hsame : SamePdus oh closing_cur hs last) : ∀ hf ∈ hs, Trusted hf.1 hf.2 := by
  have hlen : List.Forall₂ (fun (hf : MuxPduHdr × Flips) (p : List UInt8) => p.length = hf.1.mpl) hs
      (hs.map fun hf => List.replicate hf.1.mpl 0) := by
    rw [List.forall₂_map_right_iff]
    exact List.forall₂_same.mpr fun hf _ => List.length_replicate
  have hknown : List.Forall₂ Known hs (hs.map fun hf => List.replicate hf.1.mpl 0) := by
    rw [List.forall₂_map_right_iff]
    exact List.forall₂_same.mpr fun hf _ => ⟨List.length_replicate, Or.inr rfl⟩
  have heq := hsame _ hlen [_] [_] (List.flatten_singleton ..) (List.flatten_singleton ..)
  rw [indicated_bufs oh closing_cur hknown last (List.flatten_singleton ..),
    indicated_bufs oh closing_cur (known_clean hlen) last (List.flatten_singleton ..)] at heq
  have hheard := List.append_cancel_left heq
  exact (withEntry_heardAll (by simp)).2 (congrArg withEntry hheard)

/-- **A corrupted stream gives the same PDUs, whatever the payloads are, exactly when
no header that matters has a flip in its data bits.** -/
theorem pdus_iff (oh : Bool) (closing_cur : Int) (hs : List (MuxPduHdr × Flips)) (last : Bool) :
    SamePdus oh closing_cur hs last ↔ ∀ hf ∈ hs, Trusted hf.1 hf.2 :=
  ⟨trusted_of_same, same_of_trusted⟩

/-- The lowest data bit of one header is flipped, and its PDU is lost. -/
theorem flipped_lost :
    ¬∀ (oh : Bool) (closing_cur : Int) (hs : List (MuxPduHdr × Flips)) (last : Bool),
      SamePdus oh closing_cur hs last := by
  intro hall
  have htrust := trusted_of_same (hall false 0
    [(⟨false, 1, 1, 0, by decide, by decide⟩, ⟨0x1000, by decide, by decide, by decide⟩)] false) _
    List.mem_cons_self
  revert htrust
  rw [Trusted, Flips.data]
  decide

end Ftke.Level2PduParcom
