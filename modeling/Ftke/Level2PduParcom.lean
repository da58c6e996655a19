import Ftke.Golay
import Ftke.PduParcom
import Mathlib.Data.List.Forall2
import Mathlib.Data.List.Basic

/-!
# Ftke.Level2PduParcom

The receiving half of `Level2PduParcom` (`level2.cpp`): octets in, MUX-PDUs out.

A MUX-PDU is a flag, a header of three Golay-coded octets (with the optional
header one more) and as many octets of payload as the header says; it is
indicated when the next flag has come.  `parse_append` says that it does not
matter how the stream is cut into buffers.

`RecoverPduData` has no caller, so that `iCopyPduWithSync` stays false; what it
guards is left out, and with it the counters of the statistics.
-/

namespace Ftke

open Golay

/-- `EOperationId`. -/
inductive OperationId where
  | copyHdr
  | copyData
deriving DecidableEq

/-- The members of `Level2PduParcom` that `Parse` works with: of `iPduHdr` and `iPdu`
the octets before their write positions, and the calls of the observer. -/
structure Level2PduParcom where
  iOh : Bool
  iThreshold : Nat
  iUseOh : Bool
  iCurrentOp : OperationId
  iPduHdr : List UInt8
  iPdu : List UInt8
  iMpl : Nat
  iMplRemaining : Nat
  iMuxCode : Int
  iClosingCur : Int
  iClosingNextRx : Int
  indicated : List MuxPduIndication

namespace Level2PduParcom

def LEVEL2_STUFFING_SZ : Nat := 5
def LEVEL2OH_STUFFING_SZ : Nat := 6
def LEVEL2_THRESHOLD_SYNC : Nat := 15
def LEVEL2_THRESHOLD_DATA : Nat := 13
def LEVEL2_MAX_PDU_SZ : Nat := 254

/-- The constructor. -/
def construct (oh : Bool) (closing_cur : Int) : Level2PduParcom where
  iOh := oh
  iThreshold := LEVEL2_THRESHOLD_SYNC
  iUseOh := false
  iCurrentOp := .copyHdr
  iPduHdr := []
  iPdu := []
  iMpl := 0
  iMplRemaining := 0
  iMuxCode := -1
  iClosingCur := closing_cur
  iClosingNextRx := 0
  indicated := []

/-- `hdr_sz` of `Parse`. -/
def hdrSz (s : Level2PduParcom) : Nat := if s.iOh then LEVEL2OH_STUFFING_SZ else LEVEL2_STUFFING_SZ

def resetPdu (s : Level2PduParcom) : Level2PduParcom :=
  { s with iPdu := [], iMpl := 0, iMplRemaining := 0, iMuxCode := -1, iClosingCur := 0 }

/-- The condition under which `IndicatePdu` calls the observer, and what it gives it. -/
def pending (s : Level2PduParcom) : List MuxPduIndication :=
  if s.iMpl ≠ 0 ∨ s.iMuxCode > 0 ∨ s.iClosingCur ≠ 0 then
    [⟨s.iPdu.take s.iMpl, s.iClosingCur, s.iMuxCode⟩]
  else []

def indicatePdu (s : Level2PduParcom) : Level2PduParcom :=
  { resetPdu { s with indicated := s.indicated ++ s.pending } with
    iClosingCur := s.iClosingNextRx, iUseOh := false }

/-- `CheckFlag`: with a match what it sets `*fClosing` to. -/
def checkFlag (b0 b1 : UInt8) (trsld : Nat) : Option Int :=
  let match_cnt := iNumOnes (b0 ^^^ 0xE1).toNat + iNumOnes (b1 ^^^ 0x4D).toNat
  if match_cnt ≥ trsld then some 1
  else if match_cnt ≤ 16 - trsld then some 0
  else none

/-- The header word in the three octets behind the flag. -/
def hdrCode (p0 p1 p2 : Nat) : Nat := (p0 <<< 12) + ((p1 &&& 0xf) <<< 20) + (p2 <<< 4) + (p1 >>> 4)

/-- `ParseHdr`: `*mpl`, `*muxCode` and `*numErrors`. -/
def parseHdr (hdr : List UInt8) : Nat × Int × Nat :=
  let (code, numErrors) :=
    golayDec (hdrCode (hdr.getD 2 0).toNat (hdr.getD 3 0).toNat (hdr.getD 4 0).toNat)
  let mpl := code >>> 4
  let muxCode := code &&& 0xF
  if mpl ≥ 255 then (0, -1, numErrors) else (mpl, muxCode, numErrors)

/-- The second octet of a flag, or of what is no flag. -/
def searchFlag (s : Level2PduParcom) (b0 b1 : UInt8) : Level2PduParcom :=
  match checkFlag b0 b1 s.iThreshold with
  | some fClosing =>
    indicatePdu { s with iPduHdr := [b0, b1], iClosingNextRx := fClosing, iThreshold := LEVEL2_THRESHOLD_DATA }
  | none =>
    { indicatePdu { s with iClosingNextRx := 0, iThreshold := LEVEL2_THRESHOLD_SYNC } with iPduHdr := [b1] }

/-- The last octet of a header; the size returned by `ParseHdr` is never `-1`. -/
def takeHdr (s : Level2PduParcom) (hdr : List UInt8) : Level2PduParcom :=
  let (mpl, muxCode, num_errors) := parseHdr hdr
  let s :=
    if num_errors < 4 then { s with iMpl := mpl, iMuxCode := muxCode }
    else if num_errors = 4 then { s with iUseOh := true }
    else { s with iMpl := 0, iMuxCode := -1, iCurrentOp := .copyHdr }
  let s := { s with iPduHdr := [] }
  if s.iMpl > 0 then
    { s with iThreshold := LEVEL2_THRESHOLD_DATA, iCurrentOp := .copyData, iMplRemaining := s.iMpl }
  else s

/-- `case ECopyHdr` of `Parse`. -/
def copyHdr (s : Level2PduParcom) (b : UInt8) : Level2PduParcom :=
  match s.iPduHdr with
  | [b0] => searchFlag s b0 b
  | hdr =>
    if hdr.length + 1 = s.hdrSz then takeHdr s (hdr ++ [b])
    else { s with iPduHdr := hdr ++ [b] }

/-- `case ECopyData` of `Parse`, with the octets that it copies. -/
def copyData (s : Level2PduParcom) (octets : List UInt8) : Level2PduParcom :=
  let s := { s with iPdu := s.iPdu ++ octets, iMplRemaining := s.iMplRemaining - octets.length }
  if s.iMplRemaining = 0 then { s with iCurrentOp := .copyHdr } else s

/-- `Parse`. -/
def parse (s : Level2PduParcom) (buf : List UInt8) : Level2PduParcom :=
  match buf with
  | [] => s
  | b :: rest =>
    match _hop : s.iCurrentOp with
    | .copyHdr => parse (copyHdr s b) rest
    | .copyData => parse (copyData s ((b :: rest).take s.iMplRemaining)) ((b :: rest).drop s.iMplRemaining)
termination_by (buf.length, if s.iCurrentOp = .copyData then 1 else 0)
decreasing_by
  · simp [Prod.lex_def]
  · by_cases hzero : s.iMplRemaining = 0
    · simp [Prod.lex_def, hzero, _hop, copyData]
    · simp only [Prod.lex_def, List.length_drop, List.length_cons]
      omega

/-! ## Buffers -/

@[simp] theorem parse_nil (s : Level2PduParcom) : parse s [] = s := by rw [parse]

variable {s : Level2PduParcom}

theorem parse_copyHdr (hop : s.iCurrentOp = .copyHdr) (b : UInt8) (rest : List UInt8) :
    parse s (b :: rest) = parse (copyHdr s b) rest := by
  rw [parse]
  split
  · rfl
  · next hdata => simp [hop] at hdata

theorem parse_copyData (hop : s.iCurrentOp = .copyData) {buf : List UInt8} (hne : buf ≠ []) :
    parse s buf = parse (copyData s (buf.take s.iMplRemaining)) (buf.drop s.iMplRemaining) := by
  obtain ⟨b, rest, rfl⟩ := List.exists_cons_of_ne_nil hne
  rw [parse]
  split
  · next hhdr => simp [hop] at hhdr
  · rfl

theorem copyData_append {a b : List UInt8} (hshort : a.length < s.iMplRemaining) :
    copyData (copyData s a) b = copyData s (a ++ b) := by
  have hleft : s.iMplRemaining - a.length ≠ 0 := by omega
  simp only [copyData, if_neg hleft, List.append_assoc, List.length_append, Nat.sub_sub]

/-- **Parsing does not depend on how the stream is cut into buffers.** -/
theorem parse_append (s : Level2PduParcom) (a b : List UInt8) : parse s (a ++ b) = parse (parse s a) b := by
  induction s, a using parse.induct with
  | case1 s => simp
  | case2 s x rest hop ih => rw [List.cons_append, parse_copyHdr hop, parse_copyHdr hop, ih]
  | case3 s x rest hop ih =>
    rw [parse_copyData hop (by simp), parse_copyData hop (by simp)]
    by_cases hshort : (x :: rest).length < s.iMplRemaining
    · -- the PDU goes on in `b`
      by_cases hb : b = []
      · subst hb
        simp
      have hop' : (copyData s (x :: rest)).iCurrentOp = .copyData := by
        have hleft : s.iMplRemaining - (x :: rest).length ≠ 0 := by omega
        simp only [copyData, if_neg hleft, hop]
      have hleft : (copyData s (x :: rest)).iMplRemaining = s.iMplRemaining - (x :: rest).length := by
        simp only [copyData]
        split <;> rfl
      rw [List.take_of_length_le (l := x :: rest) (by omega), List.drop_of_length_le (l := x :: rest) (by omega),
        parse_nil, parse_copyData hop' hb, hleft, copyData_append hshort, List.take_append,
        List.drop_append, List.take_of_length_le (by omega), List.drop_of_length_le (by omega), List.nil_append]
    · rw [List.take_append_of_le_length (by omega), List.drop_append_of_le_length (by omega), ih]

theorem foldl_parse (bufs : List (List UInt8)) (s : Level2PduParcom) :
    bufs.foldl parse s = parse s bufs.flatten := by
  induction bufs generalizing s with
  | nil => simp
  | cons buf bufs ih => rw [List.foldl_cons, ih, List.flatten_cons, parse_append]

end Level2PduParcom

end Ftke
