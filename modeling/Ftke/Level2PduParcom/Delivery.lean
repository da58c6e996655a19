import Ftke.Level2PduParcom.Corruption
import Mathlib.Algebra.Ring.Int.Defs

/-!
# Ftke.Level2PduParcom.Delivery

The sending half of `Level2PduParcom` (`CompletePdu`, `GetStuffing`) and what a
receiver makes of its octets.

A stuffing is the header of an empty MUX-PDU, so that all that is sent is a list
of MUX-PDUs.  The packet marker of one is the closing flag in front of the next.
The receiver gives up each when the flag behind it has come
(`indicated_of_calls`); one that is empty, has the entry 0 and stands behind a
flag that does not close anything is taken for stuffing.
-/

namespace Ftke.Level2PduParcom

open Golay

/-! ## Sending -/

/-- The arguments of `CompletePdu`: the octets of the packet behind its header
fragment, the multiplex entry and the packet marker. -/
structure MuxPdu where
  payload : List UInt8
  muxTblNum : Nat
  pm : Bool
  payload_le : payload.length ≤ LEVEL2_MAX_PDU_SZ
  muxTblNum_lt : muxTblNum < 16

/-- The members of `Level2PduParcom` that the sending half works with. -/
structure Sending where
  iOh : Bool
  iClosingNext : Bool
  iPrevMuxTblNum : Nat
  iPrevPm : Nat

/-- What the constructor sets of them. -/
def Sending.construct (oh : Bool) : Sending := ⟨oh, false, 0, 0⟩

def Sending.iHecCrc : List Nat := [0, 5, 7, 2, 3, 6, 4, 1, 6, 3, 1, 4, 5, 0, 2, 7]

/-- `GetStuffingSz`, which is `GetHeaderSz` too. -/
def Sending.stuffingSz (u : Sending) : Int := if u.iOh then LEVEL2OH_STUFFING_SZ else LEVEL2_STUFFING_SZ

/-- The sixth octet of a header. -/
def Sending.optionalHeader (u : Sending) : UInt8 :=
  UInt8.ofNat ((iHecCrc.getD u.iPrevMuxTblNum 0 <<< 1) ||| (u.iPrevMuxTblNum <<< 4) ||| u.iPrevPm)

/-- A flag and a header with the data `code`. -/
def Sending.hdr (u : Sending) (code : Nat) : List UInt8 :=
  flagOctets u.iClosingNext ++ (wordOctets (encTab code) ++ if u.iOh then [u.optionalHeader] else [])

/-- What a header leaves for the next one. -/
def Sending.next (u : Sending) (muxTblNum : Nat) (pm : Bool) : Sending :=
  if u.iOh then ⟨u.iOh, pm, muxTblNum, pm.toNat⟩ else { u with iClosingNext := pm }

/-- `CompletePdu`: the octets of the packet. -/
def completePdu (u : Sending) (pdu : MuxPdu) : List UInt8 × Sending :=
  (u.hdr ((pdu.payload.length <<< 4) + pdu.muxTblNum) ++ pdu.payload, u.next pdu.muxTblNum pdu.pm)

theorem stuffingSz_pos (u : Sending) : 0 < u.stuffingSz := by
  rw [Sending.stuffingSz, LEVEL2OH_STUFFING_SZ, LEVEL2_STUFFING_SZ]
  split <;> decide

/-- The loop of `GetStuffing`. -/
def stuffingLoop (u : Sending) (mux_code : Nat) (size_left : Int) : List UInt8 × Sending :=
  if size_left ≥ u.stuffingSz then
    let (octets, v) := stuffingLoop (u.next mux_code false) mux_code (size_left - u.stuffingSz)
    (u.hdr mux_code ++ octets, v)
  else ([], u)
termination_by size_left.toNat
decreasing_by
  have hpos := stuffingSz_pos u
  omega

/-- `GetStuffing`, which takes the size for an `int32`. -/
def getStuffing (u : Sending) (max_size : UInt32) (mux_code : Nat) : List UInt8 × Sending :=
  stuffingLoop u mux_code max_size.toInt32.toInt

inductive Call where
  | completePdu (pdu : MuxPdu)
  | getStuffing (max_size : UInt32) (mux_code : Fin 16)

def call (u : Sending) : Call → List UInt8 × Sending
  | .completePdu pdu => completePdu u pdu
  | .getStuffing max_size mux_code => getStuffing u max_size mux_code

/-- The octets of a run of calls, and the state behind it. -/
def send (u : Sending) : List Call → List UInt8 × Sending
  | [] => ([], u)
  | c :: cs => ((call u c).1 ++ (send (call u c).2 cs).1, (send (call u c).2 cs).2)

/-! ## What is to be indicated -/

/-- The MUX-PDU that a stuffing is. -/
def stuffing (mux_code : Fin 16) : MuxPdu := ⟨[], mux_code, false, Nat.zero_le _, muxEntry_lt mux_code⟩

/-- The MUX-PDUs of a call: a stuffing as often as it fits. -/
def pdusOf (oh : Bool) : Call → List MuxPdu
  | .completePdu pdu => [pdu]
  | .getStuffing max_size mux_code =>
    List.replicate (max_size.toInt32.toInt / (Sending.construct oh).stuffingSz).toNat (stuffing mux_code)

/-- The indications of MUX-PDUs that are all followed by a flag, `closing` being
the packet marker of the one before: of each its payload and its entry, unless it
is empty, has the entry 0 and closes nothing. -/
def expected (closing : Bool) : List MuxPdu → List MuxPduIndication
  | [] => []
  | pdu :: pdus =>
    (if pdu.payload = [] ∧ pdu.muxTblNum = 0 ∧ closing = false then []
      else [⟨pdu.payload, closing.toNat, pdu.muxTblNum⟩]) ++ expected pdu.pm pdus

/-! ## Stuffing as MUX-PDUs -/

/-- The octets of MUX-PDUs that are sent one behind the other. -/
def sendPdus (u : Sending) : List MuxPdu → List UInt8 × Sending
  | [] => ([], u)
  | pdu :: pdus =>
    ((completePdu u pdu).1 ++ (sendPdus (completePdu u pdu).2 pdus).1, (sendPdus (completePdu u pdu).2 pdus).2)

theorem sendPdus_append (u : Sending) (l m : List MuxPdu) :
    sendPdus u (l ++ m) =
      ((sendPdus u l).1 ++ (sendPdus (sendPdus u l).2 m).1, (sendPdus (sendPdus u l).2 m).2) := by
  induction l generalizing u with
  | nil => simp [sendPdus]
  | cons pdu l ih => simp [sendPdus, ih]

@[simp] theorem next_iOh (u : Sending) (muxTblNum : Nat) (pm : Bool) : (u.next muxTblNum pm).iOh = u.iOh := by
  rw [Sending.next]
  split <;> rfl

@[simp] theorem next_iClosingNext (u : Sending) (muxTblNum : Nat) (pm : Bool) :
    (u.next muxTblNum pm).iClosingNext = pm := by
  rw [Sending.next]
  split <;> rfl

theorem next_stuffingSz (u : Sending) (muxTblNum : Nat) (pm : Bool) :
    (u.next muxTblNum pm).stuffingSz = u.stuffingSz := by
  rw [Sending.stuffingSz, next_iOh, Sending.stuffingSz]

@[simp] theorem completePdu_iOh (u : Sending) (pdu : MuxPdu) : (completePdu u pdu).2.iOh = u.iOh := next_iOh ..

theorem sendPdus_iOh (u : Sending) (pdus : List MuxPdu) : (sendPdus u pdus).2.iOh = u.iOh := by
  induction pdus generalizing u with
  | nil => rfl
  | cons pdu pdus ih => rw [sendPdus, ih, completePdu_iOh]

theorem completePdu_stuffing (u : Sending) (mux_code : Fin 16) :
    completePdu u (stuffing mux_code) = (u.hdr mux_code, u.next mux_code false) := by
  simp [completePdu, stuffing]

theorem stuffingLoop_eq (u : Sending) (mux_code : Fin 16) (size_left : Int) :
    stuffingLoop u mux_code size_left =
      sendPdus u (List.replicate (size_left / u.stuffingSz).toNat (stuffing mux_code)) := by
  induction hn : (size_left / u.stuffingSz).toNat generalizing u size_left with
  | zero =>
    have hpos := stuffingSz_pos u
    have hsmall : ¬size_left ≥ u.stuffingSz := by
      intro hge
      have hone := Int.ediv_le_ediv hpos hge
      rw [Int.ediv_self (by omega)] at hone
      omega
    rw [stuffingLoop, if_neg hsmall, List.replicate_zero, sendPdus]
  | succ n ih =>
    have hpos := stuffingSz_pos u
    have hlarge : size_left ≥ u.stuffingSz := by
      by_contra hlt
      have hnone : size_left / u.stuffingSz < 1 := Int.ediv_lt_of_lt_mul hpos (by omega)
      omega
    have hrest : ((size_left - u.stuffingSz) / (u.next mux_code false).stuffingSz).toNat = n := by
      rw [next_stuffingSz, Int.sub_ediv_of_dvd _ (Int.dvd_refl _), Int.ediv_self (by omega)]
      omega
    rw [stuffingLoop, if_pos hlarge, ih _ _ hrest, List.replicate_succ, sendPdus, completePdu_stuffing]

theorem call_eq (u : Sending) (c : Call) : call u c = sendPdus u (pdusOf u.iOh c) := by
  cases c with
  | completePdu pdu => simp [call, pdusOf, sendPdus]
  | getStuffing max_size mux_code =>
    have hsz : (Sending.construct u.iOh).stuffingSz = u.stuffingSz := rfl
    rw [call, getStuffing, stuffingLoop_eq, pdusOf, hsz]

/-- **A run of calls sends MUX-PDUs one behind the other.** -/
theorem send_eq (u : Sending) (cs : List Call) : send u cs = sendPdus u (cs.flatMap (pdusOf u.iOh)) := by
  induction cs generalizing u with
  | nil => rfl
  | cons c cs ih =>
    have hoh : (sendPdus u (pdusOf u.iOh c)).2.iOh = u.iOh := sendPdus_iOh ..
    rw [send, ih, call_eq, hoh, List.flatMap_cons, sendPdus_append]

/-! ## Receiving -/

/-- The header of a MUX-PDU that is sent in the state `u`. -/
def hdrOf (u : Sending) (pdu : MuxPdu) : MuxPduHdr :=
  ⟨u.iClosingNext, pdu.muxTblNum, pdu.payload.length, u.optionalHeader, pdu.muxTblNum_lt, pdu.payload_le⟩

theorem completePdu_octets (u : Sending) (pdu : MuxPdu) (rest : List UInt8) :
    (completePdu u pdu).1 ++ rest = flagOctets (hdrOf u pdu).closing ++
      (hdrOctets u.iOh (hdrOf u pdu) noFlips ++ (pdu.payload ++ rest)) := by
  have hcode : encTab (hdrOf u pdu).code ^^^ noFlips.mask = encTab ((pdu.payload.length <<< 4) + pdu.muxTblNum) :=
    Nat.xor_zero _
  rw [hdrOctets, hcode]
  simp [completePdu, Sending.hdr, hdrOf]

theorem pduOf_hdrOf (u : Sending) (pdu : MuxPdu) : pduOf (hdrOf u pdu) pdu.payload =
    if pdu.payload = [] ∧ pdu.muxTblNum = 0 ∧ u.iClosingNext = false then []
    else [⟨pdu.payload, u.iClosingNext.toNat, pdu.muxTblNum⟩] := by
  have hnone : ((hdrOf u pdu).mpl ≠ 0 ∨ 0 < (hdrOf u pdu).muxCode ∨ (hdrOf u pdu).closing = true) ↔
      ¬(pdu.payload = [] ∧ pdu.muxTblNum = 0 ∧ u.iClosingNext = false) := by
    simp only [hdrOf, ne_eq, List.length_eq_zero_iff, Nat.pos_iff_ne_zero, not_and_or, Bool.not_eq_false]
  rw [pduOf]
  simp only [hnone, ite_not]
  rfl

/-- What has been indicated when the last MUX-PDU has been received, but no flag behind it. -/
theorem parse_pdus {pdus : List MuxPdu} (hne : pdus ≠ []) (u : Sending) {s : Level2PduParcom} (hs : AtFlag s)
    (hoh : s.iOh = u.iOh) :
    (parse s (sendPdus u pdus).1).indicated = total s ++ expected u.iClosingNext pdus.dropLast := by
  induction pdus generalizing u s with
  | nil => exact absurd rfl hne
  | cons pdu pdus ih =>
    obtain ⟨t, ht, hoh', hdone, htotal, hparse⟩ :=
      parse_frame hs (h := hdrOf u pdu) (f := noFlips) (Nat.zero_div _) rfl
    rw [sendPdus, completePdu_octets, ← hoh, hparse]
    by_cases hlast : pdus = []
    · subst hlast
      simpa [sendPdus, expected] using hdone
    · have hnext : (completePdu u pdu).2.iClosingNext = pdu.pm := next_iClosingNext ..
      have hoh'' : t.iOh = (completePdu u pdu).2.iOh := by rw [hoh', hoh, completePdu_iOh]
      rw [ih hlast _ ht hoh'', htotal, pduOf_hdrOf, hnext, List.dropLast_cons_of_ne_nil hlast, expected,
        List.append_assoc]

/-- **The receiver indicates the MUX-PDUs that a flag follows**, in whatever buffers
the octets come: with the payload and the entry they were sent with, and the closing
mark exactly behind a packet marker. -/
theorem indicated_of_calls (oh : Bool) (cs : List Call) {bufs : List (List UInt8)}
    (hbufs : bufs.flatten = (send (Sending.construct oh) cs).1) :
    (bufs.foldl parse (construct oh 0)).indicated = expected false (cs.flatMap (pdusOf oh)).dropLast := by
  rw [foldl_parse, hbufs, send_eq]
  by_cases hnone : cs.flatMap (pdusOf oh) = []
  · have hnone' : cs.flatMap (pdusOf (Sending.construct oh).iOh) = [] := hnone
    rw [hnone, hnone', sendPdus, parse_nil]
    rfl
  · exact parse_pdus hnone (Sending.construct oh) (atFlag_construct oh 0) rfl

/-- Two MUX-PDUs, the first with the packet marker, and stuffing around them. -/
theorem indicated_of_calls_two :
    let cs : List Call := [.getStuffing 13 0, .completePdu ⟨[7, 8], 3, true, by decide, by decide⟩,
      .completePdu ⟨[], 0, false, by decide, by decide⟩, .getStuffing 6 0]
    ([(send (Sending.construct true) cs).1].foldl parse (construct true 0)).indicated =
      [⟨[7, 8], 0, 3⟩, ⟨[], 1, 0⟩] := by
  intro cs
  exact indicated_of_calls true cs (List.flatten_singleton ..)

/-- An empty MUX-PDU with the entry 0 is not indicated, although a flag follows it. -/
theorem empty_taken_for_stuffing :
    ¬∀ (oh : Bool) (pdus : List MuxPdu) (bufs : List (List UInt8)),
      bufs.flatten = (send (Sending.construct oh) (pdus.map .completePdu)).1 →
        (bufs.foldl parse (construct oh 0)).indicated.map (fun i => (i.pdu, i.muxCode)) =
          pdus.dropLast.map fun pdu => (pdu.payload, (pdu.muxTblNum : Int)) := by
  intro hall
  have hempty := hall false (List.replicate 2 ⟨[], 0, false, by decide, by decide⟩) _ (List.flatten_singleton ..)
  have hne : (List.replicate 2 ⟨[], 0, false, by decide, by decide⟩ : List MuxPdu) ≠ [] := by simp
  have hparse := parse_pdus hne (Sending.construct false) (atFlag_construct false 0) rfl
  rw [List.foldl_cons, List.foldl_nil, send_eq] at hempty
  have hpdus : ((List.replicate 2 (⟨[], 0, false, by decide, by decide⟩ : MuxPdu)).map Call.completePdu).flatMap
      (pdusOf (Sending.construct false).iOh) = List.replicate 2 ⟨[], 0, false, by decide, by decide⟩ := rfl
  rw [hpdus, hparse] at hempty
  revert hempty
  decide

end Ftke.Level2PduParcom
