import Ftke.Level1PduParcom

/-!
# Ftke.Level1PduParcom.Delivery

Runs of `CompletePdu` and `GetStuffing` and what a receiver makes of their octets.

All that is sent is flags with something between them: nothing (stuffing), a PDU,
or the header that closes one.  What stands between two flags is indicated when
the second has come (`observed_of_calls`), as long as the PDUs hold no flag and are
not larger than `H223_MAX_MUX_PDU_SIZE` with the flag in front of them.
-/

namespace Ftke.Level1PduParcom

/-- The arguments of `CompletePdu`. -/
structure MuxPdu where
  payload : List UInt8
  muxTblNum : Nat
  pm : Bool
  muxTblNum_lt : muxTblNum < 16

inductive Call where
  | completePdu (pdu : MuxPdu)
  | getStuffing (buf_size : UInt32)

def call (iDf : Bool) : Call → List UInt8
  | .completePdu pdu => completePdu iDf pdu.payload pdu.muxTblNum pdu.pm
  | .getStuffing buf_size => getStuffing iDf buf_size

/-- The octets of a run of calls. -/
def send (iDf : Bool) (cs : List Call) : List UInt8 := cs.flatMap (call iDf)

/-- The header and the payload of a PDU. -/
def MuxPdu.body (pdu : MuxPdu) : List UInt8 := header pdu.muxTblNum false :: pdu.payload

/-- A PDU in which, with the flag behind it, there is no accidental flag, and which is
not too large. -/
structure MuxPdu.Clean (pdu : MuxPdu) (iDf : Bool) : Prop where
  noFlag : NoFlagIn iDf pdu.body
  size_le : (flag iDf).length + pdu.body.length ≤ H223_MAX_MUX_PDU_SIZE

/-! ## What is to be indicated -/

/-- How many flags a stuffing has. -/
def stuffingFlags (iDf : Bool) (buf_size : UInt32) : Nat := (buf_size.toInt32.toInt / (flag iDf).length).toNat

/-- For each flag of a call the indications of what stands between it and the next. -/
def indications (iDf : Bool) : Call → List (List ObserverCall)
  | .completePdu pdu =>
    [.muxPduIndicate ⟨pdu.payload, 0, pdu.muxTblNum⟩] ::
      if pdu.pm then [[.muxPduIndicate ⟨[], 1, pdu.muxTblNum⟩]] else []
  | .getStuffing buf_size => List.replicate (stuffingFlags iDf buf_size) []

/-- The indications of a run: those behind the last flag are not made. -/
def expected (iDf : Bool) (cs : List Call) : List ObserverCall := (cs.flatMap (indications iDf)).dropLast.flatten

/-! ## Flags and bodies -/

/-- For each flag of a call what stands between it and the next. -/
def bodies (iDf : Bool) : Call → List (List UInt8)
  | .completePdu pdu => pdu.body :: if pdu.pm then [[header pdu.muxTblNum true]] else []
  | .getStuffing buf_size => List.replicate (stuffingFlags iDf buf_size) []

/-- A flag in front of each body. -/
def flagged (iDf : Bool) (bs : List (List UInt8)) : List UInt8 := bs.flatMap fun body => flag iDf ++ body

theorem stuffingLoop_eq (iDf : Bool) (size_left : Int) :
    stuffingLoop iDf size_left = flagged iDf (List.replicate (size_left / (flag iDf).length).toNat []) := by
  have hpos : (0 : Int) < (flag iDf).length := by
    have h := length_flag_pos iDf
    omega
  induction hn : (size_left / (flag iDf).length).toNat generalizing size_left with
  | zero =>
    have hsmall : ¬size_left ≥ (flag iDf).length := by
      intro hge
      have hone := Int.ediv_le_ediv hpos hge
      rw [Int.ediv_self (by omega)] at hone
      omega
    rw [stuffingLoop, if_neg hsmall]
    rfl
  | succ n ih =>
    have hlarge : size_left ≥ (flag iDf).length := by
      by_contra hlt
      have hnone : size_left / (flag iDf).length < 1 := Int.ediv_lt_of_lt_mul hpos (by omega)
      omega
    have hrest : ((size_left - (flag iDf).length) / (flag iDf).length).toNat = n := by
      rw [Int.sub_ediv_of_dvd _ (Int.dvd_refl _), Int.ediv_self (by omega)]
      omega
    rw [stuffingLoop, if_pos hlarge, ih _ hrest, List.replicate_succ]
    simp [flagged]

theorem call_eq (iDf : Bool) (c : Call) : call iDf c = flagged iDf (bodies iDf c) := by
  cases c with
  | completePdu pdu => cases hpm : pdu.pm <;> simp [call, completePdu, bodies, flagged, MuxPdu.body, hpm]
  | getStuffing buf_size => rw [call, getStuffing, stuffingLoop_eq, bodies, stuffingFlags]

/-- **A run of calls sends bodies with a flag in front of each.** -/
theorem send_eq (iDf : Bool) (cs : List Call) : send iDf cs = flagged iDf (cs.flatMap (bodies iDf)) := by
  induction cs with
  | nil => rfl
  | cons c cs ih =>
    simp only [send, flagged, List.flatMap_cons, List.flatMap_append] at ih ⊢
    rw [ih, call_eq, flagged]

/-! ## Headers -/

theorem header_read : ∀ (muxTblNum : Fin 16) (pm : Bool),
    ((header muxTblNum pm).toNat >>> 1) &&& 0xf = muxTblNum ∧
      (header muxTblNum pm).toNat >>> 5 = iHecCrc.getD muxTblNum 0 ∧
        (header muxTblNum pm).toNat &&& 1 = pm.toNat ∧ header muxTblNum pm ≠ 0xe1 := by
  decide

theorem indication_header {muxTblNum : Nat} (hlt : muxTblNum < 16) (pm : Bool) (payload : List UInt8) :
    indication (header muxTblNum pm :: payload) = [.muxPduIndicate ⟨payload, pm.toNat, muxTblNum⟩] := by
  obtain ⟨hmux, hhec, hclosing, _⟩ := header_read ⟨muxTblNum, hlt⟩ pm
  simp only at hmux hhec hclosing
  simp [indication, hmux, hhec, hclosing]

theorem noFlagIn_closing {muxTblNum : Nat} (hlt : muxTblNum < 16) (iDf : Bool) :
    NoFlagIn iDf [header muxTblNum true] := by
  obtain ⟨_, _, _, hne⟩ := header_read ⟨muxTblNum, hlt⟩ true
  simp only at hne
  intro i hi
  obtain rfl : i = 0 := by simpa using hi
  cases iDf <;> simp [NoFlagAt, FLAG_SZ, flag, hne]

theorem flatMap_indication (iDf : Bool) (c : Call) : (bodies iDf c).map indication = indications iDf c := by
  cases c with
  | completePdu pdu =>
    have hfirst := indication_header pdu.muxTblNum_lt false pdu.payload
    have hclosing := indication_header pdu.muxTblNum_lt true []
    cases hpm : pdu.pm <;> simp [bodies, indications, MuxPdu.body, hpm, hfirst, hclosing]
  | getStuffing buf_size => simp [bodies, indications, indication]

/-! ## Receiving -/

/-- A body that is received as it was sent. -/
def Received (iDf : Bool) (body : List UInt8) : Prop :=
  NoFlagIn iDf body ∧ body.length + FLAG_SZ iDf ≤ H223_MAX_MUX_PDU_SIZE

theorem received_of_clean {iDf : Bool} {c : Call} (hclean : ∀ pdu, c = .completePdu pdu → pdu.Clean iDf) :
    ∀ body ∈ bodies iDf c, Received iDf body := by
  intro body hbody
  have hsz : FLAG_SZ iDf ≤ 4 := by cases iDf <;> decide
  have hsize : H223_MAX_MUX_PDU_SIZE = 512 := rfl
  cases c with
  | completePdu pdu =>
    obtain ⟨hflag, hle⟩ := hclean pdu rfl
    rw [length_flag] at hle
    rw [bodies] at hbody
    obtain rfl | hbody := List.mem_cons.mp hbody
    · exact ⟨hflag, by omega⟩
    · by_cases hpm : pdu.pm = true
      · rw [if_pos hpm, List.mem_singleton] at hbody
        subst hbody
        exact ⟨noFlagIn_closing pdu.muxTblNum_lt iDf, by rw [List.length_singleton]; omega⟩
      · rw [if_neg hpm] at hbody
        exact absurd hbody List.not_mem_nil
  | getStuffing buf_size =>
    obtain rfl := List.eq_of_mem_replicate hbody
    exact ⟨fun i hi => absurd hi (Nat.not_lt_zero i), by rw [List.length_nil]; omega⟩

theorem foldl_bodies (body : List UInt8) (bs : List (List UInt8)) {s : Level1PduParcom} (hs : BehindFlag s)
    (hbs : ∀ b ∈ body :: bs, Received s.iDf b) :
    ((body ++ flagged s.iDf bs).foldl recvOctet s).observed =
      s.observed ++ ((body :: bs).map indication).dropLast.flatten := by
  induction bs generalizing body s with
  | nil =>
    obtain ⟨hflag, hroom⟩ := hbs body List.mem_cons_self
    have hopen := foldl_open hs hflag hroom
    simpa [flagged] using hopen
  | cons next bs ih =>
    obtain ⟨hflag, hroom⟩ := hbs body List.mem_cons_self
    have hstep : ∃ t, BehindFlag t ∧ t.iDf = s.iDf ∧ t.observed = s.observed ++ indication body ∧
        (body ++ flag s.iDf).foldl recvOctet s = t := by
      by_cases hnil : body = []
      · subst hnil
        obtain ⟨t, ht, hdf, hobs, hfold⟩ := foldl_flag hs
        exact ⟨t, ht, hdf, by rw [hobs, indication, List.append_nil], hfold⟩
      · exact foldl_body hs hnil hflag hroom
    obtain ⟨t, ht, hdf, hobs, hfold⟩ := hstep
    have hcut : body ++ flagged s.iDf (next :: bs) = (body ++ flag s.iDf) ++ (next ++ flagged s.iDf bs) := by
      simp [flagged]
    rw [hcut, List.foldl_append, hfold, ← hdf,
      ih next ht (by rw [hdf]; exact fun b hb => hbs b (List.mem_cons_of_mem _ hb)), hobs, List.map_cons,
      List.map_cons, List.map_cons, List.dropLast_cons_of_ne_nil (List.cons_ne_nil _ _), List.flatten_cons,
      List.append_assoc]

/-- **The receiver indicates what stands between two flags**, in whatever buffers the
octets come: each PDU with its payload and its entry, and behind one with the packet
marker an empty closing one. -/
theorem observed_of_calls (iDf : Bool) (cs : List Call)
    (hclean : ∀ pdu, Call.completePdu pdu ∈ cs → pdu.Clean iDf) {bufs : List (List UInt8)}
    (hbufs : bufs.flatten = send iDf cs) :
    (bufs.foldl parse (construct iDf)).observed = expected iDf cs := by
  have hind : (cs.flatMap (bodies iDf)).map indication = cs.flatMap (indications iDf) := by
    rw [List.map_flatMap]
    exact congrArg (fun f => cs.flatMap f) (funext (flatMap_indication iDf))
  have hrecv : ∀ body ∈ cs.flatMap (bodies iDf), Received iDf body := by
    intro body hbody
    obtain ⟨c, hc, hbody⟩ := List.mem_flatMap.mp hbody
    exact received_of_clean (fun pdu heq => hclean pdu (heq ▸ hc)) body hbody
  rw [foldl_parse, hbufs, send_eq, expected, ← hind]
  generalize cs.flatMap (bodies iDf) = bs at hrecv
  cases bs with
  | nil => rfl
  | cons body bs =>
    obtain ⟨t, ht, hdf, hobs, hfold⟩ := foldl_start iDf
    have hcut : flagged iDf (body :: bs) = flag iDf ++ (body ++ flagged iDf bs) := by simp [flagged]
    have hrest := foldl_bodies body bs ht (by rw [hdf]; exact hrecv)
    rw [hdf, hobs, List.nil_append] at hrest
    rw [hcut, List.foldl_append, hfold, hrest]

/-- In double flag mode, with a single flag in the payload. -/
theorem observed_of_calls_double :
    let cs : List Call := [.getStuffing 9, .completePdu ⟨[0xe1, 0x4d, 5], 3, true, by decide⟩,
      .completePdu ⟨[], 4, false, by decide⟩, .getStuffing 4]
    ([send true cs].foldl parse (construct true)).observed =
      [.muxPduIndicate ⟨[0xe1, 0x4d, 5], 0, 3⟩, .muxPduIndicate ⟨[], 1, 3⟩, .muxPduIndicate ⟨[], 0, 4⟩] := by
  intro cs
  have hclean : ∀ pdu, Call.completePdu pdu ∈ cs → pdu.Clean true := by
    intro pdu hmem
    simp only [cs, List.mem_cons, Call.completePdu.injEq, reduceCtorEq, List.not_mem_nil, or_false, false_or]
      at hmem
    obtain rfl | rfl := hmem
    · exact ⟨by decide, by decide⟩
    · exact ⟨by decide, by decide⟩
  exact observed_of_calls true cs hclean (List.flatten_singleton ..)

/-! ## PDUs that are too large -/

theorem observed_recvOctet (s : Level1PduParcom) (b : UInt8) : s.observed <+: (recvOctet s b).observed := by
  cases hop : s.iCurrentOp with
  | lookForStartFlag =>
    simp only [recvOctet, hop]
    split <;> exact List.prefix_rfl
  | skipFlags =>
    simp only [recvOctet, hop, skipFlags]
    split <;> try split
    all_goals exact List.prefix_rfl
  | lookForEndFlag =>
    simp only [recvOctet, hop, lookForEndFlag]
    split
    · exact List.prefix_append ..
    · split
      · exact List.prefix_append ..
      · exact List.prefix_rfl

theorem observed_foldl (octets : List UInt8) (s : Level1PduParcom) :
    s.observed <+: (octets.foldl recvOctet s).observed := by
  induction octets generalizing s with
  | nil => exact List.prefix_rfl
  | cons b octets ih => exact (observed_recvOctet s b).trans (ih _)

theorem noFlagIn_zeros (iDf : Bool) (n : Nat) : NoFlagIn iDf (List.replicate n 0) := by
  intro i hi
  rw [List.length_replicate] at hi
  obtain ⟨k, hk⟩ : ∃ k, n - i = k + 1 := ⟨n - i - 1, by omega⟩
  rw [NoFlagAt, List.drop_append_of_le_length (by rw [List.length_replicate]; omega), List.drop_replicate, hk,
    List.replicate_succ, List.cons_append]
  cases iDf <;> simp [FLAG_SZ, flag]

theorem observed_large {iDf : Bool} {pdu : MuxPdu} (hflag : NoFlagIn iDf pdu.body)
    (hlarge : H223_MAX_MUX_PDU_SIZE ≤ pdu.body.length) (cs : List Call) :
    [.muxPduErrIndicate .sizeErr] <+:
      ((send iDf (.completePdu pdu :: cs)).foldl recvOctet (construct iDf)).observed := by
  obtain ⟨t, ht, hdf, hobs, hfold⟩ := foldl_start iDf
  obtain ⟨rest, hsend⟩ : ∃ rest, send iDf (.completePdu pdu :: cs) = flag iDf ++ (pdu.body ++ rest) := by
    rw [send_eq, List.flatMap_cons, bodies, List.cons_append, flagged, List.flatMap_cons, List.append_assoc]
    exact ⟨_, rfl⟩
  obtain ⟨octets, b, tail, hlen, hbody⟩ : ∃ octets b tail,
      octets.length + 1 = H223_MAX_MUX_PDU_SIZE ∧ pdu.body = (octets ++ [b]) ++ tail := by
    have hlt : 511 < pdu.body.length := hlarge
    refine ⟨pdu.body.take 511, pdu.body[511], pdu.body.drop 512, ?_, ?_⟩
    · rw [List.length_take, Nat.min_eq_left (Nat.le_of_lt hlt)]
      rfl
    · rw [List.append_assoc, List.singleton_append, ← List.drop_eq_getElem_cons hlt, List.take_append_drop]
  have hne : tail ++ flag iDf ≠ [] :=
    List.append_ne_nil_of_right_ne_nil _ (List.length_pos_iff.mp (length_flag_pos iDf))
  have hcut : pdu.body ++ flag iDf = (octets ++ [b]) ++ (tail ++ flag iDf) := by rw [hbody, List.append_assoc]
  have hfull := foldl_full ht (b := b) hlen (by
    rw [hdf]
    exact fun i hi => hflag.cut hcut hne i (by rw [List.length_append, List.length_singleton]; exact hi))
  rw [hobs, List.nil_append] at hfull
  rw [hsend, List.foldl_append, hfold, hbody, List.append_assoc, List.foldl_append, ← hfull]
  exact observed_foldl _ _

/-- A PDU of 512 octets without its flag is not indicated. -/
theorem large_pdu_reported :
    ¬∀ (iDf : Bool) (cs : List Call), (∀ pdu, Call.completePdu pdu ∈ cs → NoFlagIn iDf pdu.body) →
      ∀ bufs : List (List UInt8), bufs.flatten = send iDf cs →
        (bufs.foldl parse (construct iDf)).observed = expected iDf cs := by
  intro hall
  obtain ⟨n, hn⟩ : ∃ n, n = 511 := ⟨_, rfl⟩
  have hzeros : (⟨List.replicate n 0, 0, false, by decide⟩ : MuxPdu).body = List.replicate (n + 1) 0 := by
    rw [MuxPdu.body, show header 0 false = 0 by decide, List.replicate_succ]
  obtain ⟨pdu, hpdu⟩ : ∃ pdu : MuxPdu, pdu = ⟨List.replicate n 0, 0, false, by decide⟩ := ⟨_, rfl⟩
  rw [← hpdu] at hzeros
  have hflag : NoFlagIn false pdu.body := hzeros ▸ noFlagIn_zeros false (n + 1)
  have hexpected := hall false [.completePdu pdu, .getStuffing 2]
    (fun p hmem => by
      simp only [List.mem_cons, Call.completePdu.injEq, reduceCtorEq, List.not_mem_nil, or_false] at hmem
      exact hmem ▸ hflag) _ (List.flatten_singleton ..)
  have hlarge := observed_large hflag (by rw [hzeros, List.length_replicate, hn]; decide) [.getStuffing 2]
  rw [foldl_parse, List.flatten_singleton] at hexpected
  rw [hexpected, hpdu] at hlarge
  simp [expected, indications, show stuffingFlags false 2 = 1 from rfl] at hlarge

end Ftke.Level1PduParcom
