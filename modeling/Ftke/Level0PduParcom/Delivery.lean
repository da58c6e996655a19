import Ftke.Level0PduParcom.Transmit

/-!
# Ftke.Level0PduParcom.Delivery

Runs of `CompletePdu` and `GetStuffing` and what a receiver makes of their octets.

The octets of a run are frames, some of them empty, with a flag behind each, but
for the last bits, which wait for the next call and are the end of a flag.  The
receiver is in a clean state behind every flag, so that all PDUs are indicated as
they were sent (`calls_delivered_iff`), unless one does not fit the fragment with its
inserted zeros: `CompletePdu` does not look where that ends.
-/

namespace Ftke.Level0PduParcom

open BitStuffing

/-! ## Runs of the sender -/

inductive Call where
  | completePdu (payload : List UInt8) (MuxTblNum : Fin 16) (pm : Bool)
  | getStuffing (max_size : UInt32)

def call (t : Tx) : Call → Option (List UInt8 × Tx)
  | .completePdu payload MuxTblNum pm => Tx.completePdu t payload MuxTblNum pm
  | .getStuffing max_size => some (Tx.getStuffing t max_size)

/-- The octets of a run of calls; `none` when a call writes behind the end of its fragment. -/
def send (t : Tx) : List Call → Option (List UInt8)
  | [] => some []
  | c :: cs => (call t c).bind fun r => (send r.2 cs).map (r.1 ++ ·)

/-! ## What is to be indicated -/

/-- The PDU of a call, and the one that closes it. -/
def framesOf : Call → List (Option MuxPdu)
  | .completePdu payload MuxTblNum pm =>
    [none, none, some ⟨false, MuxTblNum, payload, muxEntry_lt MuxTblNum⟩] ++
      (if pm then [some ⟨true, 0, [], muxEntry_zero_lt⟩] else []) ++ [none]
  | .getStuffing max_size => List.replicate (max_size.toNat % 65536) none

/-- The indication of a frame; an empty frame has none. -/
def told : Option MuxPdu → List MuxPduIndication
  | none => []
  | some p => [⟨p.payload, p.closing.toNat, p.muxCode⟩]

/-- The indications of a run: each PDU with its payload and entry, and behind one with the
packet marker an empty closing one. -/
def expected : Call → List MuxPduIndication
  | .completePdu payload MuxTblNum pm =>
    ⟨payload, 0, MuxTblNum.val⟩ :: if pm then [⟨[], 1, 0⟩] else []
  | .getStuffing _ => []

/-- The run sends octets from which, in whatever buffers they come, all its PDUs are
indicated, and nothing else. -/
def Delivered (cs : List Call) : Prop :=
  ∃ octets, send Tx.construct cs = some octets ∧
    ∀ bufs : List (List UInt8), bufs.flatten = octets →
      (bufs.foldl parse construct).indicated = cs.flatMap expected

/-- How many bits `CompletePdu` writes: four flags, the PDU with its inserted zeros, and
with the packet marker an octet and a flag more. -/
def pduBits (payload : List UInt8) (MuxTblNum : Nat) (pm : Bool) : Nat :=
  32 + (stuff ((Tx.header MuxTblNum :: payload).flatMap bits)).length + if pm then 16 else 0

/-- A PDU fits its fragment behind `pos` bits that wait. -/
def Fits (pos : Nat) : Call → Prop
  | .completePdu payload MuxTblNum pm => (pos + pduBits payload MuxTblNum pm) / 8 ≤ Tx.fragmentSize
  | .getStuffing _ => True

/-- How many bits wait behind a call. -/
def nextPos (pos : Nat) : Call → Nat
  | .completePdu payload MuxTblNum pm => (pos + pduBits payload MuxTblNum pm) % 8
  | .getStuffing _ => pos

/-- Every PDU of a run fits. -/
def AllFit (pos : Nat) : List Call → Prop
  | [] => True
  | c :: cs => Fits pos c ∧ AllFit (nextPos pos c) cs

instance (pos : Nat) : ∀ c : Call, Decidable (Fits pos c)
  | .completePdu .. => inferInstanceAs (Decidable (_ ≤ _))
  | .getStuffing _ => inferInstanceAs (Decidable True)

instance decidableAllFit : ∀ (pos : Nat) (cs : List Call), Decidable (AllFit pos cs)
  | _, [] => inferInstanceAs (Decidable True)
  | pos, c :: cs =>
    have := decidableAllFit (nextPos pos c) cs
    inferInstanceAs (Decidable (_ ∧ _))

/-! ## The bits of a run -/

/-- The bits of a frame. -/
def segment : Option MuxPdu → List Bool
  | none => []
  | some p => p.stuffed

theorem header_eq : ∀ MuxTblNum : Fin 16,
    Tx.header MuxTblNum = UInt8.ofNat (MuxPdu.header ⟨false, MuxTblNum, [], MuxTblNum.isLt⟩) := by
  decide

theorem pduSegments_eq (payload : List UInt8) (MuxTblNum : Fin 16) (pm : Bool) :
    Tx.pduSegments payload MuxTblNum pm = (framesOf (.completePdu payload MuxTblNum pm)).map segment := by
  have hheader : (⟨false, MuxTblNum, payload, MuxTblNum.isLt⟩ : MuxPdu).stuffed =
      stuff ((Tx.header MuxTblNum :: payload).flatMap bits) := by
    rw [header_eq]
    rfl
  have hclosing : (⟨true, 0, [], by decide⟩ : MuxPdu).stuffed = stuff (bits 1) := rfl
  cases pm <;> simp [Tx.pduSegments, framesOf, segment, hheader, hclosing]

theorem length_pduSegments (payload : List UInt8) (MuxTblNum : Nat) (pm : Bool) :
    (Tx.framed (Tx.pduSegments payload MuxTblNum pm)).length = pduBits payload MuxTblNum pm := by
  have hflag : flagBits.length = 8 := rfl
  have hone : (stuff (bits 1)).length = 8 := rfl
  cases pm <;> simp [Tx.pduSegments, pduBits, hflag, hone] <;> omega

variable {p : List Bool}

theorem call_spec {t : Tx} (h : Tx.Between t p) {c : Call} (hfit : Fits p.length c) :
    ∃ octets u q, call t c = some (octets, u) ∧ Tx.Between u q ∧ q.length = nextPos p.length c ∧
      octets.flatMap bits ++ q = p ++ Tx.framed ((framesOf c).map segment) := by
  cases c with
  | completePdu payload MuxTblNum pm =>
    obtain ⟨q, hq, hbits⟩ := Tx.writePdu_spec h payload MuxTblNum pm
    have hlen := Tx.length_writePdu h payload MuxTblNum pm
    have hsum := congrArg List.length hbits
    rw [List.length_append, List.length_append, length_flatMap_bits] at hsum
    rw [length_pduSegments] at hlen hsum
    have hlt := hq.length_lt
    refine ⟨(Tx.writePdu t payload MuxTblNum pm).written, _, q, ?_, hq, ?_, ?_⟩
    · rw [call, Tx.completePdu, if_pos (by rw [hlen]; exact hfit)]
    · rw [nextPos]
      omega
    · rw [hbits, pduSegments_eq]
  | getStuffing max_size =>
    obtain ⟨q, hq, hbits⟩ := Tx.getStuffing_spec h max_size
    have hsum := congrArg List.length hbits
    rw [List.length_append, List.length_append, length_flatMap_bits, Tx.length_framed_flags] at hsum
    have hlt := hq.length_lt
    have hlt' := h.length_lt
    refine ⟨(Tx.getStuffing t max_size).1, _, q, rfl, hq, ?_, ?_⟩
    · rw [nextPos]
      omega
    · rw [hbits, framesOf, List.map_replicate, segment]

theorem call_none {t : Tx} (h : Tx.Between t p) {c : Call} (hfit : ¬Fits p.length c) :
    call t c = none := by
  cases c with
  | completePdu payload MuxTblNum pm =>
    have hlen := Tx.length_writePdu h payload MuxTblNum pm
    rw [length_pduSegments] at hlen
    rw [call, Tx.completePdu, if_neg (by rw [hlen]; exact hfit)]
  | getStuffing max_size => exact absurd trivial hfit

/-- **The octets of a run are its frames**, but for the end of the last flag. -/
theorem send_spec (cs : List Call) {t : Tx} (h : Tx.Between t p) (hfit : AllFit p.length cs) :
    ∃ octets q, send t cs = some octets ∧ q.length < 8 ∧
      octets.flatMap bits ++ q = p ++ Tx.framed ((cs.flatMap framesOf).map segment) := by
  induction cs generalizing t p with
  | nil => exact ⟨[], p, rfl, h.length_lt, by simp⟩
  | cons c cs ih =>
    obtain ⟨octets, u, q, hcall, hq, hpos, hbits⟩ := call_spec h hfit.1
    obtain ⟨octets', q', hsend, hq', hbits'⟩ := ih hq (by rw [hpos]; exact hfit.2)
    refine ⟨octets ++ octets', q', ?_, hq', ?_⟩
    · rw [send, hcall, Option.bind_some, hsend, Option.map_some]
    · rw [List.flatMap_append, List.append_assoc, hbits', ← List.append_assoc, hbits, List.flatMap_cons,
        List.map_append, Tx.framed_append, List.append_assoc]

theorem send_none (cs : List Call) {t : Tx} (h : Tx.Between t p) (hfit : ¬AllFit p.length cs) :
    send t cs = none := by
  induction cs generalizing t p with
  | nil => exact absurd trivial hfit
  | cons c cs ih =>
    by_cases hfirst : Fits p.length c
    · obtain ⟨octets, u, q, hcall, hq, hpos, _⟩ := call_spec h hfirst
      have hrest : ¬AllFit q.length cs := fun hall => hfit ⟨hfirst, by rwa [hpos] at hall⟩
      rw [send, hcall, Option.bind_some, ih hq hrest, Option.map_none]
    · rw [send, call_none h hfirst, Option.bind_none]

/-! ## Receiving -/

/-- Behind a flag, with nothing left over. -/
structure Ready (s : Level0PduParcom) : Prop where
  inv : Inv s
  recvBits : s.iRecvBits = []
  pdu : s.iPdu = []
  clean : Clean s

theorem ready_construct : Ready construct := ⟨inv_construct, rfl, rfl, rfl, by decide⟩

variable {s : Level0PduParcom}

/-- **A frame and the flag behind it.** -/
theorem Ready.frame (h : Ready s) {f : Option MuxPdu} (hfits : ∀ p, f = some p → p.Fits) :
    Ready ((segment f ++ flagBits).foldl recvBit s) ∧
      ((segment f ++ flagBits).foldl recvBit s).indicated = s.indicated ++ told f := by
  cases f with
  | none =>
    have hsame : (segment none ++ flagBits).foldl recvBit s = s := by
      rw [segment, recv_flag (fun i => by rw [List.drop_nil]; decide) h.recvBits, List.foldl_nil, flagged,
        if_neg (by simp [h.pdu]), ← h.recvBits]
    rw [hsame]
    exact ⟨h, (List.append_nil _).symm⟩
  | some p =>
    obtain ⟨hexact, hclean⟩ := exact_of_clean h.inv h.recvBits h.pdu h.clean (hfits p rfl)
    have hflag : (segment (some p) ++ flagBits).foldl recvBit s = flagged (p.stuffed.foldl appendBit s) :=
      recv_flag (stuff_no_six _) h.recvBits
    refine ⟨⟨inv_foldl h.inv, ?_, ?_, hclean⟩, hexact⟩
    · rw [hflag]
      rfl
    · rw [hflag, flagged]
      split
      · rfl
      · next hzero => simpa using hzero

theorem Ready.framed {fs : List (Option MuxPdu)} (h : Ready s) (hfits : ∀ p, some p ∈ fs → p.Fits) :
    Ready ((Tx.framed (fs.map segment)).foldl recvBit s) ∧
      ((Tx.framed (fs.map segment)).foldl recvBit s).indicated = s.indicated ++ fs.flatMap told := by
  induction fs generalizing s with
  | nil => exact ⟨h, (List.append_nil _).symm⟩
  | cons f fs ih =>
    obtain ⟨hready, hind⟩ := h.frame (f := f) fun p hp => hfits p (hp ▸ List.mem_cons_self)
    obtain ⟨hready', hind'⟩ := ih hready fun p hp => hfits p (List.mem_cons_of_mem _ hp)
    rw [List.map_cons, Tx.framed_cons, ← List.append_assoc, List.foldl_append]
    exact ⟨hready', by rw [hind', hind, List.flatMap_cons, List.append_assoc]⟩

theorem Ready.frames {fs : List (Option MuxPdu)} (h : Ready s)
    (hfits : ∀ p, some p ∈ fs → p.Fits) {b q : List Bool} (hq : q.length < 8)
    (hbits : b ++ q = Tx.framed ((fs ++ [none]).map segment)) :
    (b.foldl recvBit s).indicated = s.indicated ++ (fs ++ [none]).flatMap told := by
  obtain ⟨hready, hind⟩ := h.framed hfits
  have hflag : flagBits.length = 8 := rfl
  rw [List.map_append, Tx.framed_append] at hbits
  have hend : Tx.framed ([none].map segment) = flagBits := rfl
  rw [hend] at hbits
  have hlen := congrArg List.length hbits
  rw [List.length_append, List.length_append] at hlen
  obtain ⟨r, rfl⟩ : Tx.framed (fs.map segment) <+: b :=
    List.prefix_of_prefix_length_le (List.prefix_append ..) ⟨q, hbits⟩ (by omega)
  rw [List.append_assoc] at hbits
  have hrest := List.append_cancel_left hbits
  have hrlen := congrArg List.length hrest
  rw [List.length_append] at hrlen
  have hnone : ([none] : List (Option MuxPdu)).flatMap told = [] := rfl
  rw [List.foldl_append, List.flatMap_append, hnone, List.append_nil, ← hind]
  by_cases hnil : q = []
  · rw [hnil, List.append_nil] at hrest
    have hlast := (hready.frame (f := none) fun p hp => absurd hp (by simp)).2
    rw [hrest]
    simpa [segment, told] using hlast
  · have hpos := List.length_pos_iff.mpr hnil
    rw [recvBit_fill r (by rw [hready.recvBits, List.length_nil]; omega)]

theorem foldl_parse (bufs : List (List UInt8)) (s : Level0PduParcom) :
    bufs.foldl parse s = (bufs.flatten.flatMap bits).foldl recvBit s := by
  induction bufs generalizing s with
  | nil => rfl
  | cons buf bufs ih => rw [List.foldl_cons, ih, parse_eq, List.flatten_cons, List.flatMap_append, List.foldl_append]

/-! ## Whole runs -/

theorem fits_of_allFit {cs : List Call} {pos : Nat} (hfit : AllFit pos cs) {p : MuxPdu}
    (hp : some p ∈ cs.flatMap framesOf) : p.Fits := by
  induction cs generalizing pos with
  | nil => simp at hp
  | cons c cs ih =>
    rw [List.flatMap_cons, List.mem_append] at hp
    obtain hp | hp := hp
    · have hfits := hfit.1
      cases c with
      | getStuffing max_size => simp [framesOf] at hp
      | completePdu payload MuxTblNum pm =>
        have hpdu : p = ⟨false, MuxTblNum, payload, MuxTblNum.isLt⟩ ∨ p = ⟨true, 0, [], by decide⟩ := by
          cases pm <;> simp [framesOf] at hp
          · exact Or.inl hp
          · exact hp
        obtain rfl | rfl := hpdu
        · rw [Fits, Tx.fragmentSize, pduBits, header_eq] at hfits
          rw [MuxPdu.Fits, MuxPdu.stuffed]
          have hheader : MuxPdu.octets ⟨false, MuxTblNum, payload, MuxTblNum.isLt⟩ =
            UInt8.ofNat (MuxPdu.header ⟨false, MuxTblNum, [], MuxTblNum.isLt⟩) :: payload := rfl
          rw [hheader]
          omega
        · exact fits_probe true
    · exact ih hfit.2 hp

theorem told_frames (c : Call) : (framesOf c).flatMap told = expected c := by
  cases c with
  | completePdu payload MuxTblNum pm => cases pm <;> rfl
  | getStuffing max_size => simp [framesOf, expected, told]

theorem frames_last (cs : List Call) : cs.flatMap framesOf = [] ∨ ∃ fs, cs.flatMap framesOf = fs ++ [none] := by
  have hcall : ∀ c, framesOf c = [] ∨ ∃ fs, framesOf c = fs ++ [none] := by
    intro c
    cases c with
    | completePdu payload MuxTblNum pm => exact Or.inr ⟨_, rfl⟩
    | getStuffing max_size =>
      rw [framesOf]
      cases max_size.toNat % 65536 with
      | zero => exact Or.inl rfl
      | succ n => exact Or.inr ⟨_, List.replicate_succ'⟩
  induction cs with
  | nil => exact Or.inl rfl
  | cons c cs ih =>
    rw [List.flatMap_cons]
    obtain hnil | ⟨fs, hfs⟩ := ih
    · rw [hnil, List.append_nil]
      exact hcall c
    · exact Or.inr ⟨framesOf c ++ fs, by rw [hfs, List.append_assoc]⟩

theorem not_delivered {cs : List Call} (hfit : ¬AllFit 0 cs) : ¬Delivered cs := by
  rintro ⟨octets, hsend, _⟩
  rw [send_none cs Tx.between_construct hfit] at hsend
  exact absurd hsend (by simp)

theorem delivered_of_allFit {cs : List Call} (hfit : AllFit 0 cs) : Delivered cs := by
  obtain ⟨octets, q, hsend, hq, hbits⟩ := send_spec cs Tx.between_construct hfit
  refine ⟨octets, hsend, fun bufs hbufs => ?_⟩
  have htold : cs.flatMap expected = (cs.flatMap framesOf).flatMap told := by
    rw [List.flatMap_assoc]
    exact congrArg (fun f => cs.flatMap f) (funext fun c => (told_frames c).symm)
  have hall : ∀ p, some p ∈ cs.flatMap framesOf → p.Fits := fun p hp => fits_of_allFit hfit hp
  rw [foldl_parse, hbufs, htold]
  rw [List.nil_append] at hbits
  obtain hnil | ⟨fs, hfs⟩ := frames_last cs
  · rw [hnil, List.map_nil, Tx.framed_nil, List.append_eq_nil_iff] at hbits
    rw [hbits.1, hnil]
    rfl
  · rw [hfs] at hbits hall ⊢
    exact ready_construct.frames (fun p hp => hall p (List.mem_append_left _ hp)) hq hbits

/-- **All PDUs of a run are indicated as they were sent exactly when each fits its
fragment** with the flags and the inserted zeros. -/
theorem calls_delivered_iff (cs : List Call) : Delivered cs ↔ AllFit 0 cs :=
  ⟨fun h => by_contra fun hfit => not_delivered hfit h, delivered_of_allFit⟩

/-- A PDU with the packet marker behind one of ones, and stuffing around them. -/
theorem calls_delivered_iff_ones : Delivered [.getStuffing 2, .completePdu [0xff, 0xff] 5 false, .getStuffing 1,
    .completePdu [0x7e] 0 true] :=
  (calls_delivered_iff _).mpr (by decide)

theorem length_stuff_zeros (k : Nat) (l : List Bool) :
    (stuff (List.replicate k false ++ l)).length = k + (stuff l).length := by
  induction k with
  | zero => simp
  | succ k ih =>
    have hnot : ¬Ones 5 (false :: (List.replicate k false ++ l)) := by simp [ones_cons]
    rw [List.replicate_succ, List.cons_append, stuff_cons hnot, List.length_cons, ih]
    omega

theorem length_stuff_ones (k : Nat) : (stuff (List.replicate (5 * k) true)).length = 6 * k := by
  induction k with
  | zero => rfl
  | succ k ih =>
    have hfive : List.replicate (5 * (k + 1)) true =
        true :: true :: true :: true :: true :: List.replicate (5 * k) true := rfl
    rw [hfive, stuff_ones]
    simp only [List.length_cons, ih]
    omega

theorem flatMap_bits_ones (n : Nat) :
    (List.replicate n (0xff : UInt8)).flatMap bits = List.replicate (8 * n) true := by
  induction n with
  | zero => rfl
  | succ n ih =>
    have hones : bits 0xff = List.replicate 8 true := by decide
    rw [List.replicate_succ, List.flatMap_cons, ih, hones, List.replicate_append_replicate]
    congr 1
    omega

/-- 430 octets of ones and their inserted zeros are more than a fragment holds. -/
theorem ones_overrun : ¬∀ cs : List Call, Delivered cs := by
  intro hall
  refine not_delivered ?_ (hall [.completePdu (List.replicate (5 * 86) 0xff) 0 false])
  rintro ⟨hfits, _⟩
  have hzeros : bits (Tx.header 0) = List.replicate 8 false := by decide
  have hones : 8 * (5 * 86) = 5 * 688 := rfl
  have hlen : (stuff ((Tx.header 0 :: List.replicate (5 * 86) 0xff).flatMap bits)).length = 8 + 6 * 688 := by
    rw [List.flatMap_cons, flatMap_bits_ones, hzeros, hones, length_stuff_zeros, length_stuff_ones]
  have hbits : pduBits (List.replicate (5 * 86) 0xff) (0 : Fin 16) false = 32 + (8 + 6 * 688) + 0 := by
    rw [pduBits, show ((0 : Fin 16) : Nat) = 0 from rfl, hlen, if_neg (by decide)]
  rw [Fits, hbits] at hfits
  exact absurd hfits (by decide)

end Ftke.Level0PduParcom
