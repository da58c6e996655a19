import Ftke.MuxPdus
import Ftke.Run

/-!
# Ftke.MuxPdus.Budget

What an interval of `GetOutgoingMuxPdus` emits.

`iNumBytesPerMinSampleInterval` bytes are to go out in an interval, and one stuffing
unit where nothing is left to fill.  The PDUs of the channels other than the control
channel are cut to what is left, and what has gone out and what is left add up
(`Kept`).  Four things break it: a PDU for which not even a header is left, the closing
header of level 1, for which no room is kept, a control PDU, which is not cut to what is
left, and `stuffing_size`, which is not set back from the interval before.  `Fits` says
that none of them happens in a step, and `budgeted_of_run` that all is well then.
-/

namespace Ftke.MuxPdus

/-! ## What is to hold -/

/-- The bytes of an interval, and of each of its PDUs. -/
structure Interval.Budgeted (c : Config) (i : Interval) : Prop where
  size : i.size ≤ c.iNumBytesPerMinSampleInterval.toNat + c.parcom.getStuffingSz
  pdu : ∀ size ∈ i.pduSizes, size ≤ c.iPduSize

/-- Every interval is within its bounds, also while it is filled. -/
def State.Budgeted (c : Config) (s : State) : Prop := ∀ i ∈ s.current :: s.earlier, i.Budgeted c

/-- The closing header that level 1 puts after the end of an SDU. -/
def Parcom.closingHeaderSz : Parcom → Nat
  | level1 iDf => (level1 iDf).getHeaderSz
  | level2 _ => 0

/-- The closing header of an SDU that may end. -/
def closingSz (c : Config) (finite : Option Nat) (data : MuxSduData PendingSdu) : Nat :=
  if c.isSegmentable data.lcn ∧ Config.asked finite data.sdu = data.sdu.size then c.parcom.closingHeaderSz else 0

namespace State

/-- What is left of the interval in the loop of `MuxLcnData`. -/
def room (s : State) (max_size pdu_size_left : Int) : Int := s.max_pdus_size - (max_size - pdu_size_left)

/-- There is room for what is dispatched: for the header, for the closing header too if the
SDU ends, and for a control PDU in what is left of the interval. -/
structure FitsIn (c : Config) (s : State) (which : MuxList) (max_size pdu_size_left : Int) (finite : Option Nat)
    (data : MuxSduData PendingSdu) : Prop where
  header : (c.parcom.getHeaderSz : Int) ≤ pdu_size_left
  closing : (c.parcom.getHeaderSz + data.sdu.size : Int) ≤ pdu_size_left →
    (c.parcom.getHeaderSz + data.sdu.size + closingSz c finite data : Int) ≤ pdu_size_left
  control : which = .control →
    min pdu_size_left (c.parcom.getHeaderSz + Config.asked finite data.sdu + closingSz c finite data) ≤
      s.room max_size pdu_size_left + c.parcom.getStuffingSz

/-- There is room for what the next step emits; the stuffing is that of the interval before
where it is more than what is left. -/
def Fits (c : Config) (s : State) (a : Answers) : Prop :=
  match s.pc with
  | .mux which n max_size pdu_size_left =>
    ∀ data ∈ (which.get s.lists)[n]?, ∀ finite ∈ a.descriptor,
      s.FitsIn c which max_size pdu_size_left finite data
  | .stuffing => (s.stuffing_size : Int) ≤ s.max_pdus_size + c.parcom.getStuffingSz
  | _ => True

instance (c : Config) (s : State) (which : MuxList) (max_size pdu_size_left : Int) (finite : Option Nat)
    (data : MuxSduData PendingSdu) : Decidable (s.FitsIn c which max_size pdu_size_left finite data) :=
  decidable_of_iff (_ ∧ _ ∧ _) ⟨fun h => ⟨h.1, h.2.1, h.2.2⟩, fun h => ⟨h.header, h.closing, h.control⟩⟩

instance (c : Config) (s : State) (a : Answers) : Decidable (s.Fits c a) := by
  unfold Fits
  split <;> infer_instance

end State

/-! ## One PDU -/

namespace Parcom

theorem headerFilledLen_le (p : Parcom) : p.headerFilledLen ≤ p.getHeaderSz := by
  rw [headerFilledLen]
  split <;> omega

theorem completePdu_sum {p : Parcom} {data packet : List Nat} {pm closing : Bool}
    (h : p.completePdu data pm closing = some packet) :
    packet.sum ≤ p.getHeaderSz + data.sum + if pm then p.closingHeaderSz else 0 := by
  have hheader := p.headerFilledLen_le
  cases p with
  | level1 iDf =>
    simp only [completePdu] at h
    split at h
    · next hpm =>
      split at h
      · injection h with h
        subst h
        simp only [hpm, List.cons_append, List.sum_cons, List.sum_append, List.sum_nil, if_true,
          closingHeaderSz]
        omega
      · contradiction
    · injection h with h
      subst h
      simp only [List.sum_cons]
      omega
  | level2 iOh =>
    simp only [completePdu, Option.some.injEq] at h
    subst h
    simp only [List.sum_cons]
    omega

theorem getStuffing_le (p : Parcom) (buf_size : Nat) : p.getStuffing buf_size ≤ buf_size := Nat.sub_le _ _

theorem doStuffing_le (p : Parcom) (fragment : Option Nat) (stuffing_sz : Nat) :
    p.doStuffing fragment stuffing_sz ≤ stuffing_sz := by
  cases fragment with
  | none => exact Nat.zero_le _
  | some capacity =>
    have hle := p.getStuffing_le (if stuffing_sz > capacity then capacity else stuffing_sz)
    refine hle.trans ?_
    split <;> omega

end Parcom

namespace Config

theorem copyFragments_spec (fragments : List Nat) (bytes : Nat) (sdu : PendingSdu) (hle : bytes ≤ sdu.size) :
    (copyFragments fragments bytes sdu).1.sum ≤ bytes ∧
      (copyFragments fragments bytes sdu).2.size + (copyFragments fragments bytes sdu).1.sum = sdu.size := by
  induction fragments generalizing bytes sdu with
  | nil => simp [copyFragments]
  | cons fragment fragments ih =>
    simp only [copyFragments]
    split
    · simp
    · have hn := Nat.min_le_left bytes (fragment - sdu.cur_pos)
      split
      · have hrest := ih (bytes - min bytes (fragment - sdu.cur_pos))
          ⟨sdu.fragments, sdu.size - min bytes (fragment - sdu.cur_pos), sdu.cur_frag_num + 1, 0⟩
          (by simp only; omega)
        simp only [List.sum_cons] at hrest ⊢
        omega
      · simp only [List.sum_cons, List.sum_nil]
        omega

theorem asked_le (finite : Option Nat) (sdu : PendingSdu) : asked finite sdu ≤ sdu.size := by
  cases finite with
  | none => exact Nat.le_refl _
  | some finite => exact Nat.min_le_right _ _

variable {c : Config} {a : Answers} {finite : Option Nat} {data : MuxSduData PendingSdu}

/-- `MakePduData` takes at most what there is room for and what is asked for, and sets `pm` at the end
of the SDU of a segmentable channel. -/
theorem makePduData_spec {max_size : Int} (hmax : 0 ≤ max_size) :
    ((c.makePduData max_size finite data).1.sum : Int) ≤ max_size ∧
      (c.makePduData max_size finite data).1.sum ≤ asked finite data.sdu ∧
      ((c.makePduData max_size finite data).2.2 = true →
        (c.makePduData max_size finite data).1.sum = data.sdu.size ∧ c.isSegmentable data.lcn = true) := by
  have hasked := asked_le finite data.sdu
  have hbytes : (bytesToMux max_size finite data.sdu).toNat ≤ data.sdu.size := by
    rw [bytesToMux]
    omega
  obtain ⟨hle, hsize⟩ := copyFragments_spec (data.sdu.fragments.drop data.sdu.cur_frag_num) _ data.sdu hbytes
  simp only [makePduData, Bool.and_eq_true, beq_iff_eq]
  rw [bytesToMux] at hle hsize ⊢
  refine ⟨by omega, by omega, fun hpm => ⟨by omega, hpm.2⟩⟩

/-- A packet has at most a header, the bytes that are asked for and a closing header, and where the
header and the closing header fit it fits. -/
theorem dispatchPduPacket_spec {max_size : Int} {packet : List Nat} {sdu : PendingSdu}
    (h : c.dispatchPduPacket a finite data max_size = (some packet, sdu))
    (hheader : (c.parcom.getHeaderSz : Int) ≤ max_size)
    (hclosing : (c.parcom.getHeaderSz + data.sdu.size : Int) ≤ max_size →
      (c.parcom.getHeaderSz + data.sdu.size + closingSz c finite data : Int) ≤ max_size) :
    (packet.sum : Int) ≤ max_size ∧
      packet.sum ≤ c.parcom.getHeaderSz + asked finite data.sdu + closingSz c finite data := by
  rw [dispatchPduPacket] at h
  split at h
  · simp at h
  · obtain ⟨hmax, hasked, hpm⟩ :=
      @makePduData_spec c finite data (max_size - c.parcom.getHeaderSz) (by omega)
    have hle := asked_le finite data.sdu
    have hpacket : c.parcom.completePdu (c.makePduData (max_size - c.parcom.getHeaderSz) finite data).1
        (c.makePduData (max_size - c.parcom.getHeaderSz) finite data).2.2 a.closing = some packet :=
      (Prod.mk.inj h).1
    have hsum := Parcom.completePdu_sum hpacket
    rw [closingSz] at hclosing ⊢
    cases hend : (c.makePduData (max_size - c.parcom.getHeaderSz) finite data).2.2 with
    | false =>
      simp only [hend, Bool.false_eq_true, if_false] at hsum
      omega
    | true =>
      obtain ⟨hall, hsegmentable⟩ := hpm hend
      have hwhole : asked finite data.sdu = data.sdu.size := by omega
      simp only [hend, hsegmentable, hwhole, and_self, if_true] at hsum hclosing ⊢
      omega

end Config

/-! ## Steps -/

namespace State

variable {c : Config} {s t : State} {a : Answers} {which : MuxList} {max_size pdu_size_left : Int}

/-- What has gone out and what is left add up. -/
def Balanced (c : Config) (s : State) (left : Int) : Prop :=
  s.current.stuffing = 0 ∧ s.current.pduSizes.sum + left = c.iNumBytesPerMinSampleInterval.toNat

/-- In the loop of `MuxLcnData`, what is left of the PDU is left of the interval too, but for the control
channel. -/
structure InMux (c : Config) (s : State) (which : MuxList) (max_size pdu_size_left : Int) : Prop where
  balanced : s.Balanced c (s.room max_size pdu_size_left)
  nonneg : 0 ≤ pdu_size_left
  left_le : pdu_size_left ≤ max_size
  max_lt : max_size < 2 ^ 16
  max_le : max_size ≤ c.iPduSize
  room : which ≠ .control → pdu_size_left ≤ s.room max_size pdu_size_left

/-- The invariant. -/
structure Kept (c : Config) (s : State) : Prop where
  budgeted : s.Budgeted c
  inMux : ∀ which n max_size pdu_size_left, s.pc = .mux which n max_size pdu_size_left →
    s.InMux c which max_size pdu_size_left
  stuffing : s.pc = .stuffing → s.Balanced c s.max_pdus_size ∧ 0 ≤ s.max_pdus_size

theorem kept_start (c : Config) (lists : SduDataLists PendingSdu) (iPduNum : Nat) :
    (start c lists iPduNum).Kept c := by
  refine ⟨fun i hi => ?_, by simp [start], by simp [start]⟩
  rw [start, List.mem_singleton] at hi
  subst hi
  exact ⟨Nat.zero_le _, by simp [Interval.pduSizes]⟩

theorem maxSize_spec (c : Config) (hleft : which ≠ .control → 0 ≤ s.max_pdus_size) :
    (0 ≤ s.maxSize c which ∧ s.maxSize c which < 2 ^ 16 ∧ s.maxSize c which ≤ c.iPduSize) ∧
      (which ≠ .control → s.maxSize c which ≤ s.max_pdus_size) := by
  cases which with
  | control =>
    simp only [maxSize, ne_eq, not_true_eq_false, false_implies, and_true]
    omega
  | nonSegmentable =>
    have hnonneg := hleft (by simp)
    simp only [maxSize]
    omega
  | segmentable =>
    have hnonneg := hleft (by simp)
    simp only [maxSize]
    omega

/-- A call of `MuxLcnData`, for other channels than the control channel with something left. -/
theorem kept_enter (hbudgeted : s.Budgeted c) (hbalanced : s.Balanced c s.max_pdus_size)
    (hleft : which ≠ .control → 0 ≤ s.max_pdus_size) : (s.enter c which).Kept c := by
  refine ⟨hbudgeted, ?_, by simp [enter]⟩
  intro which' n max_size pdu_size_left hpc
  obtain ⟨rfl, -, rfl, rfl⟩ := Pc.mux.inj hpc
  obtain ⟨⟨hnonneg, hlt, hle⟩, hroom⟩ := s.maxSize_spec c hleft
  have hall : (s.enter c which).room (s.maxSize c which) (s.maxSize c which) = s.max_pdus_size := by
    simp [room, enter]
  exact ⟨hall ▸ hbalanced, hnonneg, Int.le_refl _, hlt, hle, hall ▸ hroom⟩

theorem kept_muxed (hbudgeted : s.Budgeted c) (h : s.InMux c which max_size pdu_size_left) :
    (s.muxed c which max_size pdu_size_left).Kept c := by
  have hsize : s.max_pdus_size - (max_size - pdu_size_left) % 2 ^ 16 = s.room max_size pdu_size_left := by
    have hlt := h.max_lt
    have hle := h.left_le
    have hnonneg := h.nonneg
    rw [room]
    omega
  have hreturned : ∀ status, State.Kept c
      { s with max_pdus_size := s.room max_size pdu_size_left, pc := .returned status } := fun status =>
    ⟨hbudgeted, by simp, by simp⟩
  have henter : ∀ which', (which' ≠ .control → 0 ≤ s.room max_size pdu_size_left) → State.Kept c
      (enter c { s with max_pdus_size := s.room max_size pdu_size_left } which') := fun which' hleft =>
    kept_enter (s := { s with max_pdus_size := s.room max_size pdu_size_left }) hbudgeted h.balanced hleft
  simp only [muxed, hsize]
  cases which with
  | nonSegmentable =>
    dsimp only
    split
    · exact hreturned _
    · exact henter _ (by simp)
  | control =>
    dsimp only
    split
    · exact henter _ (by simp)
    · split
      · exact hreturned _
      · exact henter _ fun _ => by omega
  | segmentable =>
    have hroom := h.room (by simp)
    have hnonneg := h.nonneg
    dsimp only
    split
    · exact henter _ fun _ => by omega
    · exact ⟨hbudgeted, by simp, fun _ => ⟨h.balanced, Int.le_trans hnonneg hroom⟩⟩

theorem kept_push {packet : List Nat} (lists : SduDataLists PendingSdu) (hbudgeted : s.Budgeted c)
    (h : s.InMux c which max_size pdu_size_left) (hleft : (packet.sum : Int) ≤ pdu_size_left)
    (hcontrol : which = .control → (packet.sum : Int) ≤ s.room max_size pdu_size_left + c.parcom.getStuffingSz) :
    State.Budgeted c { s with lists := lists, current := { s.current with pdus := packet :: s.current.pdus } } ∧
      State.InMux c { s with lists := lists, current := { s.current with pdus := packet :: s.current.pdus } }
        which max_size (pdu_size_left - packet.sum) := by
  obtain ⟨hstuffing, hsum⟩ := h.balanced
  have hroom : which ≠ .control → (packet.sum : Int) ≤ s.room max_size pdu_size_left := fun hne =>
    Int.le_trans hleft (h.room hne)
  have hfits : (packet.sum : Int) ≤ s.room max_size pdu_size_left + c.parcom.getStuffingSz := by
    by_cases hwhich : which = .control
    · exact hcontrol hwhich
    · have hle := hroom hwhich
      omega
  constructor
  · intro i hi
    obtain rfl | hi := List.mem_cons.mp hi
    · refine ⟨?_, fun size hsize => ?_⟩
      · simp only [Interval.size, Interval.pduSizes, List.map_cons, List.sum_cons] at hsum ⊢
        omega
      · obtain rfl | hsize := List.mem_cons.mp hsize
        · have hle := h.left_le
          have hmax := h.max_le
          omega
        · exact (hbudgeted s.current List.mem_cons_self).pdu size hsize
    · exact hbudgeted i (List.mem_cons_of_mem _ hi)
  · refine ⟨⟨hstuffing, ?_⟩, by omega, ?_, h.max_lt, h.max_le, fun hne => ?_⟩
    · simp only [room, Interval.pduSizes, List.map_cons, List.sum_cons] at hsum ⊢
      omega
    · have hle := h.left_le
      omega
    · have hle := h.room hne
      simp only [room] at hle ⊢
      omega

theorem kept_beginInterval (h : s.Kept c) : (s.beginInterval c a).Kept c := by
  rw [beginInterval]
  split
  · refine kept_enter (fun i hi => ?_) ⟨rfl, by simp [Interval.pduSizes]⟩ fun _ => by simp
    obtain rfl | hi := List.mem_cons.mp hi
    · exact ⟨Nat.zero_le _, by simp [Interval.pduSizes]⟩
    · refine h.budgeted i ?_
      split at hi
      · simp at hi
      · exact hi
  · exact ⟨h.budgeted, by simp, by simp⟩

theorem kept_muxLcnData {n : Nat} (hbudgeted : s.Budgeted c) (h : s.InMux c which max_size pdu_size_left)
    (hfits : ∀ data ∈ (which.get s.lists)[n]?, ∀ finite ∈ a.descriptor,
      s.FitsIn c which max_size pdu_size_left finite data)
    (ht : s.muxLcnData c a which n max_size pdu_size_left = some t) : t.Kept c := by
  rw [muxLcnData] at ht
  split at ht
  · injection ht with ht
    exact ht ▸ kept_muxed hbudgeted h
  · next data hdata =>
    split at ht
    · injection ht with ht
      subst ht
      refine ⟨hbudgeted, fun which' n' max' left' hpc => ?_, by simp⟩
      obtain ⟨rfl, -, rfl, rfl⟩ := Pc.mux.inj hpc
      exact ⟨h.balanced, h.nonneg, h.left_le, h.max_lt, h.max_le, h.room⟩
    · next finite hfinite =>
      obtain ⟨hheader, hclosing, hcontrol⟩ := hfits data hdata finite hfinite
      cases hdispatch : c.dispatchPduPacket a finite data pdu_size_left with
      | mk packet sdu =>
        simp only [hdispatch] at ht
        cases packet with
        | none =>
          injection ht with ht
          exact ht ▸ kept_muxed hbudgeted ⟨h.balanced, h.nonneg, h.left_le, h.max_lt, h.max_le, h.room⟩
        | some packet =>
          obtain ⟨hsum, hasked⟩ := Config.dispatchPduPacket_spec hdispatch hheader hclosing
          have hpush : ∀ lists, _ := fun lists =>
            kept_push lists hbudgeted h hsum fun hwhich => by
              have hroom := hcontrol hwhich
              omega
          obtain ⟨lists, -, ht⟩ := Option.map_eq_some_iff.mp ht
          subst ht
          split
          · exact kept_muxed (hpush lists).1 (hpush lists).2
          · refine ⟨(hpush lists).1, fun which' n' max' left' hpc => ?_, by simp⟩
            obtain ⟨rfl, -, rfl, rfl⟩ := Pc.mux.inj hpc
            obtain ⟨hbalanced, hnonneg, hle, hlt, hmax, hroom⟩ := (hpush lists).2
            exact ⟨hbalanced, hnonneg, hle, hlt, hmax, hroom⟩

theorem kept_stuff (hbudgeted : s.Budgeted c) (hbalanced : s.Balanced c s.max_pdus_size)
    (hleft : 0 ≤ s.max_pdus_size)
    (hfits : (s.stuffing_size : Int) ≤ s.max_pdus_size + c.parcom.getStuffingSz) : (s.stuff c a).Kept c := by
  obtain ⟨hstuffing, hsum⟩ := hbalanced
  have hsize : (s.stuffingSize c : Int) ≤ s.max_pdus_size + c.parcom.getStuffingSz := by
    rw [stuffingSize]
    split <;> omega
  simp only [stuff]
  split
  · have hle := c.parcom.doStuffing_le a.stuffing (s.stuffingSize c)
    refine ⟨fun i hi => ?_, by simp, by simp⟩
    obtain rfl | hi := List.mem_cons.mp hi
    · refine ⟨?_, (hbudgeted s.current List.mem_cons_self).pdu⟩
      simp only [Interval.size, Interval.pduSizes] at hsum ⊢
      omega
    · exact hbudgeted i (List.mem_cons_of_mem _ hi)
  · exact ⟨hbudgeted, by simp, by simp⟩

theorem kept_step (h : s.Kept c) (hfits : s.Fits c a) (ht : s.step c a = some t) : t.Kept c := by
  rw [step] at ht
  rw [Fits] at hfits
  split at ht
  · injection ht with ht
    exact ht ▸ kept_beginInterval h
  · next which n max_size pdu_size_left hpc =>
    rw [hpc] at hfits
    exact kept_muxLcnData h.budgeted (h.inMux _ _ _ _ hpc) hfits ht
  · next hpc =>
    rw [hpc] at hfits
    obtain ⟨hbalanced, hleft⟩ := h.stuffing hpc
    injection ht with ht
    exact ht ▸ kept_stuff h.budgeted hbalanced hleft hfits
  · contradiction

end State

/-- **In every call in which there is room for what each step emits, every interval is within
its bounds.** -/
theorem budgeted_of_run {c : Config} {lists : SduDataLists PendingSdu} {iPduNum : Nat} {answers : List Answers}
    {s : State} (h : Run (guarded (State.Fits c) (stepOf (State.step c))) (start c lists iPduNum) answers s) :
    s.Budgeted c :=
  (h.invariant (I := State.Kept c) (State.kept_start c lists iPduNum) fun _ _ _ hkept hstep =>
    State.kept_step hkept hstep.1 hstep.2).budgeted

/-- Level 2 at 64000 bit/s, with intervals of 20 ms. -/
def twentyMs : Config where
  parcom := .level2 false
  iPduSize := 160
  iOutgoingChannels := [0, 1]
  isSegmentable := fun lcn => lcn == 0
  iNumMuxIntervalsPerTimerInterval := 1
  iNumBytesPerMinSampleInterval := 160
  iEnableStuffing := true
  iStuffOnlyFirstSend := false

/-- A control SDU of 100 bytes, and 55 bytes of stuffing. -/
theorem budgeted_twentyMs :
    ∃ s, Run (guarded (State.Fits twentyMs) (stepOf (State.step twentyMs)))
        (start twentyMs ⟨[], [], [⟨0, .next [100]⟩]⟩ 0) (List.replicate 8 .untilClosing) s ∧
      (s.pc = .returned .success ∧ s.current.size = 160) ∧ s.Budgeted twentyMs := by
  have hrun : ∃ s, (List.replicate 8 Answers.untilClosing).foldlM
      (fun s a => if s.Fits twentyMs a then s.step twentyMs a else none)
      (start twentyMs ⟨[], [], [⟨0, .next [100]⟩]⟩ 0) = some s ∧ s.pc = .returned .success ∧ s.current.size = 160 :=
    ⟨_, rfl, rfl, rfl⟩
  obtain ⟨s, hs, hdone⟩ := hrun
  have h := Run.of_foldlM_guarded hs
  exact ⟨s, h, hdone, budgeted_of_run h⟩

/-- After an SDU of 32 bytes, a control PDU of 160 bytes. -/
theorem control_exceeds : ¬∀ c lists iPduNum answers s,
    Run (stepOf (State.step c)) (start c lists iPduNum) answers s → s.Budgeted c := by
  intro h
  have hrun : ∃ s, (List.replicate 4 Answers.untilClosing).foldlM (State.step twentyMs)
      (start twentyMs ⟨[⟨1, .next [32]⟩], [], [⟨0, .next [200]⟩]⟩ 0) = some s ∧ s.current.size = 197 :=
    ⟨_, rfl, rfl⟩
  obtain ⟨s, hs, hsize⟩ := hrun
  have hle := (h _ _ _ _ s (Run.of_foldlM hs) s.current List.mem_cons_self).size
  rw [hsize] at hle
  exact absurd hle (by decide)

end Ftke.MuxPdus
