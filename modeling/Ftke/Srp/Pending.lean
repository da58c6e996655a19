import Ftke.Run
import Ftke.Srp

/-!
# Ftke.Srp.Pending

When the receiving half of `SRP` delivers all that it can.

`iPendingRxFragList` is kept sorted by the numbers as they are, and only its head
is compared with the expected one.  A fragment from behind the wrap stands in
front of those before it, so from then on nothing is delivered.
-/

namespace Ftke.Srp.Receiver

/-! ## The sorted list -/

/-- The numbers are ascending. -/
def Sorted (l : List RxData) : Prop := l.Pairwise fun a b => a.seqNum < b.seqNum

variable {frag : RxData} {l : List RxData}

theorem mem_addPendingRxFrag {f : RxData} : f ∈ addPendingRxFrag frag l ↔ f = frag ∨ f ∈ l := by
  induction l with
  | nil => simp [addPendingRxFrag]
  | cons cur l ih =>
    simp only [addPendingRxFrag]
    split
    · simp
    · rw [List.mem_cons, ih, List.mem_cons]
      exact or_left_comm

theorem sorted_addPendingRxFrag (h : Sorted l) (hne : ∀ f ∈ l, f.seqNum ≠ frag.seqNum) :
    Sorted (addPendingRxFrag frag l) := by
  induction l with
  | nil => exact List.pairwise_singleton _ _
  | cons cur l ih =>
    obtain ⟨hcur, hl⟩ := List.pairwise_cons.mp h
    simp only [addPendingRxFrag]
    split
    · next hlt =>
      refine List.pairwise_cons.mpr ⟨fun f hf => ?_, h⟩
      rcases List.mem_cons.mp hf with rfl | hf
      · exact hlt
      · exact UInt8.lt_trans hlt (hcur f hf)
    · next hge =>
      have hcne := hne cur List.mem_cons_self
      refine List.pairwise_cons.mpr ⟨fun f hf => ?_, ih hl fun f hf => hne f (List.mem_cons_of_mem _ hf)⟩
      rcases mem_addPendingRxFrag.mp hf with rfl | hf
      · exact UInt8.lt_of_le_of_ne (UInt8.not_lt.mp hge) hcne
      · exact hcur f hf

theorem addPendingRxFrag_head {cur : RxData} (h : cur.seqNum < frag.seqNum) :
    addPendingRxFrag frag (cur :: l) = cur :: addPendingRxFrag frag l :=
  if_neg (UInt8.not_lt.mpr (UInt8.le_of_lt h))

/-! ## The loop -/

/-- All that can be delivered in order has been. -/
def Delivered (r : Receiver) : Prop := ∀ f ∈ r.iPendingRxFragList, f.seqNum ≠ r.iRecvSeqNumber

theorem count_le {m n : UInt8} (h : m < n) : count m ≤ n := by
  have hlt := UInt8.lt_iff_toNat_lt.mp h
  have hn := n.toNat_lt
  have hm : m < 255 := UInt8.lt_iff_toNat_lt.mpr (show m.toNat < 255 by omega)
  rw [count, if_pos hm, UInt8.le_iff_toNat_le, UInt8.toNat_add]
  show (m.toNat + 1) % 256 ≤ n.toNat
  omega

instance (r : Receiver) : Decidable r.Delivered :=
  inferInstanceAs (Decidable (∀ f ∈ r.iPendingRxFragList, f.seqNum ≠ r.iRecvSeqNumber))

theorem upperLayerLoop_spec {l : List RxData} (h : Sorted l) : ∀ {r : Receiver},
    (∀ f ∈ l, r.iRecvSeqNumber ≤ f.seqNum) → Sorted (r.upperLayerLoop l).1.iPendingRxFragList ∧
      (r.upperLayerLoop l).1.Delivered ∧ (r.upperLayerLoop l).1.iFirstCmd = r.iFirstCmd := by
  induction l with
  | nil => exact fun _ => ⟨List.Pairwise.nil, by simp [Delivered, upperLayerLoop], rfl⟩
  | cons rxData next ih =>
    intro r hle
    obtain ⟨hhead, hnext⟩ := List.pairwise_cons.mp h
    simp only [upperLayerLoop]
    split
    · next heq =>
      refine ih hnext fun f hf => ?_
      show count r.iRecvSeqNumber ≤ f.seqNum
      rw [← heq]
      exact count_le (hhead f hf)
    · next hne =>
      refine ⟨h, fun f hf => ?_, rfl⟩
      rcases List.mem_cons.mp hf with rfl | hf
      · exact hne
      · have hlt := hhead f hf
        have hle := hle rxData List.mem_cons_self
        intro heq
        rw [show f.seqNum = r.iRecvSeqNumber from heq] at hlt
        exact UInt8.not_lt.mpr hle hlt

theorem upperLayerLoop_stop {r : Receiver} {rxData : RxData} {next : List RxData}
    (h : rxData.seqNum ≠ r.iRecvSeqNumber) :
    r.upperLayerLoop (rxData :: next) = ({ r with iPendingRxFragList := rxData :: next }, []) :=
  if_neg h

/-! ## Runs -/

/-- A command, as `Srp_0_2` gets it: the header is the one of the response. -/
structure Command where
  pkt : MediaData
  header : Header
  alloc : Alloc

/-- The state after a command. -/
def step (r : Receiver) (i : Command) : Option Receiver := do
  let (r, _, _) ← r.srp_0_2 i.pkt i.header i.alloc
  return r

/-- Nothing has been received yet: after `SrpStart`, or at any expected number. -/
def Start (r : Receiver) : Prop := r.iPendingRxFragList = []

/-- When the number expected next is taken, no number from behind the wrap is
pending, and there is a response to send. -/
def Unblocked (r : Receiver) (i : Command) : Prop :=
  let r := r.firstCmd i.pkt i.header
  (r.checkRxSeqNum i.pkt.seqNum i.header i.alloc.resp).1 = true → r.fragLen i.pkt ≤ maxSizeOfSrpPdu →
    r.iFreeRxFragList ≠ 0 → i.alloc.rx = true → i.pkt.seqNum = r.iRecvSeqNumber →
      i.alloc.resp = true ∧ ∀ f ∈ r.iPendingRxFragList, r.iRecvSeqNumber < f.seqNum

/-- What holds as long as no command has blocked the others. -/
structure Good (r : Receiver) : Prop where
  sorted : Sorted r.iPendingRxFragList
  delivered : r.Delivered
  first : r.iFirstCmd = true → r.iPendingRxFragList = []

theorem Start.good {r : Receiver} (h : r.Start) : r.Good := by
  have hnil : r.iPendingRxFragList = [] := h
  refine ⟨?_, ?_, fun _ => hnil⟩
  · rw [hnil]
    exact List.Pairwise.nil
  · simp [Delivered, hnil]

variable {r : Receiver}

theorem pending_firstCmd (r : Receiver) (pPkt : MediaData) (header : Header) :
    (r.firstCmd pPkt header).iPendingRxFragList = r.iPendingRxFragList := by
  unfold firstCmd
  split <;> rfl

theorem first_firstCmd (r : Receiver) (pPkt : MediaData) (header : Header) :
    (r.firstCmd pPkt header).iFirstCmd = false := by
  unfold firstCmd
  split
  · rfl
  · next h => exact Bool.eq_false_iff.mpr h

theorem Good.firstCmd (h : r.Good) (pPkt : MediaData) (header : Header) :
    (r.firstCmd pPkt header).Good := by
  have hpending := pending_firstCmd r pPkt header
  refine ⟨hpending ▸ h.sorted, ?_, fun hf => ?_⟩
  · by_cases hfirst : r.iFirstCmd = true
    · simp [Delivered, hpending, h.first hfirst]
    · rw [Receiver.firstCmd, if_neg hfirst]
      exact h.delivered
  · rw [first_firstCmd] at hf
    contradiction

theorem ne_of_taken (h : r.Delivered) {seqNum : UInt8} {header : Header} {resp : Bool}
    (htaken : (r.checkRxSeqNum seqNum header resp).1 = true) :
    ∀ f ∈ r.iPendingRxFragList, f.seqNum ≠ seqNum := by
  intro f hf heq
  have hexpected (hne : (seqNum ≠ r.iRecvSeqNumber) → False) : False := by
    by_cases hs : seqNum = r.iRecvSeqNumber
    · exact h f hf (heq.trans hs)
    · exact hne hs
  cases header with
  | srpCommand => simp [checkRxSeqNum] at htaken
  | wnsrpCommand => simp [checkRxSeqNum] at htaken
  | srpResponse => exact hexpected fun hne => by simp [checkRxSeqNum, hne] at htaken
  | nsrpResponse => exact hexpected fun hne => by simp [checkRxSeqNum, hne] at htaken
  | wnsrpResponse =>
    have hpending : r.checkPendingRxList seqNum = true :=
      List.any_eq_true.mpr ⟨f, hf, by simpa using heq⟩
    simp [checkRxSeqNum, hpending] at htaken

theorem exists_head (h : Sorted l) {n : UInt8} {f : RxData} (hf : f ∈ l) (hlt : f.seqNum < n) :
    ∃ cur next, l = cur :: next ∧ cur.seqNum < n := by
  cases l with
  | nil => exact absurd hf List.not_mem_nil
  | cons cur next =>
    refine ⟨cur, next, rfl, ?_⟩
    rcases List.mem_cons.mp hf with rfl | hf
    · exact hlt
    · exact UInt8.lt_trans ((List.pairwise_cons.mp h).1 f hf) hlt

/-! ## One step -/

/-- The command is put into the list. -/
def Taken (r : Receiver) (i : Command) : Prop :=
  (r.checkRxSeqNum i.pkt.seqNum i.header i.alloc.resp).1 = true ∧ r.fragLen i.pkt ≤ maxSizeOfSrpPdu ∧
    r.iFreeRxFragList ≠ 0 ∧ i.alloc.rx = true

/-- The list with it. -/
def take (r : Receiver) (i : Command) : Receiver :=
  { r with
    iPendingRxFragList := addPendingRxFrag ⟨i.pkt.seqNum, r.chunk i.pkt⟩ r.iPendingRxFragList
    iFreeRxFragList := r.iFreeRxFragList - 1 }

variable {i : Command}

/-- What a command does: nothing, or it is taken, and the loop runs if there is
a response. -/
theorem step_cases {t : Receiver} (h : r.step i = some t) :
    (¬ (r.firstCmd i.pkt i.header).Taken i ∧ t = r.firstCmd i.pkt i.header) ∨
      ((r.firstCmd i.pkt i.header).Taken i ∧ i.alloc.resp = false ∧
        t = (r.firstCmd i.pkt i.header).take i) ∨
      ((r.firstCmd i.pkt i.header).Taken i ∧ i.alloc.resp = true ∧
        t = (((r.firstCmd i.pkt i.header).take i).upperLayerLoop
          ((r.firstCmd i.pkt i.header).take i).iPendingRxFragList).1) := by
  simp only [step, srp_0_2] at h
  generalize r.firstCmd i.pkt i.header = r at h ⊢
  match hcheck : r.checkRxSeqNum i.pkt.seqNum i.header i.alloc.resp with
  | (false, lower) =>
    rw [hcheck] at h
    exact .inl ⟨fun ht => by simp [Taken, hcheck] at ht, (Option.some.inj h).symm⟩
  | (true, lower) =>
    simp only [hcheck, srpMsgCopy] at h
    have hone : (r.checkRxSeqNum i.pkt.seqNum i.header i.alloc.resp).1 = true := by rw [hcheck]
    by_cases hlen : r.fragLen i.pkt > maxSizeOfSrpPdu
    · rw [if_pos hlen] at h
      exact .inl ⟨fun ht => Int.not_le.mpr hlen ht.2.1, (Option.some.inj h).symm⟩
    rw [if_neg hlen] at h
    by_cases hfree : r.iFreeRxFragList = 0 ∨ i.alloc.rx = false
    · rw [if_pos hfree] at h
      refine .inl ⟨fun ht => ?_, (Option.some.inj h).symm⟩
      rcases hfree with hfree | hrx
      · exact ht.2.2.1 hfree
      · exact absurd ht.2.2.2 (by rw [hrx]; decide)
    rw [if_neg hfree] at h
    have htaken : r.Taken i := by
      refine ⟨hone, Int.not_lt.mp hlen, fun h0 => hfree (.inl h0), ?_⟩
      exact Bool.not_eq_false _ ▸ fun h0 => hfree (.inr h0)
    by_cases hneg : r.fragLen i.pkt < 0
    · rw [if_pos hneg] at h
      contradiction
    rw [if_neg hneg] at h
    cases hresp : i.alloc.resp with
    | false =>
      rw [hresp] at h
      exact .inr (.inl ⟨htaken, rfl, (Option.some.inj h).symm⟩)
    | true =>
      rw [hresp] at h
      exact .inr (.inr ⟨htaken, rfl, (Option.some.inj h).symm⟩)

theorem Good.take (h : r.Good) (ht : r.Taken i) : Sorted (r.take i).iPendingRxFragList :=
  sorted_addPendingRxFrag h.sorted (ne_of_taken h.delivered ht.1)

theorem delivered_take (h : r.Delivered) (hne : i.pkt.seqNum ≠ r.iRecvSeqNumber) :
    (r.take i).Delivered := by
  intro f hf
  rcases mem_addPendingRxFrag.mp hf with rfl | hf
  · exact hne
  · exact h f hf

theorem not_delivered_take (heq : i.pkt.seqNum = r.iRecvSeqNumber) :
    ¬ (r.take i).Delivered := fun h => h _ (mem_addPendingRxFrag.mpr (.inl rfl)) heq

/-- **One command** keeps everything delivered if it does not block. -/
theorem Good.step (h : r.Good) {t : Receiver} {i : Command} (hstep : r.step i = some t)
    (hun : r.Unblocked i) : t.Good := by
  have hgood := h.firstCmd i.pkt i.header
  have hfirst := first_firstCmd r i.pkt i.header
  have hcases := step_cases hstep
  simp only [Unblocked] at hun
  generalize r.firstCmd i.pkt i.header = r at hcases hun hgood hfirst
  rcases hcases with ⟨-, rfl⟩ | ⟨ht, hresp, rfl⟩ | ⟨ht, -, rfl⟩
  · exact hgood
  · have hne : i.pkt.seqNum ≠ r.iRecvSeqNumber := fun heq => by
      have htrue := (hun ht.1 ht.2.1 ht.2.2.1 ht.2.2.2 heq).1
      rw [hresp] at htrue
      contradiction
    refine ⟨hgood.take ht, delivered_take hgood.delivered hne, fun hf => ?_⟩
    rw [show (r.take i).iFirstCmd = r.iFirstCmd from rfl, hfirst] at hf
    contradiction
  · by_cases heq : i.pkt.seqNum = r.iRecvSeqNumber
    · have hleast := (hun ht.1 ht.2.1 ht.2.2.1 ht.2.2.2 heq).2
      obtain ⟨hs, hd, hf⟩ := upperLayerLoop_spec (hgood.take ht) (r := r.take i) fun f hf => by
        rcases mem_addPendingRxFrag.mp hf with rfl | hf
        · exact UInt8.le_of_eq heq.symm
        · exact UInt8.le_of_lt (hleast f hf)
      refine ⟨hs, hd, fun h1 => ?_⟩
      rw [hf, show (r.take i).iFirstCmd = r.iFirstCmd from rfl, hfirst] at h1
      contradiction
    · have hd := delivered_take hgood.delivered heq
      match hl : (r.take i).iPendingRxFragList with
      | [] => exact ⟨List.Pairwise.nil, by simp [Delivered, upperLayerLoop], fun _ => rfl⟩
      | rxData :: next =>
        have hne : rxData.seqNum ≠ (r.take i).iRecvSeqNumber := hd _ (by rw [hl]; exact List.mem_cons_self)
        rw [upperLayerLoop_stop hne, ← hl]
        refine ⟨hgood.take ht, hd, fun h1 => ?_⟩
        rw [show (r.take i).iFirstCmd = r.iFirstCmd from rfl, hfirst] at h1
        contradiction

theorem Good.unblocked (h : r.Good) {t : Receiver} (hstep : r.step i = some t)
    (hd : t.Delivered) : r.Unblocked i := by
  have hgood := h.firstCmd i.pkt i.header
  have hcases := step_cases hstep
  simp only [Unblocked]
  generalize r.firstCmd i.pkt i.header = r at hcases hgood ⊢
  intro hcheck hlen hfree hrx heq
  have ht : r.Taken i := ⟨hcheck, hlen, hfree, hrx⟩
  rcases hcases with ⟨hnot, -⟩ | ⟨-, -, rfl⟩ | ⟨-, hresp, rfl⟩
  · exact absurd ht hnot
  · exact absurd hd (not_delivered_take heq)
  · refine ⟨hresp, fun f hf => ?_⟩
    by_contra hge
    -- the fragment in front is from behind the wrap, so the loop stops there
    have hlt : f.seqNum < r.iRecvSeqNumber :=
      UInt8.lt_of_le_of_ne (UInt8.not_lt.mp hge) (hgood.delivered f hf)
    obtain ⟨cur, next, hl, hcur⟩ := exists_head hgood.sorted hf hlt
    have hadd : (r.take i).iPendingRxFragList = cur :: addPendingRxFrag ⟨i.pkt.seqNum, r.chunk i.pkt⟩ next := by
      simp only [Receiver.take, hl]
      exact addPendingRxFrag_head (by rw [heq]; exact hcur)
    have hne : cur.seqNum ≠ (r.take i).iRecvSeqNumber := UInt8.ne_of_lt hcur
    rw [hadd, upperLayerLoop_stop hne, ← hadd] at hd
    exact not_delivered_take heq hd

/-- **Everything that can be delivered has been**, after each command of a run,
if and only if none of the commands blocks. -/
theorem delivered_iff {start : Receiver} (h : start.Start) (commands : List Command) :
    Always step Delivered start commands ↔ AtEach step Unblocked start commands :=
  always_iff (fun _ h => h.delivered) (fun _ _ _ h hstep hun => h.step hstep hun)
    (fun _ _ _ h hstep hd => h.unblocked hstep hd) commands start h.good

/-! ## Runs of a receiver with the default window -/

/-- A receiver that expects this number and has nothing pending. -/
def expecting (n : UInt8) : Receiver :=
  { srpStart 256 5 with
    iFirstCmd := false
    iRecvSeqNumber := n
    iOldestWNSRPRetransSeqNum := n - 125 }

/-- A WNSRP command with this number. -/
def wnsrpCommand (n : UInt8) : Command :=
  ⟨srpCommandCreate ⟨n, [n, 0xFF, 7]⟩ .wnsrpCommand, .wnsrpResponse, ⟨true, true⟩⟩

/-- The second number comes before the first. -/
theorem delivered_iff_swapped : Always step Delivered (expecting 7) [wnsrpCommand 8, wnsrpCommand 7] := by
  refine (delivered_iff (show (expecting 7).Start from rfl) _).mpr fun t ht => ⟨?_, fun t' ht' => ⟨?_, trivial⟩⟩
  · intro _ _ _ _ heq
    exact absurd heq (by decide)
  · obtain rfl := Option.some.inj ht
    intro _ _ _ _ _
    decide

/-- The numbers 255 and 0 come before 254, which then is not delivered. -/
theorem wrap_blocks : ¬ ∀ (start : Receiver), start.Start → ∀ commands : List Command,
    Always step Delivered start commands := by
  intro h
  have hrun := h (expecting 254) rfl [wnsrpCommand 255, wnsrpCommand 0, wnsrpCommand 254]
  have hend : Delivered _ := ((hrun.2 _ rfl).2 _ rfl).2 _ rfl
  exact absurd hend (by decide)

end Ftke.Srp.Receiver
