import Ftke.RtpJitterBuffer.Vote
import Ftke.Run

/-!
# Ftke.RtpJitterBuffer.Late

Late packets: `PVMFRTPJitterBufferImpl::IsSequenceNumEarlier` and `IsSeqTsValidForPkt` over the runs of the jitter
buffer (`pvmf_rtp_jitter_buffer_impl.cpp`).

`IsSequenceNumEarlier` compares the numbers before it looks at the distance, and so takes a packet after the wrap for
one that comes before.

* `earlier_iff` — when the comparison is right;
* `Session.step` — what is done with a jitter buffer;
* `Session.Inv.run` — the count of the packets retrieved and the last of them, in the statistics;
* `late_iff` — when the verdict is right.
-/

namespace Ftke.RtpJitterBuffer

open JitterBuffer

/-! ## The comparison -/

/-- Two sequence numbers are no more than so far apart, around the circle. -/
def Within (distance : Nat) (a b : UInt16) : Prop := (a - b).toNat ≤ distance ∨ (b - a).toNat ≤ distance

/-- As a plain number, one is so far below the other that it comes after it, past the wrap. -/
def PastWrap (a b : UInt16) : Prop := a.toNat + 63536 < b.toNat

instance (distance : Nat) (a b : UInt16) : Decidable (Within distance a b) := inferInstanceAs (Decidable (_ ∨ _))

instance (a b : UInt16) : Decidable (PastWrap a b) := inferInstanceAs (Decidable (_ < _))

theorem isSequenceNumEarlier_iff (a b : UInt16) :
    isSequenceNumEarlier a b = true ↔ a.toNat < b.toNat ∨ b.toNat + 2000 ≤ a.toNat := by
  have hlt := a.toNat_lt
  have hthreshold : rollOverThreshold.toNat = 2000 := rfl
  simp only [isSequenceNumEarlier, UInt16.lt_iff_toNat_lt, UInt16.toNat_sub, hthreshold]
  split
  · simp only [true_iff]
    omega
  · split <;> simp <;> omega

/-- **When the comparison is right**: if the number is not past the wrap. -/
theorem earlier_iff {a b : UInt16} (h : (a - b).toNat < 2000 ∨ (b - a).toNat ≤ 2001) :
    (isSequenceNumEarlier a b = true ↔ Precedes a b) ↔ ¬PastWrap a b := by
  have ha := a.toNat_lt
  have hb := b.toNat_lt
  rw [UInt16.toNat_sub, UInt16.toNat_sub] at h
  rw [isSequenceNumEarlier_iff, precedes_iff, PastWrap]
  omega

theorem earlier_succ_iff {a last : UInt16} (h : Within 2000 a last) :
    (isSequenceNumEarlier a (last + 1) = true ↔ Precedes a (last + 1)) ↔ ¬PastWrap a (last + 1) := by
  refine earlier_iff ?_
  have ha := a.toNat_lt
  have hlast := last.toNat_lt
  have hone : (1 : UInt16).toNat = 1 := rfl
  rw [Within, UInt16.toNat_sub, UInt16.toNat_sub] at h
  rw [UInt16.toNat_sub, UInt16.toNat_sub, UInt16.toNat_add, hone]
  omega

/-! ## What is done with a jitter buffer -/

/-- What the check for late packets reads of the statistics: how many packets have been retrieved, and the last. -/
def retrieval (jbStats : PVMFJitterBufferStats) : UInt32 × UInt32 :=
  (jbStats.totalNumPacketsRetrieved, jbStats.lastRetrievedSeqNum)

/-- The body of the loop of `PurgeElementsWithSeqNumsLessThan`. -/
def purgeSlot (aSeqNum : UInt32) (a : PVMFDynamicCircularArray Payload) (k : Nat) : PVMFDynamicCircularArray Payload :=
  match a.iMediaPtrVec[k]?.join with
  | none => a
  | some elem =>
    if elem.seqNum < aSeqNum then
      { a with
        iMediaPtrVec := a.iMediaPtrVec.set k none
        iNumElems := a.iNumElems - 1
        iJitterBufferStats :=
          { a.iJitterBufferStats with
            packetSizeInBytesLeftInBuffer := a.iJitterBufferStats.packetSizeInBytesLeftInBuffer - elem.size } }
    else a

/-- All elements are purged. -/
def purgeAll (a : PVMFDynamicCircularArray Payload) : PVMFDynamicCircularArray Payload :=
  { a with
    iMediaPtrVec := a.iMediaPtrVec.map fun _ => none
    iNumElems := 0
    iJitterBufferStats :=
      { a.iJitterBufferStats with
        packetSizeInBytesLeftInBuffer := a.iMediaPtrVec.foldl
          (fun left slot => match slot with
            | none => left
            | some elem => left - elem.size) a.iJitterBufferStats.packetSizeInBytesLeftInBuffer } }

/-- The elements that `PurgeElementsWithSeqNumsLessThan` takes out. -/
def purgeElements (a : PVMFDynamicCircularArray Payload) (iFirstSeqNumAdded aSeqNum : UInt32) :
    PVMFDynamicCircularArray Payload :=
  if a.iMediaPtrVec.isEmpty then a
  else if aSeqNum < a.iLastRetrievedSeqNum then purgeAll a
  else if aSeqNum > a.iLastRetrievedSeqNum then
    let startoffset := (a.iLastRetrievedSeqNum - iFirstSeqNumAdded + 1).toNat % a.iArraySize
    (List.range (aSeqNum - (a.iLastRetrievedSeqNum + 1)).toNat).foldl
      (fun a i => purgeSlot aSeqNum a ((startoffset + i) % 4294967296 % a.iArraySize)) a
  else a

/-- `PVMFDynamicCircularArray::PurgeElementsWithSeqNumsLessThan`. -/
def purgeElementsWithSeqNumsLessThan (a : PVMFDynamicCircularArray Payload) (iFirstSeqNumAdded aSeqNum : UInt32) :
    PVMFDynamicCircularArray Payload :=
  let a := purgeElements a iFirstSeqNumAdded aSeqNum
  { a with
    iReadOffset := (aSeqNum - iFirstSeqNumAdded).toNat % a.iArraySize
    iLastRetrievedSeqNum := aSeqNum - 1
    iJitterBufferStats :=
      { a.iJitterBufferStats with
        lastRetrievedSeqNum := aSeqNum - 1
        currentOccupancy := a.iNumElems } }

namespace PVMFRTPJitterBufferImpl

/-- `CheckSpaceAvailability`. -/
def checkSpaceAvailability (jb : PVMFRTPJitterBufferImpl) : Bool :=
  UInt32.ofNat jb.iJitterBuffer.iArraySize - jb.iJitterBuffer.iNumElems > 1

/-- What `RegisterMediaMsg` does with a fragment; `canRegisterMediaMsg` is whether the stream is started or paused. -/
def registerFragment (jb : PVMFRTPJitterBufferImpl) (container : Option Container) (aFragIndex : Nat)
    (allocated created canRegisterMediaMsg : Bool) : Option PVMFRTPJitterBufferImpl :=
  match jb.parsePacketHeaderAndUpdateJBStats container aFragIndex allocated created with
  | none => none
  | some (_, none, jb) => some jb
  | some (status, some packet, jb) =>
    if status = .packetParsingSuccess ∧ canRegisterMediaMsg ∧ jb.checkSpaceAvailability then
      (jb.addPacket packet).map Prod.snd
    else some jb

/-- `FlushJitterBuffer`. -/
def flushJitterBuffer (jb : PVMFRTPJitterBufferImpl) : PVMFRTPJitterBufferImpl :=
  { jb with
    iFirstDataPackets := []
    iRTPInfoParamsVec := []
    iFirstSeqNumAdded := 0
    iJitterBuffer := PVMFDynamicCircularArray.construct (UInt32.ofNat jb.iJitterBuffer.iArraySize) }

end PVMFRTPJitterBufferImpl

/-- What is done with a jitter buffer: a fragment is registered, a packet retrieved, or the packets before one purged;
the buffer is flushed; or something else is done, that retrieves no packet. -/
inductive Op
  | register (container : Option Container) (aFragIndex : Nat) (allocated created canRegisterMediaMsg : Bool)
  | retrieve
  | purge (aSeqNum : UInt32)
  | flush
  | other (jb : PVMFRTPJitterBufferImpl)

/-- A jitter buffer, the sequence numbers of the packets retrieved since it was flushed, and the last of them (or the
one before those not purged). -/
structure Session where
  jb : PVMFRTPJitterBufferImpl
  taken : List UInt32
  last : Option UInt32

namespace Session

def start (iInPlaceProcessing : Bool) (arraySize : UInt32) : Session :=
  ⟨newJitterBuffer iInPlaceProcessing arraySize, [], none⟩

def step (s : Session) : Op → Option Session
  | .register container aFragIndex allocated created canRegisterMediaMsg =>
    (s.jb.registerFragment container aFragIndex allocated created canRegisterMediaMsg).map
      fun jb => { s with jb }
  | .retrieve =>
    match s.jb.iJitterBuffer.retrieveElement with
    | (none, iJitterBuffer) => some { s with jb := { s.jb with iJitterBuffer } }
    | (some packet, iJitterBuffer) =>
      some ⟨{ s.jb with iJitterBuffer }, s.taken ++ [packet.seqNum], some packet.seqNum⟩
  | .purge aSeqNum =>
    let iJitterBuffer := purgeElementsWithSeqNumsLessThan s.jb.iJitterBuffer s.jb.iFirstSeqNumAdded aSeqNum
    some { s with jb := { s.jb with iJitterBuffer }, last := some (aSeqNum - 1) }
  | .flush => some ⟨s.jb.flushJitterBuffer, [], none⟩
  | .other jb => if retrieval jb.stats = retrieval s.jb.stats then some { s with jb } else none

/-- The statistics have the count of the packets retrieved, and the last of them. -/
structure Inv (s : Session) : Prop where
  retrieved : s.jb.stats.totalNumPacketsRetrieved = UInt32.ofNat s.taken.length
  last : ∀ last, s.last = some last → s.jb.stats.lastRetrievedSeqNum = last

end Session

/-! ## Registering retrieves nothing -/

theorem retrieval_receive (jbStats : PVMFJitterBufferStats) (elem : DataPacket) :
    retrieval (jbStats.receive elem) = retrieval jbStats := rfl

theorem retrieval_register (jbStats : PVMFJitterBufferStats) (elem : DataPacket) (iNumElems : UInt32) :
    retrieval (jbStats.register elem iNumElems) = retrieval jbStats := rfl

theorem retrieval_isSeqTsValidForPkt (aSeqNum rtpTimeStamp : UInt32) (jbStats : PVMFJitterBufferStats) :
    retrieval (isSeqTsValidForPkt aSeqNum rtpTimeStamp jbStats).2 = retrieval jbStats := by
  simp only [isSeqTsValidForPkt]
  split
  · rfl
  split <;> rfl

namespace PVMFRTPJitterBufferImpl

variable {jb jb' : PVMFRTPJitterBufferImpl} {packet : DataPacket}

theorem retrieval_addElement {status : AddElemStatus}
    (h : jb.addElement packet = some (status, jb')) : retrieval jb'.stats = retrieval jb.stats := by
  simp only [addElement, Option.bind_eq_bind, Option.bind_eq_some_iff, Option.pure_def, Option.some_inj] at h
  obtain ⟨⟨status', a⟩, hadd, h⟩ := h
  rw [← (Prod.mk.inj h).2]
  simp only [PVMFDynamicCircularArray.addElement] at hadd
  split at hadd
  · simp at hadd
  · rw [← (Prod.mk.inj (Option.some_inj.mp hadd)).2]
    exact retrieval_register _ _ _
  · split at hadd
    · rw [← (Prod.mk.inj (Option.some_inj.mp hadd)).2]
      exact retrieval_register _ _ _
    · rw [← (Prod.mk.inj (Option.some_inj.mp hadd)).2]
      exact retrieval_receive _ _

theorem retrieval_checkVoted
    (h : jb.checkVoted packet = .ok jb') : retrieval jb'.stats = retrieval jb.stats := by
  simp only [checkVoted] at h
  split at h
  · split at h
    · simp at h
    split at h
    · rw [← Except.ok.inj h]
      exact retrieval_isSeqTsValidForPkt _ _ _
    · simp at h
  · rw [← Except.ok.inj h]

theorem retrieval_registerVoted : ∀ (packets : List DataPacket) {retval status : RegisterStatus}
    {jb jb' : PVMFRTPJitterBufferImpl}, registerVoted packets retval jb = some (status, jb') →
    retrieval jb'.stats = retrieval jb.stats
  | [], _, _, _, _, h => by
    rw [registerVoted, Option.some_inj] at h
    rw [← (Prod.mk.inj h).2]
    rfl
  | packet :: packets, _, _, jb, _, h => by
    rw [registerVoted] at h
    split at h
    · cases hcheck : jb.checkVoted packet with
      | error status =>
        rw [hcheck] at h
        rw [← (Prod.mk.inj (Option.some_inj.mp h)).2]
      | ok jb1 =>
        rw [hcheck] at h
        simp only [Option.bind_eq_bind, Option.bind_eq_some_iff] at h
        obtain ⟨⟨status, jb2⟩, hadd, h⟩ := h
        rw [retrieval_registerVoted packets h, retrieval_addElement hadd, retrieval_checkVoted hcheck]
    · exact retrieval_registerVoted packets h

theorem retrieval_addLocked {status : RegisterStatus}
    (h : jb.addLocked packet = some (status, jb')) : retrieval jb'.stats = retrieval jb.stats := by
  obtain ⟨jb1, hjb1⟩ : ∃ jb1, jb1 = if jb.oSSRCFromSetUpResponseAvailable then jb
      else { jb with
        oSSRCFromSetUpResponseAvailable := true
        sSRCLock := packet.streamID } := ⟨_, rfl⟩
  have hsame : retrieval jb1.stats = retrieval jb.stats := by
    rw [hjb1]
    split <;> rfl
  rw [addLocked, ← hjb1] at h
  split at h
  · simp only [Option.bind_eq_bind, Option.bind_eq_some_iff, Option.pure_def, Option.some_inj] at h
    obtain ⟨⟨status', jb2⟩, hadd, h⟩ := h
    rw [← (Prod.mk.inj h).2, retrieval_addElement hadd, hsame]
  · rw [← (Prod.mk.inj (Option.some_inj.mp h)).2, hsame]

theorem retrieval_addPacket {status : RegisterStatus}
    (h : jb.addPacket packet = some (status, jb')) : retrieval jb'.stats = retrieval jb.stats := by
  simp only [addPacket] at h
  split at h
  · rw [← (Prod.mk.inj (Option.some_inj.mp h)).2]
  split at h
  · exact retrieval_addLocked h
  split at h
  · rw [← (Prod.mk.inj (Option.some_inj.mp h)).2]
  split at h
  · rw [← (Prod.mk.inj (Option.some_inj.mp h)).2]
    rfl
  · rw [retrieval_registerVoted _ h]
    rfl

theorem retrieval_finishPacket (jb : PVMFRTPJitterBufferImpl) (header : Header) (datagram : List UInt8)
    (aFragIndex : Nat) (allocated created : Bool) :
    retrieval (jb.finishPacket header datagram aFragIndex allocated created).2.2.stats = retrieval jb.stats := by
  simp only [finishPacket]
  split
  · rfl
  split
  · rfl
  · simp only [validate]
    split
    · split
      · rfl
      · exact retrieval_isSeqTsValidForPkt _ _ _
    · rfl

theorem retrieval_parse {container : Option Container} {aFragIndex : Nat}
    {allocated created : Bool} {status : Status} {packet : Option DataPacket}
    (h : jb.parsePacketHeaderAndUpdateJBStats container aFragIndex allocated created = some (status, packet, jb')) :
    retrieval jb'.stats = retrieval jb.stats := by
  have hfinish : ∀ {jb1 : PVMFRTPJitterBufferImpl} {header : Header} {datagram : List UInt8},
      some (jb1.finishPacket header datagram aFragIndex allocated created) = some (status, packet, jb') →
      retrieval jb'.stats = retrieval jb1.stats := by
    intro jb1 header datagram h
    rw [← jb1.retrieval_finishPacket header datagram aFragIndex allocated created, Option.some_inj.mp h]
  simp only [parsePacketHeaderAndUpdateJBStats] at h
  split at h
  · simp only [Option.some_inj, Prod.mk.injEq] at h
    rw [← h.2.2]
  · split at h
    · split at h
      · simp at h
      · simp only [Option.some_inj, Prod.mk.injEq] at h
        rw [← h.2.2]
        rfl
      · rw [hfinish h]
        rfl
    · split at h
      · simp only [Option.some_inj, Prod.mk.injEq] at h
        rw [← h.2.2]
      · exact hfinish h

theorem retrieval_registerFragment {container : Option Container}
    {aFragIndex : Nat} {allocated created canRegisterMediaMsg : Bool}
    (h : jb.registerFragment container aFragIndex allocated created canRegisterMediaMsg = some jb') :
    retrieval jb'.stats = retrieval jb.stats := by
  simp only [registerFragment] at h
  split at h
  · simp at h
  · next hparse => rw [← Option.some_inj.mp h, retrieval_parse hparse]
  · next hparse =>
    split at h
    · obtain ⟨⟨status, jb1⟩, hadd, rfl⟩ := Option.map_eq_some_iff.mp h
      rw [retrieval_addPacket hadd, retrieval_parse hparse]
    · rw [← Option.some_inj.mp h, retrieval_parse hparse]

end PVMFRTPJitterBufferImpl

/-! ## Purging and retrieving -/

theorem retrieval_purgeSlot (aSeqNum : UInt32) (a : PVMFDynamicCircularArray Payload) (k : Nat) :
    retrieval (purgeSlot aSeqNum a k).iJitterBufferStats = retrieval a.iJitterBufferStats := by
  unfold purgeSlot
  split
  · rfl
  split <;> rfl

theorem retrieval_purgeElements (a : PVMFDynamicCircularArray Payload) (iFirstSeqNumAdded aSeqNum : UInt32) :
    retrieval (purgeElements a iFirstSeqNumAdded aSeqNum).iJitterBufferStats = retrieval a.iJitterBufferStats := by
  have hloop : ∀ (slot : PVMFDynamicCircularArray Payload → Nat → Nat) (is : List Nat)
      (a : PVMFDynamicCircularArray Payload),
      retrieval (is.foldl (fun a i => purgeSlot aSeqNum a (slot a i)) a).iJitterBufferStats =
        retrieval a.iJitterBufferStats := by
    intro slot is
    induction is with
    | nil => exact fun _ => rfl
    | cons i is ih =>
      intro a
      rw [List.foldl_cons, ih, retrieval_purgeSlot]
  simp only [purgeElements]
  split
  · rfl
  split
  · rfl
  split
  · exact hloop (fun a' i => ((a.iLastRetrievedSeqNum - iFirstSeqNumAdded + 1).toNat % a.iArraySize + i) %
      4294967296 % a'.iArraySize) _ a
  · rfl

theorem retrieval_retrieveElement {a a' : PVMFDynamicCircularArray Payload} {dataPkt : Option DataPacket}
    (h : a.retrieveElement = (dataPkt, a')) :
    retrieval a'.iJitterBufferStats = match dataPkt with
      | none => retrieval a.iJitterBufferStats
      | some packet => (a.iJitterBufferStats.totalNumPacketsRetrieved + 1, packet.seqNum) := by
  simp only [PVMFDynamicCircularArray.retrieveElement] at h
  split at h
  · obtain ⟨rfl, rfl⟩ := Prod.mk.inj h
    rfl
  · obtain ⟨rfl, rfl⟩ := Prod.mk.inj h
    rfl

namespace Session

theorem inv_start (iInPlaceProcessing : Bool) (arraySize : UInt32) : (start iInPlaceProcessing arraySize).Inv :=
  ⟨rfl, fun _ h => by simp [start] at h⟩

theorem Inv.of_retrieval {s : Session} (h : s.Inv) {jb : PVMFRTPJitterBufferImpl}
    (hsame : retrieval jb.stats = retrieval s.jb.stats) : Inv { s with jb } where
  retrieved := (Prod.mk.inj hsame).1.trans h.retrieved
  last last hlast := (Prod.mk.inj hsame).2.trans (h.last last hlast)

theorem Inv.step {s t : Session} {op : Op} (h : s.Inv) (hstep : s.step op = some t) : t.Inv := by
  cases op with
  | register container aFragIndex allocated created canRegisterMediaMsg =>
    obtain ⟨jb, hregister, rfl⟩ := Option.map_eq_some_iff.mp hstep
    exact h.of_retrieval (PVMFRTPJitterBufferImpl.retrieval_registerFragment hregister)
  | retrieve =>
    simp only [Session.step] at hstep
    split at hstep
    · next hretrieve =>
      rw [← Option.some_inj.mp hstep]
      exact h.of_retrieval (retrieval_retrieveElement hretrieve)
    · next hretrieve =>
      have hcounts := Prod.mk.inj (retrieval_retrieveElement hretrieve)
      rw [← Option.some_inj.mp hstep]
      refine ⟨?_, fun last hlast => ?_⟩
      · rw [List.length_append, List.length_singleton, ← ofNat_succ, ← h.retrieved]
        exact hcounts.1
      · rw [← Option.some_inj.mp hlast]
        exact hcounts.2
  | purge aSeqNum =>
    have hcounts := Prod.mk.inj (retrieval_purgeElements s.jb.iJitterBuffer s.jb.iFirstSeqNumAdded aSeqNum)
    rw [← Option.some_inj.mp hstep]
    refine ⟨hcounts.1.trans h.retrieved, fun last hlast => ?_⟩
    rw [← Option.some_inj.mp hlast]
    rfl
  | flush =>
    rw [← Option.some_inj.mp hstep]
    exact ⟨rfl, fun _ h => by simp at h⟩
  | other jb =>
    simp only [Session.step] at hstep
    split at hstep
    · next hsame =>
      rw [← Option.some_inj.mp hstep]
      exact h.of_retrieval hsame
    · simp at hstep

/-- **Over a run**: the count and the last stay right. -/
theorem Inv.run {s t : Session} {ops : List Op} (h : s.Inv) (hrun : Run (stepOf Session.step) s ops t) : t.Inv :=
  hrun.invariant h fun _ _ _ hs hstep => hs.step hstep

end Session

/-! ## The verdict -/

theorem toUInt16_add (a b : UInt32) : (a + b).toUInt16 = a.toUInt16 + b.toUInt16 := by
  rw [← UInt16.toNat_inj, UInt16.toNat_add, UInt32.toNat_toUInt16, UInt32.toNat_toUInt16, UInt32.toNat_toUInt16,
    UInt32.toNat_add]
  omega

theorem isSeqTsValidForPkt_iff (aSeqNum rtpTimeStamp : UInt32) (jbStats : PVMFJitterBufferStats) :
    (isSeqTsValidForPkt aSeqNum rtpTimeStamp jbStats).1 = false ↔
      jbStats.totalNumPacketsRetrieved ≠ 0 ∧
        isSequenceNumEarlier aSeqNum.toUInt16 (jbStats.lastRetrievedSeqNum.toUInt16 + 1) = true := by
  have hone : (1 : UInt32).toUInt16 = 1 := rfl
  have hpos : jbStats.totalNumPacketsRetrieved > 0 ↔ jbStats.totalNumPacketsRetrieved ≠ 0 := by
    simp [UInt32.pos_iff_ne_zero]
  simp only [isSeqTsValidForPkt, toUInt16_add, hone, hpos]
  split
  · next hlate => simp [hlate]
  · next hnot =>
    split <;> simpa using hnot

/-- The condition on which the verdict on a packet is right: where the count of the packets retrieved is zero (also if
it has wrapped), that the packet does not come before; and otherwise that it is not past the wrap. -/
def JudgedRight (s : Session) (last seqNum : UInt16) : Prop :=
  if s.taken.length % 4294967296 = 0 then ¬Precedes seqNum (last + 1) else ¬PastWrap seqNum (last + 1)

/-- **When packets are rejected as they should be**: the comparison of numbers less than 2000 apart is right exactly if
the first is not past the wrap; and in every run, the verdict on a packet within 2000 of the last one retrieved is
right exactly on the condition. -/
theorem late_iff (iInPlaceProcessing : Bool) (arraySize : UInt32) (ops : List Op) (s : Session)
    (hrun : Run (stepOf Session.step) (Session.start iInPlaceProcessing arraySize) ops s) :
    (∀ a b : UInt16, Within 1999 a b →
      ((isSequenceNumEarlier a b = true ↔ Precedes a b) ↔ ¬PastWrap a b)) ∧
    ∀ last, s.last = some last → ∀ (seqNum rtpTimeStamp : UInt32) (jbStats : PVMFJitterBufferStats),
      retrieval jbStats = retrieval s.jb.stats → Within 2000 seqNum.toUInt16 last.toUInt16 →
      (((isSeqTsValidForPkt seqNum rtpTimeStamp jbStats).1 = false ↔
        Precedes seqNum.toUInt16 (last.toUInt16 + 1)) ↔ JudgedRight s last.toUInt16 seqNum.toUInt16) := by
  refine ⟨fun a b h => earlier_iff ?_, ?_⟩
  · rw [Within] at h
    omega
  · intro last hlast seqNum rtpTimeStamp jbStats hsame hwithin
    have hinv := (Session.inv_start iInPlaceProcessing arraySize).run hrun
    obtain ⟨htotal, hlastSeq⟩ := Prod.mk.inj hsame
    rw [isSeqTsValidForPkt_iff, htotal, hlastSeq, hinv.retrieved, hinv.last last hlast, JudgedRight]
    have hzero : UInt32.ofNat s.taken.length = 0 ↔ s.taken.length % 4294967296 = 0 := by
      rw [← UInt32.toNat_inj, UInt32.toNat_ofNat']
      rfl
    by_cases hcount : s.taken.length % 4294967296 = 0
    · simp [hzero, hcount]
    · simp only [ne_eq, hzero, hcount, not_false_eq_true, true_and, if_false]
      exact earlier_succ_iff hwithin

/-- A packet of one byte of payload arrives. -/
def arrive (hi lo : UInt8) : Op :=
  .register (some ⟨[[0x80, 96, hi, lo, 0, 0, 0, 0, 0, 0, 0, 7, 1]], 0, 0, 0, 0⟩) 0 true true true

/-- Five packets up to 65534 arrive and are retrieved. -/
def beforeWrap : List Op :=
  [arrive 255 250, arrive 255 251, arrive 255 252, arrive 255 253, arrive 255 254,
    .retrieve, .retrieve, .retrieve, .retrieve, .retrieve]

theorem beforeWrap_run : ∃ s, Run (stepOf Session.step) (Session.start true 8) beforeWrap s ∧
    s.last = some 65534 ∧ s.taken.length = 5 := by
  have hrun : (beforeWrap.foldlM Session.step (Session.start true 8)).map (fun s => (s.last, s.taken.length)) =
      some (some 65534, 5) := by decide
  obtain ⟨s, h, hs⟩ := Option.map_eq_some_iff.mp hrun
  exact ⟨s, Run.of_foldlM h, (Prod.mk.inj hs).1, (Prod.mk.inj hs).2⟩

/-- The next packet in order, 65535, is judged right. -/
theorem late_iff_beforeWrap : ∃ s, Run (stepOf Session.step) (Session.start true 8) beforeWrap s ∧
    (((isSeqTsValidForPkt 65535 0 s.jb.stats).1 = false ↔ Precedes 65535 65535) ↔ JudgedRight s 65534 65535) := by
  obtain ⟨s, hrun, hlast, -⟩ := beforeWrap_run
  exact ⟨s, hrun, (late_iff true 8 beforeWrap s hrun).2 65534 hlast 65535 0 s.jb.stats rfl (by decide)⟩

/-- **A packet past the wrap taken for a late one**: after 65534, the packet 0 is rejected, which comes two after it. -/
theorem past_wrap_rejected : (isSequenceNumEarlier 0 65535 = true ∧ ¬Precedes 0 65535) ∧
    ∃ s, Run (stepOf Session.step) (Session.start true 8) beforeWrap s ∧ s.last = some 65534 ∧
      (isSeqTsValidForPkt 0 0 s.jb.stats).1 = false ∧ ¬Precedes 0 65535 := by
  refine ⟨by decide, ?_⟩
  obtain ⟨s, hrun, hlast, htaken⟩ := beforeWrap_run
  have hinv := (Session.inv_start true 8).run hrun
  refine ⟨s, hrun, hlast, ?_, by decide⟩
  rw [isSeqTsValidForPkt_iff, hinv.retrieved, hinv.last _ hlast, htaken]
  decide

end Ftke.RtpJitterBuffer
