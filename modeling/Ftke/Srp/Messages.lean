import Ftke.Srp.Timers
import Mathlib.Algebra.Ring.Nat
import Mathlib.Logic.Function.Iterate

/-!
# Ftke.Srp.Messages

A message of the upper layer, cut into chunks: `UpperLayerRx` looks before the
first chunk whether there are enough packets in one of its pools, and takes a
number and a packet for each chunk afterwards.  When a packet cannot be created
for a chunk that has its number, or for one that is not the first, the queue or
the number have changed, and the message is not there.
-/

namespace Ftke.Srp

namespace Endpoint

variable {s t : Endpoint}

/-! ## All or nothing -/

/-- The packets of these chunks, with consecutive numbers, the last one marked. -/
def chunkPackets (seqNum : UInt8) : List (List UInt8) → List MediaData
  | [] => []
  | [chunk] => [⟨seqNum, seqNum :: 0xFF :: chunk⟩]
  | chunk :: chunks => ⟨seqNum, seqNum :: 0x00 :: chunk⟩ :: chunkPackets (count seqNum) chunks

/-- The message has been queued, in chunks of at most `iCcsrlSduSize` bytes. -/
def Queued (s : Endpoint) (frag : List UInt8) (t : Endpoint) : Prop :=
  ∃ chunks : List (List UInt8), chunks.flatten = frag ∧
    (∀ chunk ∈ chunks, chunk ≠ [] ∧ chunk.length ≤ s.rx.iCcsrlSduSize) ∧
    t.tx.iSrpWaitQueue = s.tx.iSrpWaitQueue ++ chunkPackets s.tx.iSendSeqNumber chunks ∧
    t.tx.iSendSeqNumber = count^[chunks.length] s.tx.iSendSeqNumber

/-- The queue and the number are as they were. -/
def Untouched (s t : Endpoint) : Prop :=
  t.tx.iSrpWaitQueue = s.tx.iSrpWaitQueue ∧ t.tx.iSendSeqNumber = s.tx.iSendSeqNumber

/-- The whole message has been queued, or nothing. -/
def AllOrNothing (s : Endpoint) (frag : List UInt8) (t : Endpoint) : Prop := s.Queued frag t ∨ s.Untouched t

/-- An allocation that fails does so before the first number is taken. -/
def Untorn (s : Endpoint) (frag : List UInt8) (allocs : Allocs) : Prop :=
  frag.length / s.rx.iCcsrlSduSize + 1 > allocs.numMsgAvail ∨
    frag.length ≤ allocs.packets * s.rx.iCcsrlSduSize ∨ (allocs.packets = 0 ∧ allocs.numbered = false)

theorem count_ne (n : UInt8) : count n ≠ n := by
  unfold count
  split
  · next h =>
    intro heq
    have hnat := congrArg UInt8.toNat heq
    have hlt : n.toNat < 255 := h
    rw [UInt8.toNat_add, Nat.mod_eq_of_lt (by simp; omega)] at hnat
    simp at hnat
  · next h =>
    rintro rfl
    exact h (by decide)

/-! ## The loop over the chunks -/

/-- **The message fits** when there are packets for all of its chunks. -/
theorem chunkLoop_ok (numbered : Bool) (hsize : 0 < s.rx.iCcsrlSduSize) : ∀ (packets : Nat) (buf : List UInt8),
    (chunkLoop numbered packets s buf).2 = true ↔ buf.length ≤ packets * s.rx.iCcsrlSduSize := by
  intro packets
  induction packets generalizing s with
  | zero =>
    intro buf
    cases buf <;> simp [chunkLoop]
  | succ packets ih =>
    intro buf
    cases buf with
    | nil => simp [chunkLoop]
    | cons b buf =>
      simp only [chunkLoop, Nat.succ_mul]
      by_cases hle : (b :: buf).length ≤ s.rx.iCcsrlSduSize
      · rw [if_pos hle]
        simp only [true_iff]
        omega
      · rw [if_neg hle, ih (s := s.queuePacket [0x00] ((b :: buf).take s.rx.iCcsrlSduSize)) hsize,
          List.length_drop]
        show _ - s.rx.iCcsrlSduSize ≤ packets * s.rx.iCcsrlSduSize ↔ _
        omega

theorem chunkLoop_queued (numbered : Bool) (hsize : 0 < s.rx.iCcsrlSduSize) : ∀ (packets : Nat) (buf : List UInt8),
    (chunkLoop numbered packets s buf).2 = true → s.Queued buf (chunkLoop numbered packets s buf).1 := by
  intro packets
  induction packets generalizing s with
  | zero =>
    intro buf hok
    cases buf with
    | nil => exact ⟨[], rfl, by simp, by simp [chunkLoop, chunkPackets], rfl⟩
    | cons b buf => simp [chunkLoop] at hok
  | succ packets ih =>
    intro buf hok
    cases buf with
    | nil => exact ⟨[], rfl, by simp, by simp [chunkLoop, chunkPackets], rfl⟩
    | cons b buf =>
      simp only [chunkLoop] at hok ⊢
      by_cases hle : (b :: buf).length ≤ s.rx.iCcsrlSduSize
      · rw [if_pos hle]
        exact ⟨[b :: buf], by simp, by simpa using hle, rfl, rfl⟩
      · rw [if_neg hle] at hok ⊢
        obtain ⟨chunks, hflat, hsized, hqueue, hseq⟩ :=
          ih (s := s.queuePacket [0x00] ((b :: buf).take s.rx.iCcsrlSduSize)) hsize _ hok
        have hne : chunks ≠ [] := by
          rintro rfl
          have hlen := congrArg List.length hflat
          rw [List.length_drop, List.flatten_nil, List.length_nil] at hlen
          omega
        refine ⟨(b :: buf).take s.rx.iCcsrlSduSize :: chunks, ?_, ?_, ?_, ?_⟩
        · rw [List.flatten_cons, hflat, List.take_append_drop]
        · intro chunk hchunk
          rcases List.mem_cons.mp hchunk with rfl | hchunk
          · refine ⟨?_, List.length_take_le _ _⟩
            intro hnil
            rw [List.take_eq_nil_iff] at hnil
            rcases hnil with hzero | hnil
            · omega
            · cases hnil
          · exact hsized chunk hchunk
        · rw [hqueue]
          cases chunks with
          | nil => exact absurd rfl hne
          | cons chunk chunks =>
            simp only [queuePacket, chunkPackets, List.append_assoc, List.cons_append, List.nil_append]
        · rw [hseq, List.length_cons, Function.iterate_succ_apply]
          rfl

/-- The packets of a message that does not fit are all marked as ones with a
packet after them. -/
theorem chunkLoop_torn (numbered : Bool) : ∀ (packets : Nat) (s : Endpoint) (buf : List UInt8),
    (chunkLoop numbered packets s buf).2 = false →
      (∃ queued : List MediaData, queued.length = packets ∧ (∀ pPkt ∈ queued, pPkt.bytes[1]? = some 0x00) ∧
        (chunkLoop numbered packets s buf).1.tx.iSrpWaitQueue = s.tx.iSrpWaitQueue ++ queued) ∧
      (chunkLoop numbered packets s buf).1.tx.iSendSeqNumber =
        count^[packets + numbered.toNat] s.tx.iSendSeqNumber := by
  intro packets
  induction packets with
  | zero =>
    intro s buf hok
    cases buf with
    | nil => simp [chunkLoop] at hok
    | cons b buf =>
      refine ⟨⟨[], rfl, by simp, ?_⟩, ?_⟩ <;> cases numbered <;> simp [chunkLoop, noPacket]
  | succ packets ih =>
    intro s buf hok
    cases buf with
    | nil => simp [chunkLoop] at hok
    | cons b buf =>
      simp only [chunkLoop] at hok ⊢
      by_cases hle : (b :: buf).length ≤ s.rx.iCcsrlSduSize
      · rw [if_pos hle] at hok
        cases hok
      · rw [if_neg hle] at hok ⊢
        obtain ⟨⟨queued, hlen, hmarks, hqueue⟩, hseq⟩ := ih _ _ hok
        have hlen' : (⟨s.tx.iSendSeqNumber, s.tx.iSendSeqNumber ::
            0x00 :: (b :: buf).take s.rx.iCcsrlSduSize⟩ :: queued : List MediaData).length = packets + 1 := by
          rw [List.length_cons, hlen]
        refine ⟨⟨_, hlen', ?_, ?_⟩, ?_⟩
        · rw [List.forall_mem_cons]
          exact ⟨rfl, hmarks⟩
        · rw [hqueue]
          simp [queuePacket]
        · rw [hseq, Nat.add_right_comm, Function.iterate_succ_apply]
          rfl

theorem mark_chunkPackets : ∀ (chunks : List (List UInt8)) (seqNum : UInt8), chunks ≠ [] →
    ∃ pPkt ∈ chunkPackets seqNum chunks, pPkt.bytes[1]? = some 0xFF
  | [], _, hne => absurd rfl hne
  | [chunk], seqNum, _ => ⟨_, List.mem_singleton_self _, rfl⟩
  | _ :: chunk :: chunks, seqNum, _ => by
    obtain ⟨pPkt, hmem, hmark⟩ := mark_chunkPackets (chunk :: chunks) (count seqNum) (by simp)
    exact ⟨pPkt, List.mem_cons_of_mem _ hmem, hmark⟩

/-- **The loop** queues all or nothing if and only if no packet fails after the
first number has been taken. -/
theorem chunkLoop_allOrNothing (numbered : Bool) (hsize : 0 < s.rx.iCcsrlSduSize) (packets : Nat)
    (buf : List UInt8) : s.AllOrNothing buf (chunkLoop numbered packets s buf).1 ↔
      buf.length ≤ packets * s.rx.iCcsrlSduSize ∨ (packets = 0 ∧ numbered = false) := by
  cases hok : (chunkLoop numbered packets s buf).2 with
  | true =>
    have hfits := (chunkLoop_ok numbered hsize packets buf).mp hok
    exact ⟨fun _ => .inl hfits, fun _ => .inl (chunkLoop_queued numbered hsize packets buf hok)⟩
  | false =>
    obtain ⟨⟨queued, hlen, hmarks, hqueue⟩, hseq⟩ := chunkLoop_torn numbered packets s buf hok
    have htorn : ¬ buf.length ≤ packets * s.rx.iCcsrlSduSize := fun hfits => by
      rw [(chunkLoop_ok numbered hsize packets buf).mpr hfits] at hok
      cases hok
    constructor
    · rintro (⟨chunks, hflat, -, hqueue', -⟩ | ⟨hqueue', hseq'⟩)
      · have hne : chunks ≠ [] := by
          rintro rfl
          exact htorn (by rw [← hflat]; exact Nat.zero_le _)
        obtain ⟨pPkt, hmem, hmark⟩ := mark_chunkPackets chunks s.tx.iSendSeqNumber hne
        rw [hqueue'] at hqueue
        rw [List.append_cancel_left hqueue] at hmem
        have hzero := hmarks pPkt hmem
        rw [hmark] at hzero
        exact absurd hzero (by decide)
      · rw [hqueue] at hqueue'
        have hnil : queued = [] := by simpa using hqueue'
        obtain rfl : packets = 0 := by rw [← hlen, hnil]; rfl
        refine .inr ⟨rfl, ?_⟩
        cases numbered with
        | false => rfl
        | true =>
          rw [hseq] at hseq'
          exact absurd hseq' (count_ne _)
    · rintro (hfits | ⟨rfl, rfl⟩)
      · exact absurd hfits htorn
      · rw [List.length_eq_zero_iff] at hlen
        rw [hlen, List.append_nil] at hqueue
        exact .inr ⟨hqueue, hseq⟩

/-! ## The call -/

theorem untouched_wnsrpLoop : ∀ (free : List Nat) (avail : Nat) (s : Sender),
    (Sender.wnsrpLoop free avail s).1.iSrpWaitQueue = s.iSrpWaitQueue ∧
      (Sender.wnsrpLoop free avail s).1.iSendSeqNumber = s.iSendSeqNumber
  | [], _, _ => ⟨rfl, rfl⟩
  | pTimer :: free, avail, s => by
    unfold Sender.wnsrpLoop
    split
    · exact ⟨rfl, rfl⟩
    · exact ⟨rfl, rfl⟩
    · next pPkt avail' _ => exact untouched_wnsrpLoop free avail' (s.sendWnsrp pTimer pPkt)

theorem untouched_srp_0_1 {s t : Sender} {avail : Nat} {lower : List MediaData}
    (h : s.srp_0_1 avail = .ok (t, lower)) :
    t.iSrpWaitQueue = s.iSrpWaitQueue ∧ t.iSendSeqNumber = s.iSendSeqNumber := by
  have hloop := untouched_wnsrpLoop s.iFreeWnsrpCommandSave avail s
  unfold Sender.srp_0_1 at h
  split at h
  · simp only at h
    split at h <;> (cases h; exact hloop)
  · split at h
    · cases h
    · cases h
      exact ⟨rfl, rfl⟩
    · next pFirstPkt avail' hget =>
      have hloop' := untouched_wnsrpLoop s.iFreeWnsrpCommandSave avail' (s.sendSrp pFirstPkt)
      simp only at h
      split at h
      · cases h
        exact ⟨rfl, rfl⟩
      · split at h <;> (cases h; exact hloop')

theorem untouched_srp_1_1 (s : Sender) (avail : Nat) :
    (s.srp_1_1 avail).1.iSrpWaitQueue = s.iSrpWaitQueue ∧
      (s.srp_1_1 avail).1.iSendSeqNumber = s.iSendSeqNumber := by
  unfold Sender.srp_1_1
  cases s.iCurWnsrpStatus with
  | noWnsrpSupport => exact ⟨rfl, rfl⟩
  | wnsrpTxSupport | wnsrpFullSupport => exact untouched_wnsrpLoop s.iFreeWnsrpCommandSave avail s

theorem untouched_pduQueued {avail : Nat} {out : Output} (h : s.pduQueued avail = .ok (t, out)) :
    s.Untouched t := by
  unfold pduQueued at h
  split at h
  · cases hsend : s.tx.srp_0_1 avail with
    | error e =>
      rw [hsend] at h
      cases h
    | ok result =>
      rw [hsend] at h
      cases h
      exact untouched_srp_0_1 hsend
  · cases h
    exact untouched_srp_1_1 s.tx avail

theorem allOrNothing_congr {frag : List UInt8} {u : Endpoint} (h : t.Untouched u) :
    s.AllOrNothing frag u ↔ s.AllOrNothing frag t := by
  simp only [AllOrNothing, Queued, Untouched, h.1, h.2]

/-- **`UpperLayerRx` queues the whole message or nothing** if and only if no
allocation fails after the first number has been taken. -/
theorem allOrNothing_iff (hsize : 0 < s.rx.iCcsrlSduSize) (frag : List UInt8) (allocs : Allocs) :
    (∀ t out, s.upperLayerRx frag allocs = .ok (t, out) → s.AllOrNothing frag t) ↔ s.Untorn frag allocs := by
  have hloop := chunkLoop_allOrNothing allocs.numbered hsize allocs.packets frag
  have hok := chunkLoop_ok (s := s) allocs.numbered hsize allocs.packets frag
  unfold upperLayerRx Untorn
  rw [if_pos hsize]
  by_cases hfull : frag.length / s.rx.iCcsrlSduSize + 1 > allocs.numMsgAvail
  · rw [if_pos hfull]
    refine ⟨fun _ => .inl hfull, fun _ t out h => ?_⟩
    cases h
    exact .inr ⟨rfl, rfl⟩
  · rw [if_neg hfull, or_iff_right hfull, ← hloop]
    generalize chunkLoop allocs.numbered allocs.packets s frag = result at hloop hok ⊢
    obtain ⟨u, ok⟩ := result
    cases ok with
    | true =>
      refine ⟨fun _ => hloop.mpr (.inl (hok.mp rfl)), fun hall t out h => ?_⟩
      exact (allOrNothing_congr (untouched_pduQueued h)).mpr hall
    | false =>
      constructor
      · exact fun h => h u ⟨[], []⟩ rfl
      · intro hall t out h
        cases h
        exact hall

/-- A message of two chunks, in a state after `SrpInitL`. -/
theorem allOrNothing_twoChunks : 0 < (srpInitL (withWindow 2) 1 5).rx.iCcsrlSduSize ∧
    ∀ t out, (srpInitL (withWindow 2) 1 5).upperLayerRx [1, 2] plenty = .ok (t, out) →
      (srpInitL (withWindow 2) 1 5).AllOrNothing [1, 2] t :=
  ⟨Nat.one_pos, (allOrNothing_iff Nat.one_pos [1, 2] plenty).mpr (.inr (.inl (by decide)))⟩

/-- The packet of the second of two chunks cannot be created. -/
theorem allOrNothing_torn : ¬ ∀ (s : Endpoint) (frag : List UInt8) (allocs : Allocs) (t : Endpoint)
    (out : Output), 0 < s.rx.iCcsrlSduSize → s.upperLayerRx frag allocs = .ok (t, out) →
      s.AllOrNothing frag t := by
  intro h
  have hall := h (srpInitL (withWindow 2) 1 5) [1, 2] { plenty with packets := 1, numbered := true } _ _
    Nat.one_pos rfl
  have htorn := (chunkLoop_allOrNothing (s := srpInitL (withWindow 2) 1 5) true Nat.one_pos 1 [1, 2]).mp hall
  exact absurd htorn (by decide)

end Endpoint

end Ftke.Srp
