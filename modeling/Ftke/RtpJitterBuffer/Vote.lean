import Ftke.RtpJitterBuffer
import Mathlib.Algebra.Ring.Nat
import Mathlib.Data.List.Induction

/-!
# Ftke.RtpJitterBuffer.Vote

The registering of packets (`PVMFJitterBufferImpl::AddPacket`, `pvmf_jitter_buffer_impl.cpp`), with the vote of the
first five on the SSRC.

The poll compares the number of votes of an SSRC with the place of another in the table.

* `castVote`, `poll`, `addPacket` — the table, the poll and the function;
* `vote_tallied` — the table has the SSRCs in the order in which they occur first, with the packet of the smallest
  sequence number of each;
* `poll_elects` — which tables the poll gets wrong;
* `addPacket_iff` — when the SSRC and the first packet are those that the votes call for.
-/

namespace Ftke.RtpJitterBuffer

open JitterBuffer

/-! ## Registering packets -/

/-- `PVMFJitterBufferRegisterMediaMsgStatus`, as far as `AddPacket` returns it. -/
inductive RegisterStatus
  | success
  | errUnknown
  | errEosSignalled
  | errUnexpectedData
  | errLateMsg
  deriving DecidableEq

/-- A row of `my_ssrc`. -/
structure Row where
  count : Nat
  ssrc : UInt32
  seqBase : UInt32
  timestamp : UInt32
  deriving DecidableEq

def Row.empty : Row := ⟨0, 0, 0, 0⟩

/-- The row of an SSRC's first packet. -/
def Row.ofPacket (packet : DataPacket) : Row := ⟨1, packet.streamID, packet.seqNum, packet.timestamp⟩

/-- One more vote for a row. -/
def Row.bump (row : Row) (packet : DataPacket) : Row :=
  if packet.seqNum < row.seqBase then ⟨row.count + 1, row.ssrc, packet.seqNum, packet.timestamp⟩
  else { row with count := row.count + 1 }

/-- The inner loop of the vote, from a row on. -/
def castVote (packet : DataPacket) : List Row → List Row
  | [] => []
  | row :: rows =>
    if row.count > 0 then
      if packet.streamID = row.ssrc then row.bump packet :: rows else row :: castVote packet rows
    else Row.ofPacket packet :: rows

/-- The table after the vote. -/
def vote (iFirstDataPackets : List DataPacket) : List Row :=
  iFirstDataPackets.foldl (fun rows packet => castVote packet rows) (List.replicate 5 Row.empty)

/-- The poll over the counts of the table: `first_ssrc_index` and `second_ssrc_index`. -/
def pollLoop (counts : List Nat) : List Nat → Nat × Nat → Nat × Nat
  | [], indices => indices
  | i :: is, (first, second) =>
    if counts.getD i 0 > first then pollLoop counts is (i, first)
    else if counts.getD i 0 > second then pollLoop counts is (first, i)
    else pollLoop counts is (first, second)

/-- The row that is elected. -/
def poll (counts : List Nat) : Nat :=
  (pollLoop counts [2, 3, 4] (if counts.getD 0 0 < counts.getD 1 0 then (1, 0) else (0, 1))).1

namespace PVMFRTPJitterBufferImpl

/-- The SSRC and the first sequence number and timestamp are those elected, or those of an RTP-Info. -/
def lock (jb : PVMFRTPJitterBufferImpl) (iFirstDataPackets : List DataPacket) : PVMFRTPJitterBufferImpl :=
  let rows := vote iFirstDataPackets
  let elected := rows.getD (poll (rows.map Row.count)) Row.empty
  let iFirstSeqNum :=
    match jb.iRTPInfoParamsVec.head? with
    | some info => if info.seqNumBaseSet then info.seqNum else elected.seqBase
    | none => elected.seqBase
  let seqLockTimeStamp :=
    match jb.iRTPInfoParamsVec.head? with
    | some info => if info.rtpTimeBaseSet then info.rtpTime else elected.timestamp
    | none => elected.timestamp
  { jb with
    sSRCLock := elected.ssrc
    seqNumLock := true
    iFirstSeqNum
    seqLockTimeStamp
    iFirstSeqNumAdded := iFirstSeqNum }

/-- A packet goes into the array; whether it does so without error. -/
def addElement (jb : PVMFRTPJitterBufferImpl) (packet : DataPacket) :
    Option (AddElemStatus × PVMFRTPJitterBufferImpl) := do
  let (status, iJitterBuffer) ← jb.iJitterBuffer.addElement packet jb.iFirstSeqNum
  return (status, { jb with iJitterBuffer })

/-- The check of a packet of the vote before it goes into the array. -/
def checkVoted (jb : PVMFRTPJitterBufferImpl) (packet : DataPacket) :
    Except RegisterStatus PVMFRTPJitterBufferImpl :=
  if jb.iFirstSeqNum ≠ packet.seqNum then
    if jb.iBroadCastSession ∧ packet.timestamp < jb.stats.maxTimeStampRegistered then .error .errUnexpectedData
    else
      let (valid, jbStats) := isSeqTsValidForPkt packet.seqNum packet.timestamp jb.stats
      if valid then .ok (jb.setStats jbStats) else .error .errLateMsg
  else .ok jb

/-- The loop over the packets of the vote: those of the elected SSRC go into the array. -/
def registerVoted : List DataPacket → RegisterStatus → PVMFRTPJitterBufferImpl →
    Option (RegisterStatus × PVMFRTPJitterBufferImpl)
  | [], retval, jb => some (retval, { jb with iFirstDataPackets := [] })
  | packet :: packets, retval, jb =>
    if packet.streamID = jb.sSRCLock then
      match jb.checkVoted packet with
      | .error status => some (status, jb)
      | .ok jb => do
        let (status, jb) ← jb.addElement packet
        registerVoted packets (if status = .error then .errUnknown else retval) jb
    else registerVoted packets retval jb

/-- A packet where the SSRC is known. -/
def addLocked (jb : PVMFRTPJitterBufferImpl) (aDataPacket : DataPacket) :
    Option (RegisterStatus × PVMFRTPJitterBufferImpl) :=
  let jb :=
    if jb.oSSRCFromSetUpResponseAvailable then jb
    else { jb with
      oSSRCFromSetUpResponseAvailable := true
      sSRCLock := aDataPacket.streamID }
  if aDataPacket.streamID = jb.sSRCLock then do
    let (status, jb) ← jb.addElement aDataPacket
    return (if status = .packetOverwrite then .errUnknown else .success, jb)
  else some (.success, jb)

/-- `AddPacket`; `none` if a slot outside the array is read. -/
def addPacket (jb : PVMFRTPJitterBufferImpl) (aDataPacket : DataPacket) :
    Option (RegisterStatus × PVMFRTPJitterBufferImpl) :=
  if jb.iEOSSent then some (.errEosSignalled, jb)
  else if jb.seqNumLock then jb.addLocked aDataPacket
  else if jb.oSSRCFromSetUpResponseAvailable ∧ aDataPacket.streamID ≠ jb.sSRCFromSetUpResponse then
    some (.success, jb)
  else
    let jb := { jb with iFirstDataPackets := jb.iFirstDataPackets ++ [aDataPacket] }
    if jb.iFirstDataPackets.length < 5 then some (.success, jb)
    else registerVoted jb.iFirstDataPackets .success (jb.lock (jb.iFirstDataPackets.take 5))

end PVMFRTPJitterBufferImpl

/-! ## The table -/

/-- How many packets have an SSRC. -/
def occurrences (packets : List DataPacket) (ssrc : UInt32) : Nat :=
  packets.countP fun packet => packet.streamID = ssrc

/-- The SSRCs in the order in which they occur first. -/
def firsts (packets : List DataPacket) : List UInt32 := (packets.map JitterBuffer.MediaData.streamID).eraseDups

/-- A row holds its SSRC's votes, and a packet of it with the smallest sequence number. -/
structure Row.Of (packets : List DataPacket) (row : Row) : Prop where
  count : row.count = occurrences packets row.ssrc
  pos : 0 < row.count
  packet : ∃ p ∈ packets, p.streamID = row.ssrc ∧ p.seqNum = row.seqBase ∧ p.timestamp = row.timestamp
  least : ∀ q ∈ packets, q.streamID = row.ssrc → row.seqBase ≤ q.seqNum

/-- The rows are those of the SSRCs that have occurred. -/
structure Tallied (packets : List DataPacket) (rows : List Row) : Prop where
  ssrcs : rows.map Row.ssrc = firsts packets
  nodup : (rows.map Row.ssrc).Nodup
  each : ∀ row ∈ rows, row.Of packets
  sum : (rows.map Row.count).sum = packets.length

theorem firsts_concat (packets : List DataPacket) (packet : DataPacket) :
    firsts (packets ++ [packet]) =
      if packet.streamID ∈ firsts packets then firsts packets else firsts packets ++ [packet.streamID] := by
  have hone : ∀ (x : UInt32) (l : List UInt32), [x].removeAll l = if x ∈ l then [] else [x] := by
    intro x l
    by_cases h : x ∈ l <;> simp [List.removeAll, h]
  simp only [firsts, List.map_append, List.map_singleton, List.eraseDups_append, hone, List.mem_eraseDups]
  split
  · rw [List.eraseDups_nil, List.append_nil]
  · rfl

theorem occurrences_concat (packets : List DataPacket) (packet : DataPacket) (ssrc : UInt32) :
    occurrences (packets ++ [packet]) ssrc =
      occurrences packets ssrc + if packet.streamID = ssrc then 1 else 0 := by
  simp [occurrences, List.countP_append, List.countP_cons]

variable {packet : DataPacket} {packets : List DataPacket}

theorem Row.Of.other {row : Row} (h : row.Of packets)
    (hne : packet.streamID ≠ row.ssrc) : row.Of (packets ++ [packet]) where
  count := by rw [occurrences_concat, if_neg hne, Nat.add_zero, h.count]
  pos := h.pos
  packet := by
    obtain ⟨p, hp, hrest⟩ := h.packet
    exact ⟨p, List.mem_append_left _ hp, hrest⟩
  least q hq hssrc := by
    obtain hq | hq := List.mem_append.mp hq
    · exact h.least q hq hssrc
    · rw [List.mem_singleton.mp hq] at hssrc
      exact absurd hssrc hne

@[simp]
theorem Row.bump_ssrc (row : Row) (packet : DataPacket) : (row.bump packet).ssrc = row.ssrc := by
  unfold Row.bump
  split <;> rfl

@[simp]
theorem Row.bump_count (row : Row) (packet : DataPacket) : (row.bump packet).count = row.count + 1 := by
  unfold Row.bump
  split <;> rfl

theorem Row.Of.bump {row : Row} (h : row.Of packets) (hssrc : packet.streamID = row.ssrc) :
    (row.bump packet).Of (packets ++ [packet]) where
  count := by rw [Row.bump_count, Row.bump_ssrc, occurrences_concat, if_pos hssrc, h.count]
  pos := by rw [Row.bump_count]; exact Nat.succ_pos _
  packet := by
    obtain ⟨p, hp, hrest⟩ := h.packet
    unfold Row.bump
    split
    · exact ⟨packet, by simp, hssrc, rfl, rfl⟩
    · exact ⟨p, List.mem_append_left _ hp, hrest⟩
  least q hq hq' := by
    rw [Row.bump_ssrc] at hq'
    have hold : q ∈ packets → row.seqBase ≤ q.seqNum := fun hmem => h.least q hmem hq'
    unfold Row.bump
    split
    · next hlt =>
      obtain hq | hq := List.mem_append.mp hq
      · exact UInt32.le_trans (UInt32.le_of_lt hlt) (hold hq)
      · rw [List.mem_singleton.mp hq]
        exact UInt32.le_refl _
    · next hge =>
      obtain hq | hq := List.mem_append.mp hq
      · exact hold hq
      · rw [List.mem_singleton.mp hq]
        exact UInt32.not_lt.mp hge

theorem Row.of_packet
    (hnew : packet.streamID ∉ firsts packets) : (Row.ofPacket packet).Of (packets ++ [packet]) := by
  have hnone : ∀ p ∈ packets, p.streamID ≠ packet.streamID := by
    intro p hp heq
    refine hnew ?_
    rw [firsts, List.mem_eraseDups, ← heq]
    exact List.mem_map_of_mem hp
  refine ⟨?_, Nat.one_pos, ⟨packet, by simp, rfl, rfl, rfl⟩, ?_⟩
  · have hzero : occurrences packets packet.streamID = 0 := by
      rw [occurrences, List.countP_eq_zero]
      intro p hp
      simpa using hnone p hp
    rw [occurrences_concat, Row.ofPacket, hzero]
    simp
  · intro q hq hssrc
    obtain hq | hq := List.mem_append.mp hq
    · exact absurd hssrc (hnone q hq)
    · rw [List.mem_singleton.mp hq]
      exact UInt32.le_refl _

theorem castVote_mem (packet : DataPacket) (empty : List Row) : ∀ (rows : List Row),
    (∀ row ∈ rows, 0 < row.count) → packet.streamID ∈ rows.map Row.ssrc →
    ∃ before row after, rows = before ++ row :: after ∧ row.ssrc = packet.streamID ∧
      (∀ r ∈ before, r.ssrc ≠ packet.streamID) ∧
      castVote packet (rows ++ empty) = before ++ row.bump packet :: after ++ empty
  | [], _, h => absurd h List.not_mem_nil
  | row :: rows, hpos, h => by
    have hrow := hpos row List.mem_cons_self
    by_cases heq : packet.streamID = row.ssrc
    · refine ⟨[], row, rows, rfl, heq.symm, by simp, ?_⟩
      simp only [List.cons_append, castVote, if_pos hrow, if_pos heq, List.nil_append]
    · have hmem : packet.streamID ∈ rows.map Row.ssrc := by
        rw [List.map_cons] at h
        exact (List.mem_cons.mp h).resolve_left heq
      obtain ⟨before, r, after, hrows, hssrc, hbefore, hcast⟩ :=
        castVote_mem packet empty rows (fun r hr => hpos r (List.mem_cons_of_mem row hr)) hmem
      refine ⟨row :: before, r, after, by rw [hrows]; rfl, hssrc, ?_, ?_⟩
      · intro r' hr'
        obtain rfl | hr' := List.mem_cons.mp hr'
        · exact fun h => heq h.symm
        · exact hbefore r' hr'
      · simp only [List.cons_append, castVote, if_pos hrow, if_neg heq, hcast]

theorem castVote_new (packet : DataPacket) (empty : List Row) : ∀ (rows : List Row),
    (∀ row ∈ rows, 0 < row.count) → packet.streamID ∉ rows.map Row.ssrc →
    castVote packet (rows ++ Row.empty :: empty) = rows ++ Row.ofPacket packet :: empty
  | [], _, _ => rfl
  | row :: rows, hpos, h => by
    rw [List.map_cons, List.mem_cons, not_or] at h
    have hrest := castVote_new packet empty rows (fun r hr => hpos r (List.mem_cons_of_mem row hr)) h.2
    simp only [List.cons_append, castVote, if_pos (hpos row List.mem_cons_self), if_neg h.1, hrest]

variable {rows : List Row}

theorem Tallied.castVote (h : Tallied packets rows) {n : Nat}
    (packet : DataPacket) (hroom : rows.length + n = 5) (hfew : packets.length < 5) :
    ∃ rows' n', castVote packet (rows ++ List.replicate n Row.empty) = rows' ++ List.replicate n' Row.empty ∧
      rows'.length + n' = 5 ∧ Tallied (packets ++ [packet]) rows' := by
  have hpos : ∀ row ∈ rows, 0 < row.count := fun row hrow => (h.each row hrow).pos
  by_cases hmem : packet.streamID ∈ rows.map Row.ssrc
  · obtain ⟨before, row, after, hrows, hssrc, hbefore, hcast⟩ :=
      castVote_mem packet (List.replicate n Row.empty) rows hpos hmem
    have hnodup := h.nodup
    have hafter : ∀ r ∈ after, r.ssrc ≠ packet.streamID := by
      rw [hrows, List.map_append, List.map_cons, List.nodup_append] at hnodup
      intro r hr heq
      have hnot := (List.nodup_cons.mp hnodup.2.1).1
      rw [hssrc, ← heq] at hnot
      exact hnot (List.mem_map_of_mem hr)
    refine ⟨before ++ row.bump packet :: after, n, hcast, ?_, ?_, ?_, ?_, ?_⟩
    · rw [hrows] at hroom
      simpa using hroom
    · rw [firsts_concat, ← h.ssrcs, if_pos hmem, hrows]
      simp
    · have hsame : (before ++ row.bump packet :: after).map Row.ssrc = rows.map Row.ssrc := by
        rw [hrows]
        simp
      rw [hsame]
      exact h.nodup
    · intro r hr
      have hother : ∀ r ∈ rows, r.ssrc ≠ packet.streamID → r.Of (packets ++ [packet]) :=
        fun r hr hne => (h.each r hr).other (Ne.symm hne)
      obtain hr | hr := List.mem_append.mp hr
      · exact hother r (hrows ▸ List.mem_append_left _ hr) (hbefore r hr)
      · obtain rfl | hr := List.mem_cons.mp hr
        · exact (h.each row (hrows ▸ by simp)).bump hssrc.symm
        · exact hother r (hrows ▸ by simp [hr]) (hafter r hr)
    · have hsum := h.sum
      rw [hrows] at hsum
      simp only [List.map_append, List.map_cons, List.sum_append, List.sum_cons, Row.bump_count, List.length_append,
        List.length_singleton] at hsum ⊢
      omega
  · have hlt : rows.length < 5 := by
      have hle : ∀ l : List Row, (∀ row ∈ l, 0 < row.count) → l.length ≤ (l.map Row.count).sum := by
        intro l
        induction l with
        | nil => simp
        | cons row l ih =>
          intro hall
          have hrow := hall row List.mem_cons_self
          have hrest := ih fun r hr => hall r (List.mem_cons_of_mem row hr)
          rw [List.length_cons, List.map_cons, List.sum_cons]
          omega
      have hrows := hle rows hpos
      rw [h.sum] at hrows
      omega
    obtain ⟨n, rfl⟩ : ∃ m, n = m + 1 := ⟨n - 1, by omega⟩
    refine ⟨rows ++ [Row.ofPacket packet], n, ?_, by simp; omega, ?_, ?_, ?_, ?_⟩
    · rw [List.replicate_succ, castVote_new packet _ rows hpos hmem]
      simp
    · rw [firsts_concat, ← h.ssrcs, if_neg hmem]
      simp [Row.ofPacket]
    · rw [List.map_append, List.nodup_append]
      refine ⟨h.nodup, by simp, fun a ha b hb hab => hmem ?_⟩
      rw [List.map_singleton, List.mem_singleton] at hb
      rw [hab, hb] at ha
      exact ha
    · intro r hr
      obtain hr | hr := List.mem_append.mp hr
      · refine (h.each r hr).other fun heq => hmem ?_
        rw [heq]
        exact List.mem_map_of_mem hr
      · rw [List.mem_singleton.mp hr]
        exact Row.of_packet (h.ssrcs ▸ hmem)
    · rw [List.map_append, List.sum_append, h.sum]
      simp [Row.ofPacket]

/-- **The table** after the vote: the rows of the SSRCs, and empty ones. -/
theorem vote_tallied (packets : List DataPacket) : packets.length ≤ 5 →
    ∃ rows n, vote packets = rows ++ List.replicate n Row.empty ∧ rows.length + n = 5 ∧ Tallied packets rows := by
  induction packets using List.reverseRecOn with
  | nil => exact fun _ => ⟨[], 5, rfl, rfl, by simp [firsts], by simp, by simp, rfl⟩
  | append_singleton packets packet ih =>
    intro hlen
    rw [List.length_append, List.length_singleton] at hlen
    obtain ⟨rows, n, hvote, hroom, htallied⟩ := ih (by omega)
    obtain ⟨rows', n', hcast, hroom', htallied'⟩ := htallied.castVote packet hroom (by omega)
    refine ⟨rows', n', ?_, hroom', htallied'⟩
    rw [vote, List.foldl_append, List.foldl_cons, List.foldl_nil, ← vote, hvote, hcast]

/-! ## The poll -/

/-- The lists of positive numbers of a sum: each is one of the sum before with a one put before it, or with its first
number one greater. -/
def compositions : Nat → List (List Nat)
  | 0 => [[]]
  | n + 1 => (compositions n).flatMap fun counts =>
    match counts with
    | [] => [[1]]
    | count :: counts => [1 :: count :: counts, (count + 1) :: counts]

theorem mem_compositions : ∀ (n : Nat) (counts : List Nat), (∀ count ∈ counts, 0 < count) → counts.sum = n →
    counts ∈ compositions n
  | 0, [], _, _ => List.mem_singleton.mpr rfl
  | 0, count :: counts, hpos, hsum => by
    have hcount := hpos count List.mem_cons_self
    rw [List.sum_cons] at hsum
    omega
  | n + 1, [], _, hsum => by simp at hsum
  | n + 1, count :: counts, hpos, hsum => by
    have hcount := hpos count List.mem_cons_self
    have hrest : ∀ c ∈ counts, 0 < c := fun c hc => hpos c (List.mem_cons_of_mem count hc)
    rw [List.sum_cons] at hsum
    rw [compositions, List.mem_flatMap]
    by_cases hone : count = 1
    · refine ⟨counts, mem_compositions n counts hrest (by omega), ?_⟩
      subst hone
      cases counts <;> simp
    · obtain ⟨c, rfl⟩ : ∃ c, count = c + 1 := ⟨count - 1, by omega⟩
      refine ⟨c :: counts, mem_compositions n _ ?_ (by rw [List.sum_cons]; omega), by simp⟩
      intro d hd
      obtain rfl | hd := List.mem_cons.mp hd
      · omega
      · exact hrest d hd

theorem pollLoop_congr {as bs : List Nat} (h : ∀ i, as.getD i 0 = bs.getD i 0) : ∀ (is : List Nat) (x : Nat × Nat),
    pollLoop as is x = pollLoop bs is x
  | [], _ => rfl
  | i :: is, (first, second) => by
    simp only [pollLoop, h i, pollLoop_congr h is]

theorem poll_append (counts : List Nat) (n : Nat) : poll (counts ++ List.replicate n 0) = poll counts := by
  have h : ∀ i, (counts ++ List.replicate n 0).getD i 0 = counts.getD i 0 := by
    intro i
    rw [List.getD_eq_getElem?_getD, List.getD_eq_getElem?_getD]
    by_cases hlt : i < counts.length
    · rw [List.getElem?_append_left hlt]
    · rw [List.getElem?_append_right (by omega), List.getElem?_eq_none (by omega : counts.length ≤ i),
        List.getElem?_replicate]
      split <;> rfl
  rw [poll, poll, h 0, h 1, pollLoop_congr h]

/-- The votes for each SSRC, in the order in which they occur first. -/
def counts (packets : List DataPacket) : List Nat := (firsts packets).map (occurrences packets)

/-- The counts that the poll gets wrong, as it compares a count with the place of the SSRC before. -/
def misPolled : List (List Nat) := [[3, 1, 1], [2, 2, 1], [2, 1, 1, 1], [1, 1, 1, 2]]

/-- What the poll elects: of the maximal counts the third, if it is one, and the only one otherwise. -/
theorem poll_elects : ∀ counts ∈ compositions 5, poll counts < counts.length ∧
    if counts ∈ misPolled then ∃ i < counts.length, counts.getD (poll counts) 0 < counts.getD i 0
    else ∀ i < counts.length, counts.getD i 0 < counts.getD (poll counts) 0 ∨
      counts.getD i 0 = counts.getD (poll counts) 0 ∧ (i = poll counts ∨ poll counts = 2) := by
  decide

/-! ## What the votes call for -/

/-- The SSRC that is elected: one that occurs most, and the third to occur where that is one. -/
structure Elected (packets : List DataPacket) (ssrc : UInt32) : Prop where
  most : ∀ other, occurrences packets other ≤ occurrences packets ssrc
  third : ∀ third, (firsts packets)[2]? = some third → occurrences packets third = occurrences packets ssrc →
    ssrc = third

/-- The sequence numbers of an SSRC lie within a window of 2000. -/
def Windowed (packets : List DataPacket) (ssrc : UInt32) : Prop :=
  ∃ base : UInt16, ∀ packet ∈ packets, packet.streamID = ssrc → ∃ k < 2000, packet.seqNum = seqAt base k

/-- Two of the sequence numbers of an SSRC are as numbers 2000 apart or more. -/
def Straddles (packets : List DataPacket) (ssrc : UInt32) : Prop :=
  ∃ p ∈ packets, ∃ q ∈ packets, p.streamID = ssrc ∧ q.streamID = ssrc ∧ p.seqNum.toNat + 2000 ≤ q.seqNum.toNat

/-- A packet of an SSRC that no other of it comes before. -/
structure IsEarliest (packets : List DataPacket) (ssrc : UInt32) (packet : DataPacket) : Prop where
  mem : packet ∈ packets
  streamID : packet.streamID = ssrc
  earliest : ∀ q ∈ packets, q.streamID = ssrc → ¬Precedes q.seqNum.toUInt16 packet.seqNum.toUInt16

/-- The row of an SSRC has its earliest packet exactly if the sequence numbers do not straddle the wrap. -/
theorem Row.Of.earliest_iff {row : Row} (h : row.Of packets) (hwindowed : Windowed packets row.ssrc) :
    (∃ p, IsEarliest packets row.ssrc p ∧ row.seqBase = p.seqNum ∧ row.timestamp = p.timestamp) ↔
      ¬Straddles packets row.ssrc := by
  obtain ⟨base, hbase⟩ := hwindowed
  have hnum : ∀ p ∈ packets, p.streamID = row.ssrc → ∃ k < 2000,
      p.seqNum.toNat = (base.toNat + k) % 65536 ∧ p.seqNum.toUInt16.toNat = (base.toNat + k) % 65536 := by
    intro p hp hssrc
    obtain ⟨k, hk, hseq⟩ := hbase p hp hssrc
    have htoNat := toNat_seqAt base k
    rw [← hseq] at htoNat
    refine ⟨k, hk, htoNat, ?_⟩
    rw [UInt32.toNat_toUInt16, htoNat, Nat.mod_mod_of_dvd _ (by decide)]
  have hlt := base.toNat_lt
  constructor
  · rintro ⟨p, hp, hseq, -⟩ ⟨a, ha, b, hb, hassrc, hbssrc, hfar⟩
    have hleast := UInt32.le_iff_toNat_le.mp (h.least a ha hassrc)
    have hnot := hp.earliest b hb hbssrc
    obtain ⟨i, hi, hpnum, hp16⟩ := hnum p hp.mem hp.streamID
    obtain ⟨j, hj, hbnum, hb16⟩ := hnum b hb hbssrc
    rw [precedes_iff, hp16, hb16] at hnot
    rw [hseq] at hleast
    omega
  · intro hnot
    obtain ⟨p, hp, hssrc, hseq, hts⟩ := h.packet
    refine ⟨p, ⟨hp, hssrc, ?_⟩, hseq.symm, hts.symm⟩
    intro q hq hqssrc
    have hleast := UInt32.le_iff_toNat_le.mp (h.least q hq hqssrc)
    have hnear : ¬p.seqNum.toNat + 2000 ≤ q.seqNum.toNat := fun hle => hnot ⟨p, hp, q, hq, hssrc, hqssrc, hle⟩
    obtain ⟨i, hi, hpnum, hp16⟩ := hnum p hp hssrc
    obtain ⟨j, hj, hqnum, hq16⟩ := hnum q hq hqssrc
    rw [precedes_iff, hp16, hq16]
    rw [← hseq] at hleast
    omega

/-- The SSRC is one that occurs most; and if its sequence numbers lie within a window, the first sequence number and
timestamp are those of its earliest packet. -/
structure PVMFRTPJitterBufferImpl.VotedRight (jb : PVMFRTPJitterBufferImpl) (packets : List DataPacket) :
    Prop where
  most : ∀ other, occurrences packets other ≤ occurrences packets jb.sSRCLock
  earliest : Windowed packets jb.sSRCLock →
    ∃ p, IsEarliest packets jb.sSRCLock p ∧ jb.iFirstSeqNum = p.seqNum ∧ jb.seqLockTimeStamp = p.timestamp

theorem Tallied.counts_eq (h : Tallied packets rows) :
    rows.map Row.count = counts packets := by
  rw [counts, ← h.ssrcs, List.map_map]
  exact List.map_congr_left fun row hrow => (h.each row hrow).count

theorem Tallied.counts_mem (h : Tallied packets rows)
    (hlen : packets.length = 5) : counts packets ∈ compositions 5 := by
  rw [← h.counts_eq]
  refine mem_compositions 5 _ ?_ (h.sum.trans hlen)
  intro count hcount
  obtain ⟨row, hrow, rfl⟩ := List.mem_map.mp hcount
  exact (h.each row hrow).pos

theorem Tallied.exists_row (h : Tallied packets rows)
    {ssrc : UInt32} (hpos : 0 < occurrences packets ssrc) : ∃ (i : Nat) (row : Row), rows[i]? = some row ∧
      row.ssrc = ssrc ∧ (firsts packets)[i]? = some ssrc ∧ (counts packets).getD i 0 = occurrences packets ssrc := by
  obtain ⟨p, hp, hssrc⟩ := List.countP_pos_iff.mp hpos
  have hmem : ssrc ∈ rows.map Row.ssrc := by
    rw [h.ssrcs, firsts, List.mem_eraseDups, ← of_decide_eq_true hssrc]
    exact List.mem_map_of_mem hp
  obtain ⟨row, hrow, rfl⟩ := List.mem_map.mp hmem
  obtain ⟨i, hi⟩ := List.getElem?_of_mem hrow
  refine ⟨i, row, hi, rfl, ?_, ?_⟩
  · rw [← h.ssrcs, List.getElem?_map, hi]
    rfl
  · rw [← h.counts_eq, List.getD_eq_getElem?_getD, List.getElem?_map, hi]
    exact (h.each row hrow).count

namespace PVMFRTPJitterBufferImpl

/-- **What is locked**: the row of the poll. -/
theorem lock_spec (jb : PVMFRTPJitterBufferImpl) (hinfo : jb.iRTPInfoParamsVec = [])
    {packets : List DataPacket} {rows : List Row} {n : Nat}
    (hvote : vote packets = rows ++ List.replicate n Row.empty) (htallied : Tallied packets rows)
    (hlt : poll (counts packets) < rows.length) :
    ∃ row, rows[poll (counts packets)]? = some row ∧ (jb.lock packets).sSRCLock = row.ssrc ∧
      (jb.lock packets).iFirstSeqNum = row.seqBase ∧ (jb.lock packets).seqLockTimeStamp = row.timestamp := by
  have hpoll : poll ((vote packets).map Row.count) = poll (counts packets) := by
    rw [hvote, List.map_append, List.map_replicate, htallied.counts_eq]
    exact poll_append _ n
  have hrow : (vote packets).getD (poll ((vote packets).map Row.count)) Row.empty = rows[poll (counts packets)] := by
    rw [hpoll, hvote, List.getD_eq_getElem?_getD, List.getElem?_append_left hlt, List.getElem?_eq_getElem hlt]
    rfl
  refine ⟨_, List.getElem?_eq_getElem hlt, ?_, ?_, ?_⟩ <;> simp only [lock, hrow, hinfo, List.head?_nil]

/-- **When the vote is right**: if its counts are none of those that the poll gets wrong, and the sequence numbers of
the SSRC that is elected do not straddle the wrap. -/
theorem lock_right_iff (jb : PVMFRTPJitterBufferImpl) (hinfo : jb.iRTPInfoParamsVec = [])
    {packets : List DataPacket} (hlen : packets.length = 5) :
    (jb.lock packets).VotedRight packets ↔ counts packets ∉ misPolled ∧
      ∀ ssrc, Elected packets ssrc → Windowed packets ssrc → ¬Straddles packets ssrc := by
  obtain ⟨rows, n, hvote, -, htallied⟩ := vote_tallied packets hlen.le
  obtain ⟨hlt, helects⟩ := poll_elects _ (htallied.counts_mem hlen)
  have hrows : (counts packets).length = rows.length := by rw [← htallied.counts_eq, List.length_map]
  obtain ⟨row, hrow, hssrc, hseq, hts⟩ := jb.lock_spec hinfo hvote htallied (hrows ▸ hlt)
  have hof := htallied.each row (List.mem_of_getElem? hrow)
  have hcount : ∀ {i : Nat} {r : Row}, rows[i]? = some r →
      (counts packets).getD i 0 = occurrences packets r.ssrc := by
    intro i r hr
    rw [← htallied.counts_eq, List.getD_eq_getElem?_getD, List.getElem?_map, hr]
    exact (htallied.each r (List.mem_of_getElem? hr)).count
  have hpoll := hcount hrow
  by_cases hmis : counts packets ∈ misPolled
  · -- another SSRC has more votes
    rw [if_pos hmis] at helects
    obtain ⟨i, hi, hmore⟩ := helects
    refine iff_of_false (fun h => ?_) fun h => h.1 hmis
    obtain ⟨r, hr⟩ : ∃ r, rows[i]? = some r := ⟨_, List.getElem?_eq_getElem (hrows ▸ hi)⟩
    have hle := h.most r.ssrc
    rw [hssrc, ← hpoll, ← hcount hr] at hle
    omega
  rw [if_neg hmis, hpoll] at helects
  have hmost : ∀ other, occurrences packets other ≤ occurrences packets row.ssrc := by
    intro other
    by_cases hzero : occurrences packets other = 0
    · omega
    · obtain ⟨i, r, hr, rfl, -, hi⟩ := htallied.exists_row (Nat.pos_of_ne_zero hzero)
      have hless := helects i (hrows ▸ (List.getElem?_eq_some_iff.mp hr).1)
      omega
  -- the SSRC elected is that of the row
  have helected : ∀ ssrc, Elected packets ssrc ↔ ssrc = row.ssrc := by
    intro ssrc
    constructor
    · intro h
      have hge := h.most row.ssrc
      have hpos := hof.pos
      rw [hof.count] at hpos
      obtain ⟨i, r, hr, rfl, hfirst, hi⟩ := htallied.exists_row (Nat.lt_of_lt_of_le hpos hge)
      obtain hless | ⟨heq, rfl | htwo⟩ := helects i (hrows ▸ (List.getElem?_eq_some_iff.mp hr).1)
      · omega
      · rw [hrow, Option.some_inj] at hr
        rw [hr]
      · refine h.third row.ssrc ?_ (by omega)
        rw [← htwo, ← htallied.ssrcs, List.getElem?_map, hrow]
        rfl
    · rintro rfl
      refine ⟨hmost, fun third hthird heq => ?_⟩
      rw [← htallied.ssrcs, List.getElem?_map, Option.map_eq_some_iff] at hthird
      obtain ⟨r, hr, rfl⟩ := hthird
      have htwo := hcount hr
      obtain hless | ⟨-, h | h⟩ := helects 2 (hrows ▸ (List.getElem?_eq_some_iff.mp hr).1)
      · omega
      · rw [← h, hr, Option.some_inj] at hrow
        rw [hrow]
      · rw [h, hr, Option.some_inj] at hrow
        rw [hrow]
  constructor
  · intro h
    refine ⟨hmis, fun ssrc hel hwindowed => ?_⟩
    rw [(helected ssrc).mp hel] at hwindowed ⊢
    have hfirst := h.earliest (by rw [hssrc]; exact hwindowed)
    rw [hssrc, hseq, hts] at hfirst
    exact (hof.earliest_iff hwindowed).mp hfirst
  · intro h
    refine ⟨fun other => by rw [hssrc]; exact hmost other, fun hwindowed => ?_⟩
    rw [hssrc] at hwindowed
    rw [hssrc, hseq, hts]
    exact (hof.earliest_iff hwindowed).mpr (h.2 _ ((helected _).mpr rfl) hwindowed)

/-- What the vote has set. -/
def locked (jb : PVMFRTPJitterBufferImpl) : UInt32 × UInt32 × UInt32 :=
  (jb.sSRCLock, jb.iFirstSeqNum, jb.seqLockTimeStamp)

variable {jb jb' : PVMFRTPJitterBufferImpl} {packet : DataPacket}

theorem addElement_locked {status : AddElemStatus}
    (h : jb.addElement packet = some (status, jb')) : jb'.locked = jb.locked := by
  simp only [addElement, Option.bind_eq_bind, Option.bind_eq_some_iff, Option.pure_def, Option.some_inj] at h
  obtain ⟨x, -, h⟩ := h
  rw [← (Prod.mk.inj h).2]
  rfl

theorem checkVoted_locked (h : jb.checkVoted packet = .ok jb') : jb'.locked = jb.locked := by
  simp only [checkVoted] at h
  split at h
  · split at h
    · simp at h
    split at h
    · rw [← Except.ok.inj h]
      rfl
    · simp at h
  · rw [← Except.ok.inj h]

theorem registerVoted_locked : ∀ (packets : List DataPacket) {retval status : RegisterStatus}
    {jb jb' : PVMFRTPJitterBufferImpl}, registerVoted packets retval jb = some (status, jb') → jb'.locked = jb.locked
  | [], _, _, _, _, h => by
    rw [registerVoted, Option.some_inj] at h
    rw [← (Prod.mk.inj h).2]
    rfl
  | packet :: packets, _, _, jb, _, h => by
    rw [registerVoted] at h
    split at h
    · cases hcheck : jb.checkVoted packet with
      | error status =>
        rw [hcheck] at h
        rw [← (Prod.mk.inj (Option.some_inj.mp h)).2]
      | ok jb1 =>
        rw [hcheck] at h
        simp only [Option.bind_eq_bind, Option.bind_eq_some_iff] at h
        obtain ⟨⟨status, jb2⟩, hadd, h⟩ := h
        rw [registerVoted_locked packets h, addElement_locked hadd, checkVoted_locked hcheck]
    · exact registerVoted_locked packets h

theorem votedRight_of_locked (h : jb'.locked = jb.locked)
    (packets : List DataPacket) : jb'.VotedRight packets ↔ jb.VotedRight packets := by
  simp only [locked, Prod.mk.injEq] at h
  constructor <;> rintro ⟨hmost, hearliest⟩
  · rw [h.1, h.2.1, h.2.2] at *
    exact ⟨hmost, hearliest⟩
  · rw [← h.1, ← h.2.1, ← h.2.2] at *
    exact ⟨hmost, hearliest⟩

/-- The array has all its slots. -/
def HasSlots (jb : PVMFRTPJitterBufferImpl) : Prop :=
  0 < jb.iJitterBuffer.iArraySize ∧ jb.iJitterBuffer.iMediaPtrVec.length = jb.iJitterBuffer.iArraySize

theorem HasSlots.addElement (h : jb.HasSlots) (packet : DataPacket) :
    ∃ status jb', jb.addElement packet = some (status, jb') ∧ jb'.HasSlots := by
  have hlt : PVMFDynamicCircularArray.offset jb.iJitterBuffer.iArraySize packet.seqNum jb.iFirstSeqNum <
      jb.iJitterBuffer.iMediaPtrVec.length := by
    rw [h.2]
    exact Nat.mod_lt _ h.1
  simp only [PVMFRTPJitterBufferImpl.addElement, PVMFDynamicCircularArray.addElement, List.getElem?_eq_getElem hlt]
  cases jb.iJitterBuffer.iMediaPtrVec[PVMFDynamicCircularArray.offset jb.iJitterBuffer.iArraySize packet.seqNum
    jb.iFirstSeqNum] with
  | none => exact ⟨_, _, rfl, h.1, by simpa using h.2⟩
  | some currElem =>
    by_cases hne : currElem.seqNum ≠ packet.seqNum
    · simp only [if_pos hne]
      exact ⟨_, _, rfl, h.1, by simpa using h.2⟩
    · simp only [if_neg hne]
      exact ⟨_, _, rfl, h⟩

theorem HasSlots.checkVoted (hslots : jb.HasSlots) (h : jb.checkVoted packet = .ok jb') : jb'.HasSlots := by
  simp only [PVMFRTPJitterBufferImpl.checkVoted] at h
  split at h
  · split at h
    · simp at h
    split at h
    · rw [← Except.ok.inj h]
      exact hslots
    · simp at h
  · rw [← Except.ok.inj h]
    exact hslots

theorem HasSlots.registerVoted : ∀ (packets : List DataPacket) (retval : RegisterStatus)
    {jb : PVMFRTPJitterBufferImpl}, jb.HasSlots → ∃ status jb', registerVoted packets retval jb = some (status, jb')
  | [], _, _, _ => ⟨_, _, rfl⟩
  | packet :: packets, retval, jb, h => by
    rw [PVMFRTPJitterBufferImpl.registerVoted]
    split
    · cases hcheck : jb.checkVoted packet with
      | error status => exact ⟨_, _, rfl⟩
      | ok jb1 =>
        obtain ⟨status, jb2, hadd, h2⟩ := (h.checkVoted hcheck).addElement packet
        simp only [hadd, Option.bind_eq_bind, Option.bind_some]
        exact HasSlots.registerVoted packets _ h2
    · exact HasSlots.registerVoted packets retval h

/-- The first five packets, with the one that is added. -/
def voters (jb : PVMFRTPJitterBufferImpl) (aDataPacket : DataPacket) : List DataPacket :=
  (jb.iFirstDataPackets ++ [aDataPacket]).take 5

/-- **When adding the fifth packet locks what the votes call for**: exactly if their counts are none of those that the
poll gets wrong, and the sequence numbers of the SSRC that is elected do not straddle the wrap. -/
theorem addPacket_iff (jb : PVMFRTPJitterBufferImpl) (aDataPacket : DataPacket) (heos : jb.iEOSSent = false)
    (hlock : jb.seqNumLock = false) (hsetup : jb.oSSRCFromSetUpResponseAvailable = false)
    (hinfo : jb.iRTPInfoParamsVec = []) (hfour : 4 ≤ jb.iFirstDataPackets.length) :
    (jb.HasSlots → ∃ status jb', jb.addPacket aDataPacket = some (status, jb')) ∧
      ∀ status jb', jb.addPacket aDataPacket = some (status, jb') →
        (jb'.VotedRight (jb.voters aDataPacket) ↔ counts (jb.voters aDataPacket) ∉ misPolled ∧
          ∀ ssrc, Elected (jb.voters aDataPacket) ssrc → Windowed (jb.voters aDataPacket) ssrc →
            ¬Straddles (jb.voters aDataPacket) ssrc) := by
  have hfive : ¬(jb.iFirstDataPackets ++ [aDataPacket]).length < 5 := by
    rw [List.length_append, List.length_singleton]
    omega
  have hlen : (jb.voters aDataPacket).length = 5 := by
    rw [voters, List.length_take]
    omega
  have hadd : jb.addPacket aDataPacket = registerVoted (jb.iFirstDataPackets ++ [aDataPacket]) .success
      ({ jb with iFirstDataPackets := jb.iFirstDataPackets ++ [aDataPacket] }.lock (jb.voters aDataPacket)) := by
    simp only [addPacket, heos, hlock, hsetup, Bool.false_eq_true, if_false, false_and, if_neg hfive, voters]
  rw [hadd]
  refine ⟨fun hslots => HasSlots.registerVoted _ _ hslots, fun status jb' h => ?_⟩
  rw [votedRight_of_locked (registerVoted_locked _ h)]
  exact lock_right_iff { jb with iFirstDataPackets := jb.iFirstDataPackets ++ [aDataPacket] } hinfo hlen

end PVMFRTPJitterBufferImpl

/-- A packet with no payload. -/
def packetOf (ssrc seqNum timestamp : UInt32) : DataPacket := ⟨ssrc, seqNum, timestamp, [], ⟨[], 0, 0, 0⟩⟩

/-- Three packets of SSRC 1 and one of SSRC 2 have come. -/
def fourVotes : PVMFRTPJitterBufferImpl :=
  { newJitterBuffer true 8 with
    iFirstDataPackets := [packetOf 1 10 0, packetOf 1 11 0, packetOf 1 12 0, packetOf 2 700 5] }

theorem addPacket_iff_fourVotes : ∃ status jb', fourVotes.addPacket (packetOf 1 13 0) = some (status, jb') :=
  (fourVotes.addPacket_iff (packetOf 1 13 0) rfl rfl rfl rfl (by decide)).1 ⟨by decide, by decide⟩

/-- **The minority elected**: after a packet of SSRC 3, it is locked, with one vote, where SSRC 1 has three. -/
theorem minority_elected : ∃ status jb', fourVotes.addPacket (packetOf 3 90 7) = some (status, jb') ∧
    jb'.sSRCLock = 3 ∧ ¬jb'.VotedRight (fourVotes.voters (packetOf 3 90 7)) := by
  have hadd : (fourVotes.addPacket (packetOf 3 90 7)).map (fun x => x.2.sSRCLock) = some 3 := by decide
  obtain ⟨⟨status, jb'⟩, h, hssrc⟩ := Option.map_eq_some_iff.mp hadd
  refine ⟨status, jb', h, hssrc, fun hright => ?_⟩
  have hmost := hright.most 1
  rw [hssrc] at hmost
  revert hmost
  decide

end Ftke.RtpJitterBuffer
