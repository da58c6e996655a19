import Ftke.Reorder
import Ftke.Ring
import Ftke.Run
import Mathlib.Data.Nat.Find

/-!
# Ftke.JitterBuffer

`PVMFDynamicCircularArray` (`pvmf_jitter_buffer.h`): the array in which the
jitter buffer puts RTP packets back into order.

A packet is filed in slot `(seqNum - base) % size` and the reader walks the
slots one by one.  Over unbounded positions `p` — the `p`-th packet after the
first carries the sequence number `(base + p) % 65536` — the reader is at slot
`p % size`.  The two agree at every position exactly when the size divides
65536.
-/

namespace Ftke.JitterBuffer

variable {α : Type*}

/-- What the array reads of a `PVMFMediaData`; `fragments` are the lengths of
its media fragments. -/
structure MediaData (α : Type*) where
  streamID : UInt32
  seqNum : UInt32
  timestamp : UInt32
  fragments : List UInt32
  payload : α
deriving DecidableEq

/-- The `size += memFragIn.getMemFrag().len` loop. -/
def MediaData.size (elem : MediaData α) : UInt32 := elem.fragments.foldl (· + ·) 0

/-- The fields of `PVMFJitterBufferStats` the array writes, as `ResetStats`
leaves them. -/
structure PVMFJitterBufferStats where
  totalNumPacketsReceived : UInt32 := 0
  totalNumPacketsRegistered : UInt32 := 0
  totalPacketsLost : UInt32 := 0
  totalNumPacketsRetrieved : UInt32 := 0
  maxTimeStampRegistered : UInt32 := 0
  maxTimeStampRetrieved : UInt32 := 0
  currentOccupancy : UInt32 := 0
  totalNumBytesRecvd : UInt32 := 0
  packetSizeInBytesLeftInBuffer : UInt32 := 0
  maxSeqNumReceived : UInt32 := 0
  maxSeqNumRegistered : UInt32 := 0
  lastRegisteredSeqNum : UInt32 := 0
  lastRetrievedSeqNum : UInt32 := 0
  ssrc : UInt32 := 0
deriving DecidableEq

namespace PVMFJitterBufferStats

/-- The updates of `addElement` for every packet received. -/
def receive (stats : PVMFJitterBufferStats) (elem : MediaData α) : PVMFJitterBufferStats :=
  { stats with
    totalNumPacketsReceived := stats.totalNumPacketsReceived + 1
    ssrc := elem.streamID
    totalNumBytesRecvd := stats.totalNumBytesRecvd + elem.size
    packetSizeInBytesLeftInBuffer := stats.packetSizeInBytesLeftInBuffer + elem.size
    maxSeqNumReceived :=
      if elem.seqNum > stats.maxSeqNumRegistered then elem.seqNum else stats.maxSeqNumReceived }

/-- The updates of `addElement` for a packet it files. -/
def register (stats : PVMFJitterBufferStats) (elem : MediaData α) (iNumElems : UInt32) :
    PVMFJitterBufferStats :=
  { stats with
    totalNumPacketsRegistered := stats.totalNumPacketsRegistered + 1
    lastRegisteredSeqNum := elem.seqNum
    maxSeqNumRegistered :=
      if elem.seqNum > stats.maxSeqNumRegistered then elem.seqNum else stats.maxSeqNumRegistered
    maxTimeStampRegistered :=
      if elem.seqNum > stats.maxSeqNumRegistered then elem.timestamp
      else stats.maxTimeStampRegistered
    currentOccupancy := iNumElems }

/-- The updates of `retrieveElement`, after a loop of `count` iterations. -/
def retrieve (stats : PVMFJitterBufferStats) (dataPkt : MediaData α) (iNumElems : UInt32)
    (count : Nat) : PVMFJitterBufferStats :=
  { stats with
    totalPacketsLost := stats.totalPacketsLost + UInt32.ofNat (count - 1)
    maxTimeStampRetrieved := dataPkt.timestamp
    currentOccupancy := iNumElems
    totalNumPacketsRetrieved := stats.totalNumPacketsRetrieved + 1
    lastRetrievedSeqNum := dataPkt.seqNum
    packetSizeInBytesLeftInBuffer := stats.packetSizeInBytesLeftInBuffer - dataPkt.size }

end PVMFJitterBufferStats

/-- `PVMFJitterBufferAddElemStatus`. -/
inductive AddElemStatus
  | error | packetOverwrite | success
deriving DecidableEq

/-- The fields of `PVMFDynamicCircularArray`; an unbound pointer is `none`. -/
structure PVMFDynamicCircularArray (α : Type*) where
  iNumElems : UInt32
  iArraySize : Nat
  iReadOffset : Nat
  iLastRetrievedSeqNum : UInt32
  iJitterBufferStats : PVMFJitterBufferStats
  iMediaPtrVec : List (Option (MediaData α))
deriving DecidableEq

namespace PVMFDynamicCircularArray

/-- The constructor with a size. -/
def construct (n : UInt32) : PVMFDynamicCircularArray α where
  iNumElems := 0
  iArraySize := n.toNat
  iReadOffset := 0
  iLastRetrievedSeqNum := 0
  iJitterBufferStats := {}
  iMediaPtrVec := List.replicate n.toNat none

/-- `(seqNum - aSeqNumBase) % iArraySize`, the difference in 32 bits. -/
def offset (iArraySize : Nat) (seqNum aSeqNumBase : UInt32) : Nat :=
  (seqNum - aSeqNumBase).toNat % iArraySize

/-- `addElement`; `none` when the slot is outside the vector. -/
def addElement (a : PVMFDynamicCircularArray α) (elem : MediaData α) (aSeqNumBase : UInt32) :
    Option (AddElemStatus × PVMFDynamicCircularArray α) :=
  let stats := a.iJitterBufferStats.receive elem
  let k := offset a.iArraySize elem.seqNum aSeqNumBase
  match a.iMediaPtrVec[k]? with
  | none => none
  | some none =>
    some (.success,
      { a with
        iMediaPtrVec := a.iMediaPtrVec.set k (some elem)
        iNumElems := a.iNumElems + 1
        iJitterBufferStats := stats.register elem (a.iNumElems + 1) })
  | some (some currElem) =>
    if currElem.seqNum ≠ elem.seqNum then
      some (.packetOverwrite,
        { a with
          iMediaPtrVec := a.iMediaPtrVec.set k (some elem)
          iJitterBufferStats := stats.register elem a.iNumElems })
    else some (.success, { a with iJitterBufferStats := stats })

theorem addElement_of_hole (a : PVMFDynamicCircularArray α) (elem : MediaData α)
    (aSeqNumBase : UInt32)
    (h : a.iMediaPtrVec[offset a.iArraySize elem.seqNum aSeqNumBase]? = some none) :
    a.addElement elem aSeqNumBase = some (.success,
      { a with
        iMediaPtrVec := a.iMediaPtrVec.set (offset a.iArraySize elem.seqNum aSeqNumBase) (some elem)
        iNumElems := a.iNumElems + 1
        iJitterBufferStats :=
          (a.iJitterBufferStats.receive elem).register elem (a.iNumElems + 1) }) := by
  simp only [addElement, h]

theorem addElement_of_duplicate {a : PVMFDynamicCircularArray α} {elem currElem : MediaData α}
    {aSeqNumBase : UInt32}
    (h : a.iMediaPtrVec[offset a.iArraySize elem.seqNum aSeqNumBase]? = some (some currElem))
    (hsame : currElem.seqNum = elem.seqNum) :
    a.addElement elem aSeqNumBase = some (.success,
      { a with iJitterBufferStats := a.iJitterBufferStats.receive elem }) := by
  simp only [addElement, h, if_neg (Decidable.not_not.mpr hsame)]

/-- The `while` loop of `retrieveElement` from `iReadOffset` and `count` on,
with the packet it found: `left` iterations are allowed before
`count > iArraySize`.  (With `iArraySize = 2^32 - 1` the 32-bit `count` never
exceeds it; then the loop over an empty array does not end.) -/
def retrieveLoop (vec : List (Option (MediaData α))) (iArraySize : Nat) :
    Nat → Nat → Nat → Option (MediaData α) × Nat × Nat
  | 0, iReadOffset, count => (none, iReadOffset, count)
  | left + 1, iReadOffset, count =>
    let k := if iReadOffset ≥ iArraySize then 0 else iReadOffset
    match vec[k]?.join with
    | some dataPkt => (some dataPkt, k + 1, count + 1)
    | none => retrieveLoop vec iArraySize left (k + 1) (count + 1)

/-- `retrieveElement`. -/
def retrieveElement (a : PVMFDynamicCircularArray α) :
    Option (MediaData α) × PVMFDynamicCircularArray α :=
  match retrieveLoop a.iMediaPtrVec a.iArraySize (a.iArraySize + 1) a.iReadOffset 0 with
  | (none, iReadOffset, _) => (none, { a with iReadOffset := iReadOffset })
  | (some dataPkt, iReadOffset, count) =>
    (some dataPkt,
      { a with
        iReadOffset := iReadOffset
        iNumElems := a.iNumElems - 1
        iMediaPtrVec := a.iMediaPtrVec.set (iReadOffset - 1) none
        iLastRetrievedSeqNum := dataPkt.seqNum
        iJitterBufferStats := a.iJitterBufferStats.retrieve dataPkt (a.iNumElems - 1) count })

end PVMFDynamicCircularArray

open PVMFDynamicCircularArray

/-! ## Positions and slots -/

/-- The 16-bit sequence number of the `p`-th packet after the base. -/
def seqAt (base : UInt16) (p : Nat) : UInt32 := UInt32.ofNat ((base.toNat + p) % 65536)

/-- The packet of position `p` is filed where the reader will look for it. -/
def Aligned (n : Nat) (base : UInt16) (p : Nat) : Prop :=
  offset n (seqAt base p) base.toUInt32 = p % n

instance (n : Nat) (base : UInt16) (p : Nat) : Decidable (Aligned n base p) :=
  inferInstanceAs (Decidable (_ = _))

theorem toNat_seqAt (base : UInt16) (p : Nat) :
    (seqAt base p).toNat = (base.toNat + p) % 65536 := by
  have hlt := Nat.mod_lt (base.toNat + p) (show 0 < 65536 by decide)
  rw [seqAt, UInt32.toNat_ofNat', Nat.mod_eq_of_lt (by omega)]

theorem offset_seqAt (n : Nat) (base : UInt16) (p : Nat) :
    offset n (seqAt base p) base.toUInt32 =
      (2 ^ 32 - base.toNat + (base.toNat + p) % 65536) % 2 ^ 32 % n := by
  rw [offset, UInt32.toNat_sub, toNat_seqAt, UInt16.toNat_toUInt32]

theorem aligned_of_dvd {n : Nat} (h : n ∣ 65536) (base : UInt16) (p : Nat) : Aligned n base p := by
  have hbase : base.toNat < 65536 := base.toNat_lt
  have h32 : n ∣ 2 ^ 32 := h.trans (by decide)
  rw [Aligned, offset_seqAt, Nat.mod_mod_of_dvd _ h32, Nat.add_mod, Nat.mod_mod_of_dvd _ h,
    ← Nat.add_mod]
  have hsum : 2 ^ 32 - base.toNat + (base.toNat + p) = p + 2 ^ 32 := by omega
  obtain ⟨k, hk⟩ := h32
  rw [hsum, hk, Nat.add_mul_mod_self_left]

theorem aligned_wrap_iff (n : Nat) (base : UInt16) : Aligned n base 65536 ↔ n ∣ 65536 := by
  have hbase : base.toNat < 65536 := base.toNat_lt
  have hslot : (2 ^ 32 - base.toNat + (base.toNat + 65536) % 65536) % 2 ^ 32 = 0 := by
    rw [Nat.add_mod_right, Nat.mod_eq_of_lt hbase, Nat.sub_add_cancel (by omega), Nat.mod_self]
  rw [Aligned, offset_seqAt, hslot, Nat.zero_mod]
  exact ⟨fun h => Nat.dvd_of_mod_eq_zero h.symm, fun h => (Nat.mod_eq_zero_of_dvd h).symm⟩

/-! ## The array as a reorder buffer -/

/-- The array `a` holds what the ideal buffer `r` holds: the packet of position
`p` in slot `p % iArraySize`, and the reader at the slot of `r.next`. -/
structure Sim (base : UInt16) (a : PVMFDynamicCircularArray α) (r : Reorder (MediaData α)) :
    Prop where
  pos : 0 < a.iArraySize
  length : a.iMediaPtrVec.length = a.iArraySize
  reader_le : a.iReadOffset ≤ a.iArraySize
  reader : a.iReadOffset % a.iArraySize = r.next % a.iArraySize
  window : ∀ x ∈ r.pending, x.1 < r.next + a.iArraySize
  seqNum : ∀ x ∈ r.pending, x.2.seqNum = seqAt base x.1
  stored : ∀ x ∈ r.pending, a.iMediaPtrVec[x.1 % a.iArraySize]? = some (some x.2)
  hole : ∀ p, r.next ≤ p → p < r.next + a.iArraySize → ¬ Reorder.occupied r.pending p →
    a.iMediaPtrVec[p % a.iArraySize]? = some none
  numElems : a.iNumElems = UInt32.ofNat r.pending.length
  lost : a.iJitterBufferStats.totalPacketsLost = UInt32.ofNat r.skipped.length
  registered : a.iJitterBufferStats.totalNumPacketsRegistered = UInt32.ofNat r.accepted.length
  retrieved : a.iJitterBufferStats.totalNumPacketsRetrieved = UInt32.ofNat r.taken.length

theorem sim_construct {n : UInt32} (hn : 0 < n) (base : UInt16) :
    Sim base (construct n : PVMFDynamicCircularArray α) Reorder.empty where
  pos := hn
  length := List.length_replicate
  reader_le := Nat.zero_le _
  reader := rfl
  window _ hx := absurd hx List.not_mem_nil
  seqNum _ hx := absurd hx List.not_mem_nil
  stored _ hx := absurd hx List.not_mem_nil
  hole p _ _ _ := by
    have hlt := Nat.mod_lt p (show 0 < n.toNat from hn)
    show (List.replicate n.toNat none)[p % n.toNat]? = some none
    rw [List.getElem?_replicate, if_pos hlt]
  numElems := rfl
  lost := rfl
  registered := rfl
  retrieved := rfl

theorem ofNat_succ (k : Nat) : UInt32.ofNat k + 1 = UInt32.ofNat (k + 1) :=
  (UInt32.ofNat_add k 1).symm

/-- **Filing a packet**: an aligned packet inside the window is filed under its
position, or dropped as a duplicate; nothing is overwritten. -/
theorem Sim.addElement {base : UInt16} {a : PVMFDynamicCircularArray α}
    {r : Reorder (MediaData α)} (h : Sim base a r) {p : Nat} {elem : MediaData α}
    (hp : r.next ≤ p) (hwin : p < r.next + a.iArraySize) (hseq : elem.seqNum = seqAt base p)
    (hal : Aligned a.iArraySize base p) :
    ∃ a', a.addElement elem base.toUInt32 = some (.success, a') ∧
      a'.iArraySize = a.iArraySize ∧ Sim base a' (r.offer p elem hp) := by
  have hslot : offset a.iArraySize elem.seqNum base.toUInt32 = p % a.iArraySize := hseq ▸ hal
  have hlt : p % a.iArraySize < a.iMediaPtrVec.length := by
    rw [h.length]
    exact Nat.mod_lt p h.pos
  by_cases hocc : Reorder.occupied r.pending p
  · -- a duplicate: the slot holds the packet of the same position
    obtain ⟨x, hx, rfl⟩ := hocc
    have hcur := h.stored x hx
    have hsame : ¬ x.2.seqNum ≠ elem.seqNum := fun hne => hne ((h.seqNum x hx).trans hseq.symm)
    have hpend : (r.offer x.1 elem hp).pending = r.pending :=
      Reorder.place_of_occupied (List.pairwise_append.mp r.ordered).2.1 ⟨x, hx, rfl⟩
    refine ⟨_, addElement_of_duplicate (hslot.symm ▸ hcur) (Decidable.not_not.mp hsame), rfl, ?_⟩
    have hacc : (r.offer x.1 elem hp).accepted = r.accepted := if_pos ⟨x, hx, rfl⟩
    exact
      { pos := h.pos, length := h.length, reader_le := h.reader_le, reader := h.reader
        window := fun y hy => h.window y (hpend ▸ hy)
        seqNum := fun y hy => h.seqNum y (hpend ▸ hy)
        stored := fun y hy => h.stored y (hpend ▸ hy)
        hole := fun q hq hqw hfree => h.hole q hq hqw fun ⟨y, hy, hyq⟩ =>
          hfree ⟨y, hpend.symm ▸ hy, hyq⟩
        numElems := h.numElems.trans (congrArg (fun l => UInt32.ofNat l.length) hpend.symm)
        lost := h.lost
        registered := h.registered.trans (congrArg (fun l => UInt32.ofNat l.length) hacc.symm)
        retrieved := h.retrieved }
  · have hcur := h.hole p hp hwin hocc
    have hperm := Reorder.place_perm (a := elem) hocc
    have hacc : (r.offer p elem hp).accepted = r.accepted ++ [(p, elem)] := if_neg hocc
    -- another position of the window has another slot
    have hother : ∀ q, r.next ≤ q → q < r.next + a.iArraySize → q ≠ p →
        (a.iMediaPtrVec.set (p % a.iArraySize) (some elem))[q % a.iArraySize]? =
          a.iMediaPtrVec[q % a.iArraySize]? := by
      intro q hq hqw hne
      refine List.getElem?_set_ne fun he => hne ?_
      exact Ring.mod_inj (by omega) (by omega) he.symm
    have hadd := addElement_of_hole _ _ _ (hslot.symm ▸ hcur)
    rw [hslot] at hadd
    refine ⟨_, hadd, rfl, ?_⟩
    exact
      { pos := h.pos, length := by simpa using h.length, reader_le := h.reader_le
        reader := h.reader
        window := fun y hy => by
          rcases Reorder.mem_of_mem_place hy with hy | rfl
          · exact h.window y hy
          · exact hwin
        seqNum := fun y hy => by
          rcases Reorder.mem_of_mem_place hy with hy | rfl
          · exact h.seqNum y hy
          · exact hseq
        stored := fun y hy => by
          rcases Reorder.mem_of_mem_place hy with hy | rfl
          · have hne : y.1 ≠ p := fun he => hocc ⟨y, hy, he⟩
            exact (hother y.1 (r.ahead y hy) (h.window y hy) hne).trans (h.stored y hy)
          · exact List.getElem?_set_self hlt
        hole := fun q hq hqw hfree => by
          have hne : q ≠ p := fun he => hfree
            ⟨(p, elem), hperm.mem_iff.mpr (List.mem_append_right _ (List.mem_singleton.mpr rfl)),
              he.symm⟩
          refine (hother q hq hqw hne).trans (h.hole q hq hqw fun ⟨y, hy, hyq⟩ => hfree ?_)
          exact ⟨y, hperm.mem_iff.mpr (List.mem_append_left _ hy), hyq⟩
        numElems := by
          show a.iNumElems + 1 = UInt32.ofNat (Reorder.place p elem r.pending).length
          rw [hperm.length_eq, h.numElems, ofNat_succ, List.length_append, List.length_singleton]
        lost := h.lost
        registered := by
          show a.iJitterBufferStats.totalNumPacketsRegistered + 1 = _
          rw [hacc, h.registered, ofNat_succ, List.length_append, List.length_singleton]
        retrieved := h.retrieved }

/-! ## Retrieving -/

theorem retrieveLoop_eq {vec : List (Option (MediaData α))} {n : Nat} (hn : 0 < n)
    {dataPkt : MediaData α} :
    ∀ {d k q : Nat} (left count : Nat), d < left → k ≤ n → k % n = q % n →
      (∀ i < d, vec[(q + i) % n]? = some none) → vec[(q + d) % n]? = some (some dataPkt) →
      retrieveLoop vec n left k count = (some dataPkt, (q + d) % n + 1, count + d + 1)
  | _, _, _, 0, _, hd, _, _, _, _ => absurd hd (Nat.not_lt_zero _)
  | d, k, q, left + 1, count, hd, hk, hkq, hholes, hfound => by
    have hwrap : (if k ≥ n then 0 else k) = q % n := by
      split
      · rw [← hkq, Nat.le_antisymm hk ‹_›, Nat.mod_self]
      · rw [← hkq, Nat.mod_eq_of_lt (by omega)]
    cases d with
    | zero =>
      rw [Nat.add_zero] at hfound
      simp only [retrieveLoop, hwrap, hfound, Option.join_some, Nat.add_zero]
    | succ d =>
      have hhole := hholes 0 (Nat.succ_pos d)
      rw [Nat.add_zero] at hhole
      have hrest := retrieveLoop_eq hn (d := d) (k := q % n + 1) (q := q + 1)
        left (count + 1) (by omega) (Nat.mod_lt q hn) (Nat.mod_add_mod q n 1)
        (fun i hi => by
          rw [show q + 1 + i = q + (i + 1) by omega]
          exact hholes (i + 1) (by omega))
        (by rw [show q + 1 + d = q + (d + 1) by omega]; exact hfound)
      simp only [retrieveLoop, hwrap, hhole, Option.join_some, hrest]
      rw [show q + 1 + d = q + (d + 1) by omega,
        show count + 1 + d + 1 = count + (d + 1) + 1 by omega]

theorem retrieveElement_eq (a : PVMFDynamicCircularArray α) (dataPkt : MediaData α) {d q : Nat}
    (hn : 0 < a.iArraySize) (hd : d ≤ a.iArraySize) (hle : a.iReadOffset ≤ a.iArraySize)
    (hq : a.iReadOffset % a.iArraySize = q % a.iArraySize)
    (hholes : ∀ i < d, a.iMediaPtrVec[(q + i) % a.iArraySize]? = some none)
    (hfound : a.iMediaPtrVec[(q + d) % a.iArraySize]? = some (some dataPkt)) :
    a.retrieveElement = (some dataPkt,
      { a with
        iReadOffset := (q + d) % a.iArraySize + 1
        iNumElems := a.iNumElems - 1
        iMediaPtrVec := a.iMediaPtrVec.set ((q + d) % a.iArraySize) none
        iLastRetrievedSeqNum := dataPkt.seqNum
        iJitterBufferStats :=
          a.iJitterBufferStats.retrieve dataPkt (a.iNumElems - 1) (d + 1) }) := by
  have hloop := retrieveLoop_eq hn (a.iArraySize + 1) 0 (by omega) hle hq hholes hfound
  rw [Nat.zero_add] at hloop
  simp only [PVMFDynamicCircularArray.retrieveElement, hloop, Nat.add_sub_cancel]

/-- **Retrieving a packet**: the pending packet of least position comes out, and
the positions before it are counted as lost. -/
theorem Sim.retrieveElement {base : UInt16} {a : PVMFDynamicCircularArray α}
    {r : Reorder (MediaData α)} (h : Sim base a r) {x : Nat × MediaData α}
    {rest : List (Nat × MediaData α)} (hpend : r.pending = x :: rest) :
    ∃ a', a.retrieveElement = (some x.2, a') ∧ a'.iArraySize = a.iArraySize ∧
      Sim base a' r.take := by
  obtain ⟨hnext, hpend', htaken, hacc⟩ := Reorder.take_of_pending hpend
  have hx : x ∈ r.pending := hpend ▸ List.mem_cons_self
  have hle := r.ahead x hx
  have hwin := h.window x hx
  have hsorted : ∀ y ∈ rest, x.1 < y.1 := by
    have hs := (List.pairwise_append.mp r.ordered).2.1
    rw [hpend] at hs
    exact (List.pairwise_cons.mp hs).1
  have hrest : ∀ y ∈ rest, y ∈ r.pending := fun y hy => hpend ▸ List.mem_cons_of_mem x hy
  -- no packet waits before the first pending one
  have hbefore : ∀ q, r.next ≤ q → q < x.1 →
      a.iMediaPtrVec[q % a.iArraySize]? = some none := by
    refine fun q hq hqx => h.hole q hq (by omega) fun ⟨y, hy, hyq⟩ => ?_
    rcases List.mem_cons.mp (hpend ▸ hy) with rfl | hy
    · omega
    · have hlt := hsorted y hy
      omega
  have hxlt : x.1 % a.iArraySize < a.iMediaPtrVec.length := by
    rw [h.length]
    exact Nat.mod_lt _ h.pos
  have hdist : r.next + (x.1 - r.next) = x.1 := by omega
  have heq := retrieveElement_eq a x.2 (d := x.1 - r.next) h.pos (by omega)
    h.reader_le h.reader (fun i hi => hbefore _ (by omega) (by omega))
    (by rw [hdist]; exact h.stored x hx)
  rw [hdist] at heq
  refine ⟨_, heq, rfl, ?_⟩
  have hfree : (a.iMediaPtrVec.set (x.1 % a.iArraySize) none)[x.1 % a.iArraySize]? = some none :=
    List.getElem?_set_self hxlt
  have hother : ∀ q, q ≠ x.1 → q < x.1 + a.iArraySize → x.1 < q + a.iArraySize →
      (a.iMediaPtrVec.set (x.1 % a.iArraySize) none)[q % a.iArraySize]? =
        a.iMediaPtrVec[q % a.iArraySize]? := fun q hne h1 h2 =>
    List.getElem?_set_ne fun he => hne (Ring.mod_inj h1 h2 he.symm)
  have hskip := r.length_skipped
  have hskip' := r.take.length_skipped
  rw [hnext, htaken, List.length_append, List.length_singleton] at hskip'
  exact
    { pos := h.pos, length := by simpa using h.length
      reader_le := Nat.mod_lt _ h.pos
      reader := by
        rw [hnext]
        exact Nat.mod_add_mod x.1 a.iArraySize 1
      window := fun y hy => by
        rw [hpend'] at hy
        have hyw := h.window y (hrest y hy)
        show y.1 < r.take.next + a.iArraySize
        omega
      seqNum := fun y hy => h.seqNum y (hrest y (hpend' ▸ hy))
      stored := fun y hy => by
        rw [hpend'] at hy
        have hlt := hsorted y hy
        have hyw := h.window y (hrest y hy)
        exact (hother y.1 (by omega) (by omega) (by omega)).trans (h.stored y (hrest y hy))
      hole := fun q hq hqw hnocc => by
        rw [hnext] at hq
        have hqw' : q < x.1 + 1 + a.iArraySize := hnext ▸ hqw
        by_cases hold : q < r.next + a.iArraySize
        · refine (hother q (by omega) (by omega) (by omega)).trans
            (h.hole q (by omega) hold fun ⟨y, hy, hyq⟩ => ?_)
          rcases List.mem_cons.mp (hpend ▸ hy) with rfl | hy
          · omega
          · exact hnocc ⟨y, hpend' ▸ hy, hyq⟩
        · -- the slot the window gained is one the reader has just passed
          obtain ⟨q', rfl⟩ := Nat.exists_eq_add_of_le (show a.iArraySize ≤ q by omega)
          show (a.iMediaPtrVec.set (x.1 % a.iArraySize) none)[(a.iArraySize + q') %
            a.iArraySize]? = some none
          rw [Nat.add_mod_left]
          by_cases hqx : q' = x.1
          · rw [hqx]
            exact hfree
          · exact (hother q' hqx (by omega) (by omega)).trans (hbefore q' (by omega) (by omega))
      numElems := by
        show a.iNumElems - 1 = _
        rw [hpend', h.numElems, hpend, List.length_cons, ← ofNat_succ, UInt32.add_sub_cancel]
      lost := by
        show a.iJitterBufferStats.totalPacketsLost + UInt32.ofNat (x.1 - r.next + 1 - 1) = _
        rw [h.lost, ← UInt32.ofNat_add]
        congr 1
        omega
      registered := by rw [hacc]; exact h.registered
      retrieved := by
        show a.iJitterBufferStats.totalNumPacketsRetrieved + 1 = _
        rw [h.retrieved, htaken, ofNat_succ, List.length_append, List.length_singleton] }

/-! ## Runs -/

inductive Op (α : Type*)
  /-- the packet of a position arrives -/
  | add (p : Nat) (elem : MediaData α)
  | retrieve
deriving DecidableEq

/-- The array, the ideal buffer beside it, what `retrieveElement` returned and
how often `addElement` reported an overwrite. -/
structure Session (α : Type*) where
  arr : PVMFDynamicCircularArray α
  spec : Reorder (MediaData α)
  delivered : List (MediaData α)
  overwrites : Nat

namespace Session

/-- A new array of size `n`. -/
def start (n : UInt32) : Session α := ⟨construct n, Reorder.empty, [], 0⟩

/-- One call of `addElement` or `retrieveElement`. -/
def step (base : UInt16) (s : Session α) : Op α → Option (Session α)
  | .add p elem =>
    if hp : s.spec.next ≤ p then
      (s.arr.addElement elem base.toUInt32).map fun (status, arr) =>
        { arr, spec := s.spec.offer p elem hp, delivered := s.delivered
          overwrites := if status = .packetOverwrite then s.overwrites + 1 else s.overwrites }
    else none
  | .retrieve =>
    let (dataPkt, arr) := s.arr.retrieveElement
    some { arr, spec := s.spec.take, delivered := s.delivered ++ dataPkt.toList
           overwrites := s.overwrites }

variable {base : UInt16} {s : Session α}

theorem step_add {p : Nat} {elem : MediaData α} {arr : PVMFDynamicCircularArray α} (hp : s.spec.next ≤ p)
    (h : s.arr.addElement elem base.toUInt32 = some (.success, arr)) :
    s.step base (.add p elem) =
      some ⟨arr, s.spec.offer p elem hp, s.delivered, s.overwrites⟩ := by
  simp only [step, dif_pos hp, h, Option.map_some]
  rfl

theorem step_retrieve {dataPkt : Option (MediaData α)}
    {arr : PVMFDynamicCircularArray α} (h : s.arr.retrieveElement = (dataPkt, arr)) :
    s.step base .retrieve =
      some ⟨arr, s.spec.take, s.delivered ++ dataPkt.toList, s.overwrites⟩ := by
  simp only [step, h]

/-- The calls considered: a packet carries the 16-bit sequence number of its
position and lies fewer than the array size ahead of the next one to be read;
`retrieveElement` is called on a non-empty array. -/
def InWindow (base : UInt16) (s : Session α) : Op α → Prop
  | .add p elem => s.spec.next ≤ p ∧ p < s.spec.next + s.arr.iArraySize ∧ elem.seqNum = seqAt base p
  | .retrieve => s.arr.iNumElems ≠ 0

instance (base : UInt16) (s : Session α) (op : Op α) : Decidable (s.InWindow base op) :=
  match op with
  | .add _ _ => inferInstanceAs (Decidable (_ ∧ _ ∧ _))
  | .retrieve => inferInstanceAs (Decidable (_ ≠ _))

/-- Delivery as an ideal reorder buffer delivers: the packets come out once each
and in the order of their positions, none is overwritten, every registered one
is either out or still in the array, and `totalPacketsLost` counts the
positions skipped. -/
structure Good (s : Session α) : Prop where
  delivered : s.delivered = s.spec.taken.map Prod.snd
  noOverwrite : s.overwrites = 0
  occupancy : s.arr.iNumElems.toNat = s.spec.pending.length
  registered : s.arr.iJitterBufferStats.totalNumPacketsRegistered =
    UInt32.ofNat s.spec.accepted.length
  lost : s.arr.iJitterBufferStats.totalPacketsLost = UInt32.ofNat s.spec.skipped.length

/-- The invariant of the good runs. -/
structure Inv (base : UInt16) (n : UInt32) (s : Session α) : Prop where
  size : s.arr.iArraySize = n.toNat
  sim : Sim base s.arr s.spec
  delivered : s.delivered = s.spec.taken.map Prod.snd
  noOverwrite : s.overwrites = 0

variable {n : UInt32}

theorem inv_start (hn : 0 < n) (base : UInt16) : Inv base n (start n : Session α) :=
  ⟨rfl, sim_construct hn base, rfl, rfl⟩

theorem Inv.good {base : UInt16} {n : UInt32} {s : Session α} (h : Inv base n s) : s.Good where
  delivered := h.delivered
  noOverwrite := h.noOverwrite
  occupancy := by
    have hn := n.toNat_lt
    have hlen := Reorder.length_le_of_window _ (List.pairwise_append.mp s.spec.ordered).2.1
      s.spec.ahead h.sim.window
    rw [h.sim.numElems, UInt32.toNat_ofNat', Nat.mod_eq_of_lt]
    have hsize := h.size
    omega
  registered := h.sim.registered
  lost := h.sim.lost

theorem Inv.add (h : Inv base n s) {p : Nat}
    {elem : MediaData α} (hop : s.InWindow base (.add p elem)) (hal : Aligned n.toNat base p) :
    ∃ t, s.step base (.add p elem) = some t ∧ Inv base n t ∧
      t.spec = s.spec.offer p elem hop.1 := by
  obtain ⟨hp, hwin, hseq⟩ := hop
  obtain ⟨arr, hadd, hsize, hsim⟩ := h.sim.addElement hp hwin hseq (h.size.symm ▸ hal)
  exact ⟨_, step_add hp hadd, ⟨hsize.trans h.size, hsim, h.delivered, h.noOverwrite⟩, rfl⟩

theorem Inv.retrieve (h : Inv base n s) (hop : s.spec.pending ≠ []) :
    ∃ t, s.step base .retrieve = some t ∧ Inv base n t ∧ t.spec = s.spec.take := by
  obtain ⟨x, rest, hpend⟩ := List.exists_cons_of_ne_nil hop
  obtain ⟨arr, hret, hsize, hsim⟩ := h.sim.retrieveElement hpend
  refine ⟨_, step_retrieve hret, ⟨hsize.trans h.size, hsim, ?_, h.noOverwrite⟩, rfl⟩
  show s.delivered ++ [x.2] = s.spec.take.taken.map Prod.snd
  rw [(Reorder.take_of_pending hpend).2.2.1, List.map_append, h.delivered]
  rfl

theorem Inv.pending_ne_nil (h : Inv base n s) (hne : s.arr.iNumElems ≠ 0) : s.spec.pending ≠ [] := by
  intro h0
  have hnum := h.sim.numElems
  rw [h0] at hnum
  exact hne hnum

/-- **Step**: with a size that divides 65536 every call keeps the invariant. -/
theorem Inv.step {base : UInt16} {n : UInt32} (hdvd : n.toNat ∣ 65536) {s t : Session α}
    {op : Op α} (h : Inv base n s) (hop : s.InWindow base op)
    (hstep : stepOf (Session.step base) s op t) : Inv base n t := by
  cases op with
  | add p elem =>
    obtain ⟨t', ht, hinv, -⟩ := h.add hop (aligned_of_dvd hdvd base p)
    obtain rfl : t' = t := Option.some.inj (ht.symm.trans hstep)
    exact hinv
  | retrieve =>
    obtain ⟨t', ht, hinv, -⟩ := h.retrieve (h.pending_ne_nil hop)
    obtain rfl : t' = t := Option.some.inj (ht.symm.trans hstep)
    exact hinv

/-- **Run**: with a size that divides 65536 every run delivers as it should. -/
theorem good_of_dvd (hn : 0 < n) (hdvd : n.toNat ∣ 65536) {ops : List (Op α)}
    (h : Run (guarded (InWindow base) (stepOf (Session.step base))) (start n) ops s) : s.Good :=
  (h.invariant (I := Inv base n) (inv_start hn base)
    fun _ _ _ hinv hstep => hinv.step hdvd hstep.1 hstep.2).good

/-! ## The other sizes -/

/-- A packet for position `p` with nothing in it that matters to the array. -/
def packetAt (base : UInt16) (payload : α) (p : Nat) : MediaData α :=
  ⟨0, seqAt base p, 0, [], payload⟩

/-- Packets that arrive in order and are retrieved one by one, up to the first
misaligned position, leave an empty array and a good state. -/
theorem inOrder (hn : 0 < n) (base : UInt16) (payload : α) :
    ∀ {k : Nat}, (∀ p < k, Aligned n.toNat base p) → ∃ (ops : List (Op α)) (s : Session α),
      Run (guarded (InWindow base) (stepOf (Session.step base))) (start n) ops s ∧
        Inv base n s ∧ s.spec.next = k ∧ s.spec.pending = []
  | 0, _ => ⟨[], start n, .nil _, inv_start hn base, rfl, rfl⟩
  | k + 1, hal => by
    obtain ⟨ops, s, hrun, hinv, hnext, hpend⟩ := inOrder hn base payload (k := k)
      fun p hp => hal p (Nat.lt_succ_of_lt hp)
    have hpos := hinv.sim.pos
    have hadd : s.InWindow base (.add k (packetAt base payload k)) :=
      ⟨by omega, by omega, rfl⟩
    obtain ⟨t, ht, hinvt, hspect⟩ := hinv.add hadd (hal k (Nat.lt_succ_self k))
    have hpendt : t.spec.pending = [(k, packetAt base payload k)] := by
      rw [hspect]
      show Reorder.place k (packetAt base payload k) s.spec.pending = _
      rw [hpend]
      rfl
    have hret : t.InWindow base .retrieve := by
      show t.arr.iNumElems ≠ 0
      rw [hinvt.sim.numElems, hpendt]
      exact (show (1 : UInt32) ≠ 0 by decide)
    obtain ⟨u, hu, hinvu, hspecu⟩ := hinvt.retrieve (hinvt.pending_ne_nil hret)
    obtain ⟨hnextu, hpendu, -⟩ := Reorder.take_of_pending hpendt
    exact ⟨_, u, (hrun.snoc ⟨hadd, ht⟩).snoc ⟨hret, hu⟩, hinvu, hspecu ▸ hnextu,
      hspecu ▸ hpendu⟩

/-- A misaligned packet in an otherwise empty array is delivered with losses
counted that did not happen. -/
theorem misaligned (h : Inv base n s) {k : Nat}
    (hnext : s.spec.next = k) (hpend : s.spec.pending = []) (payload : α)
    (hal : ¬ Aligned n.toNat base k) :
    ∃ t u, guarded (InWindow base) (stepOf (Session.step base)) s
        (.add k (packetAt base payload k)) t ∧
      guarded (InWindow base) (stepOf (Session.step base)) t .retrieve u ∧ ¬ u.Good := by
  have hn := h.sim.pos
  have hnlt := n.toNat_lt
  have hsize := h.size
  have hadd : s.InWindow base (.add k (packetAt base payload k)) := ⟨by omega, by omega, rfl⟩
  -- the packet lands `d` slots after the reader
  obtain ⟨d, hd0, hd, hslot⟩ : ∃ d, 0 < d ∧ d < s.arr.iArraySize ∧
      offset s.arr.iArraySize (seqAt base k) base.toUInt32 = (k + d) % s.arr.iArraySize := by
    have hlt : offset s.arr.iArraySize (seqAt base k) base.toUInt32 < s.arr.iArraySize :=
      Nat.mod_lt _ hn
    rw [← hsize] at hal
    obtain ⟨d, hd, hdk⟩ := Ring.exists_add_mod k hlt
    refine ⟨d, Nat.pos_of_ne_zero fun h0 => hal ?_, hd, hdk.symm⟩
    rw [Aligned, ← hdk, h0, Nat.add_zero]
  have hempty : ∀ q, ¬ Reorder.occupied s.spec.pending q := fun q ⟨y, hy, _⟩ =>
    absurd (hpend ▸ hy) List.not_mem_nil
  have hhole : ∀ i < s.arr.iArraySize,
      s.arr.iMediaPtrVec[(k + i) % s.arr.iArraySize]? = some none := fun i hi =>
    h.sim.hole (k + i) (by omega) (by omega) (hempty _)
  have hfile := addElement_of_hole s.arr (packetAt base payload k) base.toUInt32 (by
      show s.arr.iMediaPtrVec[offset s.arr.iArraySize (seqAt base k) base.toUInt32]? = some none
      rw [hslot]
      exact hhole d hd)
  have hk : offset s.arr.iArraySize (packetAt base payload k).seqNum base.toUInt32 =
      (k + d) % s.arr.iArraySize := hslot
  rw [hk] at hfile
  have hlt : (k + d) % s.arr.iArraySize < s.arr.iMediaPtrVec.length := by
    rw [h.sim.length]
    exact Nat.mod_lt _ hn
  have hret := retrieveElement_eq
    { s.arr with
      iMediaPtrVec := s.arr.iMediaPtrVec.set ((k + d) % s.arr.iArraySize)
        (some (packetAt base payload k))
      iNumElems := s.arr.iNumElems + 1
      iJitterBufferStats := (s.arr.iJitterBufferStats.receive (packetAt base payload k)).register
        (packetAt base payload k) (s.arr.iNumElems + 1) }
    (packetAt base payload k) (d := d) (q := k) hn hd.le h.sim.reader_le (hnext ▸ h.sim.reader)
    (fun i hi => (List.getElem?_set_ne fun he => absurd (Ring.mod_inj (by omega) (by omega) he)
      (by omega)).trans (hhole i (hi.trans hd)))
    (List.getElem?_set_self hlt)
  refine ⟨_, _, ⟨hadd, step_add hadd.1 hfile⟩, ⟨?_, step_retrieve hret⟩, fun hgood => ?_⟩
  · show s.arr.iNumElems + 1 ≠ 0
    rw [h.sim.numElems, hpend]
    exact (show (1 : UInt32) ≠ 0 by decide)
  · -- `d` losses are counted and no position was skipped
    have hplace : (s.spec.offer k (packetAt base payload k) hadd.1).pending =
        [(k, packetAt base payload k)] := by
      show Reorder.place k (packetAt base payload k) s.spec.pending = _
      rw [hpend]
      rfl
    obtain ⟨hnext', -, htaken', -⟩ := Reorder.take_of_pending hplace
    have hskip' := (s.spec.offer k (packetAt base payload k) hadd.1).take.length_skipped
    rw [hnext', htaken', List.length_append, List.length_singleton] at hskip'
    have hskip := s.spec.length_skipped
    have hsame : (s.spec.offer k (packetAt base payload k) hadd.1).take.skipped.length =
        s.spec.skipped.length := by
      have htaken : (s.spec.offer k (packetAt base payload k) hadd.1).taken = s.spec.taken := rfl
      rw [htaken] at hskip'
      omega
    have hlost : s.arr.iJitterBufferStats.totalPacketsLost + UInt32.ofNat (d + 1 - 1) =
      UInt32.ofNat (s.spec.offer k (packetAt base payload k) hadd.1).take.skipped.length :=
        hgood.lost
    rw [hsame, h.sim.lost] at hlost
    have hnat := congrArg UInt32.toNat hlost
    rw [UInt32.toNat_add, UInt32.toNat_ofNat', UInt32.toNat_ofNat'] at hnat
    omega

/-- **Exactly the sizes that divide 65536 deliver correctly**: an array of any
other size goes wrong in some run of in-order packets. -/
theorem good_iff_dvd [Inhabited α] (n : UInt32) (base : UInt16) (hn : 0 < n) :
    (∀ (ops : List (Op α)) (s : Session α),
      Run (guarded (InWindow base) (stepOf (Session.step base))) (start n) ops s → s.Good) ↔
    n.toNat ∣ 65536 := by
  refine ⟨fun hgood => ?_, fun hdvd ops s h => good_of_dvd hn hdvd h⟩
  by_contra hndvd
  -- the first misaligned position comes no later than the second round
  have hex : ∃ k, ¬ Aligned n.toNat base k :=
    ⟨65536, fun hal => hndvd ((aligned_wrap_iff n.toNat base).mp hal)⟩
  obtain ⟨k, hk, hmin⟩ : ∃ k, ¬ Aligned n.toNat base k ∧ ∀ p < k, Aligned n.toNat base p :=
    ⟨Nat.find hex, Nat.find_spec hex, fun p hp => Decidable.not_not.mp (Nat.find_min hex hp)⟩
  obtain ⟨ops, s, hrun, hinv, hnext, hpend⟩ := inOrder hn base (default : α) hmin
  obtain ⟨t, u, hst, htu, hbad⟩ := misaligned hinv hnext hpend default hk
  exact hbad (hgood _ u ((hrun.snoc hst).snoc htu))

/-- In an array of 256 slots every run is good, whatever the base. -/
theorem good_iff_dvd_256 : (∀ (ops : List (Op Nat)) (s : Session Nat),
    Run (guarded (InWindow 65535) (stepOf (Session.step 65535))) (start 256) ops s → s.Good) ↔
    UInt32.toNat 256 ∣ 65536 :=
  good_iff_dvd 256 65535 (by decide)

/-- Seven slots, and the sequence number wraps with the second packet: it is
filed two slots after the reader, and two losses are counted where there were
none. -/
theorem seven_slots_lose : ¬ ∀ (n : UInt32) (base : UInt16), 0 < n →
    ∀ (ops : List (Op Nat)) (s : Session Nat),
      Run (guarded (InWindow base) (stepOf (Session.step base))) (start n) ops s → s.Good := by
  intro h
  have hlost := (h 7 65535 (by decide)
    [.add 0 (packetAt 65535 10 0), .add 1 (packetAt 65535 11 1), .retrieve, .retrieve] _
    (Run.of_foldlM_guarded rfl)).lost
  exact absurd hlost (by decide)

end Session

end Ftke.JitterBuffer
