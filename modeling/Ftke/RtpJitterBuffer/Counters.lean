import Ftke.RtpJitterBuffer.Late
import Ftke.Slots

/-!
# Ftke.RtpJitterBuffer.Counters

The counters that `PVMFDynamicCircularArray` keeps beside its slots: how many packets they hold, and how many bytes.

* `purgeElementsWithTimestampLessThan`, `clear`, `ArrayOp.step` — the rest of the operations;
* `Counted` — the two counts of packets, which every operation keeps (`Counted.step`);
* `BytesCounted`, `AddsRight` — the count of bytes, which adding a duplicate or overwriting a packet spoils;
* `counters_iff` — when the count of bytes stays right.
-/

namespace Ftke.RtpJitterBuffer

open JitterBuffer PVMFDynamicCircularArray

/-! ## The rest of the operations -/

/-- An element is taken out of a slot while purging. -/
def takeOut (a : PVMFDynamicCircularArray Payload) (k : Nat) (elem : DataPacket) :
    PVMFDynamicCircularArray Payload :=
  { a with
    iMediaPtrVec := a.iMediaPtrVec.set k none
    iNumElems := a.iNumElems - 1
    iJitterBufferStats :=
      { a.iJitterBufferStats with
        packetSizeInBytesLeftInBuffer := a.iJitterBufferStats.packetSizeInBytesLeftInBuffer - elem.size } }

/-- The loop of `PurgeElementsWithTimestampLessThan`; `none` if it is still going after so many turns. -/
def purgeTimestampsLoop (aTS : UInt32) : Nat → PVMFDynamicCircularArray Payload →
    Option (PVMFDynamicCircularArray Payload)
  | 0, a => if a.iNumElems = 0 then some a else none
  | turns + 1, a =>
    if a.iNumElems = 0 then some a
    else
      let k := if a.iReadOffset ≥ a.iArraySize then 0 else a.iReadOffset
      match a.iMediaPtrVec[k]?.join with
      | none => purgeTimestampsLoop aTS turns { a with iReadOffset := k + 1 }
      | some dataPkt =>
        if dataPkt.timestamp ≥ aTS then some { a with iReadOffset := k }
        else purgeTimestampsLoop aTS turns { takeOut a k dataPkt with iReadOffset := k + 1 }

/-- `PVMFDynamicCircularArray::PurgeElementsWithTimestampLessThan`; once around is enough (`purgeTimestamps_ends`).
-/
def purgeElementsWithTimestampLessThan (a : PVMFDynamicCircularArray Payload) (aTS : UInt32) :
    Option (PVMFDynamicCircularArray Payload) :=
  let purged := if a.iMediaPtrVec.isEmpty then some a else purgeTimestampsLoop aTS a.iArraySize a
  purged.map fun a =>
    { a with iJitterBufferStats := { a.iJitterBufferStats with currentOccupancy := a.iNumElems } }

/-- `PVMFDynamicCircularArray::Clear`. -/
def clear (a : PVMFDynamicCircularArray Payload) : PVMFDynamicCircularArray Payload :=
  { a with
    iNumElems := 0
    iMediaPtrVec := List.replicate a.iArraySize none
    iLastRetrievedSeqNum := 0
    iReadOffset := 0
    iJitterBufferStats :=
      { a.iJitterBufferStats with
        currentOccupancy := 0
        packetSizeInBytesLeftInBuffer := 0 } }

/-- What is done with an array; purging by sequence numbers goes by the first one, which may have been set before. -/
inductive ArrayOp
  | addElement (elem : DataPacket) (aSeqNumBase : UInt32)
  | retrieveElement
  | purgeSeqNums (iFirstSeqNumAdded aSeqNum : UInt32)
  | purgeTimestamps (aTS : UInt32)
  | clear

/-- One operation; `none` where an element is filed by a size of zero, or purging does not end. -/
def ArrayOp.step (a : PVMFDynamicCircularArray Payload) : ArrayOp → Option (PVMFDynamicCircularArray Payload)
  | .addElement elem aSeqNumBase => (a.addElement elem aSeqNumBase).map Prod.snd
  | .retrieveElement => some a.retrieveElement.2
  | .purgeSeqNums iFirstSeqNumAdded aSeqNum => some (purgeElementsWithSeqNumsLessThan a iFirstSeqNumAdded aSeqNum)
  | .purgeTimestamps aTS => purgeElementsWithTimestampLessThan a aTS
  | .clear => some (RtpJitterBuffer.clear a)

/-! ## The counts -/

/-- The number of slots that are not null. -/
def numStored (a : PVMFDynamicCircularArray Payload) : Nat := a.iMediaPtrVec.reduceOption.length

/-- The bytes of a packet. -/
def byteCount (elem : DataPacket) : Nat := elem.size.toNat

/-- The bytes of the packets in the slots. -/
def bytesStored (a : PVMFDynamicCircularArray Payload) : Nat := Slots.total byteCount a.iMediaPtrVec

/-- The array has its size, and `iNumElems` is the number of the packets in its slots. -/
structure Counted (a : PVMFDynamicCircularArray Payload) : Prop where
  length : a.iMediaPtrVec.length = a.iArraySize
  size : a.iArraySize < 2 ^ 32
  numElems : a.iNumElems.toNat = numStored a

/-- `currentOccupancy` is `iNumElems`. -/
def OccupancyCounted (a : PVMFDynamicCircularArray Payload) : Prop :=
  a.iJitterBufferStats.currentOccupancy = a.iNumElems

/-- `packetSizeInBytesLeftInBuffer` is the number of the bytes of the packets in the slots. -/
def BytesCounted (a : PVMFDynamicCircularArray Payload) : Prop :=
  a.iJitterBufferStats.packetSizeInBytesLeftInBuffer.toNat = bytesStored a

/-- The condition on which the bytes are counted right as a packet is added: its slot is empty, or holds a packet of
no bytes that it takes the place of, and there are less than 2^32 bytes with it; or it is a duplicate, of no bytes.
-/
def AddsRight (a : PVMFDynamicCircularArray Payload) : ArrayOp → Prop
  | .addElement elem aSeqNumBase =>
    match a.iMediaPtrVec[offset a.iArraySize elem.seqNum aSeqNumBase]?.join with
    | none => bytesStored a + byteCount elem < 2 ^ 32
    | some currElem =>
      if currElem.seqNum = elem.seqNum then byteCount elem = 0
      else byteCount currElem = 0 ∧ bytesStored a + byteCount elem < 2 ^ 32
  | _ => True

/-! ## A slot changes -/

variable {a b : PVMFDynamicCircularArray Payload} {k : Nat}

theorem numStored_set {old : Option DataPacket}
    (new : Option DataPacket) (h : a.iMediaPtrVec[k]? = some old) :
    (a.iMediaPtrVec.set k new).reduceOption.length + old.elim 0 (fun _ => 1) =
      numStored a + new.elim 0 fun _ => 1 := by
  rw [numStored, ← Slots.total_one, ← Slots.total_one]
  exact Slots.total_set _ new h

theorem numStored_lt (h : Counted a)
    (hfree : a.iMediaPtrVec[k]? = some none) (elem : DataPacket) : numStored a < a.iArraySize := by
  have hset := numStored_set (some elem) hfree
  have hle := List.reduceOption_length_le (a.iMediaPtrVec.set k (some elem))
  rw [List.length_set, h.length] at hle
  simp only [Option.elim_none, Option.elim_some] at hset
  omega

variable {elem : DataPacket}

theorem numStored_pos (h : a.iMediaPtrVec[k]? = some (some elem)) : 0 < numStored a :=
  List.length_pos_of_mem (Slots.mem_reduceOption.mpr ⟨k, h⟩)

variable {n aSeqNumBase : UInt32}

theorem toNat_sub_one (h : n.toNat = k) (hpos : 0 < k) : (n - 1).toNat = k - 1 := by
  have hone : (1 : UInt32).toNat = 1 := rfl
  rw [UInt32.toNat_sub_of_le _ _ (UInt32.le_iff_toNat_le.mpr (by omega)), h, hone]

theorem toNat_add_one (h : n.toNat = k) (hlt : k + 1 < 2 ^ 32) : (n + 1).toNat = k + 1 := by
  have hone : (1 : UInt32).toNat = 1 := rfl
  rw [UInt32.toNat_add, h, hone, Nat.mod_eq_of_lt hlt]

/-- **A packet goes**: the array after it, whatever else changes beside the slots and `iNumElems`. -/
theorem Counted.takeOut (h : Counted a)
    (hstored : a.iMediaPtrVec[k]? = some (some elem)) (hsize : b.iArraySize = a.iArraySize)
    (hvec : b.iMediaPtrVec = a.iMediaPtrVec.set k none) (hnum : b.iNumElems = a.iNumElems - 1) : Counted b where
  length := by rw [hvec, List.length_set, h.length, hsize]
  size := hsize ▸ h.size
  numElems := by
    have hset := numStored_set none hstored
    simp only [Option.elim_none, Option.elim_some] at hset
    rw [hnum, toNat_sub_one h.numElems (numStored_pos hstored), numStored.eq_def b, hvec]
    omega

theorem bytesCounted_takeOut (hstored : a.iMediaPtrVec[k]? = some (some elem)) (h : BytesCounted a)
    (hvec : b.iMediaPtrVec = a.iMediaPtrVec.set k none)
    (hbytes : b.iJitterBufferStats.packetSizeInBytesLeftInBuffer =
      a.iJitterBufferStats.packetSizeInBytesLeftInBuffer - elem.size) : BytesCounted b := by
  have hset := Slots.total_set byteCount none hstored
  simp only [Option.elim_none, Option.elim_some, ← hvec, byteCount] at hset
  rw [BytesCounted, bytesStored] at h ⊢
  rw [hbytes, UInt32.toNat_sub_of_le _ _ (UInt32.le_iff_toNat_le.mpr (by omega)), h]
  omega

/-! ## Adding -/

variable {status : AddElemStatus}

theorem addElement_cases (h : a.addElement elem aSeqNumBase = some (status, b)) :
    let k := offset a.iArraySize elem.seqNum aSeqNumBase
    let stats := a.iJitterBufferStats.receive elem
    (a.iMediaPtrVec[k]? = some none ∧
      b = { a with
        iMediaPtrVec := a.iMediaPtrVec.set k (some elem)
        iNumElems := a.iNumElems + 1
        iJitterBufferStats := stats.register elem (a.iNumElems + 1) }) ∨
    ∃ currElem, a.iMediaPtrVec[k]? = some (some currElem) ∧
      ((currElem.seqNum ≠ elem.seqNum ∧
        b = { a with
          iMediaPtrVec := a.iMediaPtrVec.set k (some elem)
          iJitterBufferStats := stats.register elem a.iNumElems }) ∨
      (currElem.seqNum = elem.seqNum ∧ b = { a with iJitterBufferStats := stats })) := by
  intro k stats
  simp only [PVMFDynamicCircularArray.addElement] at h
  split at h
  · simp at h
  · next hfree => exact Or.inl ⟨hfree, (Prod.mk.inj (Option.some_inj.mp h)).2.symm⟩
  · next currElem hcurr =>
    refine Or.inr ⟨currElem, hcurr, ?_⟩
    split at h
    · next hne => exact Or.inl ⟨hne, (Prod.mk.inj (Option.some_inj.mp h)).2.symm⟩
    · next heq => exact Or.inr ⟨Decidable.not_not.mp heq, (Prod.mk.inj (Option.some_inj.mp h)).2.symm⟩

theorem Counted.addElement (h : Counted a)
     (hadd : a.addElement elem aSeqNumBase = some (status, b)) :
    Counted b := by
  obtain ⟨hfree, rfl⟩ | ⟨currElem, hcurr, ⟨-, rfl⟩ | ⟨-, rfl⟩⟩ := addElement_cases hadd
  · have hset := numStored_set (some elem) hfree
    have hlt := numStored_lt h hfree elem
    have hsize := h.size
    simp only [Option.elim_none, Option.elim_some] at hset
    refine ⟨(List.length_set ..).trans h.length, h.size, ?_⟩
    rw [toNat_add_one h.numElems (by omega), numStored]
    exact hset.symm
  · have hset := numStored_set (some elem) hcurr
    simp only [Option.elim_some] at hset
    refine ⟨(List.length_set ..).trans h.length, h.size, h.numElems.trans ?_⟩
    exact (Nat.add_right_cancel hset).symm
  · exact ⟨h.length, h.size, h.numElems⟩

theorem OccupancyCounted.addElement (h : OccupancyCounted a)
    
    (hadd : a.addElement elem aSeqNumBase = some (status, b)) : OccupancyCounted b := by
  obtain ⟨-, rfl⟩ | ⟨currElem, -, ⟨-, rfl⟩ | ⟨-, rfl⟩⟩ := addElement_cases hadd
  · rfl
  · rfl
  · exact h

/-- **When adding counts the bytes right**: exactly on the condition. -/
theorem bytesCounted_addElement_iff (h : BytesCounted a)
    
    (hadd : a.addElement elem aSeqNumBase = some (status, b)) :
    BytesCounted b ↔ AddsRight a (.addElement elem aSeqNumBase) := by
  have hlt : byteCount elem < 2 ^ 32 := elem.size.toNat_lt
  have hbytes := a.iJitterBufferStats.packetSizeInBytesLeftInBuffer.toNat_lt
  rw [BytesCounted] at h
  -- in every case the bytes are added
  have hleft : b.iJitterBufferStats.packetSizeInBytesLeftInBuffer.toNat =
      (bytesStored a + byteCount elem) % 2 ^ 32 := by
    have hsum : b.iJitterBufferStats.packetSizeInBytesLeftInBuffer =
        a.iJitterBufferStats.packetSizeInBytesLeftInBuffer + elem.size := by
      obtain ⟨-, rfl⟩ | ⟨currElem, -, ⟨-, rfl⟩ | ⟨-, rfl⟩⟩ := addElement_cases hadd <;> rfl
    rw [hsum, UInt32.toNat_add, h]
    rfl
  rw [BytesCounted, hleft, AddsRight]
  obtain ⟨hfree, rfl⟩ | ⟨currElem, hcurr, ⟨hne, rfl⟩ | ⟨heq, rfl⟩⟩ := addElement_cases hadd
  · have hset := Slots.total_set byteCount (some elem) hfree
    simp only [Option.elim_none, Option.elim_some] at hset
    simp only [hfree, Option.join_some, bytesStored]
    omega
  · have hset := Slots.total_set byteCount (some elem) hcurr
    have hcurrlt : byteCount currElem < 2 ^ 32 := currElem.size.toNat_lt
    simp only [Option.elim_some] at hset
    simp only [hcurr, Option.join_some, if_neg hne, bytesStored] at h ⊢
    omega
  · simp only [hcurr, Option.join_some, if_pos heq, bytesStored] at h ⊢
    omega

/-! ## Retrieving -/

theorem retrieveLoop_some {vec : List (Option DataPacket)} {n : Nat} :
    ∀ {left iReadOffset count k count' : Nat},
      retrieveLoop vec n left iReadOffset count = (some elem, k, count') → vec[k - 1]? = some (some elem)
  | 0, _, _, _, _, h => by simp [retrieveLoop] at h
  | left + 1, iReadOffset, count, k, count', h => by
    simp only [retrieveLoop] at h
    generalize (if iReadOffset ≥ n then 0 else iReadOffset) = k' at h
    split at h
    · next dataPkt hfound =>
      obtain ⟨rfl, rfl, -⟩ : dataPkt = elem ∧ k' + 1 = k ∧ count + 1 = count' := by simpa using h
      simpa [Option.join_eq_some_iff] using hfound
    · exact retrieveLoop_some h

theorem retrieveElement_cases (a : PVMFDynamicCircularArray Payload) :
    (∃ k, a.retrieveElement = (none, { a with iReadOffset := k })) ∨
      ∃ k elem count, a.iMediaPtrVec[k - 1]? = some (some elem) ∧
        a.retrieveElement = (some elem,
          { a with
            iReadOffset := k
            iNumElems := a.iNumElems - 1
            iMediaPtrVec := a.iMediaPtrVec.set (k - 1) none
            iLastRetrievedSeqNum := elem.seqNum
            iJitterBufferStats := a.iJitterBufferStats.retrieve elem (a.iNumElems - 1) count }) := by
  simp only [PVMFDynamicCircularArray.retrieveElement]
  split
  · next k _ _ => exact Or.inl ⟨k, rfl⟩
  · next elem k count hloop => exact Or.inr ⟨k, elem, count, retrieveLoop_some hloop, rfl⟩

/-! ## Purging by sequence numbers -/

theorem purgeSlot_cases (aSeqNum : UInt32) (a : PVMFDynamicCircularArray Payload) (k : Nat) :
    (purgeSlot aSeqNum a k = a ∧ ∀ elem, a.iMediaPtrVec[k]? = some (some elem) → ¬elem.seqNum < aSeqNum) ∨
      ∃ elem, a.iMediaPtrVec[k]? = some (some elem) ∧ elem.seqNum < aSeqNum ∧
        purgeSlot aSeqNum a k = takeOut a k elem := by
  simp only [purgeSlot]
  split
  · next hnone => exact Or.inl ⟨rfl, fun elem h => by simp [h] at hnone⟩
  · next elem hsome =>
    have hstored : a.iMediaPtrVec[k]? = some (some elem) := by simpa [Option.join_eq_some_iff] using hsome
    split
    · next hlt => exact Or.inr ⟨elem, hstored, hlt, rfl⟩
    · next hle =>
      refine Or.inl ⟨rfl, fun elem' h => ?_⟩
      obtain rfl : elem = elem' := by simpa [hstored] using h
      exact hle

theorem purgeLoop_invariant {P : PVMFDynamicCircularArray Payload → Prop} (aSeqNum : UInt32)
    (slot : PVMFDynamicCircularArray Payload → Nat → Nat)
    (hkeep : ∀ a k elem, P a → a.iMediaPtrVec[k]? = some (some elem) → P (takeOut a k elem)) (is : List Nat) :
    ∀ a, P a → P (is.foldl (fun a i => purgeSlot aSeqNum a (slot a i)) a) := by
  induction is with
  | nil => exact fun _ h => h
  | cons i is ih =>
    intro a h
    rw [List.foldl_cons]
    refine ih _ ?_
    obtain ⟨heq, -⟩ | ⟨elem, hstored, -, heq⟩ := purgeSlot_cases aSeqNum a (slot a i)
    · rw [heq]
      exact h
    · rw [heq]
      exact hkeep a _ elem h hstored

theorem reduceOption_purgeAll (a : PVMFDynamicCircularArray Payload) :
    (purgeAll a).iMediaPtrVec.reduceOption = [] := by
  refine Slots.reduceOption_eq_nil fun k hk => ?_
  rw [purgeAll, List.length_map] at hk
  simp [purgeAll, hk]

theorem Counted.purgeAll (h : Counted a) : Counted (purgeAll a) where
  length := (List.length_map ..).trans h.length
  size := h.size
  numElems := by
    rw [numStored, reduceOption_purgeAll]
    rfl

theorem foldl_sub (vec : List (Option DataPacket)) : ∀ (left : UInt32), Slots.total byteCount vec ≤ left.toNat →
    (vec.foldl (fun left slot => match slot with
      | none => left
      | some elem => left - elem.size) left).toNat = left.toNat - Slots.total byteCount vec := by
  induction vec with
  | nil => exact fun _ _ => rfl
  | cons slot vec ih =>
    intro left hle
    cases slot with
    | none => exact ih left hle
    | some elem =>
      rw [Slots.total_some] at hle ⊢
      have hsize : elem.size.toNat = byteCount elem := rfl
      have hsub : (left - elem.size).toNat = left.toNat - byteCount elem :=
        UInt32.toNat_sub_of_le _ _ (UInt32.le_iff_toNat_le.mpr (by omega))
      rw [List.foldl_cons, ih _ (by rw [hsub]; omega), hsub]
      omega

theorem BytesCounted.purgeAll (h : BytesCounted a) :
    BytesCounted (RtpJitterBuffer.purgeAll a) := by
  rw [BytesCounted, bytesStored] at h
  rw [BytesCounted, bytesStored, Slots.total, reduceOption_purgeAll, List.map_nil, List.sum_nil]
  exact (foldl_sub _ _ h.ge).trans (by omega)

theorem purgeElements_invariant {P : PVMFDynamicCircularArray Payload → Prop}
    (hkeep : ∀ a k elem, P a → a.iMediaPtrVec[k]? = some (some elem) → P (takeOut a k elem))
    (hall : ∀ a, P a → P (purgeAll a)) {a : PVMFDynamicCircularArray Payload} (h : P a)
    (iFirstSeqNumAdded aSeqNum : UInt32) : P (purgeElements a iFirstSeqNumAdded aSeqNum) := by
  simp only [purgeElements]
  split
  · exact h
  split
  · exact hall a h
  split
  · exact purgeLoop_invariant aSeqNum
      (fun a' i => ((a.iLastRetrievedSeqNum - iFirstSeqNumAdded + 1).toNat % a.iArraySize + i) % 4294967296 %
        a'.iArraySize) hkeep _ a h
  · exact h

/-! ## Purging by timestamps -/

/-- A property that is kept when a packet is taken out, and as the reader moves, is kept by the loop. -/
theorem purgeTimestampsLoop_invariant {P : PVMFDynamicCircularArray Payload → Prop} {aTS : UInt32}
    (hkeep : ∀ a k elem, P a → a.iMediaPtrVec[k]? = some (some elem) → P (takeOut a k elem))
    (hmove : ∀ a k, P a → P { a with iReadOffset := k }) :
    ∀ {turns : Nat} {a b : PVMFDynamicCircularArray Payload}, P a → purgeTimestampsLoop aTS turns a = some b → P b
  | 0, a, b, h, heq => by
    rw [purgeTimestampsLoop] at heq
    split at heq
    · rwa [← Option.some_inj.mp heq]
    · contradiction
  | turns + 1, a, b, h, heq => by
    simp only [purgeTimestampsLoop] at heq
    split at heq
    · rwa [← Option.some_inj.mp heq]
    generalize (if a.iReadOffset ≥ a.iArraySize then 0 else a.iReadOffset) = k at heq
    split at heq
    · exact purgeTimestampsLoop_invariant hkeep hmove (hmove _ _ h) heq
    · next elem hsome =>
      have hstored : a.iMediaPtrVec[k]? = some (some elem) := by simpa [Option.join_eq_some_iff] using hsome
      split at heq
      · rw [← Option.some_inj.mp heq]
        exact hmove _ _ h
      · exact purgeTimestampsLoop_invariant hkeep hmove (hmove _ _ (hkeep _ _ _ h hstored)) heq

/-- The loop ends: behind the reader the slots are empty, and once all of them are there is no packet left. -/
theorem purgeTimestampsLoop_ends (aTS : UInt32) :
    ∀ (turns : Nat) {a : PVMFDynamicCircularArray Payload} {q : Nat}, Counted a → 0 < a.iArraySize →
      (if a.iReadOffset ≥ a.iArraySize then 0 else a.iReadOffset) = q % a.iArraySize →
      (∀ i, turns ≤ i → i < a.iArraySize → a.iMediaPtrVec[(q + i) % a.iArraySize]? = some none) →
      ∃ b, purgeTimestampsLoop aTS turns a = some b
  | 0, a, q, h, hn, _, hfree => by
    have hnum : numStored a = 0 := by
      rw [numStored, Slots.reduceOption_eq_nil, List.length_nil]
      intro k hk
      obtain ⟨d, hd, hslot⟩ := Ring.exists_add_mod q (h.length ▸ hk)
      exact hslot ▸ hfree d (Nat.zero_le d) hd
    refine ⟨a, if_pos ?_⟩
    rw [← UInt32.toNat_inj, h.numElems, hnum]
    rfl
  | turns + 1, a, q, h, hn, hq, hfree => by
    simp only [purgeTimestampsLoop]
    split
    · exact ⟨a, rfl⟩
    have hlt := Nat.mod_lt q hn
    have hstep : (if q % a.iArraySize + 1 ≥ a.iArraySize then 0 else q % a.iArraySize + 1) =
        (q + 1) % a.iArraySize := Ring.next_mod q hn
    rw [hq]
    -- the slot that is passed is empty afterwards, and so are those that were
    have hnext : ∀ vec : List (Option DataPacket), vec[q % a.iArraySize]? = some none →
        (∀ k, k ≠ q % a.iArraySize → vec[k]? = a.iMediaPtrVec[k]?) →
        ∀ i, turns ≤ i → i < a.iArraySize → vec[(q + 1 + i) % a.iArraySize]? = some none := by
      intro vec hslot hother i hi hin
      by_cases hsame : (q + 1 + i) % a.iArraySize = q % a.iArraySize
      · rw [hsame, hslot]
      · rw [hother _ hsame, show q + 1 + i = q + (i + 1) by omega]
        refine hfree (i + 1) (by omega) ?_
        refine Nat.lt_of_le_of_ne hin fun hlast => hsame ?_
        rw [show q + 1 + i = q + a.iArraySize by omega, Nat.add_mod_right]
    split
    · next hnone =>
      refine purgeTimestampsLoop_ends aTS turns (q := q + 1) ⟨h.length, h.size, h.numElems⟩ hn hstep
        (hnext _ ?_ fun _ _ => rfl)
      have hin : q % a.iArraySize < a.iMediaPtrVec.length := h.length ▸ hlt
      rw [List.getElem?_eq_getElem hin] at hnone ⊢
      simpa using hnone
    · next elem hsome =>
      have hstored : a.iMediaPtrVec[q % a.iArraySize]? = some (some elem) := by
        simpa [Option.join_eq_some_iff] using hsome
      split
      · exact ⟨_, rfl⟩
      · refine purgeTimestampsLoop_ends aTS turns (q := q + 1) (h.takeOut hstored rfl rfl rfl) hn hstep
          (hnext _ ?_ fun k hk => List.getElem?_set_ne hk.symm)
        exact List.getElem?_set_self (h.length ▸ hlt)

/-- **Purging by timestamps ends**, after no more turns than there are slots. -/
theorem purgeTimestamps_ends (h : Counted a) (aTS : UInt32) :
    ∃ b, purgeElementsWithTimestampLessThan a aTS = some b := by
  simp only [purgeElementsWithTimestampLessThan]
  split
  · exact ⟨_, rfl⟩
  · next hvec =>
    have hn : 0 < a.iArraySize := by
      rw [← h.length]
      exact List.length_pos_of_ne_nil (by simpa using hvec)
    have hreader : (if a.iReadOffset ≥ a.iArraySize then 0 else a.iReadOffset) < a.iArraySize := by
      split <;> omega
    obtain ⟨b, hb⟩ := @purgeTimestampsLoop_ends aTS a.iArraySize a _ h hn (Nat.mod_eq_of_lt hreader).symm
      fun i hi hin => absurd hin (by omega)
    exact ⟨_, by rw [hb]; rfl⟩

/-! ## Every operation -/

/-- **The packets are counted right by every operation.** -/
theorem Counted.step {a b : PVMFDynamicCircularArray Payload} (h : Counted a) {op : ArrayOp}
    (hstep : op.step a = some b) : Counted b := by
  have hkeep : ∀ (a : PVMFDynamicCircularArray Payload) k elem, Counted a →
      a.iMediaPtrVec[k]? = some (some elem) → Counted (RtpJitterBuffer.takeOut a k elem) :=
    fun a k elem h hstored => h.takeOut hstored rfl rfl rfl
  cases op with
  | addElement elem aSeqNumBase =>
    obtain ⟨⟨status, b'⟩, hadd, rfl⟩ := Option.map_eq_some_iff.mp hstep
    exact h.addElement hadd
  | retrieveElement =>
    rw [← Option.some_inj.mp hstep]
    obtain ⟨k, heq⟩ | ⟨k, elem, count, hstored, heq⟩ := retrieveElement_cases a
    · rw [heq]
      exact ⟨h.length, h.size, h.numElems⟩
    · rw [heq]
      exact h.takeOut hstored rfl rfl rfl
  | purgeSeqNums iFirstSeqNumAdded aSeqNum =>
    rw [← Option.some_inj.mp hstep]
    have hpurged := purgeElements_invariant hkeep (fun _ => Counted.purgeAll) h iFirstSeqNumAdded aSeqNum
    exact ⟨hpurged.length, hpurged.size, hpurged.numElems⟩
  | purgeTimestamps aTS =>
    obtain ⟨b', hloop, rfl⟩ := Option.map_eq_some_iff.mp hstep
    have hpurged : Counted b' := by
      split at hloop
      · rwa [← Option.some_inj.mp hloop]
      · exact purgeTimestampsLoop_invariant hkeep (fun a k h => ⟨h.length, h.size, h.numElems⟩) h hloop
    exact ⟨hpurged.length, hpurged.size, hpurged.numElems⟩
  | clear =>
    rw [← Option.some_inj.mp hstep]
    refine ⟨List.length_replicate, h.size, ?_⟩
    rw [numStored, RtpJitterBuffer.clear, List.reduceOption_replicate_none]
    rfl

theorem OccupancyCounted.step {a b : PVMFDynamicCircularArray Payload} (h : OccupancyCounted a) {op : ArrayOp}
    (hstep : op.step a = some b) : OccupancyCounted b := by
  cases op with
  | addElement elem aSeqNumBase =>
    obtain ⟨⟨status, b'⟩, hadd, rfl⟩ := Option.map_eq_some_iff.mp hstep
    exact h.addElement hadd
  | retrieveElement =>
    rw [← Option.some_inj.mp hstep]
    obtain ⟨k, heq⟩ | ⟨k, elem, count, hstored, heq⟩ := retrieveElement_cases a
    · rw [heq]
      exact h
    · rw [heq]
      rfl
  | purgeSeqNums iFirstSeqNumAdded aSeqNum =>
    rw [← Option.some_inj.mp hstep]
    rfl
  | purgeTimestamps aTS =>
    obtain ⟨b', hloop, rfl⟩ := Option.map_eq_some_iff.mp hstep
    rfl
  | clear =>
    rw [← Option.some_inj.mp hstep]
    rfl

/-- **When an operation counts the bytes right**: exactly on the condition. -/
theorem bytesCounted_step_iff (h : BytesCounted a) {op : ArrayOp}
    (hstep : op.step a = some b) : BytesCounted b ↔ AddsRight a op := by
  have hkeep : ∀ (a : PVMFDynamicCircularArray Payload) k elem, BytesCounted a →
      a.iMediaPtrVec[k]? = some (some elem) → BytesCounted (takeOut a k elem) :=
    fun a k elem h hstored => bytesCounted_takeOut hstored h rfl rfl
  cases op with
  | addElement elem aSeqNumBase =>
    obtain ⟨⟨status, b'⟩, hadd, rfl⟩ := Option.map_eq_some_iff.mp hstep
    exact bytesCounted_addElement_iff h hadd
  | retrieveElement =>
    refine iff_of_true ?_ trivial
    rw [← Option.some_inj.mp hstep]
    obtain ⟨k, heq⟩ | ⟨k, elem, count, hstored, heq⟩ := retrieveElement_cases a
    · rw [heq]
      exact h
    · rw [heq]
      exact bytesCounted_takeOut hstored h rfl rfl
  | purgeSeqNums iFirstSeqNumAdded aSeqNum =>
    refine iff_of_true ?_ trivial
    rw [← Option.some_inj.mp hstep]
    exact purgeElements_invariant hkeep (fun _ => BytesCounted.purgeAll) h iFirstSeqNumAdded aSeqNum
  | purgeTimestamps aTS =>
    refine iff_of_true ?_ trivial
    obtain ⟨b', hloop, rfl⟩ := Option.map_eq_some_iff.mp hstep
    have hpurged : BytesCounted b' := by
      split at hloop
      · rwa [← Option.some_inj.mp hloop]
      · exact purgeTimestampsLoop_invariant hkeep (fun a k h => h) h hloop
    exact hpurged
  | clear =>
    refine iff_of_true ?_ trivial
    rw [← Option.some_inj.mp hstep]
    simp [BytesCounted, bytesStored, clear]

/-! ## Runs -/

theorem counted_construct (n : UInt32) : Counted (construct n) where
  length := List.length_replicate
  size := n.toNat_lt
  numElems := by
    rw [numStored, construct, List.reduceOption_replicate_none]
    rfl

/-- The counters of the packets are right. -/
def PacketsCounted (a : PVMFDynamicCircularArray Payload) : Prop :=
  a.iNumElems.toNat = numStored a ∧ a.iJitterBufferStats.currentOccupancy.toNat = numStored a

theorem packetsCounted (h : Counted a) (hoccupancy : OccupancyCounted a) :
    PacketsCounted a :=
  ⟨h.numElems, hoccupancy ▸ h.numElems⟩

theorem ArrayOp.step_some (h : Counted a) (hn : 0 < a.iArraySize)
    (op : ArrayOp) : ∃ b, op.step a = some b := by
  cases op with
  | addElement elem aSeqNumBase =>
    have hlt : offset a.iArraySize elem.seqNum aSeqNumBase < a.iMediaPtrVec.length := by
      rw [h.length]
      exact Nat.mod_lt _ hn
    simp only [step, PVMFDynamicCircularArray.addElement, List.getElem?_eq_getElem hlt]
    split
    · contradiction
    · exact ⟨_, rfl⟩
    · split <;> exact ⟨_, rfl⟩
  | retrieveElement => exact ⟨_, rfl⟩
  | purgeSeqNums iFirstSeqNumAdded aSeqNum => exact ⟨_, rfl⟩
  | purgeTimestamps aTS => exact purgeTimestamps_ends h aTS
  | clear => exact ⟨_, rfl⟩

theorem ArrayOp.iArraySize_step {a b : PVMFDynamicCircularArray Payload} {op : ArrayOp}
    (hstep : op.step a = some b) : b.iArraySize = a.iArraySize := by
  cases op with
  | addElement elem aSeqNumBase =>
    obtain ⟨⟨status, b'⟩, hadd, rfl⟩ := Option.map_eq_some_iff.mp hstep
    obtain ⟨-, rfl⟩ | ⟨currElem, -, ⟨-, rfl⟩ | ⟨-, rfl⟩⟩ := addElement_cases hadd <;> rfl
  | retrieveElement =>
    rw [← Option.some_inj.mp hstep]
    obtain ⟨k, heq⟩ | ⟨k, elem, count, hstored, heq⟩ := retrieveElement_cases a <;> rw [heq]
  | purgeSeqNums iFirstSeqNumAdded aSeqNum =>
    rw [← Option.some_inj.mp hstep]
    exact @purgeElements_invariant (fun b => b.iArraySize = a.iArraySize) (fun _ _ _ h _ => h) (fun _ h => h) a rfl
      iFirstSeqNumAdded aSeqNum
  | purgeTimestamps aTS =>
    obtain ⟨b', hloop, rfl⟩ := Option.map_eq_some_iff.mp hstep
    show b'.iArraySize = a.iArraySize
    split at hloop
    · rw [← Option.some_inj.mp hloop]
    · exact @purgeTimestampsLoop_invariant (fun b => b.iArraySize = a.iArraySize) aTS (fun _ _ _ h _ => h)
        (fun _ _ h => h) _ _ _ rfl hloop
  | clear =>
    rw [← Option.some_inj.mp hstep]
    rfl

/-- **When the counters are right**: in every run those of the packets are, and every operation comes to an end; that
of the bytes is right throughout exactly if each packet is added on its condition. -/
theorem counters_iff (n : UInt32) (ops : List ArrayOp) :
    (∀ a, Run (stepOf ArrayOp.step) (construct n) ops a →
      PacketsCounted a ∧ (0 < n → ∀ op : ArrayOp, ∃ b, op.step a = some b)) ∧
    (Always ArrayOp.step (fun a => PacketsCounted a ∧ BytesCounted a) (construct n) ops ↔
      AtEach ArrayOp.step AddsRight (construct n) ops) := by
  have hstart := counted_construct n
  have hoccupancy : OccupancyCounted (construct n) := rfl
  constructor
  · intro a hrun
    have hcounted := hrun.invariant hstart fun _ _ _ h hstep => Counted.step h hstep
    have hkept := hrun.invariant hoccupancy fun _ _ _ h hstep => OccupancyCounted.step h hstep
    refine ⟨packetsCounted hcounted hkept, fun hn op => ?_⟩
    have hsize : a.iArraySize = n.toNat :=
      @Run.invariant _ _ _ (fun b : PVMFDynamicCircularArray Payload => b.iArraySize = n.toNat) _ _ _ hrun rfl
        fun _ _ _ h hstep => (ArrayOp.iArraySize_step hstep).trans h
    exact ArrayOp.step_some hcounted (hsize ▸ UInt32.lt_iff_toNat_lt.mp hn) op
  · refine always_iff (I := fun a => Counted a ∧ OccupancyCounted a ∧ BytesCounted a) ?_ ?_ ?_ ops _
      ⟨hstart, hoccupancy, ?_⟩
    · exact fun a h => ⟨packetsCounted h.1 h.2.1, h.2.2⟩
    · exact fun a op b h hstep hok =>
        ⟨h.1.step hstep, h.2.1.step hstep, (bytesCounted_step_iff h.2.2 hstep).mpr hok⟩
    · exact fun a op b h hstep hright => (bytesCounted_step_iff h.2.2 hstep).mp hright.2
    · simp [BytesCounted, bytesStored, construct]

/-- A packet of ten bytes. -/
def tenBytes (seqNum : UInt32) : DataPacket := ⟨0, seqNum, 0, [10], ⟨[], 0, 10, 0⟩⟩

/-- **A duplicate that is counted**: the packet 5 comes twice, and is stored once; 20 bytes are counted, of 10. -/
theorem duplicate_counted : ∃ a, Run (stepOf ArrayOp.step) (construct 4)
      [.addElement (tenBytes 5) 5, .addElement (tenBytes 5) 5] a ∧
    a.iJitterBufferStats.packetSizeInBytesLeftInBuffer = 20 ∧ bytesStored a = 10 ∧ ¬BytesCounted a := by
  have hrun : ([ArrayOp.addElement (tenBytes 5) 5, .addElement (tenBytes 5) 5].foldlM ArrayOp.step (construct 4)).map
      (fun a => (a.iJitterBufferStats.packetSizeInBytesLeftInBuffer, bytesStored a)) = some (20, 10) := by decide
  obtain ⟨a, h, ha⟩ := Option.map_eq_some_iff.mp hrun
  obtain ⟨hleft, hstored⟩ := Prod.mk.inj ha
  refine ⟨a, Run.of_foldlM h, hleft, hstored, ?_⟩
  rw [BytesCounted, hleft, hstored]
  decide

end Ftke.RtpJitterBuffer
