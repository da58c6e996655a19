import Ftke.RtpJitterBuffer.Counters

/-!
# Ftke.RtpJitterBuffer.Purge

What `PVMFDynamicCircularArray::PurgeElementsWithSeqNumsLessThan` leaves in the array.

* `getElem?_purgeElements` — what is in each slot afterwards;
* `PurgedRight`, `PurgesRight` — that purging does its work, and the condition for it;
* `purgedRight_iff` — the one holds exactly if the other does;
* `purgesRight_of_retrieved` — the condition is met once a packet from the first one on has been retrieved;
* `purge_keeps` — what purging does, below the last packet retrieved and above it.
-/

namespace Ftke.RtpJitterBuffer

open JitterBuffer PVMFDynamicCircularArray

/-! ## The slots that are walked over -/

/-- The slot of the packet after the last one retrieved, as the loop takes it to be. -/
def startOffset (a : PVMFDynamicCircularArray Payload) (iFirstSeqNumAdded : UInt32) : Nat :=
  (a.iLastRetrievedSeqNum - iFirstSeqNumAdded + 1).toNat % a.iArraySize

/-- The slots that the loop walks over, in this order. -/
def walkedSlots (a : PVMFDynamicCircularArray Payload) (iFirstSeqNumAdded aSeqNum : UInt32) : List Nat :=
  (List.range (aSeqNum - (a.iLastRetrievedSeqNum + 1)).toNat).map fun i =>
    (startOffset a iFirstSeqNumAdded + i) % 4294967296 % a.iArraySize

theorem iArraySize_purgeSlot (aSeqNum : UInt32) (a : PVMFDynamicCircularArray Payload) (k : Nat) :
    (purgeSlot aSeqNum a k).iArraySize = a.iArraySize := by
  obtain ⟨heq, -⟩ | ⟨elem, -, -, heq⟩ := purgeSlot_cases aSeqNum a k <;> rw [heq]
  rfl

theorem purgeLoop_eq (aSeqNum : UInt32) (n : Nat) (slot : Nat → Nat → Nat) (is : List Nat) :
    ∀ a : PVMFDynamicCircularArray Payload, a.iArraySize = n →
      is.foldl (fun a i => purgeSlot aSeqNum a (slot i a.iArraySize)) a =
        (is.map fun i => slot i n).foldl (purgeSlot aSeqNum) a := by
  induction is with
  | nil => exact fun _ _ => rfl
  | cons i is ih =>
    intro a hn
    rw [List.foldl_cons, ih _ ((iArraySize_purgeSlot aSeqNum a _).trans hn), List.map_cons, List.foldl_cons, hn]

/-- **A slot after the loop**: what is below is taken out of those that are walked over. -/
theorem getElem?_purgeLoop (aSeqNum : UInt32) (k : Nat) : ∀ (ks : List Nat) (a : PVMFDynamicCircularArray Payload),
    (ks.foldl (purgeSlot aSeqNum) a).iMediaPtrVec[k]? =
      if k ∈ ks then a.iMediaPtrVec[k]?.map (Option.filter fun elem => !decide (elem.seqNum < aSeqNum))
      else a.iMediaPtrVec[k]?
  | [], a => by simp
  | k' :: ks, a => by
    rw [List.foldl_cons, getElem?_purgeLoop aSeqNum k ks]
    -- the slot after the first turn
    have hfirst : (purgeSlot aSeqNum a k').iMediaPtrVec[k]? =
        if k = k' then a.iMediaPtrVec[k]?.map (Option.filter fun elem => !decide (elem.seqNum < aSeqNum))
        else a.iMediaPtrVec[k]? := by
      obtain ⟨heq, hkept⟩ | ⟨elem, hstored, hlt, heq⟩ := purgeSlot_cases aSeqNum a k'
      · rw [heq]
        split
        · next hk =>
          subst hk
          cases hslot : a.iMediaPtrVec[k]? with
          | none => rfl
          | some slot =>
            cases slot with
            | none => rfl
            | some elem => simp [Option.filter, hkept elem hslot]
        · rfl
      · rw [heq, takeOut, List.getElem?_set]
        split
        · next hk =>
          subst hk
          rw [hstored, if_pos (List.getElem?_eq_some_iff.mp hstored).1]
          simp [hlt, Option.filter]
        · next hk => rw [if_neg (Ne.symm hk)]
    rw [hfirst]
    by_cases hk : k = k'
    · subst hk
      cases a.iMediaPtrVec[k]? with
      | none => simp
      | some slot => cases slot <;> simp [Option.filter_filter]
    · simp [hk]

variable {a : PVMFDynamicCircularArray Payload} {aSeqNum iFirstSeqNumAdded : UInt32}

theorem purgeElements_of_gt (hlast : a.iLastRetrievedSeqNum < aSeqNum) (iFirstSeqNumAdded : UInt32) :
    purgeElements a iFirstSeqNumAdded aSeqNum = if a.iMediaPtrVec.isEmpty then a
      else (walkedSlots a iFirstSeqNumAdded aSeqNum).foldl (purgeSlot aSeqNum) a := by
  have hnot : ¬aSeqNum < a.iLastRetrievedSeqNum := fun h => absurd (UInt32.lt_trans h hlast) (UInt32.lt_irrefl _)
  simp only [purgeElements, if_neg hnot, if_pos (show aSeqNum > a.iLastRetrievedSeqNum from hlast)]
  split
  · rfl
  · exact purgeLoop_eq aSeqNum a.iArraySize
      (fun i n => (startOffset a iFirstSeqNumAdded + i) % 4294967296 % n) _ a rfl

/-- The slots that purging takes elements out of, if they are below. -/
def Purged (a : PVMFDynamicCircularArray Payload) (iFirstSeqNumAdded aSeqNum : UInt32) (k : Nat) : Prop :=
  a.iLastRetrievedSeqNum < aSeqNum ∧ k ∈ walkedSlots a iFirstSeqNumAdded aSeqNum

/-- The array after purging. -/
abbrev purge (a : PVMFDynamicCircularArray Payload) (iFirstSeqNumAdded aSeqNum : UInt32) :
    PVMFDynamicCircularArray Payload :=
  purgeElementsWithSeqNumsLessThan a iFirstSeqNumAdded aSeqNum

theorem iMediaPtrVec_purge (a : PVMFDynamicCircularArray Payload) (iFirstSeqNumAdded aSeqNum : UInt32) :
    (purge a iFirstSeqNumAdded aSeqNum).iMediaPtrVec =
      (purgeElements a iFirstSeqNumAdded aSeqNum).iMediaPtrVec := rfl

/-- **Purging below the last packet retrieved** empties the array. -/
theorem purge_of_lt (hlast : aSeqNum < a.iLastRetrievedSeqNum) (iFirstSeqNumAdded : UInt32) :
    (purge a iFirstSeqNumAdded aSeqNum).iMediaPtrVec.reduceOption = [] := by
  rw [iMediaPtrVec_purge]
  simp only [purgeElements, if_pos hlast]
  split
  · next hvec =>
    rw [List.isEmpty_iff.mp hvec]
    rfl
  · exact reduceOption_purgeAll a

/-- **A slot after purging**: a packet is there if it was before, and is not below or in none of the slots that
elements are taken out of. -/
theorem getElem?_purge (hlast : ¬aSeqNum < a.iLastRetrievedSeqNum) {k : Nat} {elem : DataPacket} :
    (purge a iFirstSeqNumAdded aSeqNum).iMediaPtrVec[k]? = some (some elem) ↔
      a.iMediaPtrVec[k]? = some (some elem) ∧
        (elem.seqNum < aSeqNum → ¬Purged a iFirstSeqNumAdded aSeqNum k) := by
  rw [iMediaPtrVec_purge]
  by_cases hgt : a.iLastRetrievedSeqNum < aSeqNum
  · rw [purgeElements_of_gt hgt, Purged]
    split
    · next hvec =>
      rw [List.isEmpty_iff.mp hvec]
      simp
    rw [getElem?_purgeLoop]
    split
    · next hk =>
      simp only [hk, hgt, and_self, not_true]
      cases a.iMediaPtrVec[k]? with
      | none => simp
      | some slot =>
        cases slot with
        | none => simp [Option.filter]
        | some elem' =>
          simp only [Option.map_some, Option.some_inj, Option.filter_eq_some_iff]
          constructor
          · rintro ⟨rfl, hge⟩
            exact ⟨rfl, by simpa using hge⟩
          · rintro ⟨rfl, hge⟩
            exact ⟨rfl, by simpa using hge⟩
    · next hk => simp [hk]
  · have heq : purgeElements a iFirstSeqNumAdded aSeqNum = a := by
      simp only [purgeElements, if_neg hlast, if_neg (show ¬aSeqNum > a.iLastRetrievedSeqNum from hgt)]
      split <;> rfl
    rw [heq, Purged]
    simp [hgt]

/-! ## The reader -/

/-- The slot that the reader is put at. -/
def readSlot (a : PVMFDynamicCircularArray Payload) (iFirstSeqNumAdded aSeqNum : UInt32) : Nat :=
  (aSeqNum - iFirstSeqNumAdded).toNat % a.iArraySize

theorem iArraySize_purge (a : PVMFDynamicCircularArray Payload) (iFirstSeqNumAdded aSeqNum : UInt32) :
    (purge a iFirstSeqNumAdded aSeqNum).iArraySize = a.iArraySize :=
  @ArrayOp.iArraySize_step a _ (.purgeSeqNums iFirstSeqNumAdded aSeqNum) rfl

theorem iReadOffset_purge (a : PVMFDynamicCircularArray Payload) (iFirstSeqNumAdded aSeqNum : UInt32) :
    (purge a iFirstSeqNumAdded aSeqNum).iReadOffset = readSlot a iFirstSeqNumAdded aSeqNum := by
  rw [readSlot, ← iArraySize_purge a iFirstSeqNumAdded aSeqNum]
  rfl

/-! ## When purging does its work -/

/-- **Purging does its work**: no packet below is left, every other is still there, and of the packets that are left
the smallest is retrieved next. -/
structure PurgedRight (a : PVMFDynamicCircularArray Payload) (iFirstSeqNumAdded aSeqNum : UInt32) : Prop where
  below : ∀ elem ∈ (purge a iFirstSeqNumAdded aSeqNum).iMediaPtrVec.reduceOption, aSeqNum ≤ elem.seqNum
  kept : ∀ (k : Nat) (elem : DataPacket), a.iMediaPtrVec[k]? = some (some elem) → aSeqNum ≤ elem.seqNum →
    (purge a iFirstSeqNumAdded aSeqNum).iMediaPtrVec[k]? = some (some elem)
  next : (purge a iFirstSeqNumAdded aSeqNum).iMediaPtrVec.reduceOption ≠ [] →
    ∃ first b, (purge a iFirstSeqNumAdded aSeqNum).retrieveElement = (some first, b) ∧
      ∀ elem ∈ (purge a iFirstSeqNumAdded aSeqNum).iMediaPtrVec.reduceOption, first.seqNum ≤ elem.seqNum

/-- The packet in the slot `d` after that of the reader is the first one that is not below. -/
def FirstFrom (a : PVMFDynamicCircularArray Payload) (iFirstSeqNumAdded aSeqNum : UInt32) (d : Nat)
    (first : DataPacket) : Prop :=
  a.iMediaPtrVec[(readSlot a iFirstSeqNumAdded aSeqNum + d) % a.iArraySize]? = some (some first) ∧
    aSeqNum ≤ first.seqNum ∧
    ∀ i < d, ∀ elem : DataPacket,
      a.iMediaPtrVec[(readSlot a iFirstSeqNumAdded aSeqNum + i) % a.iArraySize]? = some (some elem) →
      elem.seqNum < aSeqNum

/-- **The condition**: below the last packet retrieved, that no packet is to be kept; otherwise, that every packet
below is in a slot that elements are taken out of, and that the first of the others from the slot of the reader on is
the smallest. -/
def PurgesRight (a : PVMFDynamicCircularArray Payload) (iFirstSeqNumAdded aSeqNum : UInt32) : Prop :=
  if aSeqNum < a.iLastRetrievedSeqNum then ∀ elem ∈ a.iMediaPtrVec.reduceOption, elem.seqNum < aSeqNum
  else
    (∀ (k : Nat) (elem : DataPacket), a.iMediaPtrVec[k]? = some (some elem) → elem.seqNum < aSeqNum →
      Purged a iFirstSeqNumAdded aSeqNum k) ∧
    ∀ d < a.iArraySize, ∀ first, FirstFrom a iFirstSeqNumAdded aSeqNum d first →
      ∀ elem ∈ a.iMediaPtrVec.reduceOption, aSeqNum ≤ elem.seqNum → first.seqNum ≤ elem.seqNum

theorem not_lt_iff_le {a b : UInt32} : ¬a < b ↔ b ≤ a := by
  rw [UInt32.lt_iff_toNat_lt, UInt32.le_iff_toNat_le]
  omega

theorem getElem?_purge_of_below (hlast : ¬aSeqNum < a.iLastRetrievedSeqNum)
    (hbelow : ∀ (k : Nat) (elem : DataPacket), a.iMediaPtrVec[k]? = some (some elem) → elem.seqNum < aSeqNum →
      Purged a iFirstSeqNumAdded aSeqNum k) (k : Nat) (elem : DataPacket) :
    (purge a iFirstSeqNumAdded aSeqNum).iMediaPtrVec[k]? = some (some elem) ↔
      a.iMediaPtrVec[k]? = some (some elem) ∧ aSeqNum ≤ elem.seqNum := by
  rw [getElem?_purge hlast, ← not_lt_iff_le]
  constructor
  · exact fun ⟨h, hnot⟩ => ⟨h, fun hlt => hnot hlt (hbelow k elem h hlt)⟩
  · exact fun ⟨h, hnot⟩ => ⟨h, fun hlt => absurd hlt hnot⟩

/-- After purging, the first packet from the slot of the reader on is the one that is retrieved. -/
theorem retrieveElement_purge (h : Counted a) (hn : 0 < a.iArraySize)
    (hleft : ∀ (k : Nat) (elem : DataPacket),
      (purge a iFirstSeqNumAdded aSeqNum).iMediaPtrVec[k]? = some (some elem) ↔
        a.iMediaPtrVec[k]? = some (some elem) ∧ aSeqNum ≤ elem.seqNum)
    {d : Nat} (hd : d < a.iArraySize) {first : DataPacket}
    (hfirst : FirstFrom a iFirstSeqNumAdded aSeqNum d first) :
    ∃ b, (purge a iFirstSeqNumAdded aSeqNum).retrieveElement = (some first, b) := by
  obtain ⟨hstored, hge, hfree⟩ := hfirst
  have hcounted : Counted (purge a iFirstSeqNumAdded aSeqNum) :=
    @Counted.step a _ h (.purgeSeqNums iFirstSeqNumAdded aSeqNum) rfl
  have hsize := iArraySize_purge a iFirstSeqNumAdded aSeqNum
  have hreader := iReadOffset_purge a iFirstSeqNumAdded aSeqNum
  have hlt : readSlot a iFirstSeqNumAdded aSeqNum < a.iArraySize := Nat.mod_lt _ hn
  have hholes : ∀ i < d, (purge a iFirstSeqNumAdded aSeqNum).iMediaPtrVec[
      (readSlot a iFirstSeqNumAdded aSeqNum + i) % a.iArraySize]? = some none := by
    intro i hi
    have hin : (readSlot a iFirstSeqNumAdded aSeqNum + i) % a.iArraySize <
        (purge a iFirstSeqNumAdded aSeqNum).iMediaPtrVec.length := by
      rw [hcounted.length, hsize]
      exact Nat.mod_lt _ hn
    obtain ⟨slot, hslot⟩ : ∃ slot, (purge a iFirstSeqNumAdded aSeqNum).iMediaPtrVec[
        (readSlot a iFirstSeqNumAdded aSeqNum + i) % a.iArraySize]? = some slot := ⟨_, List.getElem?_eq_getElem hin⟩
    cases slot with
    | none => exact hslot
    | some elem =>
      obtain ⟨hbefore, hle⟩ := (hleft _ elem).mp hslot
      exact absurd (hfree i hi elem hbefore) (not_lt_iff_le.mpr hle)
  exact ⟨_, retrieveElement_eq _ first (hsize ▸ hn) (d := d) (q := readSlot a iFirstSeqNumAdded aSeqNum)
    (hsize ▸ hd.le) (by rw [hreader, hsize]; exact hlt.le) (by rw [hreader]) (hsize ▸ hholes)
    (by rw [hsize]; exact (hleft _ first).mpr ⟨hstored, hge⟩)⟩

/-- **When purging does its work**, in every state: exactly on the condition. -/
theorem purgedRight_iff (h : Counted a) (hn : 0 < a.iArraySize) (iFirstSeqNumAdded aSeqNum : UInt32) :
    PurgedRight a iFirstSeqNumAdded aSeqNum ↔ PurgesRight a iFirstSeqNumAdded aSeqNum := by
  rw [PurgesRight]
  split
  · next hlast =>
    have hempty := purge_of_lt hlast iFirstSeqNumAdded
    constructor
    · intro hright elem hmem
      obtain ⟨k, hk⟩ := Slots.mem_reduceOption.mp hmem
      by_contra hnot
      have hleft := Slots.mem_reduceOption.mpr ⟨k, hright.kept k elem hk (not_lt_iff_le.mp hnot)⟩
      simp [hempty] at hleft
    · intro hnone
      refine ⟨by simp [hempty], fun k elem hk hge => ?_, by simp [hempty]⟩
      exact absurd (hnone elem (Slots.mem_reduceOption.mpr ⟨k, hk⟩)) (not_lt_iff_le.mpr hge)
  · next hlast =>
    constructor
    · intro hright
      have hbelow : ∀ (k : Nat) (elem : DataPacket), a.iMediaPtrVec[k]? = some (some elem) →
          elem.seqNum < aSeqNum → Purged a iFirstSeqNumAdded aSeqNum k := by
        intro k elem hk hlt
        by_contra hnot
        have hleft := (getElem?_purge hlast).mpr ⟨hk, fun _ => hnot⟩
        exact not_lt_iff_le.mpr (hright.below elem (Slots.mem_reduceOption.mpr ⟨k, hleft⟩)) hlt
      refine ⟨hbelow, fun d hd first hfirst elem hmem hle => ?_⟩
      have hleft := getElem?_purge_of_below hlast hbelow
      obtain ⟨b, hretrieve⟩ := retrieveElement_purge h hn hleft hd hfirst
      obtain ⟨k, hk⟩ := Slots.mem_reduceOption.mp hmem
      have hmem' := Slots.mem_reduceOption.mpr ⟨k, (hleft k elem).mpr ⟨hk, hle⟩⟩
      obtain ⟨first', b', hfirst', hleast⟩ := hright.next (List.ne_nil_of_mem hmem')
      rw [hretrieve, Prod.mk.injEq, Option.some_inj] at hfirst'
      exact hfirst'.1 ▸ hleast elem hmem'
    · rintro ⟨hbelow, hfirst⟩
      have hleft := getElem?_purge_of_below hlast hbelow
      refine ⟨fun elem hmem => ?_, fun k elem hk hge => (hleft k elem).mpr ⟨hk, hge⟩, fun hne => ?_⟩
      · obtain ⟨k, hk⟩ := Slots.mem_reduceOption.mp hmem
        exact ((hleft k elem).mp hk).2
      · obtain ⟨elem, hmem⟩ := List.exists_mem_of_ne_nil _ hne
        obtain ⟨k, hk⟩ := Slots.mem_reduceOption.mp hmem
        -- the walk of the reader comes to a first packet
        have hcounted : Counted (purge a iFirstSeqNumAdded aSeqNum) :=
          @Counted.step a _ h (.purgeSeqNums iFirstSeqNumAdded aSeqNum) rfl
        have hsize := iArraySize_purge a iFirstSeqNumAdded aSeqNum
        obtain ⟨d, hd, first, hstored, hfree⟩ :=
          Slots.exists_first (hcounted.length.trans hsize) (readSlot a iFirstSeqNumAdded aSeqNum) hk
        have hfirstFrom : FirstFrom a iFirstSeqNumAdded aSeqNum d first := by
          refine ⟨((hleft _ first).mp hstored).1, ((hleft _ first).mp hstored).2, fun i hi elem' hk' => ?_⟩
          by_contra hnot
          have hpresent := (hleft _ elem').mpr ⟨hk', not_lt_iff_le.mp hnot⟩
          simp [hfree i hi] at hpresent
        obtain ⟨b, hretrieve⟩ := retrieveElement_purge h hn hleft hd hfirstFrom
        refine ⟨first, b, hretrieve, fun elem hmem => ?_⟩
        obtain ⟨k, hk⟩ := Slots.mem_reduceOption.mp hmem
        obtain ⟨hbefore, hle⟩ := (hleft k elem).mp hk
        exact hfirst d hd first hfirstFrom elem (Slots.mem_reduceOption.mpr ⟨k, hbefore⟩) hle

/-! ## Once a packet has been retrieved -/

/-- Every packet is in the slot of its sequence number. -/
def Filed (iFirstSeqNumAdded : UInt32) (a : PVMFDynamicCircularArray Payload) : Prop :=
  ∀ (k : Nat) (elem : DataPacket), a.iMediaPtrVec[k]? = some (some elem) →
    k = offset a.iArraySize elem.seqNum iFirstSeqNumAdded

/-- Packets are added by the first sequence number. -/
def ArrayOp.FiledBy (iFirstSeqNumAdded : UInt32) : ArrayOp → Prop
  | .addElement _ aSeqNumBase => aSeqNumBase = iFirstSeqNumAdded
  | _ => True

instance (iFirstSeqNumAdded : UInt32) : DecidablePred (ArrayOp.FiledBy iFirstSeqNumAdded) := fun op =>
  match op with
  | .addElement _ aSeqNumBase => inferInstanceAs (Decidable (aSeqNumBase = iFirstSeqNumAdded))
  | .retrieveElement | .purgeSeqNums _ _ | .purgeTimestamps _ | .clear => inferInstanceAs (Decidable True)

theorem Filed.set {iFirstSeqNumAdded : UInt32} {a b : PVMFDynamicCircularArray Payload}
    (h : Filed iFirstSeqNumAdded a) {k : Nat} {new : Option DataPacket} (hsize : b.iArraySize = a.iArraySize)
    (hvec : b.iMediaPtrVec = a.iMediaPtrVec.set k new)
    (hnew : ∀ elem, new = some elem → k = offset a.iArraySize elem.seqNum iFirstSeqNumAdded) :
    Filed iFirstSeqNumAdded b := by
  intro k' elem hk'
  rw [hvec, List.getElem?_set] at hk'
  rw [hsize]
  split at hk'
  · next heq =>
    split at hk'
    · exact heq ▸ hnew elem (Option.some_inj.mp hk')
    · contradiction
  · exact h k' elem hk'

theorem Filed.step {iFirstSeqNumAdded : UInt32} {a b : PVMFDynamicCircularArray Payload}
    (h : Filed iFirstSeqNumAdded a) {op : ArrayOp} (hop : op.FiledBy iFirstSeqNumAdded)
    (hstep : op.step a = some b) : Filed iFirstSeqNumAdded b := by
  have hkeep : ∀ (a : PVMFDynamicCircularArray Payload) k elem, Filed iFirstSeqNumAdded a →
      a.iMediaPtrVec[k]? = some (some elem) → Filed iFirstSeqNumAdded (takeOut a k elem) :=
    fun a k elem h _ => h.set rfl rfl (by simp)
  have hall : ∀ a : PVMFDynamicCircularArray Payload, Filed iFirstSeqNumAdded a →
      Filed iFirstSeqNumAdded (purgeAll a) := by
    intro a _ k elem hk
    have hmem := Slots.mem_reduceOption.mpr ⟨k, hk⟩
    simp [reduceOption_purgeAll] at hmem
  cases op with
  | addElement elem aSeqNumBase =>
    obtain rfl : aSeqNumBase = iFirstSeqNumAdded := hop
    obtain ⟨⟨status, b'⟩, hadd, rfl⟩ := Option.map_eq_some_iff.mp hstep
    have hnew : ∀ elem', some elem = some elem' →
        offset a.iArraySize elem.seqNum aSeqNumBase = offset a.iArraySize elem'.seqNum aSeqNumBase :=
      fun elem' heq => by rw [Option.some_inj.mp heq]
    obtain ⟨-, rfl⟩ | ⟨currElem, -, ⟨-, rfl⟩ | ⟨-, rfl⟩⟩ := addElement_cases hadd
    · exact h.set rfl rfl hnew
    · exact h.set rfl rfl hnew
    · exact h
  | retrieveElement =>
    rw [← Option.some_inj.mp hstep]
    obtain ⟨k, heq⟩ | ⟨k, elem, count, -, heq⟩ := retrieveElement_cases a
    · rw [heq]
      exact h
    · rw [heq]
      exact @Filed.set iFirstSeqNumAdded a _ h (k - 1) none rfl rfl (by simp)
  | purgeSeqNums first aSeqNum =>
    rw [← Option.some_inj.mp hstep]
    exact purgeElements_invariant hkeep hall h first aSeqNum
  | purgeTimestamps aTS =>
    obtain ⟨b', hloop, rfl⟩ := Option.map_eq_some_iff.mp hstep
    have hpurged : Filed iFirstSeqNumAdded b' := by
      split at hloop
      · rwa [← Option.some_inj.mp hloop]
      · exact purgeTimestampsLoop_invariant hkeep (fun a k h => h) h hloop
    exact hpurged
  | clear =>
    rw [← Option.some_inj.mp hstep]
    intro k elem hk
    have hmem := Slots.mem_reduceOption.mpr ⟨k, hk⟩
    simp [RtpJitterBuffer.clear] at hmem

theorem filed_run {iFirstSeqNumAdded n : UInt32} {ops : List ArrayOp}
    (hops : ∀ op ∈ ops, op.FiledBy iFirstSeqNumAdded) (hrun : Run (stepOf ArrayOp.step) (construct n) ops a) :
    Filed iFirstSeqNumAdded a := by
  refine (hrun.guarded_of_forall hops).invariant ?_ fun _ _ _ h hstep => h.step hstep.1 hstep.2
  intro k elem hk
  have hmem := Slots.mem_reduceOption.mpr ⟨k, hk⟩
  simp [construct] at hmem

theorem offset_add {iFirstSeqNumAdded aSeqNum seqNum : UInt32} (n : Nat) (hfirst : iFirstSeqNumAdded ≤ aSeqNum)
    (hle : aSeqNum ≤ seqNum) :
    offset n seqNum iFirstSeqNumAdded =
      ((aSeqNum - iFirstSeqNumAdded).toNat % n + (seqNum.toNat - aSeqNum.toNat)) % n := by
  have hfirst' := UInt32.le_iff_toNat_le.mp hfirst
  have hle' := UInt32.le_iff_toNat_le.mp hle
  rw [offset, Nat.mod_add_mod, UInt32.toNat_sub_of_le _ _ hfirst,
    UInt32.toNat_sub_of_le _ _ (UInt32.le_trans hfirst hle)]
  congr 1
  omega

/-- The stored packets come after the last one retrieved, and are in as many sequence numbers from one on as the
array has slots. -/
def InWindow (a : PVMFDynamicCircularArray Payload) (aSeqNum : UInt32) : Prop :=
  ∀ elem ∈ a.iMediaPtrVec.reduceOption,
    a.iLastRetrievedSeqNum < elem.seqNum ∧ elem.seqNum.toNat < aSeqNum.toNat + a.iArraySize

/-- **The condition is met** once a packet from the first one on has been retrieved, for a sequence number from the
last one on. -/
theorem purgesRight_of_retrieved
    (hfiled : Filed iFirstSeqNumAdded a) (hfirst : iFirstSeqNumAdded ≤ a.iLastRetrievedSeqNum)
    (hlast : a.iLastRetrievedSeqNum ≤ aSeqNum) (hwindow : InWindow a aSeqNum) :
    PurgesRight a iFirstSeqNumAdded aSeqNum := by
  have hfirst' := UInt32.le_iff_toNat_le.mp hfirst
  have hlast' := UInt32.le_iff_toNat_le.mp hlast
  have hsnlt := aSeqNum.toNat_lt
  have hone : (1 : UInt32).toNat = 1 := rfl
  rw [PurgesRight, if_neg (not_lt_iff_le.mpr hlast)]
  constructor
  · intro k elem hk hlt
    obtain ⟨hafter, -⟩ := hwindow elem (Slots.mem_reduceOption.mpr ⟨k, hk⟩)
    have hlt' := UInt32.lt_iff_toNat_lt.mp hlt
    have hafter' := UInt32.lt_iff_toNat_lt.mp hafter
    have hgt : a.iLastRetrievedSeqNum < aSeqNum := UInt32.lt_trans hafter hlt
    -- the packet is so many after the first that the loop looks for
    have hnext : (a.iLastRetrievedSeqNum + 1).toNat = a.iLastRetrievedSeqNum.toNat + 1 := by
      rw [UInt32.toNat_add, hone, Nat.mod_eq_of_lt (by omega)]
    have hturns : (aSeqNum - (a.iLastRetrievedSeqNum + 1)).toNat =
        aSeqNum.toNat - (a.iLastRetrievedSeqNum.toNat + 1) := by
      rw [UInt32.toNat_sub_of_le _ _ (UInt32.le_iff_toNat_le.mpr (by omega)), hnext]
    have hstart : startOffset a iFirstSeqNumAdded =
        (a.iLastRetrievedSeqNum.toNat - iFirstSeqNumAdded.toNat + 1) % a.iArraySize := by
      have hlt32 : a.iLastRetrievedSeqNum.toNat - iFirstSeqNumAdded.toNat + 1 < 2 ^ 32 := by omega
      rw [startOffset, UInt32.toNat_add, UInt32.toNat_sub_of_le _ _ hfirst, hone, Nat.mod_eq_of_lt hlt32]
    have hstartle : startOffset a iFirstSeqNumAdded ≤
        a.iLastRetrievedSeqNum.toNat - iFirstSeqNumAdded.toNat + 1 := hstart ▸ Nat.mod_le _ _
    refine ⟨hgt, List.mem_map.mpr ⟨elem.seqNum.toNat - (a.iLastRetrievedSeqNum.toNat + 1), ?_, ?_⟩⟩
    · rw [List.mem_range, hturns]
      omega
    · have hoffset := hfiled k elem hk
      rw [offset, UInt32.toNat_sub_of_le _ _ (UInt32.le_iff_toNat_le.mpr (by omega))] at hoffset
      have hlt32 : startOffset a iFirstSeqNumAdded + (elem.seqNum.toNat - (a.iLastRetrievedSeqNum.toNat + 1)) <
          4294967296 := by omega
      rw [hoffset, Nat.mod_eq_of_lt hlt32, hstart, Nat.mod_add_mod]
      congr 1
      omega
  · intro d hd first hfrom elem hmem hle
    obtain ⟨hstored, hge, hfree⟩ := hfrom
    obtain ⟨k, hk⟩ := Slots.mem_reduceOption.mp hmem
    have hge' := UInt32.le_iff_toNat_le.mp hge
    have hle' := UInt32.le_iff_toNat_le.mp hle
    have hlimit := (hwindow elem hmem).2
    have hlimit' := (hwindow first (Slots.mem_reduceOption.mpr ⟨_, hstored⟩)).2
    have hslot := hfiled _ first hstored
    have hslot' := hfiled k elem hk
    rw [offset_add _ (UInt32.le_trans hfirst hlast) hge] at hslot
    rw [offset_add _ (UInt32.le_trans hfirst hlast) hle] at hslot'
    rw [readSlot] at hslot hfree
    have hdist : d = first.seqNum.toNat - aSeqNum.toNat := by
      have hmod := Ring.mod_inj (by omega) (by omega) hslot
      omega
    rw [UInt32.le_iff_toNat_le]
    by_contra hnot
    have hbelow := hfree (elem.seqNum.toNat - aSeqNum.toNat) (by omega) elem (hslot' ▸ hk)
    exact not_lt_iff_le.mpr hle hbelow

/-- **What purging does**, in every state that is reached by filing packets by the first sequence number: it does its
work exactly on the condition; below the last packet retrieved it empties the array; and from there on it does its
work once a packet from the first one on has been retrieved. -/
theorem purge_keeps (n : UInt32) (hn : 0 < n) (iFirstSeqNumAdded : UInt32) (ops : List ArrayOp)
    (hops : ∀ op ∈ ops, op.FiledBy iFirstSeqNumAdded) (a : PVMFDynamicCircularArray Payload)
    (hrun : Run (stepOf ArrayOp.step) (construct n) ops a) (aSeqNum : UInt32) :
    (PurgedRight a iFirstSeqNumAdded aSeqNum ↔ PurgesRight a iFirstSeqNumAdded aSeqNum) ∧
      (aSeqNum < a.iLastRetrievedSeqNum →
        (purge a iFirstSeqNumAdded aSeqNum).iMediaPtrVec.reduceOption = []) ∧
      (iFirstSeqNumAdded ≤ a.iLastRetrievedSeqNum → a.iLastRetrievedSeqNum ≤ aSeqNum → InWindow a aSeqNum →
        PurgedRight a iFirstSeqNumAdded aSeqNum) := by
  have hcounted := hrun.invariant (counted_construct n) fun _ _ _ h hstep => Counted.step h hstep
  have hsize : a.iArraySize = n.toNat :=
    @Run.invariant _ _ _ (fun b : PVMFDynamicCircularArray Payload => b.iArraySize = n.toNat) _ _ _ hrun rfl
      fun _ _ _ h hstep => (ArrayOp.iArraySize_step hstep).trans h
  have hiff := purgedRight_iff hcounted (hsize ▸ UInt32.lt_iff_toNat_lt.mp hn) iFirstSeqNumAdded aSeqNum
  refine ⟨hiff, fun hlast => purge_of_lt hlast _, fun hfirst hlast hwindow => hiff.mpr ?_⟩
  exact purgesRight_of_retrieved (filed_run hops hrun) hfirst hlast hwindow

theorem run_of_eval {β : Type} {n : UInt32} {ops : List ArrayOp} (f : PVMFDynamicCircularArray Payload → β) {x : β}
    (h : (ops.foldlM ArrayOp.step (construct n)).map f = some x) :
    ∃ a, Run (stepOf ArrayOp.step) (construct n) ops a ∧ f a = x := by
  obtain ⟨a, hrun, ha⟩ := Option.map_eq_some_iff.mp h
  exact ⟨a, Run.of_foldlM hrun, ha⟩

/-- The packets 5, 6 and 7 are added, and the first is retrieved. -/
def firstRetrieved : List ArrayOp :=
  [.addElement (tenBytes 5) 5, .addElement (tenBytes 6) 5, .addElement (tenBytes 7) 5, .retrieveElement]

/-- Then those below 7 are purged. -/
theorem purge_keeps_firstRetrieved : ∃ a, Run (stepOf ArrayOp.step) (construct 4) firstRetrieved a ∧
    a.iMediaPtrVec.reduceOption = [tenBytes 6, tenBytes 7] ∧ PurgedRight a 5 7 := by
  obtain ⟨a, hrun, ha⟩ := @run_of_eval _ 4 firstRetrieved
    (fun a => (a.iMediaPtrVec.reduceOption, a.iLastRetrievedSeqNum, a.iArraySize)) ([tenBytes 6, tenBytes 7], 5, 4)
    (by decide)
  obtain ⟨hstored, hrest⟩ := Prod.mk.inj ha
  obtain ⟨hlast, hsize⟩ := Prod.mk.inj hrest
  have hkeeps := purge_keeps 4 (by decide) 5 firstRetrieved (by decide) a hrun 7
  refine ⟨a, hrun, hstored, hkeeps.2.2 ?_ ?_ ?_⟩
  · exact hlast ▸ UInt32.le_refl _
  · rw [hlast]
    decide
  · rw [InWindow, hstored, hlast, hsize]
    decide

/-- **Packets that purging is wrong about**: nothing has been retrieved, and the packet 0 is left when those below 1
are purged; and the packet 7 is purged with those below 5, after 6 has been retrieved. -/
theorem purged_wrong :
    (∃ a, Run (stepOf ArrayOp.step) (construct 4) [.addElement (tenBytes 0) 0] a ∧
      tenBytes 0 ∈ (purge a 0 1).iMediaPtrVec.reduceOption ∧ ¬PurgedRight a 0 1) ∧
    ∃ a, Run (stepOf ArrayOp.step) (construct 4)
        [.addElement (tenBytes 6) 6, .retrieveElement, .addElement (tenBytes 7) 6] a ∧
      a.iMediaPtrVec.reduceOption = [tenBytes 7] ∧ ¬PurgedRight a 6 5 := by
  constructor
  · obtain ⟨a, hrun, hstored⟩ := @run_of_eval _ 4 [.addElement (tenBytes 0) 0]
      (fun a => (purge a 0 1).iMediaPtrVec.reduceOption) [tenBytes 0] (by decide)
    have hmem : tenBytes 0 ∈ (purge a 0 1).iMediaPtrVec.reduceOption := hstored ▸ List.mem_singleton_self _
    exact ⟨a, hrun, hmem, fun hright => absurd (hright.below _ hmem) (by decide)⟩
  · obtain ⟨a, hrun, ha⟩ := @run_of_eval _ 4 [.addElement (tenBytes 6) 6, .retrieveElement,
      .addElement (tenBytes 7) 6]
      (fun a => (a.iMediaPtrVec.reduceOption, a.iLastRetrievedSeqNum)) ([tenBytes 7], 6) (by decide)
    obtain ⟨hstored, hlast⟩ := Prod.mk.inj ha
    refine ⟨a, hrun, hstored, fun hright => ?_⟩
    obtain ⟨k, hk⟩ := Slots.mem_reduceOption.mp (hstored ▸ List.mem_singleton_self (tenBytes 7))
    have hkept := Slots.mem_reduceOption.mpr ⟨k, hright.kept k _ hk (by decide)⟩
    have hlt : (5 : UInt32) < a.iLastRetrievedSeqNum := by
      rw [hlast]
      decide
    rw [purge_of_lt hlt] at hkept
    exact List.not_mem_nil hkept

end Ftke.RtpJitterBuffer
