import Ftke.H264PayloadParser
import Ftke.PriQueue.Sound
import Ftke.Run
import Ftke.Words

/-!
# Ftke.H264PayloadParser.Counter

`iNALUnitsCounter` against the queue: the number of the entries that are complete NAL
units or ending fragments.

`updateWhenDequeuingData` takes two off for a complete NAL unit that was queued behind a
fragment, for the ending fragment that is lost; but a lost one has never been counted.
-/

namespace Ftke.H264PayloadParser.InterleaveModeProcessing

open PayloadParser

/-- The calls; the decoding order number is set before a payload is queued. -/
inductive QueueCall where
  | queue (don : Nat) (aMediaData : Payload) (nal_type : UInt8) (fragmentedBitMask : UInt32)
  | dequeue

/-- A call; there is none to dequeue from an empty queue. -/
def call (p : InterleaveModeProcessing) : QueueCall → Option InterleaveModeProcessing
  | .queue don aMediaData nal_type fragmentedBitMask =>
    some ({ p with iDon := don }.queue aMediaData nal_type fragmentedBitMask)
  | .dequeue => p.dequeue.map Prod.snd

/-- Is this a complete NAL unit or an ending fragment? -/
def isCounted (d : OutputMediaData) : Bool := d.fuType &&& 0x03 = 0 || d.fuType &&& 0x03 = 3

/-- The counter is the number of these entries, and where it is not zero there is one. -/
structure Balanced (p : InterleaveModeProcessing) : Prop where
  counter : p.iNALUnitsCounter = UInt32.ofNat (p.iOutputMediaDataQueue.countP isCounted)
  ne_nil : p.iNALUnitsCounter ≠ 0 → p.iOutputMediaDataQueue ≠ []

/-- Is this a complete NAL unit that was queued behind a fragment that does not end one? -/
def behindLost (d : OutputMediaData) : Bool :=
  d.fuType &&& 0x03 = 0 && ((d.fuType >>> 8) &&& 0x03 = 1 || (d.fuType >>> 8) &&& 0x03 = 2)

/-- No such NAL unit is dequeued. -/
def Meets (p : InterleaveModeProcessing) : QueueCall → Prop
  | .queue .. => True
  | .dequeue => ∀ d, PriQueue.top p.iOutputMediaDataQueue = some d → behindLost d = false

/-! ## The type of an entry -/

variable {p q : InterleaveModeProcessing}

/-- The entry that `queue` pushes. -/
def entryOf (p : InterleaveModeProcessing) (aMediaData : Payload) (fragmentedBitMask : UInt32) : OutputMediaData :=
  ⟨aMediaData, p.iDon,
    (if fragmentedBitMask &&& 0x03 = 2 then (fragmentedBitMask >>> BIT_SHIFT_FOR_FU_COUNTER) <<< 16 else 0) |||
      ((p.iPrevNALType &&& 0x03) <<< 8) ||| (fragmentedBitMask &&& 0x03)⟩

theorem entryOf_type (aMediaData : Payload) (mask : UInt32) :
    (p.entryOf aMediaData mask).fuType &&& 0x03 = mask &&& 0x03 := by
  have hcounter (x : UInt32) : (x <<< 16) &&& 3 = 0 := Words.shiftLeft_and_three x (by decide)
  have hprev : ((p.iPrevNALType &&& 3) <<< 8) &&& 3 = 0 := Words.shiftLeft_and_three _ (by decide)
  simp only [entryOf]
  rw [Words.or_and, Words.or_and, hprev, UInt32.or_zero, Words.and_three_and_three]
  split
  · rw [hcounter, UInt32.zero_or]
  · rw [UInt32.zero_and, UInt32.zero_or]

theorem isCounted_entryOf (aMediaData : Payload) (mask : UInt32) :
    isCounted (p.entryOf aMediaData mask) = (mask &&& 0x03 = 0 || mask &&& 0x03 = 3) := by
  rw [isCounted, entryOf_type]

/-! ## Queuing -/

theorem queue_perm (aMediaData : Payload) (nal_type : UInt8) (mask : UInt32) :
    (p.queue aMediaData nal_type mask).iOutputMediaDataQueue.Perm
      (p.iOutputMediaDataQueue ++ [p.entryOf aMediaData mask]) := by
  have hpush := PriQueue.push_perm compareLess p.iOutputMediaDataQueue (p.entryOf aMediaData mask)
  simp only [queue, updateWhenQueuingData]
  split <;> split <;> exact hpush

theorem queue_counter (aMediaData : Payload) (nal_type : UInt8) (mask : UInt32) :
    (p.queue aMediaData nal_type mask).iNALUnitsCounter =
      if mask &&& 0x03 = 0 ∨ mask &&& 0x03 = 3 then p.iNALUnitsCounter + 1 else p.iNALUnitsCounter := by
  simp only [queue, updateWhenQueuingData]
  split <;> split <;> rfl

theorem ofNat_succ (n : Nat) : UInt32.ofNat (n + 1) = UInt32.ofNat n + 1 := UInt32.ofNat_add n 1

theorem ne_nil_of_counter (h : p.iNALUnitsCounter = UInt32.ofNat (p.iOutputMediaDataQueue.countP isCounted)) :
    p.iNALUnitsCounter ≠ 0 → p.iOutputMediaDataQueue ≠ [] := by
  intro hne hnil
  rw [h, hnil] at hne
  exact hne rfl

theorem Balanced.queue (h : Balanced p) (aMediaData : Payload) (nal_type : UInt8) (mask : UInt32) :
    Balanced (p.queue aMediaData nal_type mask) := by
  have hcount : (p.queue aMediaData nal_type mask).iNALUnitsCounter =
      UInt32.ofNat ((p.queue aMediaData nal_type mask).iOutputMediaDataQueue.countP isCounted) := by
    rw [queue_counter, (queue_perm aMediaData nal_type mask).countP_eq, List.countP_append, List.countP_singleton,
      isCounted_entryOf, h.counter]
    by_cases hmask : mask &&& 0x03 = 0 ∨ mask &&& 0x03 = 3
    · have hcounted : (decide (mask &&& 0x03 = 0) || decide (mask &&& 0x03 = 3)) = true := by simpa using hmask
      rw [if_pos hmask, if_pos hcounted, ofNat_succ]
    · have hcounted : ¬(decide (mask &&& 0x03 = 0) || decide (mask &&& 0x03 = 3)) = true := by simpa using hmask
      rw [if_neg hmask, if_neg hcounted, Nat.add_zero]
  exact ⟨hcount, ne_nil_of_counter hcount⟩

/-! ## Dequeuing -/

theorem updateWhenDequeuingData_counter (d : OutputMediaData) :
    (p.updateWhenDequeuingData d.fuType).iNALUnitsCounter =
      if behindLost d then p.iNALUnitsCounter - 1 - 1
      else if isCounted d then p.iNALUnitsCounter - 1 else p.iNALUnitsCounter := by
  simp only [updateWhenDequeuingData, behindLost, isCounted]
  by_cases hzero : d.fuType &&& 0x03 = 0
  · by_cases hprev : (d.fuType >>> 8) &&& 0x03 = 1 ∨ (d.fuType >>> 8) &&& 0x03 = 2
    · simp [hzero, hprev]
    · simp [hzero, hprev]
  · by_cases hthree : d.fuType &&& 0x03 = 3
    · simp [hthree]
    · simp [hzero, hthree]

theorem updateWhenDequeuingData_queue (fuType : UInt32) :
    (p.updateWhenDequeuingData fuType).iOutputMediaDataQueue = p.iOutputMediaDataQueue := by
  simp only [updateWhenDequeuingData]
  split
  · split <;> rfl
  · split <;> rfl

/-- The queue without its top. -/
def popped (p : InterleaveModeProcessing) : InterleaveModeProcessing :=
  { p with iOutputMediaDataQueue := PriQueue.pop compareLess p.iOutputMediaDataQueue }

variable {d : Payload × InterleaveModeProcessing}

theorem dequeue_eq_some (h : p.dequeue = some d) :
    ∃ top, PriQueue.top p.iOutputMediaDataQueue = some top ∧ d.1 = top.data ∧
      d.2 = p.popped.updateWhenDequeuingData top.fuType := by
  rw [dequeue, Option.map_eq_some_iff] at h
  obtain ⟨top, htop, rfl⟩ := h
  exact ⟨top, htop, rfl, rfl⟩

/-- **When dequeuing keeps the balance**: if what is dequeued is no NAL unit behind a
fragment whose end is lost. -/
theorem balanced_dequeue_iff (h : Balanced p) (hd : p.dequeue = some d) :
    Balanced d.2 ↔ Meets p .dequeue := by
  obtain ⟨top, htop, -, hp⟩ := dequeue_eq_some hd
  have hperm := PriQueue.pop_perm compareLess htop
  have hcount := hperm.countP_eq isCounted
  rw [List.countP_cons] at hcount
  have hqueue : d.2.iOutputMediaDataQueue = PriQueue.pop compareLess p.iOutputMediaDataQueue := by
    rw [hp, updateWhenDequeuingData_queue, popped]
  have hcounter : d.2.iNALUnitsCounter =
      if behindLost top then p.iNALUnitsCounter - 1 - 1
      else if isCounted top then p.iNALUnitsCounter - 1 else p.iNALUnitsCounter := by
    rw [hp, updateWhenDequeuingData_counter]
    rfl
  rw [h.counter, hcount] at hcounter
  have hmeets : Meets p .dequeue ↔ behindLost top = false := by
    simp only [Meets, htop, Option.some.injEq, forall_eq']
  rw [hmeets]
  constructor
  · intro hbal
    rw [hbal.counter, hqueue] at hcounter
    by_contra hlost
    have hlost : behindLost top = true := by simpa using hlost
    have hcounted : isCounted top = true := by
      simp only [behindLost, Bool.and_eq_true] at hlost
      simp only [isCounted, hlost.1, Bool.true_or]
    rw [if_pos hlost, if_pos hcounted, ofNat_succ] at hcounter
    grind
  · intro hlost
    have hd2 : d.2.iNALUnitsCounter = UInt32.ofNat (d.2.iOutputMediaDataQueue.countP isCounted) := by
      rw [hcounter, hqueue, hlost]
      by_cases hcounted : isCounted top = true
      · simp only [hcounted, if_true, Bool.false_eq_true, if_false, ofNat_succ]
        exact UInt32.add_sub_cancel _ _
      · simp [hcounted]
    exact ⟨hd2, ne_nil_of_counter hd2⟩

/-! ## Runs -/

theorem balanced_construct : Balanced construct := ⟨rfl, fun h => absurd rfl h⟩

/-- **When the counter counts**: throughout any calls, if and only if no complete NAL unit
is dequeued that was queued behind a fragment whose end is lost. -/
theorem balanced_iff (calls : List QueueCall) :
    Always call Balanced construct calls ↔ AtEach call Meets construct calls := by
  refine always_iff (I := Balanced) (fun _ h => h) ?_ ?_ calls construct balanced_construct
  · intro s i t h ht hmeets
    cases i with
    | queue don aMediaData nal_type mask =>
      rw [← Option.some.inj ht]
      exact Balanced.queue (p := { s with iDon := don }) ⟨h.counter, h.ne_nil⟩ aMediaData nal_type mask
    | dequeue =>
      obtain ⟨d, hd, rfl⟩ := Option.map_eq_some_iff.mp ht
      exact (balanced_dequeue_iff h hd).mpr hmeets
  · intro s i t h ht hbal
    cases i with
    | queue => trivial
    | dequeue =>
      obtain ⟨d, hd, rfl⟩ := Option.map_eq_some_iff.mp ht
      exact (balanced_dequeue_iff h hd).mp hbal

/-- A starting fragment, whose end is lost, and a NAL unit behind it. -/
def lostEnd : List QueueCall :=
  let packet : Payload := ⟨0, 0, 0, false, false, true, []⟩
  [.queue 0 packet H264_RTP_PAYLOAD_FU_B 5, .queue 1 packet H264_RTP_PAYLOAD_STAP_B 0, .dequeue, .dequeue]

/-- The counter wraps. -/
theorem counter_wraps : ¬∀ calls : List QueueCall, Always call Balanced construct calls := by
  intro hall
  have hlast : lostEnd.foldlM call construct = some
      { construct with iNALUnitsCounter := 0xFFFFFFFF, iDon := 1 } := by decide
  have hbal := (hall lostEnd).last hlast
  exact absurd hbal.counter (by decide)

end Ftke.H264PayloadParser.InterleaveModeProcessing
