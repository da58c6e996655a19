import Ftke.Srp.Endpoint
import Mathlib.Algebra.Ring.Int.Defs

/-!
# Ftke.Srp.Bounds

Where `LowerLayerRx` reads and writes.

A frame is copied into a receive buffer before it is looked at, whatever its
size; `MINIMUM_FRAME_SIZE` counts the header and the checksum, but a command also
has a sequence number and, with CCSRL, a mark.  `accesses` lists what a call
reads of the frame and writes to a receive buffer, and the payload length that
it computes; `accesses_ok_iff` says when they are all within bounds.
-/

namespace Ftke.Srp

/-! ## Accesses -/

/-- What a call does with memory: it reads `n` bytes of the frame from `i` on, writes so
many bytes of a receive buffer, or computes the length of a payload. -/
inductive Access
  | read (i n : Nat)
  | write (i n : Nat)
  | payload (fragLen : Int)
  deriving DecidableEq

/-- Reads are within a frame of `size` bytes, writes within `MAX_SIZE_OF_SRP_PDU`. -/
def Access.Ok (size : Nat) : Access → Prop
  | read i n => i + n ≤ size
  | write i n => i + n ≤ maxSizeOfSrpPdu
  | payload fragLen => 0 ≤ fragLen ∧ fragLen ≤ size

/-- The allocations of `LowerLayerRx`, and those of `SrpMsgCopy`. -/
structure RxAllocs where
  data : Bool
  mediaData : Bool
  rx : Bool

/-- The loop of `LowerLayerRx` over the fragments, `pos` bytes having been copied. -/
def copyFragments : Nat → List (List UInt8) → List Access
  | _, [] => []
  | pos, frag :: frags =>
    .read pos frag.length :: .write pos frag.length :: copyFragments (pos + frag.length) frags

/-- `getFilledSize` of the buffer: `setMediaFragFilledLen` refuses what exceeds its
capacity, and the buffer stays empty. -/
def filled (pFrame : List UInt8) : List UInt8 := if pFrame.length ≤ maxSizeOfSrpPdu then pFrame else []

namespace Receiver

/-- The accesses of `SrpMsgCopy`; the size of the copy is unsigned. -/
def copyAccesses (r : Receiver) (inPkt : MediaData) (rx : Bool) : List Access :=
  let fragLen := r.fragLen inPkt
  .payload fragLen ::
    if fragLen > maxSizeOfSrpPdu then []
    else if r.iFreeRxFragList = 0 ∨ rx = false then []
    else
      let size := (fragLen % 2 ^ 32).toNat
      [.read (if r.iCcsrlSduSize > 0 then 3 else 2) size, .write 0 size] ++
        if r.iCcsrlSduSize > 0 then [.read 2 1] else []

end Receiver

namespace Endpoint

/-- The accesses of `SrpGetEventNoFromAL1`: the checksum over the bytes before it, its two
bytes, the header, the sequence number and the mark. -/
def eventAccesses (s : Endpoint) (pFrame : List UInt8) : List Access :=
  if pFrame.length < minimumFrameSize then []
  else
    [.read 0 (pFrame.length - 2), .read (pFrame.length - 2) 1, .read (pFrame.length - 1) 1] ++
      if crcOk pFrame = false then []
      else
        let header := pFrame.headD 0
        .read 0 1 ::
          if header = Header.srpCommand.byte ∨ header = Header.wnsrpCommand.byte then
            .read 1 1 :: if s.rx.iCcsrlSduSize > 0 then [.read 2 1] else []
          else if header = Header.nsrpResponse.byte ∨ header = Header.wnsrpResponse.byte then [.read 1 1]
          else []

/-- The header of the response to a command, in `Srp_0_2`. -/
def responseHeader (s : Endpoint) (event : Event) : Header :=
  if event = .wnsrpCommand then .wnsrpResponse
  else if s.tx.iUseNSRP then .nsrpResponse else .srpResponse

/-- The receiver in which `SrpMsgCopy` is called for a frame, if it is. -/
def taken (s : Endpoint) (pFrame : List UInt8) : Option (Receiver × MediaData) :=
  let (event, seqNum, s) := s.srpGetEventNoFromAL1 pFrame
  if event = .command ∨ event = .wnsrpCommand then
    let header := s.responseHeader event
    let r := s.rx.firstCmd ⟨seqNum, pFrame⟩ header
    if (r.checkRxSeqNum seqNum header true).1 then some (r, ⟨seqNum, pFrame⟩) else none
  else none

/-- The accesses of `LowerLayerRx`, for a frame in fragments. -/
def accesses (s : Endpoint) (pPkt : List (List UInt8)) (allocs : RxAllocs) : List Access :=
  if allocs.data = false then []
  else
    copyFragments 0 pPkt ++
      if allocs.mediaData = false then []
      else
        let pFrame := filled pPkt.flatten
        s.eventAccesses pFrame ++
          match s.taken pFrame with
          | some (r, inPkt) => r.copyAccesses inPkt allocs.rx
          | none => []

/-- The shortest command: header, sequence number, mark and checksum. -/
def minimumCommandSize (r : Receiver) : Nat := if r.iCcsrlSduSize > 0 then 5 else 4

/-! ## Bounds -/

/-- Every access is within its bounds. -/
def Bounded (s : Endpoint) (pPkt : List (List UInt8)) (allocs : RxAllocs) : Prop :=
  ∀ access ∈ s.accesses pPkt allocs, access.Ok pPkt.flatten.length

theorem copyFragments_ok (frags : List (List UInt8)) (pos size : Nat) (hsize : pos + frags.flatten.length ≤ size) :
    (∀ access ∈ copyFragments pos frags, access.Ok size) ↔
      frags = [] ∨ pos + frags.flatten.length ≤ maxSizeOfSrpPdu := by
  induction frags generalizing pos with
  | nil => simp [copyFragments]
  | cons frag frags ih =>
    rw [List.flatten_cons, List.length_append] at hsize ⊢
    rw [copyFragments, List.forall_mem_cons, List.forall_mem_cons, ih (pos + frag.length) (by omega)]
    simp only [Access.Ok, reduceCtorEq, false_or]
    constructor
    · intro h
      obtain ⟨-, hwrite, hrest⟩ := h
      obtain rfl | hrest := hrest
      · simpa using hwrite
      · omega
    · intro h
      exact ⟨by omega, by omega, Or.inr (by omega)⟩

theorem eventAccesses_ok (s : Endpoint) (pFrame : List UInt8) :
    ∀ access ∈ s.eventAccesses pFrame, access.Ok pFrame.length := by
  rw [eventAccesses]
  split
  · simp
  · next hlen =>
    rw [minimumFrameSize] at hlen
    intro access hmem
    obtain hmem | hmem := List.mem_append.mp hmem
    · simp only [List.mem_cons, List.not_mem_nil, or_false] at hmem
      obtain rfl | rfl | rfl := hmem <;> simp only [Access.Ok] <;> omega
    · split at hmem
      · simp at hmem
      · obtain rfl | hmem := List.mem_cons.mp hmem
        · simp only [Access.Ok]
          omega
        · split at hmem
          · obtain rfl | hmem := List.mem_cons.mp hmem
            · simp only [Access.Ok]
              omega
            · split at hmem
              · rw [List.mem_singleton.mp hmem, Access.Ok]
                omega
              · simp at hmem
          · split at hmem
            · rw [List.mem_singleton.mp hmem, Access.Ok]
              omega
            · simp at hmem

/-- A frame of which the data is taken has a length that is not negative exactly when it is
a whole command. -/
theorem copyAccesses_ok {r : Receiver} {inPkt : MediaData} (hlen : inPkt.bytes.length ≤ maxSizeOfSrpPdu)
    (rx : Bool) : (∀ access ∈ r.copyAccesses inPkt rx, access.Ok inPkt.bytes.length) ↔
      minimumCommandSize r ≤ inPkt.bytes.length := by
  rw [maxSizeOfSrpPdu] at hlen
  have hfrag : r.fragLen inPkt = (inPkt.bytes.length : Int) - minimumCommandSize r := by
    rw [Receiver.fragLen, minimumCommandSize]
    split <;> omega
  constructor
  · intro h
    have hpayload := h (.payload (r.fragLen inPkt)) List.mem_cons_self
    rw [Access.Ok, hfrag] at hpayload
    omega
  · intro hmin access hmem
    have hsize : (r.fragLen inPkt % 2 ^ 32).toNat = inPkt.bytes.length - minimumCommandSize r := by
      rw [hfrag]
      omega
    have hplace : (if r.iCcsrlSduSize > 0 then 3 else 2) + 2 = minimumCommandSize r := by
      rw [minimumCommandSize]
      split <;> rfl
    have hfour : 4 ≤ minimumCommandSize r := by
      rw [minimumCommandSize]
      split <;> omega
    obtain rfl | hmem := List.mem_cons.mp hmem
    · rw [Access.Ok, hfrag]
      omega
    · split at hmem
      · simp at hmem
      · split at hmem
        · simp at hmem
        · simp only [hsize] at hmem
          obtain hmem | hmem := List.mem_append.mp hmem
          · simp only [List.mem_cons, List.not_mem_nil, or_false] at hmem
            obtain rfl | rfl := hmem
            · rw [Access.Ok]
              omega
            · rw [Access.Ok, maxSizeOfSrpPdu]
              omega
          · split at hmem
            · rw [List.mem_singleton.mp hmem, Access.Ok]
              omega
            · simp at hmem

theorem taken_bytes {s : Endpoint} {pFrame : List UInt8} {r : Receiver} {inPkt : MediaData}
    (h : s.taken pFrame = some (r, inPkt)) : inPkt.bytes = pFrame := by
  rw [taken] at h
  generalize s.srpGetEventNoFromAL1 pFrame = classified at h
  obtain ⟨event, seqNum, s'⟩ := classified
  simp only at h
  split at h
  · split at h
    · injection h with h
      injection h with hr hpkt
      rw [← hpkt]
    · simp at h
  · simp at h

/-- **A call stays within the frame and the buffers exactly when the frame fits the receive
buffer and, if its data are taken, is a whole command.** -/
theorem accesses_ok_iff (s : Endpoint) (pPkt : List (List UInt8)) (allocs : RxAllocs) :
    s.Bounded pPkt allocs ↔
      (allocs.data = true → pPkt.flatten.length ≤ maxSizeOfSrpPdu ∧
        (allocs.mediaData = true → ∀ r inPkt, s.taken pPkt.flatten = some (r, inPkt) →
          minimumCommandSize r ≤ pPkt.flatten.length)) := by
  rw [Bounded, accesses]
  cases hdata : allocs.data
  · simp
  · simp only [Bool.true_eq_false, if_false, forall_const]
    have hcopy := copyFragments_ok pPkt 0 pPkt.flatten.length (by omega)
    rw [Nat.zero_add] at hcopy
    have hfit : pPkt = [] ∨ pPkt.flatten.length ≤ maxSizeOfSrpPdu ↔ pPkt.flatten.length ≤ maxSizeOfSrpPdu := by
      constructor
      · intro h
        obtain rfl | h := h
        · exact Nat.zero_le _
        · exact h
      · exact Or.inr
    rw [List.forall_mem_append, hcopy, hfit]
    refine and_congr_right fun hle => ?_
    cases hmedia : allocs.mediaData
    · simp
    · have hfilled : filled pPkt.flatten = pPkt.flatten := if_pos hle
      simp only [Bool.true_eq_false, if_false, forall_const, hfilled, List.forall_mem_append]
      have hevent := s.eventAccesses_ok pPkt.flatten
      constructor
      · intro h r inPkt htaken
        have hbytes := taken_bytes htaken
        have hcopied := h.2
        rw [htaken, ← hbytes] at hcopied
        rw [← hbytes]
        exact (copyAccesses_ok (by rw [hbytes]; exact hle) allocs.rx).mp hcopied
      · intro h
        refine ⟨hevent, ?_⟩
        split
        · next r inPkt htaken =>
          have hbytes := taken_bytes htaken
          have hmin := h r inPkt htaken
          rw [← hbytes] at hmin ⊢
          exact (copyAccesses_ok (by rw [hbytes]; exact hle) allocs.rx).mpr hmin
        · simp

/-- The entity before its first command, without WNSRP windows. -/
def fresh : Endpoint where
  tx :=
    { iWNSRPTxWindow := 0
      iN400MaxCounter := 100
      iN402MaxCounter := 3
      iObserver := false
      iHandleWNSRP := true
      iUseNSRP := true
      iFirstNSRPResp := false
      iN402Counter := 0
      iSendSeqNumber := 0
      iStatus := .idle
      iCurWnsrpStatus := .wnsrpTxSupport
      iSrpWaitQueue := []
      iSrpCommandSave := .new
      iWnsrpCommandSave := fun _ => .new
      iFreeWnsrpCommandSave := []
      iActiveWnsrpCommandSave := [] }
  rx := .srpStart 0 5

/-- A command that is a header and its checksum: it has no sequence number, and the
checksum is taken for one; its payload is one byte less than nothing. -/
theorem short_command : ¬ ∀ s pPkt allocs, Endpoint.Bounded s pPkt allocs := by
  intro h
  have hpayload : Access.payload (-1) ∈ fresh.accesses [[0xF9, 54, 154]] ⟨true, true, true⟩ := by decide
  have hok := h fresh [[0xF9, 54, 154]] ⟨true, true, true⟩ _ hpayload
  rw [Access.Ok] at hok
  omega

end Endpoint

end Ftke.Srp
