import Ftke.OutgoingChannel
import Ftke.Run

/-!
# Ftke.OutgoingChannel.Flow

What goes into an outgoing channel comes out of it.

A session is a channel with what has been put in and what has been taken out.  In a
session without an error the data of the SDUs that were completed and of the one that
is being filled are the data of the messages, in their order (`Good`).  The size of an
SDU is only kept to where format specific info has room beside the data that it is put
in front of (`Fits`).
-/

namespace Ftke.OutgoingChannel

/-! ## What is in a PDU -/

/-- The data. -/
def dataBytes (pdu : List Piece) : List UInt8 :=
  pdu.flatMap fun piece => match piece with
    | .data _ bytes => bytes
    | _ => []

/-- The format specific info. -/
def fsis (pdu : List Piece) : List (List UInt8) :=
  pdu.filterMap fun piece => match piece with
    | .fsi bytes => some bytes
    | _ => none

/-- The size of the SDU. -/
def payloadSize (pdu : List Piece) : Nat :=
  (pdu.map fun piece => match piece with
    | .fsi bytes => bytes.length
    | .data _ bytes => bytes.length
    | _ => 0).sum

/-- All data of the PDU came with this timestamp. -/
def Uniform (pdu : List Piece) (timestamp : Nat) : Prop := ∀ t bytes, .data t bytes ∈ pdu → t = timestamp

@[simp] theorem dataBytes_append (a b : List Piece) : dataBytes (a ++ b) = dataBytes a ++ dataBytes b :=
  List.flatMap_append

@[simp] theorem fsis_append (a b : List Piece) : fsis (a ++ b) = fsis a ++ fsis b := List.filterMap_append

@[simp] theorem payloadSize_append (a b : List Piece) : payloadSize (a ++ b) = payloadSize a + payloadSize b := by
  simp [payloadSize]

@[simp] theorem filledSize_append (a b : List Piece) : filledSize (a ++ b) = filledSize a + filledSize b := by
  simp [filledSize]

@[simp] theorem dataBytes_fsi (bytes : List UInt8) : dataBytes [.fsi bytes] = [] := rfl

@[simp] theorem fsis_fsi (bytes : List UInt8) : fsis [.fsi bytes] = [bytes] := rfl

@[simp] theorem payloadSize_fsi (bytes : List UInt8) : payloadSize [.fsi bytes] = bytes.length := by
  simp [payloadSize]

@[simp] theorem filledSize_fsi (bytes : List UInt8) : filledSize [.fsi bytes] = bytes.length := by
  simp [filledSize, Piece.size]

theorem uniform_append {a b : List Piece} {timestamp : Nat} (ha : Uniform a timestamp) (hb : Uniform b timestamp) :
    Uniform (a ++ b) timestamp := by
  intro t bytes hmem
  obtain hmem | hmem := List.mem_append.mp hmem
  · exact ha t bytes hmem
  · exact hb t bytes hmem

theorem dataBytes_of_payloadSize {pdu : List Piece} (h : payloadSize pdu = 0) : dataBytes pdu = [] := by
  induction pdu with
  | nil => rfl
  | cons piece pdu ih =>
    simp only [payloadSize, List.map_cons, List.sum_cons, Nat.add_eq_zero_iff] at h
    have hrest := ih h.2
    rw [dataBytes, List.flatMap_cons, List.append_eq_nil_iff]
    refine ⟨?_, hrest⟩
    cases piece with
    | data timestamp bytes => exact List.length_eq_zero_iff.mp h.1
    | _ => rfl

namespace Channel

/-- The header fragment of a PDU, and the trailer. -/
def header (c : Channel) : List Piece := if c.iAl.hdrSz = 0 then [] else [.hdr c.iAl.hdrSz]

def trailer (c : Channel) : List Piece := if c.iAl.trlrSz = 0 then [] else [.trlr c.iAl.trlrSz]

@[simp] theorem dataBytes_header (c : Channel) : dataBytes c.header = [] := by
  rw [header]
  split <;> rfl

@[simp] theorem dataBytes_trailer (c : Channel) : dataBytes c.trailer = [] := by
  rw [trailer]
  split <;> rfl

@[simp] theorem fsis_header (c : Channel) : fsis c.header = [] := by
  rw [header]
  split <;> rfl

@[simp] theorem fsis_trailer (c : Channel) : fsis c.trailer = [] := by
  rw [trailer]
  split <;> rfl

@[simp] theorem payloadSize_header (c : Channel) : payloadSize c.header = 0 := by
  rw [header]
  split <;> rfl

@[simp] theorem payloadSize_trailer (c : Channel) : payloadSize c.trailer = 0 := by
  rw [trailer]
  split <;> rfl

@[simp] theorem filledSize_header (c : Channel) : filledSize c.header = c.iAl.hdrSz := by
  rw [header]
  split
  · next h => rw [h]; rfl
  · simp [filledSize, Piece.size]

theorem uniform_header (c : Channel) (timestamp : Nat) : Uniform c.header timestamp := by
  intro t bytes hmem
  rw [header] at hmem
  split at hmem <;> simp at hmem

theorem uniform_trailer (c : Channel) (timestamp : Nat) : Uniform c.trailer timestamp := by
  intro t bytes hmem
  rw [trailer] at hmem
  split at hmem <;> simp at hmem

/-- Everything that has been put in PDUs, in its order. -/
def flow (c : Channel) : List Piece := c.completed.flatMap (·.pdu) ++ c.iCurPdu.getD []

/-! ## What the operations do -/

theorem allocate_cases (c : Channel) : ∃ outcome allocs, c.allocate = (outcome, { c with allocs }) := by
  rw [allocate]
  split
  · next h => exact ⟨true, [], by rw [← h]⟩
  · next outcome allocs h => exact ⟨outcome, allocs, rfl⟩

theorem startAlPdu_cases (c : Channel) : ∃ allocs iNumPendingPdus,
    c.startAlPdu = (none, { c with allocs, iNumPendingPdus }) ∨
      c.startAlPdu = (some c.header, { c with allocs, iNumPendingPdus }) := by
  obtain ⟨pdu, allocs, halloc⟩ := c.allocate_cases
  simp only [startAlPdu, halloc, header]
  cases pdu
  · exact ⟨allocs, c.iNumPendingPdus, Or.inl rfl⟩
  · by_cases hhdr : c.iAl.hdrSz = 0
    · exact ⟨allocs, _, Or.inr (by simp only [hhdr, if_true]; rfl)⟩
    · obtain ⟨hdrFrag, allocs', halloc'⟩ := allocate_cases { c with allocs }
      simp only [hhdr, if_false, halloc', Bool.true_eq_false]
      cases hdrFrag
      · exact ⟨allocs', c.iNumPendingPdus, Or.inl rfl⟩
      · exact ⟨allocs', _, Or.inr rfl⟩

theorem adjustBuffering_cases (c : Channel) (lastTS timestamp filledSize : Nat) :
    ∃ iBufferMediaMs iBufferMediaBytes, c.adjustBuffering lastTS timestamp filledSize =
      { c with iBufferMediaMs, iBufferMediaBytes } := by
  simp only [adjustBuffering]
  split
  · split
    · split
      · exact ⟨0, 0, rfl⟩
      · exact ⟨_, _, rfl⟩
    · split
      · exact ⟨0, 0, rfl⟩
      · exact ⟨_, _, rfl⟩
  · exact ⟨c.iBufferMediaMs, c.iBufferMediaBytes, rfl⟩

theorem appendOutgoingPkt_cases (c : Channel) (pdu : List Piece) (timestamp : Nat) :
    (∃ allocs, c.appendOutgoingPkt pdu timestamp = (false, { c with allocs })) ∨
      ∃ allocs iBufferMediaMs iBufferMediaBytes, c.appendOutgoingPkt pdu timestamp =
        (true, { c with
          allocs
          iBufferMediaMs
          iBufferMediaBytes
          lastMediaData := c.lastMediaData.append ⟨pdu, timestamp⟩
          completed := c.completed ++ [⟨pdu, timestamp⟩] }) := by
  obtain ⟨mediaData, allocs, halloc⟩ := c.allocate_cases
  obtain ⟨entry, allocs', halloc'⟩ := allocate_cases { c with allocs }
  simp only [appendOutgoingPkt, halloc]
  cases mediaData
  · exact Or.inl ⟨allocs, rfl⟩
  · simp only [halloc', Bool.true_eq_false, if_false]
    cases entry
    · exact Or.inl ⟨allocs', rfl⟩
    · simp only [Bool.true_eq_false, if_false]
      obtain ⟨ms, bytes, hbuffering⟩ := adjustBuffering_cases
        { c with
          allocs := allocs'
          lastMediaData := c.lastMediaData.append ⟨pdu, timestamp⟩
          completed := c.completed ++ [⟨pdu, timestamp⟩] }
        (((c.lastMediaData.cells.last.bind c.lastMediaData.cells.data).map (·.timestamp)).getD timestamp)
        timestamp (filledSize pdu)
      exact Or.inr ⟨allocs', ms, bytes, by rw [hbuffering]⟩

theorem completePdu_cases (c : Channel) :
    (∃ allocs iCurPdu, c.completePdu = (false, { c with allocs, iCurPdu })) ∨
      ∃ allocs iBufferMediaMs iBufferMediaBytes, c.completePdu =
        (true, { c with
          allocs
          iBufferMediaMs
          iBufferMediaBytes
          lastMediaData := c.lastMediaData.append ⟨c.iCurPdu.getD [] ++ c.trailer, c.iCurPduTimestamp⟩
          completed := c.completed ++ [⟨c.iCurPdu.getD [] ++ c.trailer, c.iCurPduTimestamp⟩]
          iCurPdu := none
          iCurPduTimestamp := 0 }) := by
  have hmemory : ∃ trlrFrag allocs,
      (if c.iAl.trlrSz = 0 then (true, c) else c.allocate) = (trlrFrag, { c with allocs }) := by
    split
    · exact ⟨true, c.allocs, rfl⟩
    · exact c.allocate_cases
  obtain ⟨trlrFrag, allocs, hmemory⟩ := hmemory
  simp only [completePdu, hmemory]
  cases trlrFrag
  · exact Or.inl ⟨allocs, c.iCurPdu, rfl⟩
  · have hpkt := appendOutgoingPkt_cases { c with allocs, iCurPdu := some (c.iCurPdu.getD [] ++ c.trailer) }
      (c.iCurPdu.getD [] ++ c.trailer) c.iCurPduTimestamp
    simp only [trailer] at hpkt
    simp only [Bool.true_eq_false, if_false, trailer]
    obtain ⟨allocs', happend⟩ | ⟨allocs', ms, bytes, happend⟩ := hpkt
    · rw [happend]
      exact Or.inl ⟨allocs', _, rfl⟩
    · rw [happend]
      exact Or.inr ⟨allocs', ms, bytes, rfl⟩

/-! ## PDUs that wait stay -/

/-- The PDUs that waited wait still, and in front of others. -/
def Kept (c c' : Channel) : Prop := c.lastMediaData.toList <+: c'.lastMediaData.toList

variable {c c' a b : Channel}

theorem Kept.of_eq (h : c'.lastMediaData = c.lastMediaData) : Kept c c' :=
  ⟨[], by rw [List.append_nil, h]⟩

theorem Kept.trans (h : Kept a b) (h' : Kept b c) : Kept a c := List.IsPrefix.trans h h'

theorem kept_completePdu (c : Channel) : Kept c c.completePdu.2 := by
  obtain ⟨allocs, pdu, h⟩ | ⟨allocs, ms, bytes, h⟩ := c.completePdu_cases
  · rw [h]
    exact .of_eq rfl
  · rw [h, Kept, CircularList.toList_append]
    exact List.prefix_append _ _

theorem kept_nextPdu (c : Channel) : Kept c c.nextPdu.2 := by
  have hcompleted := c.kept_completePdu
  rw [nextPdu]
  generalize c.completePdu = result at hcompleted ⊢
  obtain ⟨completed, c'⟩ := result
  cases completed
  · exact hcompleted
  · obtain ⟨allocs, pending, h | h⟩ := c'.startAlPdu_cases
    · simp only [h, Bool.true_eq_false, if_false]
      exact hcompleted.trans (.of_eq rfl)
    · simp only [h, Bool.true_eq_false, if_false]
      exact hcompleted.trans (.of_eq rfl)

theorem kept_putFragments (timestamp : Nat) (fragments : List (List UInt8)) (sdu_size : Nat) (c : Channel) :
    Kept c (putFragments timestamp fragments sdu_size c).2 := by
  induction fragments generalizing sdu_size c with
  | nil => exact .of_eq rfl
  | cons frag fragments ih =>
    rw [putFragments]
    split
    · have hnext := c.kept_nextPdu
      generalize c.nextPdu = result at hnext ⊢
      obtain ⟨next, c'⟩ := result
      cases next
      · exact hnext
      · exact (hnext.trans (.of_eq rfl)).trans (ih _ (c'.appendMediaFragment timestamp frag))
    · exact Kept.trans (.of_eq rfl) (ih _ (c.appendMediaFragment timestamp frag))

theorem kept_startPdu (c : Channel) (sdu_size : Nat) : Kept c (c.startPdu sdu_size).2 := by
  obtain ⟨allocs, pending, h | h⟩ := c.startAlPdu_cases
  · simp only [startPdu, h]
    split <;> exact .of_eq rfl
  · simp only [startPdu, h]
    split
    · split
      · exact .of_eq rfl
      · split <;> exact .of_eq rfl
    · exact .of_eq rfl

theorem kept_finishPdu (c : Channel) (timestamp : Nat) : Kept c (c.finishPdu timestamp).2.2 := by
  rw [finishPdu]
  split
  · exact .of_eq rfl
  · split
    · exact c.kept_completePdu
    · exact .of_eq rfl

theorem kept_putMediaData (c : Channel) (timestamp : Nat) (fragments : List (List UInt8)) :
    Kept c (c.putMediaData timestamp fragments).2 := by
  have hfinish := c.kept_finishPdu timestamp
  rw [putMediaData]
  generalize c.finishPdu timestamp = result at hfinish ⊢
  obtain ⟨finished, sdu_size, c⟩ := result
  cases finished
  · exact hfinish
  · have hstart := c.kept_startPdu sdu_size
    simp only [Bool.true_eq_false, if_false]
    generalize c.startPdu sdu_size = result at hstart ⊢
    obtain ⟨started, c'⟩ := result
    cases started
    · exact hfinish.trans hstart
    · exact (hfinish.trans hstart).trans (kept_putFragments timestamp fragments sdu_size c')

variable {iMaxSduSize sdu_size timestamp extra : Nat}

theorem trim_of_le {pos : List UInt8} (h : pos.length ≤ iMaxSduSize) :
    trim iMaxSduSize pos = [pos] := by
  rw [trim, dif_pos (Or.inl h)]

/-- The fragments as they are packed. -/
def cutFragments (c : Channel) (fragments : List (List UInt8)) : List (List UInt8) :=
  fragments.flatMap (trim c.iMaxSduSize)

variable {fragments : List (List UInt8)}

theorem cutFragments_of_le (h : c.numFragsRequired fragments = 0) : c.cutFragments fragments = fragments := by
  rw [numFragsRequired, List.countP_eq_zero] at h
  rw [cutFragments]
  induction fragments with
  | nil => rfl
  | cons frag fragments ih =>
    have hfrag := h frag List.mem_cons_self
    rw [List.flatMap_cons, ih fun frag hmem => h frag (List.mem_cons_of_mem _ hmem)]
    rw [trim_of_le (by simpa using hfrag)]
    rfl

theorem fragmentPacket_cases (c : Channel) (fragments : List (List UInt8)) :
    c.fragmentPacket fragments = none ∨ ∃ allocs, c.fragmentPacket fragments = some (none, { c with allocs }) ∨
      (c.iMaxSduSize ≠ 0 ∧
        c.fragmentPacket fragments = some (some (c.cutFragments fragments), { c with allocs })) := by
  obtain ⟨newpack, allocs, halloc⟩ := c.allocate_cases
  obtain ⟨media, allocs', halloc'⟩ := allocate_cases { c with allocs }
  simp only [fragmentPacket, halloc]
  cases newpack
  · exact Or.inr ⟨allocs, Or.inl rfl⟩
  · simp only [Bool.true_eq_false, if_false, halloc']
    split
    · exact Or.inl rfl
    · next hmax =>
      cases media
      · exact Or.inr ⟨allocs', Or.inl rfl⟩
      · exact Or.inr ⟨allocs', Or.inr ⟨hmax, rfl⟩⟩

/-- Nothing is left in the channel. -/
def Flushed (c : Channel) : Prop := c.lastMediaData.toList = [] ∧ c.iCurPdu = none

theorem putRoom_cases {msg : MediaMsg} {status : Status} (h : c.putRoom msg = some (status, c')) :
    (c.mayOverflow msg.fragments = true ∧ status ≠ .success ∧ c'.Flushed) ∨
      ∃ allocs, (status ≠ .success ∧ c' = { c with allocs }) ∨
        ((c.iMaxSduSize = 0 → c.numFragsRequired msg.fragments = 0) ∧
          putMediaData { c with allocs } msg.timestamp (c.cutFragments msg.fragments) = (status, c')) := by
  rw [putRoom] at h
  split at h
  · next hover =>
    injection h with h
    injection h with hstatus h
    exact Or.inl ⟨hover, by rw [← hstatus]; decide, by rw [← h]; exact ⟨rfl, rfl⟩⟩
  · right
    split at h
    · obtain hfrag | ⟨allocs, hfrag | ⟨hmax, hfrag⟩⟩ := c.fragmentPacket_cases msg.fragments
      · rw [hfrag] at h
        simp at h
      · rw [hfrag] at h
        injection h with h
        injection h with hstatus h
        exact ⟨allocs, Or.inl ⟨by rw [← hstatus]; decide, h.symm⟩⟩
      · rw [hfrag] at h
        injection h with h
        exact ⟨allocs, Or.inr ⟨fun hzero => absurd hzero hmax, h⟩⟩
    · next hshort =>
      rw [ne_eq, Decidable.not_not] at hshort
      injection h with h
      exact ⟨c.allocs, Or.inr ⟨fun _ => hshort, by rw [cutFragments_of_le hshort]; exact h⟩⟩

theorem putData_cases {msg : MediaMsg} {allocs : List Bool} {status : Status}
    (h : c.putData msg allocs = some (status, c')) :
    (msg.formatID ≥ mediaCmdFormatIdsStart ∧ c' = { c with allocs }) ∨
      (msg.formatID < mediaCmdFormatIdsStart ∧ ∃ iWaitForRandomAccessPoint,
        (status ≠ .success ∧
          c' = { c with allocs, iFsiFrag := msg.formatSpecificInfo, iWaitForRandomAccessPoint }) ∨
        putRoom { c with allocs, iFsiFrag := msg.formatSpecificInfo, iWaitForRandomAccessPoint } msg =
          some (status, c')) := by
  simp only [putData] at h
  split at h
  · next hcommand =>
    injection h with h
    injection h with hstatus h
    exact Or.inl ⟨hcommand, h.symm⟩
  · next hdata =>
    refine Or.inr ⟨by omega, ?_⟩
    split at h
    · split at h
      · injection h with h
        injection h with hstatus h
        exact ⟨c.iWaitForRandomAccessPoint, Or.inl ⟨by rw [← hstatus]; decide, h.symm⟩⟩
      · exact ⟨false, Or.inr h⟩
    · split at h
      · injection h with h
        injection h with hstatus h
        exact ⟨c.iWaitForRandomAccessPoint, Or.inl ⟨by rw [← hstatus]; decide, h.symm⟩⟩
      · exact ⟨c.iWaitForRandomAccessPoint, Or.inr h⟩

/-- Whatever `PutData` returns, it has kept the PDUs that waited, or it has flushed the
channel because it might overflow. -/
theorem kept_putData {msg : MediaMsg} {allocs : List Bool} {status : Status}
    (h : c.putData msg allocs = some (status, c')) :
    (c.mayOverflow msg.fragments = true ∧ c'.Flushed) ∨ Kept c c' := by
  obtain ⟨-, hc⟩ | ⟨-, wait, ⟨-, hc⟩ | hroom⟩ := putData_cases h
  · rw [hc]
    exact Or.inr (.of_eq rfl)
  · rw [hc]
    exact Or.inr (.of_eq rfl)
  · obtain ⟨hover, -, hflushed⟩ | ⟨allocs, ⟨-, hc⟩ | ⟨-, hput⟩⟩ := putRoom_cases hroom
    · exact Or.inl ⟨hover, hflushed⟩
    · rw [hc]
      exact Or.inr (.of_eq rfl)
    · have hkept := kept_putMediaData _ _ _ |>.trans (.of_eq (congrArg (·.2.lastMediaData) hput).symm)
      exact Or.inr (Kept.trans (.of_eq rfl) hkept)

/-! ## Packing -/

/-- How much of the fragments goes into an SDU that has `sdu_size` bytes. -/
def packed (iMaxSduSize : Nat) : Nat → List (List UInt8) → Nat
  | sdu_size, [] => sdu_size
  | sdu_size, frag :: fragments =>
    if sdu_size ≠ 0 ∧ sdu_size + frag.length > iMaxSduSize then sdu_size
    else packed iMaxSduSize (sdu_size + frag.length) fragments

theorem packed_le (h : ∀ frag ∈ fragments, frag.length ≤ iMaxSduSize) (hsdu : sdu_size ≤ iMaxSduSize) :
    packed iMaxSduSize sdu_size fragments ≤ iMaxSduSize := by
  induction fragments generalizing sdu_size with
  | nil => exact hsdu
  | cons frag fragments ih =>
    have hfrag := h frag List.mem_cons_self
    rw [packed]
    split
    · exact hsdu
    · next hsmall => exact ih (fun frag hmem => h frag (List.mem_cons_of_mem _ hmem)) (by omega)

theorem trim_flatten (iMaxSduSize : Nat) (pos : List UInt8) : (trim iMaxSduSize pos).flatten = pos := by
  induction pos using trim.induct iMaxSduSize with
  | case1 pos h => rw [trim, dif_pos h, List.flatten_singleton]
  | case2 pos h ih => rw [trim, dif_neg h, List.flatten_cons, ih, List.take_append_drop]

theorem trim_le (hmax : iMaxSduSize ≠ 0) (pos : List UInt8) :
    ∀ frag ∈ trim iMaxSduSize pos, frag.length ≤ iMaxSduSize := by
  induction pos using trim.induct iMaxSduSize with
  | case1 pos h =>
    rw [trim, dif_pos h]
    simp only [List.mem_singleton, forall_eq]
    omega
  | case2 pos h ih =>
    rw [trim, dif_neg h, List.forall_mem_cons]
    exact ⟨List.length_take_le _ _, ih⟩

theorem cutFragments_flatten (c : Channel) (fragments : List (List UInt8)) :
    (c.cutFragments fragments).flatten = fragments.flatten := by
  rw [cutFragments]
  induction fragments with
  | nil => rfl
  | cons frag fragments ih => rw [List.flatMap_cons, List.flatten_append, trim_flatten, ih, List.flatten_cons]

theorem cutFragments_le (h : c.iMaxSduSize = 0 → c.numFragsRequired fragments = 0) :
    ∀ frag ∈ c.cutFragments fragments, frag.length ≤ c.iMaxSduSize := by
  by_cases hmax : c.iMaxSduSize = 0
  · have hshort := h hmax
    rw [cutFragments_of_le hshort]
    rw [numFragsRequired, List.countP_eq_zero] at hshort
    intro frag hmem
    simpa using hshort frag hmem
  · intro frag hmem
    rw [cutFragments, List.mem_flatMap] at hmem
    obtain ⟨pos, -, hfrag⟩ := hmem
    exact trim_le hmax pos frag hfrag

/-! ## What a call adds -/

/-- `c'` is `c` with these data behind its own, and the format specific info of one
message at the most. -/
structure Extends (c c' : Channel) (bytes : List UInt8) (fsi : List (List UInt8)) : Prop where
  iAl : c'.iAl = c.iAl
  iSegmentable : c'.iSegmentable = c.iSegmentable
  iMaxSduSize : c'.iMaxSduSize = c.iMaxSduSize
  added : ∃ sdus, c'.completed = c.completed ++ sdus ∧
    c'.lastMediaData.toList = c.lastMediaData.toList ++ sdus
  data : dataBytes c'.flow = dataBytes c.flow ++ bytes
  fsi : (fsis c'.flow).Sublist (fsis c.flow ++ fsi)

theorem Extends.trans {bytes bytes' : List UInt8} {fsi fsi' : List (List UInt8)}
    (h : Extends a b bytes fsi) (h' : Extends b c bytes' fsi') :
    Extends a c (bytes ++ bytes') (fsi ++ fsi') := by
  obtain ⟨sdus, hcompleted, hring⟩ := h.added
  obtain ⟨sdus', hcompleted', hring'⟩ := h'.added
  exact
    { iAl := h'.iAl.trans h.iAl
      iSegmentable := h'.iSegmentable.trans h.iSegmentable
      iMaxSduSize := h'.iMaxSduSize.trans h.iMaxSduSize
      added := ⟨sdus ++ sdus', by rw [hcompleted', hcompleted, List.append_assoc],
        by rw [hring', hring, List.append_assoc]⟩
      data := by rw [h'.data, h.data, List.append_assoc]
      fsi := by
        rw [← List.append_assoc]
        exact h'.fsi.trans (h.fsi.append_right fsi') }

/-- The SDUs that were completed are as they should be. -/
structure Sound (c : Channel) : Prop where
  segmentable : c.iSegmentable = true
  small : c.iMaxSduSize < 2 ^ 16
  fits : ∀ sdu ∈ c.completed, payloadSize sdu.pdu ≤ c.iMaxSduSize
  uniform : ∀ sdu ∈ c.completed, Uniform sdu.pdu sdu.timestamp

/-- The PDU that is being filled with data of a timestamp; `extra` is the size of the
format specific info, which is not in `sdu_size`. -/
structure Filling (c : Channel) (timestamp extra sdu_size : Nat) (pdu : List Piece) : Prop where
  cur : c.iCurPdu = some pdu
  filled : filledSize pdu = c.iAl.hdrSz + payloadSize pdu
  size : payloadSize pdu = extra + sdu_size
  uniform : Uniform pdu timestamp
  current : Uniform pdu c.iCurPduTimestamp

/-- Between calls. -/
structure Packed (c : Channel) : Prop extends Sound c where
  filling : ∀ pdu ∈ c.iCurPdu, Filling c c.iCurPduTimestamp 0 (payloadSize pdu) pdu ∧
    payloadSize pdu ≤ c.iMaxSduSize

variable {pdu : List Piece}

theorem appendMediaFragment_spec
    (hsound : Sound c) (h : Filling c timestamp extra sdu_size pdu) (frag : List UInt8) :
    Extends c (c.appendMediaFragment timestamp frag) frag [] ∧ Sound (c.appendMediaFragment timestamp frag) ∧
      Filling (c.appendMediaFragment timestamp frag) timestamp extra (sdu_size + frag.length)
        (pdu ++ [.data timestamp frag]) := by
  have huniform : Uniform (pdu ++ [.data timestamp frag]) timestamp := by
    refine uniform_append h.uniform fun t bytes hmem => ?_
    rw [List.mem_singleton, Piece.data.injEq] at hmem
    exact hmem.1
  have hfilled := h.filled
  have hsize := h.size
  refine ⟨⟨rfl, rfl, rfl, ⟨[], by simp [appendMediaFragment], by simp [appendMediaFragment]⟩, ?_, ?_⟩,
    ⟨hsound.segmentable, hsound.small, hsound.fits, hsound.uniform⟩, ⟨?_, ?_, ?_, huniform, huniform⟩⟩
  · simp [flow, appendMediaFragment, h.cur, dataBytes]
  · simp [flow, appendMediaFragment, h.cur, fsis]
  · simp [appendMediaFragment, h.cur]
  · simp [appendMediaFragment, payloadSize, filledSize, Piece.size] at hfilled ⊢
    omega
  · simp [payloadSize] at hsize ⊢
    omega

theorem completePdu_spec
    (hsound : Sound c) (h : Filling c timestamp extra sdu_size pdu) (hroom : extra + sdu_size ≤ c.iMaxSduSize)
    (hcomplete : c.completePdu = (true, c')) :
    Extends c c' [] [] ∧ Sound c' ∧ c'.iCurPdu = none ∧ c'.iFsiFrag = c.iFsiFrag := by
  obtain ⟨allocs, pdu', hfail⟩ | ⟨allocs, ms, bytes, hdone⟩ := c.completePdu_cases
  · rw [hfail] at hcomplete
    injection hcomplete with hcomplete
    contradiction
  · rw [hdone] at hcomplete
    injection hcomplete with htrue hcomplete
    rw [← hcomplete]
    have hsize : payloadSize (pdu ++ c.trailer) ≤ c.iMaxSduSize := by
      rw [payloadSize_append, payloadSize_trailer, h.size]
      omega
    refine ⟨⟨rfl, rfl, rfl, ⟨[⟨pdu ++ c.trailer, c.iCurPduTimestamp⟩], ?_, ?_⟩, ?_, ?_⟩,
      ⟨hsound.segmentable, hsound.small, ?_, ?_⟩, rfl, rfl⟩
    · simp [h.cur]
    · simp [h.cur]
    · simp [flow, h.cur]
    · simp [flow, h.cur]
    · simp only [h.cur, Option.getD_some, List.mem_append, List.mem_singleton]
      rintro sdu (hold | rfl)
      · exact hsound.fits sdu hold
      · exact hsize
    · simp only [h.cur, Option.getD_some, List.mem_append, List.mem_singleton]
      rintro sdu (hold | rfl)
      · exact hsound.uniform sdu hold
      · exact uniform_append h.current (c.uniform_trailer _)

theorem nextPdu_spec
    (hsound : Sound c) (h : Filling c timestamp extra sdu_size pdu) (hroom : extra + sdu_size ≤ c.iMaxSduSize)
    (hnext : c.nextPdu = (true, c')) :
    Extends c c' [] [] ∧ Sound c' ∧ Filling c' timestamp 0 0 c'.header := by
  rw [nextPdu] at hnext
  generalize hcomplete : c.completePdu = result at hnext
  obtain ⟨completed, c''⟩ := result
  cases completed
  · simp at hnext
  · obtain ⟨hextends, hsound', hcur, -⟩ := completePdu_spec hsound h hroom hcomplete
    obtain ⟨allocs, pending, hstart | hstart⟩ := c''.startAlPdu_cases
    · simp [hstart] at hnext
    · simp only [hstart, Bool.true_eq_false, if_false, Option.isSome_some, Prod.mk.injEq, true_and] at hnext
      subst hnext
      have hstarted :
          Extends c'' { c'' with allocs, iNumPendingPdus := pending, iCurPdu := some c''.header } [] [] :=
        ⟨rfl, rfl, rfl, ⟨[], by simp, by simp⟩, by simp [flow, hcur], by simp [flow, hcur]⟩
      refine ⟨hextends.trans hstarted, ⟨hsound'.segmentable, hsound'.small, hsound'.fits, hsound'.uniform⟩,
        ⟨rfl, ?_, ?_, uniform_header _ _, uniform_header _ _⟩⟩
      · rw [filledSize_header, payloadSize_header]
        rfl
      · rw [payloadSize_header]

theorem putFragments_spec (hsound : Sound c) (h : Filling c timestamp extra sdu_size pdu)
    (hfragments : ∀ frag ∈ fragments, frag.length ≤ c.iMaxSduSize) (hsdu : sdu_size ≤ c.iMaxSduSize)
    (hroom : extra + packed c.iMaxSduSize sdu_size fragments ≤ c.iMaxSduSize)
    (hput : putFragments timestamp fragments sdu_size c = (.success, c')) :
    Extends c c' fragments.flatten [] ∧ Packed c' := by
  induction fragments generalizing sdu_size extra c pdu with
  | nil =>
    simp only [putFragments, Prod.mk.injEq, true_and] at hput
    rw [packed] at hroom
    rw [← hput]
    refine ⟨⟨rfl, rfl, rfl, ⟨[], by simp, by simp⟩, by simp, by simp⟩, ⟨hsound, fun pdu' hpdu => ?_⟩⟩
    rw [h.cur, Option.mem_some] at hpdu
    rw [← hpdu]
    exact ⟨⟨h.cur, h.filled, by omega, h.current, h.current⟩, by rw [h.size]; exact hroom⟩
  | cons frag fragments ih =>
    have hsmall := hsound.small
    have hfrag := hfragments frag List.mem_cons_self
    have hrest : ∀ frag ∈ fragments, frag.length ≤ c.iMaxSduSize :=
      fun frag hmem => hfragments frag (List.mem_cons_of_mem _ hmem)
    have hsum : (sdu_size + frag.length) % 2 ^ 32 = sdu_size + frag.length := Nat.mod_eq_of_lt (by omega)
    rw [putFragments, hsum, Nat.mod_eq_of_lt (by omega : frag.length < 2 ^ 32)] at hput
    rw [packed] at hroom
    simp only [hsound.segmentable, Bool.true_eq_false, or_false, gt_iff_lt] at hput hroom
    split at hput
    · next hfull =>
      rw [if_pos hfull] at hroom
      generalize hnext : c.nextPdu = result at hput
      obtain ⟨next, c''⟩ := result
      cases next
      · simp at hput
      · simp only [Bool.true_eq_false, if_false] at hput
        obtain ⟨hextends, hsound', hfilling⟩ := nextPdu_spec hsound h hroom hnext
        obtain ⟨hadd, hsound'', hfilling'⟩ := appendMediaFragment_spec hsound' hfilling frag
        have hmax : (c''.appendMediaFragment timestamp frag).iMaxSduSize = c.iMaxSduSize :=
          hadd.iMaxSduSize.trans hextends.iMaxSduSize
        rw [Nat.zero_add] at hfilling'
        have hpacked := packed_le hrest hfrag
        obtain ⟨hloop, hpacked'⟩ := ih hsound'' hfilling' (by rw [hmax]; exact hrest) (by rw [hmax]; exact hfrag)
          (by rw [hmax]; omega) hput
        exact ⟨(hextends.trans hadd).trans hloop, hpacked'⟩
    · next hfull =>
      rw [if_neg hfull] at hroom
      obtain ⟨hadd, hsound', hfilling⟩ := appendMediaFragment_spec hsound h frag
      have hmax : (c.appendMediaFragment timestamp frag).iMaxSduSize = c.iMaxSduSize := hadd.iMaxSduSize
      obtain ⟨hloop, hpacked⟩ := ih hsound' hfilling (by rw [hmax]; exact hrest) (by rw [hmax]; omega)
        (by rw [hmax]; exact hroom) hput
      exact ⟨hadd.trans hloop, hpacked⟩

theorem curSduSize_eq (h : Filling c timestamp extra sdu_size pdu) (hsmall : payloadSize pdu < 2 ^ 32) :
    c.curSduSize pdu = payloadSize pdu := by
  have hfilled := h.filled
  rw [curSduSize]
  omega

/-- The PDU that is being filled goes on with data of this timestamp. -/
def goesOn (c : Channel) (timestamp : Nat) : Bool :=
  c.iCurPdu.any fun pdu => c.iCurPduTimestamp = timestamp ∧ c.curSduSize pdu ≠ 0

theorem finishPdu_spec (h : Packed c) (hfinish : c.finishPdu timestamp = (true, sdu_size, c')) :
    Extends c c' [] [] ∧ Sound c' ∧ c'.iFsiFrag = c.iFsiFrag ∧ sdu_size ≤ c.iMaxSduSize ∧
      (c.goesOn timestamp = true → sdu_size ≠ 0) ∧ (c'.iCurPdu = none → sdu_size = 0) ∧
        ∀ pdu ∈ c'.iCurPdu, Filling c' timestamp 0 sdu_size pdu := by
  have hself : Extends c c [] [] := ⟨rfl, rfl, rfl, ⟨[], by simp, by simp⟩, by simp, by simp⟩
  rw [finishPdu] at hfinish
  split at hfinish
  · next hcur =>
    simp only [Prod.mk.injEq, true_and] at hfinish
    rw [← hfinish.1, ← hfinish.2]
    exact ⟨hself, h.toSound, rfl, Nat.zero_le _, by simp [goesOn, hcur], fun _ => rfl, by simp [hcur]⟩
  · next pdu hcur =>
    obtain ⟨hfilling, hfits⟩ := h.filling pdu hcur
    split at hfinish
    · next hother =>
      rw [h.segmentable] at hother
      simp only [Bool.true_eq_false, or_false] at hother
      simp only [Prod.mk.injEq] at hfinish
      have hcomplete : c.completePdu = (true, c') := Prod.ext hfinish.1 hfinish.2.2
      obtain ⟨hextends, hsound, hnone, hfsi⟩ := completePdu_spec h.toSound hfilling (by omega) hcomplete
      rw [← hfinish.2.1]
      exact ⟨hextends, hsound, hfsi, Nat.zero_le _, by simp [goesOn, hcur, hother], fun _ => rfl, by simp [hnone]⟩
    · next hsame =>
      simp only [Prod.mk.injEq, true_and] at hfinish
      obtain ⟨htimestamp, -⟩ := not_or.mp hsame
      rw [ne_eq, Decidable.not_not] at htimestamp
      have hsmall := h.small
      have hsize := curSduSize_eq hfilling (by omega)
      rw [← hfinish.1, ← hfinish.2, hsize]
      refine ⟨hself, h.toSound, rfl, hfits, by simp [goesOn, hcur, hsize], by simp [hcur], fun pdu' hpdu => ?_⟩
      rw [hcur, Option.mem_some] at hpdu
      rw [← hpdu, ← htimestamp]
      exact hfilling

theorem startPdu_spec (hsound : Sound c)
    (hnone : c.iCurPdu = none → sdu_size = 0) (hcur : ∀ pdu ∈ c.iCurPdu, Filling c timestamp 0 sdu_size pdu)
    (hstart : c.startPdu sdu_size = (true, c')) :
    Extends c c' [] [c.iFsiFrag] ∧ Sound c' ∧
      ∃ pdu, Filling c' timestamp (if sdu_size = 0 then c.iFsiFrag.length else 0) sdu_size pdu := by
  rw [startPdu] at hstart
  by_cases hzero : sdu_size = 0
  · have hempty : dataBytes (c.iCurPdu.getD []) = [] := by
      cases hpdu : c.iCurPdu with
      | none => rfl
      | some pdu =>
        have hsize := (hcur pdu hpdu).size
        rw [Option.getD_some]
        exact dataBytes_of_payloadSize (by omega)
    rw [if_pos hzero] at hstart
    rw [if_pos hzero]
    obtain ⟨allocs, pending, halloc | halloc⟩ := c.startAlPdu_cases
    · simp [halloc] at hstart
    · simp only [halloc, reduceCtorEq, if_false, Option.map_some] at hstart
      split at hstart
      · simp only [Prod.mk.injEq, true_and] at hstart
        subst hstart
        refine ⟨⟨rfl, rfl, rfl, ⟨[], by simp, by simp⟩, by simp [flow, hempty], by simp [flow]⟩,
          ⟨hsound.segmentable, hsound.small, hsound.fits, hsound.uniform⟩, c.header ++ [.fsi c.iFsiFrag],
          ⟨rfl, by simp, by simp [hzero], ?_, ?_⟩⟩
        · exact uniform_append (c.uniform_header _) (by simp [Uniform])
        · exact uniform_append (c.uniform_header _) (by simp [Uniform])
      · next hfsi =>
        simp only [Prod.mk.injEq, true_and] at hstart
        rw [ne_eq, Decidable.not_not] at hfsi
        subst hstart
        exact ⟨⟨rfl, rfl, rfl, ⟨[], by simp, by simp⟩, by simp [flow, hempty], by simp [flow]⟩,
          ⟨hsound.segmentable, hsound.small, hsound.fits, hsound.uniform⟩, c.header,
          ⟨rfl, by simp, by simp [hfsi, hzero], c.uniform_header _, c.uniform_header _⟩⟩
  · rw [if_neg hzero] at hstart
    simp only [Prod.mk.injEq, true_and] at hstart
    rw [if_neg hzero, ← hstart]
    obtain ⟨pdu, hpdu⟩ := Option.ne_none_iff_exists'.mp fun h => hzero (hnone h)
    exact ⟨⟨rfl, rfl, rfl, ⟨[], by simp, by simp⟩, by simp, by simp⟩, hsound, pdu, hcur pdu hpdu⟩

theorem putMediaData_spec (h : Packed c) (hfragments : ∀ frag ∈ fragments, frag.length ≤ c.iMaxSduSize)
    (hroom : c.goesOn timestamp = true ∨ c.iFsiFrag.length + packed c.iMaxSduSize 0 fragments ≤ c.iMaxSduSize)
    (hput : c.putMediaData timestamp fragments = (.success, c')) :
    Extends c c' fragments.flatten [c.iFsiFrag] ∧ Packed c' := by
  rw [putMediaData] at hput
  generalize hfinish : c.finishPdu timestamp = result at hput
  obtain ⟨finished, sdu_size, c₁⟩ := result
  cases finished
  · simp at hput
  · obtain ⟨hextends, hsound, hfsi, hsdu, hgoes, hnone, hcur⟩ := finishPdu_spec h hfinish
    simp only [Bool.true_eq_false, if_false] at hput
    generalize hstart : c₁.startPdu sdu_size = result at hput
    obtain ⟨started, c₂⟩ := result
    cases started
    · simp at hput
    · obtain ⟨hextends', hsound', pdu, hfilling⟩ := startPdu_spec hsound hnone hcur hstart
      simp only [Bool.true_eq_false, if_false] at hput
      have hmax : c₂.iMaxSduSize = c.iMaxSduSize := hextends'.iMaxSduSize.trans hextends.iMaxSduSize
      have hpacked : (if sdu_size = 0 then c₁.iFsiFrag.length else 0) + packed c.iMaxSduSize sdu_size fragments ≤
          c.iMaxSduSize := by
        have hle := packed_le hfragments hsdu
        split
        · next hzero =>
          obtain hon | hroom := hroom
          · exact absurd hzero (hgoes hon)
          · rw [hfsi, hzero]
            exact hroom
        · omega
      obtain ⟨hloop, hdone⟩ := putFragments_spec hsound' hfilling (by rw [hmax]; exact hfragments)
        (by rw [hmax]; exact hsdu) (by rw [hmax]; exact hpacked) hput
      rw [hfsi] at hextends'
      exact ⟨(hextends.trans hextends').trans hloop, hdone⟩

/-- What the allocators answer, the format specific info that is to come and the like do
not matter to what has been packed. -/
theorem Packed.congr (h : Packed c) (hal : c'.iAl = c.iAl)
    (hsegmentable : c'.iSegmentable = c.iSegmentable) (hmax : c'.iMaxSduSize = c.iMaxSduSize)
    (hcompleted : c'.completed = c.completed) (hcur : c'.iCurPdu = c.iCurPdu)
    (htimestamp : c'.iCurPduTimestamp = c.iCurPduTimestamp) : Packed c' where
  segmentable := hsegmentable.trans h.segmentable
  small := by rw [hmax]; exact h.small
  fits := by rw [hcompleted, hmax]; exact h.fits
  uniform := by rw [hcompleted]; exact h.uniform
  filling pdu hpdu := by
    rw [hcur] at hpdu
    obtain ⟨hfilling, hfits⟩ := h.filling pdu hpdu
    rw [hmax, htimestamp]
    exact ⟨⟨hcur.trans hfilling.cur, by rw [hal]; exact hfilling.filled, hfilling.size, hfilling.uniform,
      by rw [htimestamp]; exact hfilling.uniform⟩, hfits⟩

theorem getNextPacket_cases (c : Channel) (aStatus : Status) : ∃ iMuxingStarted,
    c.getNextPacket aStatus = (none, { c with iMuxingStarted }) ∨
      ∃ sdu lastMediaData iNumPendingPdus, c.lastMediaData.toList = sdu :: lastMediaData.toList ∧
        c.getNextPacket aStatus = (some sdu, { c with iMuxingStarted, lastMediaData, iNumPendingPdus }) := by
  obtain ⟨started, hstarted⟩ : ∃ iMuxingStarted,
      (if !c.iMuxingStarted ∧ aStatus = .success then { c with iMuxingStarted := true } else c) =
        { c with iMuxingStarted } := by
    split
    · exact ⟨true, rfl⟩
    · exact ⟨c.iMuxingStarted, rfl⟩
  refine ⟨started, ?_⟩
  simp only [getNextPacket, hstarted]
  split
  · exact Or.inl rfl
  · split
    · exact Or.inl rfl
    · cases htake : c.lastMediaData.takeFirst with
      | none => exact Or.inl rfl
      | some taken =>
        obtain ⟨sdu, ring⟩ := taken
        exact Or.inr ⟨sdu, ring, _, CircularList.takeFirst_eq_some htake, rfl⟩

end Channel

/-! ## Sessions -/

/-- A call; the outcomes of the allocations come with it. -/
inductive Call
  | putData (msg : MediaMsg) (allocs : List Bool)
  | getNextPacket (aStatus : Status)

/-- A channel, what has been put in and taken out, and whether a call has returned an
error. -/
structure Session where
  channel : Channel
  input : List UInt8
  given : List (List UInt8)
  out : List MediaData
  failed : Bool

/-- The message is not a command. -/
def MediaMsg.isData (msg : MediaMsg) : Bool := msg.formatID < mediaCmdFormatIdsStart

namespace Session

def start (c : Channel) : Session := ⟨c, [], [], [], false⟩

/-- A call; there is no next state when `PutData` does not return. -/
def step (s : Session) : Call → Option Session
  | .putData msg allocs =>
    (s.channel.putData msg allocs).map fun (status, channel) =>
      { s with
        channel
        input := s.input ++ if msg.isData then msg.fragments.flatten else []
        given := s.given ++ if msg.isData then [msg.formatSpecificInfo] else []
        failed := s.failed || status ≠ .success }
  | .getNextPacket aStatus =>
    let (aMediaData, channel) := s.channel.getNextPacket aStatus
    some { s with channel, out := s.out ++ aMediaData.toList }

/-- The format specific info of a message, if it is put in, leaves room for the data
that go into the same SDU. -/
def Fits (s : Session) : Call → Prop
  | .putData msg _ => msg.isData = false ∨ msg.formatSpecificInfo = [] ∨ s.channel.goesOn msg.timestamp = true ∨
      msg.formatSpecificInfo.length + Channel.packed s.channel.iMaxSduSize 0 (s.channel.cutFragments msg.fragments) ≤
        s.channel.iMaxSduSize
  | .getNextPacket _ => True

/-- Nothing has been lost, mixed up or put in another order, and every SDU has a size
that is allowed. -/
structure Intact (s : Session) : Prop where
  data : dataBytes s.channel.flow = s.input
  fsi : (fsis s.channel.flow).Sublist s.given
  fits : ∀ sdu ∈ s.channel.completed, payloadSize sdu.pdu ≤ s.channel.iMaxSduSize
  uniform : ∀ sdu ∈ s.channel.completed, Uniform sdu.pdu sdu.timestamp
  current : ∀ pdu ∈ s.channel.iCurPdu, Uniform pdu s.channel.iCurPduTimestamp
  fifo : s.channel.completed = s.out ++ s.channel.lastMediaData.toList

/-- The session is intact unless a call has returned an error; and a call that returns
one takes no SDU from the ring, unless it flushes the channel because it might
overflow. -/
def Good (s : Session) : Prop :=
  (s.failed = false → s.Intact) ∧ ∀ msg allocs status c, s.channel.putData msg allocs = some (status, c) →
    status ≠ .success → (s.channel.mayOverflow msg.fragments = true ∧ c.Flushed) ∨ s.channel.Kept c

variable {s s' : Session}

theorem intact_extends {c : Channel} {bytes : List UInt8} {fsi : List (List UInt8)} (h : s.Intact)
    (hextends : Channel.Extends s.channel c bytes fsi) (hpacked : c.Packed) (failed : Bool) :
    Intact ⟨c, s.input ++ bytes, s.given ++ fsi, s.out, failed⟩ := by
  obtain ⟨sdus, hcompleted, hring⟩ := hextends.added
  exact
    { data := by rw [hextends.data, h.data]
      fsi := hextends.fsi.trans (h.fsi.append_right fsi)
      fits := hpacked.fits
      uniform := hpacked.uniform
      current := fun pdu hpdu => (hpacked.filling pdu hpdu).1.uniform
      fifo := by rw [hcompleted, hring, h.fifo, List.append_assoc] }

theorem putData_intact {msg : MediaMsg} {allocs : List Bool} (h : s.Intact)
    (hpacked : s.channel.Packed) (hfits : s.Fits (.putData msg allocs))
    (hstep : s.step (.putData msg allocs) = some s') (hok : s'.failed = false) : s'.Intact ∧ s'.channel.Packed := by
  rw [step, Option.map_eq_some_iff] at hstep
  obtain ⟨⟨status, c⟩, hput, hs'⟩ := hstep
  rw [← hs', Bool.or_eq_false_iff, decide_eq_false_iff_not, ne_eq, Decidable.not_not] at hok
  obtain ⟨-, rfl⟩ := hok
  obtain ⟨hcommand, hc⟩ | ⟨hdata, wait, ⟨hne, -⟩ | hroom⟩ := Channel.putData_cases hput
  · have hisData : msg.isData = false := by simpa [MediaMsg.isData] using hcommand
    subst hc
    have hextends : Channel.Extends s.channel { s.channel with allocs } [] [] :=
      ⟨rfl, rfl, rfl, ⟨[], by simp, by simp⟩, by simp [Channel.flow], by simp [Channel.flow]⟩
    have hpacked' : Channel.Packed { s.channel with allocs } := hpacked.congr rfl rfl rfl rfl rfl rfl
    rw [← hs']
    simp only [hisData, Bool.false_eq_true, if_false]
    exact ⟨intact_extends h hextends hpacked' _, hpacked'⟩
  · contradiction
  · have hisData : msg.isData = true := by simpa [MediaMsg.isData] using hdata
    obtain ⟨-, hne, -⟩ | ⟨allocs', ⟨hne, -⟩ | ⟨hzero, hput⟩⟩ := Channel.putRoom_cases hroom
    · contradiction
    · contradiction
    · have hpacked₀ : Channel.Packed { s.channel with
          allocs := allocs'
          iFsiFrag := msg.formatSpecificInfo
          iWaitForRandomAccessPoint := wait } := hpacked.congr rfl rfl rfl rfl rfl rfl
      have hfragments := Channel.cutFragments_le hzero
      have hroom' : s.channel.goesOn msg.timestamp = true ∨ msg.formatSpecificInfo.length +
          Channel.packed s.channel.iMaxSduSize 0 (s.channel.cutFragments msg.fragments) ≤ s.channel.iMaxSduSize := by
        obtain hcommand | hnone | hon | hsmall := hfits
        · rw [hisData] at hcommand
          contradiction
        · rw [hnone]
          have hle := Channel.packed_le hfragments (Nat.zero_le _)
          exact Or.inr (by rw [List.length_nil, Nat.zero_add]; exact hle)
        · exact Or.inl hon
        · exact Or.inr hsmall
      obtain ⟨hextends, hpacked'⟩ := Channel.putMediaData_spec hpacked₀ hfragments hroom' hput
      rw [Channel.cutFragments_flatten] at hextends
      have hextends' : Channel.Extends s.channel c msg.fragments.flatten [msg.formatSpecificInfo] :=
        ⟨hextends.iAl, hextends.iSegmentable, hextends.iMaxSduSize, hextends.added, hextends.data, hextends.fsi⟩
      rw [← hs']
      simp only [hisData, if_true]
      exact ⟨intact_extends h hextends' hpacked' _, hpacked'⟩

theorem getNextPacket_intact {aStatus : Status} (h : s.Intact) (hpacked : s.channel.Packed)
    (hstep : s.step (.getNextPacket aStatus) = some s') : s'.Intact ∧ s'.channel.Packed := by
  obtain ⟨started, htake | ⟨sdu, ring, pending, hring, htake⟩⟩ := s.channel.getNextPacket_cases aStatus
  · simp only [step, htake, Option.some.injEq] at hstep
    rw [← hstep]
    exact ⟨⟨h.data, h.fsi, h.fits, h.uniform, h.current, by simpa using h.fifo⟩,
      hpacked.congr rfl rfl rfl rfl rfl rfl⟩
  · simp only [step, htake, Option.some.injEq] at hstep
    rw [← hstep]
    have hfifo := h.fifo
    rw [hring] at hfifo
    exact ⟨⟨h.data, h.fsi, h.fits, h.uniform, h.current, by simp [hfifo]⟩,
      hpacked.congr rfl rfl rfl rfl rfl rfl⟩

theorem step_intact {call : Call} (h : s.failed = false → s.Intact ∧ s.channel.Packed)
    (hfits : s.Fits call) (hstep : s.step call = some s') : s'.failed = false → s'.Intact ∧ s'.channel.Packed := by
  intro hok
  cases call with
  | putData msg allocs =>
    have hbefore : s.failed = false := by
      rw [step, Option.map_eq_some_iff] at hstep
      obtain ⟨result, -, hs'⟩ := hstep
      rw [← hs', Bool.or_eq_false_iff] at hok
      exact hok.1
    exact putData_intact (h hbefore).1 (h hbefore).2 hfits hstep hok
  | getNextPacket aStatus =>
    have hbefore : s.failed = false := by
      simp only [step, Option.some.injEq] at hstep
      rw [← hstep] at hok
      exact hok
    exact getNextPacket_intact (h hbefore).1 (h hbefore).2 hstep

theorem start_intact (iAl : AdaptationLayer) (bitrate numMediaData : Nat) :
    (start (.new iAl true bitrate numMediaData)).Intact ∧ (Channel.new iAl true bitrate numMediaData).Packed := by
  refine ⟨⟨rfl, List.Sublist.refl _, ?_, ?_, ?_, rfl⟩, ⟨rfl, ?_, ?_, ?_⟩, ?_⟩
  · simp [start, Channel.new]
  · simp [start, Channel.new]
  · simp [start, Channel.new]
  · simp only [Channel.new]
    omega
  · simp [Channel.new]
  · simp [Channel.new]
  · simp [Channel.new]

/-- **Every session of a segmentable channel, in which format specific info is put in
only where there is room for it, is good.** -/
theorem channelGood_of_run {iAl : AdaptationLayer} {bitrate numMediaData : Nat} {calls : List Call} {s : Session}
    (h : Run (guarded Fits (stepOf step)) (start (.new iAl true bitrate numMediaData)) calls s) : s.Good := by
  have hinv : s.failed = false → s.Intact ∧ s.channel.Packed := by
    refine h.invariant (I := fun s => s.failed = false → s.Intact ∧ s.channel.Packed)
      (fun _ => start_intact iAl bitrate numMediaData) ?_
    intro a call b ha hstep
    exact step_intact ha hstep.1 hstep.2
  refine ⟨fun hok => (hinv hok).1, fun msg allocs status c hput _ => ?_⟩
  exact Channel.kept_putData hput

/-- Format specific info of two bytes goes with two bytes of data, and then comes another
timestamp. -/
theorem channelGood_twoMessages : ∃ s, Run (guarded Fits (stepOf step)) (start (.new ⟨4, 0, 0⟩ true 0 10))
    [.putData ⟨0, [1, 2], false, 1, [[3, 4]]⟩ [], .putData ⟨0, [], false, 2, [[5]]⟩ [], .getNextPacket .success] s ∧
      s.Good := by
  have hfits : Fits (start (.new ⟨4, 0, 0⟩ true 0 10)) (.putData ⟨0, [1, 2], false, 1, [[3, 4]]⟩ []) := by
    refine Or.inr (Or.inr (Or.inr ?_))
    rw [Channel.cutFragments_of_le (by decide)]
    decide
  have hrun : ∃ s, Run (guarded Fits (stepOf step)) (start (.new ⟨4, 0, 0⟩ true 0 10))
      [.putData ⟨0, [1, 2], false, 1, [[3, 4]]⟩ [], .putData ⟨0, [], false, 2, [[5]]⟩ [],
        .getNextPacket .success] s :=
    ⟨_, Run.cons (And.intro hfits rfl) (Run.cons (And.intro (Or.inr (Or.inl rfl)) rfl)
      (Run.cons (And.intro trivial rfl) (Run.nil _)))⟩
  obtain ⟨s, hrun⟩ := hrun
  exact ⟨s, hrun, channelGood_of_run hrun⟩

/-- Format specific info is put in front of data that fill the SDU without it. -/
theorem fsi_exceeds : ¬ ∀ iAl bitrate numMediaData calls s,
    Run (stepOf step) (start (.new iAl true bitrate numMediaData)) calls s → s.Good := by
  intro h
  have hrun : ∃ s, [Call.putData ⟨0, [1, 2], false, 1, [[3, 4, 5, 6]]⟩ [],
      .putData ⟨0, [], false, 2, [[7]]⟩ []].foldlM step (start (.new ⟨4, 0, 0⟩ true 0 10)) = some s ∧
      s.failed = false ∧ ∃ sdu ∈ s.channel.completed, s.channel.iMaxSduSize < payloadSize sdu.pdu :=
    ⟨_, rfl, rfl, _, List.mem_cons_self, by decide⟩
  obtain ⟨s, hs, hok, sdu, hmem, hsize⟩ := hrun
  have hfits := ((h _ _ _ _ s (Run.of_foldlM hs)).1 hok).fits sdu hmem
  omega

end Session

end Ftke.OutgoingChannel
