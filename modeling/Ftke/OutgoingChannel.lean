import Ftke.CircularList
import Mathlib.Algebra.Ring.Int.Defs
import Mathlib.Algebra.Ring.Nat
import Mathlib.Data.List.Basic

/-!
# Ftke.OutgoingChannel

`H223OutgoingChannel`: the data that are put in an outgoing logical channel, cut and
packed into SDUs, and the ring of the SDUs that wait to be multiplexed.

A PDU is a list of fragments.  Of the adaptation layer only the sizes of the header
and the trailer count here (`Ftke.AdaptationLayer` has what is in them); a fragment
of data carries, beside its bytes, the timestamp of the message that it came with,
which nothing in the source looks at.

Every allocation may fail: `allocs` are the outcomes of those to come.
-/

namespace Ftke.OutgoingChannel

/-! ## Data -/

/-- `PVMFStatus`, as far as the channel returns it. -/
inductive Status
  | success
  | errInvalidState
  | errOverflow
  | errCancelled
  deriving DecidableEq

/-- A fragment of a PDU. -/
inductive Piece
  | hdr (size : Nat)
  | fsi (bytes : List UInt8)
  | data (timestamp : Nat) (bytes : List UInt8)
  | trlr (size : Nat)
  deriving DecidableEq

/-- `getMemFragSize`. -/
def Piece.size : Piece → Nat
  | .hdr size => size
  | .fsi bytes => bytes.length
  | .data _ bytes => bytes.length
  | .trlr size => size

/-- `getFilledSize`. -/
def filledSize (pdu : List Piece) : Nat := (pdu.map Piece.size).sum

/-- A PDU in the ring, with its timestamp. -/
structure MediaData where
  pdu : List Piece
  timestamp : Nat
  deriving DecidableEq

/-- A message that is put in the channel. -/
structure MediaMsg where
  formatID : Nat
  formatSpecificInfo : List UInt8
  randomAccessPoint : Bool
  timestamp : Nat
  fragments : List (List UInt8)

/-- `PVMF_MEDIA_CMD_FORMAT_IDS_START`. -/
def mediaCmdFormatIdsStart : Nat := 256

/-- `AdaptationLayer`: its sizes. -/
structure AdaptationLayer where
  sduSize : Nat
  hdrSz : Nat
  trlrSz : Nat

/-- `H223OutgoingChannel`.  `completed` is every PDU that was ever put in the ring; the
source does not keep it. -/
structure Channel where
  iAl : AdaptationLayer
  iSegmentable : Bool
  iBitrate : Nat
  iNumMediaData : Nat
  iMaxSduSize : Nat
  lastMediaData : CircularList MediaData
  iCurPdu : Option (List Piece)
  iCurPduTimestamp : Nat
  iNumPendingPdus : Nat
  iFsiFrag : List UInt8
  iWaitForRandomAccessPoint : Bool
  iMuxingStarted : Bool
  iPaused : Bool
  iBufferSizeMs : Nat
  iSetBufferMediaMs : Int
  iSetBufferMediaBytes : Int
  iBufferMediaMs : Int
  iBufferMediaBytes : Int
  allocs : List Bool
  completed : List MediaData

/-- What a constructor leaves; the bitrate is that of the channel with its overhead. -/
def Channel.new (iAl : AdaptationLayer) (segmentable : Bool) (bitrate numMediaData : Nat) : Channel where
  iAl := iAl
  iSegmentable := segmentable
  iBitrate := bitrate
  iNumMediaData := numMediaData
  iMaxSduSize := (((iAl.sduSize : Int) - iAl.hdrSz - iAl.trlrSz) % 2 ^ 16).toNat
  lastMediaData := .empty
  iCurPdu := none
  iCurPduTimestamp := 0
  iNumPendingPdus := 0
  iFsiFrag := []
  iWaitForRandomAccessPoint := false
  iMuxingStarted := false
  iPaused := false
  iBufferSizeMs := 2800
  iSetBufferMediaMs := 0
  iSetBufferMediaBytes := 0
  iBufferMediaMs := 0
  iBufferMediaBytes := 0
  allocs := []
  completed := []

namespace Channel

/-- The outcome of an allocation; those not listed go through. -/
def allocate (c : Channel) : Bool × Channel :=
  match c.allocs with
  | [] => (true, c)
  | outcome :: allocs => (outcome, { c with allocs })

/-! ## PDUs -/

/-- `StartAlPdu`: an empty PDU with room for the header. -/
def startAlPdu (c : Channel) : Option (List Piece) × Channel :=
  let (pdu, c) := c.allocate
  if pdu = false then (none, c)
  else if c.iAl.hdrSz = 0 then (some [], { c with iNumPendingPdus := (c.iNumPendingPdus + 1) % 2 ^ 32 })
  else
    let (hdrFrag, c) := c.allocate
    if hdrFrag = false then (none, c)
    else (some [.hdr c.iAl.hdrSz], { c with iNumPendingPdus := (c.iNumPendingPdus + 1) % 2 ^ 32 })

/-- The buffering that is left after a PDU has been put in the ring. -/
def adjustBuffering (c : Channel) (lastTS timestamp filledSize : Nat) : Channel :=
  if c.iBufferMediaMs ≠ 0 then
    let delta_t := ((timestamp : Int) - lastTS).bmod (2 ^ 32)
    let delta_t := if delta_t < 0 then delta_t + (2 ^ 31 - 1) else delta_t
    let iBufferMediaMs := (c.iBufferMediaMs - delta_t).bmod (2 ^ 32)
    let iBufferMediaBytes := (c.iBufferMediaBytes - filledSize).bmod (2 ^ 32)
    if iBufferMediaMs ≤ 0 ∨ iBufferMediaBytes ≤ 0 then { c with iBufferMediaMs := 0, iBufferMediaBytes := 0 }
    else { c with iBufferMediaMs, iBufferMediaBytes }
  else c

/-- `AppendOutgoingPkt`: whether there was memory for the message and for the entry. -/
def appendOutgoingPkt (c : Channel) (pdu : List Piece) (timestamp : Nat) : Bool × Channel :=
  let (mediaData, c) := c.allocate
  if mediaData = false then (false, c)
  else
    let (entry, c) := c.allocate
    if entry = false then (false, c)
    else
      let lastTS := ((c.lastMediaData.cells.last.bind c.lastMediaData.cells.data).map (·.timestamp)).getD timestamp
      let entry : MediaData := ⟨pdu, timestamp⟩
      let c := { c with lastMediaData := c.lastMediaData.append entry, completed := c.completed ++ [entry] }
      (true, c.adjustBuffering lastTS timestamp (filledSize pdu))

/-- `CompletePdu`: the trailer is put on, and the PDU in the ring. -/
def completePdu (c : Channel) : Bool × Channel :=
  let (trlrFrag, c) := if c.iAl.trlrSz = 0 then (true, c) else c.allocate
  if trlrFrag = false then (false, c)
  else
    let pdu := c.iCurPdu.getD [] ++ if c.iAl.trlrSz = 0 then [] else [.trlr c.iAl.trlrSz]
    let c := { c with iCurPdu := some pdu }
    let (appended, c) := c.appendOutgoingPkt pdu c.iCurPduTimestamp
    if appended = false then (false, c)
    else (true, { c with iCurPdu := none, iCurPduTimestamp := 0 })

/-- `BufferMedia`. -/
def bufferMedia (c : Channel) (aMs : Int) : Channel :=
  let iBufferMediaBytes := ((((c.iBufferSizeMs * c.iBitrate + 4000) % 2 ^ 32 / 8000 : Nat) : Int)).bmod (2 ^ 32)
  { c with
    iSetBufferMediaMs := aMs
    iBufferMediaMs := aMs
    iSetBufferMediaBytes := iBufferMediaBytes
    iBufferMediaBytes }

/-- `Flush`: the ring is emptied, and the PDU that is being filled thrown away. -/
def flush (c : Channel) : Channel :=
  { c with lastMediaData := .empty, iCurPdu := none, iCurPduTimestamp := 0, iNumPendingPdus := 0 }

/-- `GetNextPacket`. -/
def getNextPacket (c : Channel) (aStatus : Status) : Option MediaData × Channel :=
  let c := if !c.iMuxingStarted ∧ aStatus = .success then { c with iMuxingStarted := true } else c
  if aStatus = .success ∧ c.iPaused then (none, c)
  else if aStatus = .success ∧ c.iBufferMediaMs ≠ 0 ∧ c.iBufferMediaBytes ≠ 0 then (none, c)
  else
    match c.lastMediaData.takeFirst with
    | none => (none, c)
    | some (aMediaData, lastMediaData) =>
      (some aMediaData,
        { c with lastMediaData, iNumPendingPdus := (((c.iNumPendingPdus : Int) - 1) % 2 ^ 32).toNat })

/-! ## PutData -/

/-- The loop of `FragmentPacket` over a fragment that is too long. -/
def trim (iMaxSduSize : Nat) (pos : List UInt8) : List (List UInt8) :=
  if _h : pos.length ≤ iMaxSduSize ∨ iMaxSduSize = 0 then [pos]
  else pos.take iMaxSduSize :: trim iMaxSduSize (pos.drop iMaxSduSize)
termination_by pos.length
decreasing_by
  rw [List.length_drop]
  omega

/-- `FragmentPacket`; it does not return when a fragment is to be cut into nothing. -/
def fragmentPacket (c : Channel) (fragments : List (List UInt8)) :
    Option (Option (List (List UInt8)) × Channel) :=
  let (newpack, c) := c.allocate
  if newpack = false then some (none, c)
  else if c.iMaxSduSize = 0 then none
  else
    let (aFragmentedMediaData, c) := c.allocate
    if aFragmentedMediaData = false then some (none, c)
    else some (some (fragments.flatMap (trim c.iMaxSduSize)), c)

/-- A fragment goes into the current PDU. -/
def appendMediaFragment (c : Channel) (timestamp : Nat) (frag : List UInt8) : Channel :=
  { c with
    iCurPdu := c.iCurPdu.map fun pdu => pdu ++ [.data timestamp frag]
    iCurPduTimestamp := timestamp }

/-- The PDU is completed, and another started. -/
def nextPdu (c : Channel) : Bool × Channel :=
  let (completed, c) := c.completePdu
  if completed = false then (false, c)
  else
    let (iCurPdu, c) := c.startAlPdu
    (iCurPdu.isSome, { c with iCurPdu })

/-- The loop over the fragments. -/
def putFragments (timestamp : Nat) : List (List UInt8) → Nat → Channel → Status × Channel
  | [], _, c => (.success, c)
  | frag :: fragments, sdu_size, c =>
    if sdu_size ≠ 0 ∧ ((sdu_size + frag.length) % 2 ^ 32 > c.iMaxSduSize ∨ c.iSegmentable = false) then
      let (next, c) := c.nextPdu
      if next = false then (.errOverflow, c)
      else putFragments timestamp fragments (frag.length % 2 ^ 32) (c.appendMediaFragment timestamp frag)
    else
      putFragments timestamp fragments ((sdu_size + frag.length) % 2 ^ 32) (c.appendMediaFragment timestamp frag)

/-- A PDU is started unless there is one that goes on, and the format specific info
is put in. -/
def startPdu (c : Channel) (sdu_size : Nat) : Bool × Channel :=
  if sdu_size = 0 then
    let (iCurPdu, c) := c.startAlPdu
    if iCurPdu = none then (false, { c with iCurPdu })
    else if c.iFsiFrag.length ≠ 0 then
      (true, { c with iCurPdu := iCurPdu.map fun pdu => pdu ++ [.fsi c.iFsiFrag], iFsiFrag := [] })
    else (true, { c with iCurPdu })
  else (true, c)

/-- `sdu_size` for the current PDU: what is in it but the header. -/
def curSduSize (c : Channel) (pdu : List Piece) : Nat :=
  (((filledSize pdu : Int) - c.iAl.hdrSz) % 2 ^ 32).toNat

/-- The PDU of another timestamp is completed; the size of what is in the current one. -/
def finishPdu (c : Channel) (timestamp : Nat) : Bool × Nat × Channel :=
  match c.iCurPdu with
  | none => (true, 0, c)
  | some pdu =>
    if c.iCurPduTimestamp ≠ timestamp ∨ c.iSegmentable = false then
      let (completed, c) := c.completePdu
      (completed, 0, c)
    else (true, c.curSduSize pdu, c)

/-- What `PutData` does once the fragments are short enough. -/
def putMediaData (c : Channel) (timestamp : Nat) (fragments : List (List UInt8)) : Status × Channel :=
  let (finished, sdu_size, c) := c.finishPdu timestamp
  if finished = false then (.errOverflow, c)
  else
    let (started, c) := c.startPdu sdu_size
    if started = false then (.errOverflow, c)
    else putFragments timestamp fragments sdu_size c

/-- The number of fragments that are too long. -/
def numFragsRequired (c : Channel) (fragments : List (List UInt8)) : Nat :=
  fragments.countP fun frag => frag.length > c.iMaxSduSize

/-- `iNumMediaData - 1`. -/
def maxPending (c : Channel) : Nat := (((c.iNumMediaData : Int) - 1) % 2 ^ 32).toNat

/-- The channel is flushed when there may be no room for the fragments. -/
def mayOverflow (c : Channel) (fragments : List (List UInt8)) : Bool :=
  (fragments.length + c.numFragsRequired fragments + c.iNumPendingPdus) % 2 ^ 32 ≥ c.maxPending

/-- `PutData`, from the estimate of the room that is needed on. -/
def putRoom (c : Channel) (msg : MediaMsg) : Option (Status × Channel) :=
  if c.mayOverflow msg.fragments then
    some (.errOverflow, c.flush.bufferMedia (c.iSetBufferMediaMs % 2 ^ 16))
  else if c.numFragsRequired msg.fragments ≠ 0 then
    match c.fragmentPacket msg.fragments with
    | none => none
    | some (none, c) => some (.errOverflow, c)
    | some (some fragments, c) => some (c.putMediaData msg.timestamp fragments)
  else some (c.putMediaData msg.timestamp msg.fragments)

/-- `PutData`; no value where it does not return. -/
def putData (c : Channel) (msg : MediaMsg) (allocs : List Bool) : Option (Status × Channel) :=
  let c := { c with allocs }
  if msg.formatID ≥ mediaCmdFormatIdsStart then some (.success, c)
  else
    let c := { c with iFsiFrag := msg.formatSpecificInfo }
    if c.iSegmentable ∧ c.iWaitForRandomAccessPoint then
      if msg.randomAccessPoint = false then some (.errInvalidState, c)
      else putRoom { c with iWaitForRandomAccessPoint := false } msg
    else if c.iNumPendingPdus = c.maxPending then some (.errOverflow, c)
    else c.putRoom msg

end Channel

end Ftke.OutgoingChannel
