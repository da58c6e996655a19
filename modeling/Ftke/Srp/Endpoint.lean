import Ftke.Srp.Sender

/-!
# Ftke.Srp.Endpoint

`SRP` as a whole: the frames that come from the lower layer, the messages that
come from the upper one, and the timeouts, through the table of states and
events.
-/

namespace Ftke.Srp

open Crc

/-- The two halves of `SRP`. -/
structure Endpoint where
  tx : Sender
  rx : Receiver

/-- What a call hands to the lower and to the upper layer. -/
structure Output where
  lower : List MediaData
  upper : List Chunk

/-- The allocations of a call: those of the receiving half, how many commands can
be created, and for a message how many packets the pool has (`NumMsgAvail`), how
many of them are created, and whether the one that is not has been given its
sequence number. -/
structure Allocs where
  rx : Alloc
  avail : Nat
  numMsgAvail : Nat
  packets : Nat
  numbered : Bool

namespace Endpoint

/-- The state after `SrpInitL`. -/
def srpInitL (tx : Sender) (iCcsrlSduSize iWNSRPRxWindow : Nat) : Endpoint where
  tx :=
    { tx with
      iFirstNSRPResp := false
      iN402Counter := 0
      iSendSeqNumber := 0
      iStatus := .idle
      iCurWnsrpStatus := .wnsrpTxSupport
      iSrpWaitQueue := []
      iSrpCommandSave := .new
      iWnsrpCommandSave := fun _ => .new
      iFreeWnsrpCommandSave := List.range tx.iWNSRPTxWindow
      iActiveWnsrpCommandSave := [] }
  rx := .srpStart iCcsrlSduSize iWNSRPRxWindow

/-! ## Frames from the lower layer -/

/-- `MINIMUM_FRAME_SIZE`. -/
def minimumFrameSize : Nat := 3

/-- The frame ends with the checksum of what comes before. -/
def crcOk (pFrame : List UInt8) : Bool := withCrc (pFrame.take (pFrame.length - 2)) = pFrame

/-- `SrpN402Count` and `SrpN402Check`: too many responses to SRP commands end the
search for WNSRP. -/
def countResponse (s : Endpoint) : Endpoint :=
  if s.tx.iCurWnsrpStatus = .wnsrpTxSupport then
    let tx := { s.tx with iN402Counter := s.tx.iN402Counter + 1 }
    if tx.iN402Counter < tx.iN402MaxCounter then { s with tx := tx }
    else { s with tx := tx.wnsrpStatusSet .noWnsrpSupport }
  else s

/-- The other side has WNSRP. -/
def fullSupport (s : Endpoint) : Endpoint :=
  if s.tx.iCurWnsrpStatus = .wnsrpTxSupport then
    { s with tx := s.tx.wnsrpStatusSet .wnsrpFullSupport }
  else s

/-- The third byte is a mark of a chunk, where there are chunks. -/
def validChunk (s : Endpoint) (pFrame : List UInt8) : Bool :=
  s.rx.iCcsrlSduSize = 0 || pFrame[2]? = some 0x00 || pFrame[2]? = some 0xFF

/-- `SrpGetEventNoFromAL1`, of a frame in one fragment: the event and the
sequence number that is noted. -/
def srpGetEventNoFromAL1 (s : Endpoint) (pFrame : List UInt8) : Event × UInt8 × Endpoint :=
  if pFrame.length < minimumFrameSize ∨ crcOk pFrame = false then (.nop, 0, s)
  else
    let header := pFrame.headD 0
    let seqNum := (pFrame.drop 1).headD 0
    if header = Header.srpCommand.byte then
      let s :=
        if s.tx.iCurWnsrpStatus = .wnsrpTxSupport ∧ s.rx.iFirstCmd = true ∧ seqNum ≠ 0 then
          { s with tx := s.tx.wnsrpStatusSet .noWnsrpSupport }
        else s
      (if s.validChunk pFrame then .command else .nop, seqNum, s)
    else if header = Header.srpResponse.byte then
      let s := s.countResponse
      (if s.tx.iUseNSRP ∧ s.tx.iFirstNSRPResp then .nop else .response, 0, s)
    else if header = Header.nsrpResponse.byte then
      let s := s.countResponse
      if s.tx.iUseNSRP then
        (.nsrpResponse, seqNum, { s with tx := { s.tx with iFirstNSRPResp := true } })
      else (.response, 0, s)
    else if header = Header.wnsrpCommand.byte then
      if s.tx.iHandleWNSRP = false ∨ s.tx.iCurWnsrpStatus = .noWnsrpSupport then (.nop, 0, s)
      else
        let s := s.fullSupport
        (if s.validChunk pFrame then .wnsrpCommand else .nop, seqNum, s)
    else if header = Header.wnsrpResponse.byte then
      if s.tx.iHandleWNSRP = false ∨ s.tx.iCurWnsrpStatus = .noWnsrpSupport then (.nop, 0, s)
      else (.wnsrpResponse, seqNum, s.fullSupport)
    else (.nop, 0, s)

/-- `Srp_0_2`, with the header of its response. -/
def commandReceived (s : Endpoint) (pPkt : MediaData) (event : Event) (alloc : Alloc) :
    Except Fault (Endpoint × Output) :=
  let header : Header :=
    if event = .wnsrpCommand then .wnsrpResponse
    else if s.tx.iUseNSRP then .nsrpResponse else .srpResponse
  match s.rx.srp_0_2 pPkt header alloc with
  | none => .error .overflow
  | some (rx, lower, upper) => .ok ({ s with rx := rx }, ⟨lower, upper⟩)

/-- A call of the sending half. -/
def send (s : Endpoint) (r : Except Fault (Sender × List MediaData)) : Except Fault (Endpoint × Output) := do
  let (tx, lower) ← r
  return ({ s with tx := tx }, ⟨lower, []⟩)

/-- `SrpStateChange` for a frame: the rows of `iSrpStateTable`. -/
def frameReceived (s : Endpoint) (pPkt : MediaData) (event : Event) (allocs : Allocs) :
    Except Fault (Endpoint × Output) :=
  match s.tx.iStatus, event with
  | _, .command | _, .wnsrpCommand => s.commandReceived pPkt event allocs.rx
  | .waitResponse, .response | .waitResponse, .nsrpResponse | .waitResponse, .wnsrpResponse =>
    s.send (s.tx.srp_1_3 pPkt.seqNum event allocs.avail)
  | _, _ => .ok (s, ⟨[], []⟩)

/-- `LowerLayerRx`: the frame is copied to a buffer of a fixed size. -/
def lowerLayerRx (s : Endpoint) (pFrame : List UInt8) (allocs : Allocs) : Except Fault (Endpoint × Output) :=
  if pFrame.length > maxSizeOfSrpPdu then .error .overflow
  else
    let (event, seqNum, s) := s.srpGetEventNoFromAL1 pFrame
    s.frameReceived ⟨seqNum, pFrame⟩ event allocs

/-! ## Messages from the upper layer -/

/-- A packet put into the queue, with the next sequence number. -/
def queuePacket (s : Endpoint) (mark : List UInt8) (data : List UInt8) : Endpoint :=
  let seqNum := s.tx.iSendSeqNumber
  { s with tx := { s.tx with
    iSendSeqNumber := count seqNum
    iSrpWaitQueue := s.tx.iSrpWaitQueue ++ [⟨seqNum, seqNum :: (mark ++ data)⟩] } }

/-- A packet that could not be created. -/
def noPacket (s : Endpoint) (numbered : Bool) : Endpoint :=
  if numbered then { s with tx := { s.tx with iSendSeqNumber := count s.tx.iSendSeqNumber } } else s

/-- The loop of `UpperLayerRx` over the chunks of a message, each of which needs
a packet; the last result is false when there was none. -/
def chunkLoop (numbered : Bool) : Nat → Endpoint → List UInt8 → Endpoint × Bool
  | _, s, [] => (s, true)
  | 0, s, _ :: _ => (s.noPacket numbered, false)
  | packets + 1, s, b :: buf =>
    let size := s.rx.iCcsrlSduSize
    if (b :: buf).length ≤ size then (s.queuePacket [0xFF] (b :: buf), true)
    else chunkLoop numbered packets (s.queuePacket [0x00] ((b :: buf).take size)) ((b :: buf).drop size)

/-- `SrpStateChange` for a message. -/
def pduQueued (s : Endpoint) (avail : Nat) : Except Fault (Endpoint × Output) :=
  match s.tx.iStatus with
  | .idle => s.send (s.tx.srp_0_1 avail)
  | .waitResponse => s.send (.ok (s.tx.srp_1_1 avail))

/-- `UpperLayerRx`, of a message in one fragment. -/
def upperLayerRx (s : Endpoint) (frag : List UInt8) (allocs : Allocs) : Except Fault (Endpoint × Output) :=
  if s.rx.iCcsrlSduSize > 0 then
    if frag.length / s.rx.iCcsrlSduSize + 1 > allocs.numMsgAvail then .ok (s, ⟨[], []⟩)
    else
      let (s, ok) := chunkLoop allocs.numbered allocs.packets s frag
      if ok then s.pduQueued allocs.avail else .ok (s, ⟨[], []⟩)
  else if allocs.numMsgAvail = 0 then .ok (s, ⟨[], []⟩)
  else if allocs.packets = 0 then .ok (s.noPacket allocs.numbered, ⟨[], []⟩)
  else (s.queuePacket [] frag).pduQueued allocs.avail

/-! ## The other calls -/

/-- `TimeoutOccurred`. -/
def timeoutOccurred (s : Endpoint) (timerID : Nat) : Except Fault (Endpoint × Output) :=
  match s.tx.iStatus with
  | .idle => .ok (s, ⟨[], []⟩)
  | .waitResponse => s.send (s.tx.srp_1_4 timerID)

/-- `UseNSRP`. -/
def useNSRP (s : Endpoint) (aUseNsrp : Bool) : Endpoint :=
  if aUseNsrp = s.tx.iUseNSRP then s
  else { s with tx := { s.tx with iUseNSRP := aUseNsrp, iFirstNSRPResp := false } }

/-- `DisableWNSRPSupport`. -/
def disableWNSRPSupport (s : Endpoint) : Endpoint :=
  let s :=
    if s.tx.iCurWnsrpStatus = .wnsrpTxSupport then
      { s with tx := s.tx.wnsrpStatusSet .noWnsrpSupport }
    else s
  { s with tx := { s.tx with iHandleWNSRP := false } }

end Endpoint

end Ftke.Srp
