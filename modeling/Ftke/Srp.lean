import Ftke.Crc

/-!
# Ftke.Srp

The frames of the Simple Retransmission Protocol (`srp.h`, `srp.cpp`), and the
receiving half of `SRP`.

A frame is a header, a sequence number and, in commands, data, with a checksum
of sixteen bits behind it.  The numbers run modulo 256.  An SRP or NSRP command
is acknowledged before the next one is sent; WNSRP commands may be on their way
several at a time, and `Srp_0_2` keeps those that arrive early in
`iPendingRxFragList`.

The allocations of a call are inputs (`Alloc`).  `none` is an access outside of
a buffer.
-/

namespace Ftke.Srp

open Crc

/-! ## Frames -/

/-- The first bytes of the frames. -/
inductive Header
  | srpCommand
  | srpResponse
  | nsrpResponse
  | wnsrpCommand
  | wnsrpResponse
  deriving DecidableEq

/-- `SRP_COMMAND_HEADER` and the others. -/
def Header.byte : Header → UInt8
  | srpCommand => 0xF9
  | srpResponse => 0xFB
  | nsrpResponse => 0xF7
  | wnsrpCommand => 0xF1
  | wnsrpResponse => 0xF3

/-- `PVMFSharedMediaData`: the bytes and the sequence number noted with them. -/
structure MediaData where
  seqNum : UInt8
  bytes : List UInt8
  deriving DecidableEq

/-- `CrcSetToFrame`, at the end of a frame. -/
def withCrc (bytes : List UInt8) : List UInt8 :=
  bytes ++ [(crc16 bytes &&& 0xff).toUInt8, ((crc16 bytes &&& 0xff00) >>> 8).toUInt8]

/-- `SrpResponseCreate`. -/
def srpResponseCreate (seqNum : UInt8) (header : Header) : MediaData :=
  ⟨seqNum, withCrc (if header = .srpResponse then [header.byte] else [header.byte, seqNum])⟩

/-- `SrpCommandCreate`; the packet starts with its sequence number. -/
def srpCommandCreate (pPkt : MediaData) (header : Header) : MediaData :=
  ⟨pPkt.seqNum, withCrc (header.byte :: pPkt.bytes)⟩

/-- A chunk as it is handed to the upper layer, with the mark of the last one of
a message. -/
structure Chunk where
  bytes : List UInt8
  marker : Bool
  deriving DecidableEq

/-! ## The receiving half -/

/-- `SRPRxData`. -/
structure RxData where
  seqNum : UInt8
  data : Chunk
  deriving DecidableEq

/-- The fields of `SRP` that concern the reception; `iFreeRxFragList` is the
number of fragments that are free. -/
structure Receiver where
  iCcsrlSduSize : Nat
  iWNSRPRxWindow : Nat
  iFirstCmd : Bool
  iRecvSeqNumber : UInt8
  iOldestWNSRPRetransSeqNum : UInt8
  iPendingRxFragList : List RxData
  iFreeRxFragList : Nat
  deriving DecidableEq

/-- Which allocations of a call go through: that of the receive buffer and that
of the response. -/
structure Alloc where
  rx : Bool
  resp : Bool
  deriving DecidableEq

/-- `MAX_SIZE_OF_SRP_PDU`. -/
def maxSizeOfSrpPdu : Nat := 1024

/-- The step of both counters. -/
def count (n : UInt8) : UInt8 := if n < 255 then n + 1 else 0

namespace Receiver

/-- The state after `SrpInitL` and `SrpStart`, which calls `SrpRecvSeqClear`. -/
def srpStart (iCcsrlSduSize iWNSRPRxWindow : Nat) : Receiver where
  iCcsrlSduSize := iCcsrlSduSize
  iWNSRPRxWindow := iWNSRPRxWindow
  iFirstCmd := true
  iRecvSeqNumber := 0
  iOldestWNSRPRetransSeqNum := ((0 - (256 - UInt32.ofNat iWNSRPRxWindow) / 2) % 256).toUInt8
  iPendingRxFragList := []
  iFreeRxFragList := iWNSRPRxWindow

/-- `SrpRecvSeqCount`. -/
def srpRecvSeqCount (r : Receiver) : Receiver :=
  { r with
    iRecvSeqNumber := count r.iRecvSeqNumber
    iOldestWNSRPRetransSeqNum := count r.iOldestWNSRPRetransSeqNum }

/-- `AddPendingRxFrag`. -/
def addPendingRxFrag (frag : RxData) : List RxData → List RxData
  | [] => [frag]
  | cur :: l => if cur.seqNum > frag.seqNum then frag :: cur :: l else cur :: addPendingRxFrag frag l

/-- `CheckPendingRxList`. -/
def checkPendingRxList (r : Receiver) (seqNum : UInt8) : Bool :=
  r.iPendingRxFragList.any fun data => data.seqNum = seqNum

/-- `CheckWNSRPRetrans`. -/
def checkWNSRPRetrans (r : Receiver) (seqNum : UInt8) : Bool :=
  if r.iOldestWNSRPRetransSeqNum < r.iRecvSeqNumber then
    seqNum < r.iRecvSeqNumber && r.iOldestWNSRPRetransSeqNum < seqNum
  else
    seqNum < r.iRecvSeqNumber || r.iOldestWNSRPRetransSeqNum < seqNum

/-- The test of the receive window, which may wrap. -/
def inRxWindow (r : Receiver) (seqNum : UInt8) : Bool :=
  let endSeqNum := (r.iRecvSeqNumber.toNat + r.iWNSRPRxWindow) % 256
  if endSeqNum > r.iRecvSeqNumber.toNat then
    !(seqNum < r.iRecvSeqNumber || seqNum.toNat > endSeqNum)
  else
    r.iRecvSeqNumber ≤ seqNum || seqNum.toNat ≤ endSeqNum

/-- `CheckRxSeqNum`: whether the frame is to be taken, and the response that is
sent when it is not. -/
def checkRxSeqNum (r : Receiver) (seqNum : UInt8) (header : Header) (resp : Bool) :
    Bool × List MediaData :=
  let respond := if resp then [srpResponseCreate seqNum header] else []
  match header with
  | .wnsrpResponse =>
    if r.checkPendingRxList seqNum then (false, respond)
    else if r.inRxWindow seqNum then (true, [])
    else (false, if r.checkWNSRPRetrans seqNum then respond else [])
  | .nsrpResponse | .srpResponse =>
    if seqNum ≠ r.iRecvSeqNumber then
      (false, if (seqNum.toNat + 1) % 256 = r.iRecvSeqNumber.toNat then respond else [])
    else (true, [])
  | _ => (false, [])

/-- The length of the data in a command. -/
def fragLen (r : Receiver) (inPkt : MediaData) : Int :=
  if r.iCcsrlSduSize > 0 then (inPkt.bytes.length : Int) - 1 - 1 - 1 - 2
  else (inPkt.bytes.length : Int) - 1 - 1 - 2

/-- The data of a command, which is of a size that is not negative. -/
def chunk (r : Receiver) (inPkt : MediaData) : Chunk :=
  let pData := inPkt.bytes.drop 2
  if r.iCcsrlSduSize > 0 then
    ⟨(pData.drop 1).take (r.fragLen inPkt).toNat, pData.head? = some 0xFF⟩
  else ⟨pData.take (r.fragLen inPkt).toNat, true⟩

/-- `SrpMsgCopy`; the inner `none` is the result `false`. -/
def srpMsgCopy (r : Receiver) (inPkt : MediaData) (rx : Bool) : Option (Option Receiver) :=
  if r.fragLen inPkt > maxSizeOfSrpPdu then some none
  else if r.iFreeRxFragList = 0 ∨ rx = false then some none
  else if r.fragLen inPkt < 0 then none
  else some (some { r with
    iPendingRxFragList := addPendingRxFrag ⟨inPkt.seqNum, r.chunk inPkt⟩ r.iPendingRxFragList
    iFreeRxFragList := r.iFreeRxFragList - 1 })

/-- The loop of `Srp_0_2`, over the pending fragments. -/
def upperLayerLoop (r : Receiver) : List RxData → Receiver × List Chunk
  | [] => ({ r with iPendingRxFragList := [] }, [])
  | rxData :: next =>
    if rxData.seqNum = r.iRecvSeqNumber then
      let r := { r with iFreeRxFragList := r.iFreeRxFragList + 1 }
      let (r, upper) := r.srpRecvSeqCount.upperLayerLoop next
      (r, rxData.data :: upper)
    else ({ r with iPendingRxFragList := rxData :: next }, [])

/-- What the first command of all sets. -/
def firstCmd (r : Receiver) (pPkt : MediaData) (header : Header) : Receiver :=
  if r.iFirstCmd then
    { r with
      iRecvSeqNumber := if header = .wnsrpResponse then 0 else pPkt.seqNum
      iFirstCmd := false }
  else r

/-- `Srp_0_2`, `header` being the one of the response to the command: the frames
for the lower layer and the chunks for the upper one. -/
def srp_0_2 (r : Receiver) (pPkt : MediaData) (header : Header) (alloc : Alloc) :
    Option (Receiver × List MediaData × List Chunk) :=
  let r := r.firstCmd pPkt header
  match r.checkRxSeqNum pPkt.seqNum header alloc.resp with
  | (false, lower) => some (r, lower, [])
  | (true, lower) => do
    match ← r.srpMsgCopy pPkt alloc.rx with
    | none => return (r, lower, [])
    | some r =>
      if alloc.resp then
        let (r, upper) := r.upperLayerLoop r.iPendingRxFragList
        return (r, lower ++ [srpResponseCreate pPkt.seqNum header], upper)
      else return (r, lower, [])

end Receiver

end Ftke.Srp
