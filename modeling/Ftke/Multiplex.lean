import Mathlib.Algebra.Ring.Nat
import Mathlib.Data.List.Basic

/-!
# Ftke.Multiplex

The receiving half of the H.223 multiplexer: `MuxPduIndicate`, the multiplex
table lookup and `BreakPduData`, which takes a MUX-PDU apart.

A logical channel is a parameter: `BreakPduData` asks it to copy bytes, to
dispatch what it has, to start afresh, and how many SDUs it has received.  The
`pdu` pointer, which the source passes by reference, is counted from the first
byte of the MUX-PDU, and `handed` is the list of the calls of `AlPduData`.
-/

namespace Ftke.Multiplex

/-! ## Multiplex table entries -/

/-- `S_RepeatCount`. -/
inductive RepeatCount
  | finite (count : UInt16)
  | untilClosingFlag
  deriving DecidableEq

/-- `S_MultiplexElement`: its `muxType` is a logical channel number or a list. -/
inductive MultiplexElement
  | logicalChannelNumber (lcn : UInt16) (repeatCount : RepeatCount)
  | subElementList (elements : List MultiplexElement) (repeatCount : RepeatCount)

/-! ## Logical channels -/

/-- What `BreakPduData` asks of a `H223IncomingChannel`; the `Bool` is whether the
call succeeded. -/
structure ChannelCode (σ : Type*) where
  alPduData : List UInt8 → σ → σ × Bool
  alDispatch : σ → σ × Bool
  resetAlPdu : σ → σ
  getNumSdusIn : σ → UInt32

/-- An incoming channel; its number and kind do not change. -/
structure IncomingChannel (σ : Type*) where
  lcn : UInt32
  iSegmentable : Bool
  state : σ

/-- The part of `CPVH223Multiplex` that receives. -/
structure CPVH223Multiplex (σ : Type*) where
  iIncomingChannels : List (Option (IncomingChannel σ))
  iLcnEnd : Option Nat
  /-- the incoming descriptors of `MuxTableMgr` -/
  iMuxDescriptorR : Nat → Option (List MultiplexElement)
  /-- the calls of the observer's `LcnDataDetected` -/
  lcnDataDetected : List UInt32

/-- One call of `AlPduData`: `n` bytes from `pdu` on. -/
structure Handover where
  channel : Nat
  pdu : Nat
  n : UInt16
  deriving DecidableEq

/-- The multiplexer while it takes a MUX-PDU apart. -/
structure Demux (σ : Type*) extends CPVH223Multiplex σ where
  pdu : Nat
  handed : List Handover

variable {σ : Type*}

/-- The channel that an element names: only 16 bits of its number count. -/
def findIncoming (channels : List (Option (IncomingChannel σ))) (lcn : UInt16) : Option Nat :=
  channels.findIdx? fun channel => channel.any fun rep => lcn == rep.lcn.toUInt16

/-- A change of one channel. -/
def CPVH223Multiplex.setState (m : CPVH223Multiplex σ) (i : Nat) (f : σ → σ) : CPVH223Multiplex σ :=
  { m with iIncomingChannels :=
      m.iIncomingChannels.modify i (Option.map fun rep => { rep with state := f rep.state }) }

def CPVH223Multiplex.channel? (m : CPVH223Multiplex σ) (i : Nat) : Option (IncomingChannel σ) :=
  (m.iIncomingChannels[i]?).join

section
variable (code : ChannelCode σ)

/-! ## Calls of a channel -/

/-- `AlPduData`, which resets the channel when there is no memory. -/
def alPduData (mem : Nat → UInt8) (i : Nat) (n : Nat) (m : Demux σ) : Demux σ :=
  let len := UInt16.ofNat n
  let buf := (List.range len.toNat).map fun k => mem (m.pdu + k)
  { m with
    toCPVH223Multiplex := m.toCPVH223Multiplex.setState i fun s =>
      if (code.alPduData buf s).2 then (code.alPduData buf s).1
      else code.resetAlPdu (code.alPduData buf s).1
    handed := m.handed ++ [⟨i, m.pdu, len⟩] }

/-- `Dispatch`. -/
def dispatch (i : Nat) (m : CPVH223Multiplex σ) : CPVH223Multiplex σ :=
  m.setState i fun s =>
    if (code.alDispatch s).2 then (code.alDispatch s).1 else code.resetAlPdu (code.alDispatch s).1

/-- The observer is told when the channel has got its first SDU. -/
def detectData (i : Nat) (m : CPVH223Multiplex σ) : CPVH223Multiplex σ :=
  match m.channel? i with
  | some rep =>
    if code.getNumSdusIn rep.state = 1 then
      { m with lcnDataDetected := m.lcnDataDetected ++ [rep.lcn] }
    else m
  | none => m

/-- What follows once the bytes are with the channel. -/
def afterData (i : Nat) (pdu_size : Nat) (m : CPVH223Multiplex σ) : CPVH223Multiplex σ :=
  if (m.channel? i).any (·.iSegmentable) then
    if pdu_size = 0 then { m with iLcnEnd := some i } else m
  else dispatch code i m

/-! ## BreakPduData -/

/-- The locals of `BreakPduData` after a turn of its loop; `ret` is the value it
has returned in it. -/
structure Turn (σ : Type*) where
  ret : Option Nat
  pdu_size : Nat
  demuxed_size : Nat
  mux : Demux σ

/-- `min2(pdu_size, finite)`, or all when the repeat count is until closing flag. -/
def RepeatCount.octets (pdu_size : Nat) : RepeatCount → Nat
  | .finite count => min pdu_size count.toNat
  | .untilClosingFlag => pdu_size

/-- `LoopCnt`: how often a sub-element list is repeated. -/
def RepeatCount.loopCnt (pdu_size : Nat) : RepeatCount → Nat
  | .finite count => count.toNat
  | .untilClosingFlag => pdu_size

/-- An element that is a logical channel; it is passed over if the channel is not
there. -/
def elementData (mem : Nat → UInt8) (lcn : UInt16) (repeatCount : RepeatCount)
    (pdu_size demuxed_size : Nat) (m : Demux σ) : Turn σ :=
  match findIncoming m.iIncomingChannels lcn with
  | none => ⟨none, pdu_size, demuxed_size, m⟩
  | some i =>
    let n := repeatCount.octets pdu_size
    let m := alPduData code mem i n m
    let m := { m with
      toCPVH223Multiplex := afterData code i (pdu_size - n) (detectData code i m.toCPVH223Multiplex)
      pdu := m.pdu + n }
    ⟨if pdu_size - n = 0 then some (demuxed_size + n) else none, pdu_size - n, demuxed_size + n, m⟩

/-- An element that is a list of elements: `sub` takes the PDU apart by it. -/
def repeatData (sub : Demux σ → Nat × Demux σ) (pdu_size : Nat) : Nat → Nat → Demux σ → Turn σ
  | 0, demuxed_size, m => ⟨none, pdu_size, demuxed_size, m⟩
  | loopCnt + 1, demuxed_size, m =>
    let r := sub m
    let demuxed_size := demuxed_size + r.1
    -- the call has moved `pdu` already
    let m := { r.2 with pdu := r.2.pdu + demuxed_size }
    if pdu_size ≤ demuxed_size then ⟨some demuxed_size, pdu_size, demuxed_size, m⟩
    else repeatData sub pdu_size loopCnt demuxed_size m

variable (mem : Nat → UInt8)

mutual

/-- A turn of the loop over the elements. -/
def breakElement : MultiplexElement → Nat → Nat → Demux σ → Turn σ
  | .logicalChannelNumber lcn repeatCount, pdu_size, demuxed_size, m =>
    elementData code mem lcn repeatCount pdu_size demuxed_size m
  | .subElementList elements repeatCount, pdu_size, demuxed_size, m =>
    repeatData (fun m => breakElements elements pdu_size 0 m) pdu_size
      (repeatCount.loopCnt pdu_size) demuxed_size m
termination_by structural element => element

/-- The loop; at its end the source has `return false`. -/
def breakElements : List MultiplexElement → Nat → Nat → Demux σ → Nat × Demux σ
  | [], _, _, m => (0, m)
  | element :: rest, pdu_size, demuxed_size, m =>
    let turn := breakElement element pdu_size demuxed_size m
    match turn.ret with
    | some ret => (ret, turn.mux)
    | none => breakElements rest turn.pdu_size turn.demuxed_size turn.mux
termination_by structural elements => elements

end

/-- `BreakPduData`. -/
def breakPduData (elements : List MultiplexElement) (pdu_size : Nat) (m : Demux σ) : Nat × Demux σ :=
  breakElements code mem elements pdu_size 0 m

/-! ## MuxPduIndicate -/

/-- A closing flag dispatches what the channel of the last PDU has. -/
def closing (m : CPVH223Multiplex σ) : CPVH223Multiplex σ :=
  match m.iLcnEnd with
  | some i => { dispatch code i m with iLcnEnd := none }
  | none => m

/-- `MuxToALDispatch`. -/
def muxToALDispatch (pdu_size : Nat) (fClosing : Bool) (muxCode : UInt8) (m : CPVH223Multiplex σ) :
    Nat × Demux σ :=
  let m : Demux σ := ⟨if fClosing then closing code m else m, 0, []⟩
  match m.iMuxDescriptorR (muxCode &&& 0x0F).toNat with
  | some elementList => if pdu_size = 0 then (0, m) else breakPduData code mem elementList pdu_size m
  | none => (0, m)

/-- `MuxPduIndicate`; all three levels hand over the size as a `uint16`. -/
def muxPduIndicate (sz : UInt16) (fClosing : Bool) (muxCode : UInt8) (m : CPVH223Multiplex σ) :
    UInt16 × Demux σ :=
  let r := muxToALDispatch code mem sz.toNat fClosing muxCode m
  (UInt16.ofNat r.1, r.2)

end

end Ftke.Multiplex
