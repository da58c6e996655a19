import Ftke.SduDataLists
import Mathlib.Algebra.BigOperators.Group.List.Basic
import Mathlib.Algebra.Ring.Int.Defs
import Mathlib.Algebra.Ring.Nat

/-!
# Ftke.MuxPdus

The PDUs that `CPVH223Multiplex` gives to its lower layer
(`cpvh223multiplex.cpp`, `lowerlayer.cpp`, `level1.h`, `level2.h`).

`GetOutgoingMuxPdus` goes through the multiplex intervals of a timer interval. In
each it muxes the pending SDUs that are not segmentable, then those of the control
channel, then the segmentable ones, and fills the interval with stuffing.  The
three loops, and the loop of `MuxLcnData` in them, are the states of `Pc`; `step`
goes from one to the next.  What the channels, the multiplex table and the
allocators answer comes with each step as an `Answers`.

Packets are given by the sizes of their fragments.  Level 0 has no state here, and
neither has the interleaving packet: it is sent only when it is not empty, and only
sending it fills it.  `list[n].size` never exceeds what is left of the SDU's
fragments, so that `MakePduData` does not run out of them, and counts fit the 16
bits they have.
-/

namespace Ftke.MuxPdus

/-! ## The lower layer -/

/-- `Level1PduParcom` and `Level2PduParcom`. -/
inductive Parcom
  | level1 (iDf : Bool)
  | level2 (iOh : Bool)
  deriving DecidableEq

namespace Parcom

/-- `GetHeaderSz`. -/
def getHeaderSz : Parcom → Nat
  | level1 iDf => if iDf then 5 else 3
  | level2 iOh => if iOh then 6 else 5

/-- `GetStuffingSz`. -/
def getStuffingSz : Parcom → Nat
  | level1 iDf => if iDf then 4 else 2
  | level2 iOh => if iOh then 6 else 5

/-- The size of the fragments of `iHdrFragmentAlloc`; with the double flag of level 1 a
header does not fit. -/
def hdrFragmentSz : Parcom → Nat
  | level1 _ => 3
  | level2 _ => 6

/-- `setMediaFragFilledLen(0, GetHeaderSz())`, which a fragment that is too small refuses. -/
def headerFilledLen (p : Parcom) : Nat :=
  if p.getHeaderSz ≤ p.hdrFragmentSz then p.getHeaderSz else p.hdrFragmentSz

/-- `CompletePdu` for a packet whose fragments are a header and `data`; `closing` says
whether there is a fragment for a closing header. -/
def completePdu (p : Parcom) (data : List Nat) (pm closing : Bool) : Option (List Nat) :=
  match p with
  | level1 _ =>
    if pm then if closing then some (p.headerFilledLen :: data ++ [p.getHeaderSz]) else none
    else some (p.headerFilledLen :: data)
  | level2 _ => some (p.headerFilledLen :: data)

/-- `GetStuffing`: its loop leaves less than one unit of the buffer. -/
def getStuffing (p : Parcom) (buf_size : Nat) : Nat := buf_size - buf_size % p.getStuffingSz

/-- `DoStuffing`, by the size of the packet; `fragment` is the capacity of the stuffing fragment, if
there is one. -/
def doStuffing (p : Parcom) (fragment : Option Nat) (stuffing_sz : Nat) : Nat :=
  match fragment with
  | none => 0
  | some capacity => p.getStuffing (if stuffing_sz > capacity then capacity else stuffing_sz)

end Parcom

/-! ## The multiplexer -/

/-- What `MuxSduData` says of an SDU: its fragments, the bytes that are left and where they
begin. -/
structure PendingSdu where
  fragments : List Nat
  size : Nat
  cur_frag_num : Nat
  cur_pos : Nat
  deriving DecidableEq

/-- An SDU from `GetNextPacket`. -/
def PendingSdu.next (fragments : List Nat) : PendingSdu := ⟨fragments, fragments.sum % 2 ^ 16, 0, 0⟩

/-- The lists that `MuxLcnData` is called with, in this order. -/
inductive MuxList
  | nonSegmentable
  | control
  | segmentable
  deriving DecidableEq

namespace MuxList

def get (lists : SduDataLists PendingSdu) : MuxList → List (MuxSduData PendingSdu)
  | nonSegmentable => lists.iNonSegmentableSduDataList
  | control => lists.iControlSduDataList
  | segmentable => lists.iSegmentableSduDataList

def set (lists : SduDataLists PendingSdu) (data : List (MuxSduData PendingSdu)) :
    MuxList → SduDataLists PendingSdu
  | nonSegmentable => { lists with iNonSegmentableSduDataList := data }
  | control => { lists with iControlSduDataList := data }
  | segmentable => { lists with iSegmentableSduDataList := data }

end MuxList

/-- What does not change during a call: the lower layer, the channels and the settings. -/
structure Config where
  parcom : Parcom
  iPduSize : Nat
  iOutgoingChannels : List UInt32
  isSegmentable : UInt32 → Bool
  iNumMuxIntervalsPerTimerInterval : Nat
  iNumBytesPerMinSampleInterval : UInt16
  iEnableStuffing : Bool
  iStuffOnlyFirstSend : Bool

/-- The answers to what a step asks for. -/
structure Answers where
  /-- `GetNextPacket` of the channel at an index, and of the channel whose SDU is released. -/
  nextPacket : Nat → Option (List Nat)
  nextSdu : Option (List Nat)
  /-- The element of the descriptor for a channel, if there is one: how many bytes it takes, if it is finite. -/
  descriptor : Option (Option Nat)
  /-- `allocate` of a packet, and the fragments for its header and its closing header. -/
  allocated : Bool
  header : Bool
  closing : Bool
  /-- The capacity of a fragment for stuffing. -/
  stuffing : Option Nat

/-- Everything is there; no more SDUs, and PDUs that go on to the end of their SDU. -/
def Answers.untilClosing : Answers := ⟨fun _ => none, none, some none, true, true, true, some 512⟩

namespace Config

/-- `UpdateSduDataLists`, from the channel at `lcnindex` on. -/
def updateSduDataLists (c : Config) (nextPacket : Nat → Option (List Nat)) :
    Nat → List UInt32 → SduDataLists PendingSdu → SduDataLists PendingSdu
  | _, [], lists => lists
  | lcnindex, lcn :: channels, lists =>
    let pending :=
      if lcnindex = 0 then !lists.iControlSduDataList.isEmpty
      else (SduDataLists.findMuxSduData (lists.list (c.isSegmentable lcn)) lcn).isSome
    c.updateSduDataLists nextPacket (lcnindex + 1) channels
      (if pending then lists
      else
        match nextPacket lcnindex with
        | some fragments => lists.appendMuxSduData c.isSegmentable ⟨lcn, .next fragments⟩
        | none => lists)

/-- The loop of `MakePduData` over the fragments from `cur_frag_num` on: the fragments it
appends, and the SDU after it. -/
def copyFragments : List Nat → Nat → PendingSdu → List Nat × PendingSdu
  | [], _, sdu => ([], sdu)
  | fragment :: fragments, bytesToMux, sdu =>
    if bytesToMux = 0 then ([], sdu)
    else
      let bytesInCurFragment := fragment - sdu.cur_pos
      let n := min bytesToMux bytesInCurFragment
      let sdu := { sdu with cur_pos := sdu.cur_pos + n, size := sdu.size - n }
      if bytesInCurFragment - n = 0 then
        let (data, sdu) := copyFragments fragments (bytesToMux - n)
          { sdu with cur_frag_num := sdu.cur_frag_num + 1, cur_pos := 0 }
        (n :: data, sdu)
      else ([n], sdu)

/-- The bytes of an SDU that its descriptor asks for. -/
def asked (finite : Option Nat) (sdu : PendingSdu) : Nat :=
  match finite with
  | some finite => min finite sdu.size
  | none => sdu.size

/-- `bytesToMux` of `MakePduData`; where it is negative, an assertion fails. -/
def bytesToMux (max_size : Int) (finite : Option Nat) (sdu : PendingSdu) : Int := min max_size (asked finite sdu)

/-- `MakePduData`, with `pm` last. -/
def makePduData (c : Config) (max_size : Int) (finite : Option Nat) (data : MuxSduData PendingSdu) :
    List Nat × PendingSdu × Bool :=
  let (fragments, sdu) := copyFragments (data.sdu.fragments.drop data.sdu.cur_frag_num)
    (bytesToMux max_size finite data.sdu).toNat data.sdu
  (fragments, sdu, sdu.size == 0 && c.isSegmentable data.lcn)

/-- `DispatchPduPacket` with `InitPduPacket` and `CompletePduPacket`: the packet that is pushed, if
one is, and the SDU after it. -/
def dispatchPduPacket (c : Config) (a : Answers) (finite : Option Nat) (data : MuxSduData PendingSdu)
    (max_size : Int) : Option (List Nat) × PendingSdu :=
  if a.allocated = false ∨ a.header = false then (none, data.sdu)
  else
    let (fragments, sdu, pm) := c.makePduData (max_size - c.parcom.getHeaderSz) finite data
    (c.parcom.completePdu fragments pm a.closing, sdu)

/-- `ReleaseMuxSdu` for the entry at `n`; `none` where `RemoveMuxSduData` does not return. -/
def releaseMuxSdu (c : Config) (nextSdu : Option (List Nat)) (lists : SduDataLists PendingSdu)
    (which : MuxList) (n : Nat) (lcn : UInt32) : Option (SduDataLists PendingSdu) :=
  match nextSdu with
  | some fragments => some (which.set lists ((which.get lists).set n ⟨lcn, .next fragments⟩))
  | none =>
    lists.removeMuxSduData ((lists.list (c.isSegmentable lcn)).length + 1) lcn (c.isSegmentable lcn)

end Config

/-! ## GetOutgoingMuxPdus -/

inductive Status
  | success
  | noMemory
  deriving DecidableEq

/-- Where `GetOutgoingMuxPdus` is. -/
inductive Pc
  /-- At the head of the loop over the intervals. -/
  | interval
  /-- In the loop of `MuxLcnData`. -/
  | mux (which : MuxList) (n : Nat) (max_size pdu_size_left : Int)
  /-- Filling with stuffing. -/
  | stuffing
  | returned (status : Status)
  deriving DecidableEq

/-- What is emitted in an interval. -/
structure Interval where
  pdus : List (List Nat)
  stuffing : Nat

namespace Interval

def pduSizes (i : Interval) : List Nat := i.pdus.map List.sum

def size (i : Interval) : Nat := i.pduSizes.sum + i.stuffing

end Interval

/-- A call: `current` is the interval it is in, and `earlier` are those it has ended. -/
structure State where
  pc : Pc
  lists : SduDataLists PendingSdu
  n : Nat
  iPduNum : Nat
  max_pdus_size : Int
  stuffing_size : Nat
  current : Interval
  earlier : List Interval

/-- The beginning of a call. -/
def start (c : Config) (lists : SduDataLists PendingSdu) (iPduNum : Nat) : State where
  pc := .interval
  lists := lists
  n := 0
  iPduNum := iPduNum
  max_pdus_size := 0
  stuffing_size := c.parcom.getStuffingSz
  current := ⟨[], 0⟩
  earlier := []

namespace State

/-- The size that `MuxLcnData` is given: for the control channel, the whole PDU size. -/
def maxSize (c : Config) (s : State) : MuxList → Int
  | .control => (c.iPduSize : Int) % 2 ^ 16
  | _ => min s.max_pdus_size c.iPduSize % 2 ^ 16

/-- A call of `MuxLcnData`. -/
def enter (c : Config) (s : State) (which : MuxList) : State :=
  { s with pc := .mux which 0 (s.maxSize c which) (s.maxSize c which) }

/-- After `MuxLcnData`. -/
def muxed (c : Config) (s : State) (which : MuxList) (max_size pdu_size_left : Int) : State :=
  let cur_pdus_size := (max_size - pdu_size_left) % 2 ^ 16
  let s := { s with max_pdus_size := s.max_pdus_size - cur_pdus_size }
  let hdr : Int := c.parcom.getHeaderSz
  match which with
  | .nonSegmentable => if s.max_pdus_size < hdr then { s with pc := .returned .success } else s.enter c .control
  | .control =>
    if s.max_pdus_size > hdr ∧ cur_pdus_size ≠ 0 then s.enter c .control
    else if s.max_pdus_size < hdr then { s with pc := .returned .success }
    else s.enter c .segmentable
  | .segmentable =>
    if s.max_pdus_size > hdr ∧ cur_pdus_size ≠ 0 then s.enter c .segmentable
    else { s with pc := .stuffing }

/-- The head of the loop over the intervals. -/
def beginInterval (c : Config) (a : Answers) (s : State) : State :=
  if s.n < c.iNumMuxIntervalsPerTimerInterval then
    enter c
      { s with
        lists := c.updateSduDataLists a.nextPacket 0 c.iOutgoingChannels s.lists
        n := s.n + 1
        iPduNum := (s.iPduNum + 1) % 2 ^ 32
        max_pdus_size := c.iNumBytesPerMinSampleInterval.toNat
        current := ⟨[], 0⟩
        earlier := if s.n = 0 then [] else s.current :: s.earlier }
      .nonSegmentable
  else { s with pc := .returned .success }

/-- One turn of `MuxLcnData`. -/
def muxLcnData (c : Config) (a : Answers) (s : State) (which : MuxList) (n : Nat)
    (max_size pdu_size_left : Int) : Option State :=
  match (which.get s.lists)[n]? with
  | none => some (s.muxed c which max_size pdu_size_left)
  | some data =>
    match a.descriptor with
    | none => some { s with pc := .mux which (n + 1) max_size pdu_size_left }
    | some finite =>
      let (packet, sdu) := c.dispatchPduPacket a finite data pdu_size_left
      let s := { s with lists := which.set s.lists ((which.get s.lists).set n ⟨data.lcn, sdu⟩) }
      match packet with
      | none => some (s.muxed c which max_size pdu_size_left)
      | some packet =>
        let left := pdu_size_left - packet.sum
        let lists :=
          if sdu.size = 0 then c.releaseMuxSdu a.nextSdu s.lists which n data.lcn else some s.lists
        lists.map fun lists =>
          let s := { s with lists := lists, current := { s.current with pdus := packet :: s.current.pdus } }
          if left ≤ c.parcom.getHeaderSz then s.muxed c which max_size left
          else { s with pc := .mux which (n + 1) max_size left }

/-- `stuffing_size` as it is used. -/
def stuffingSize (c : Config) (s : State) : Nat :=
  if c.iEnableStuffing ∧ (c.iStuffOnlyFirstSend = false ∨ s.iPduNum = 1) then
    (max s.max_pdus_size (s.stuffing_size : Int)).toNat % 2 ^ 16
  else s.stuffing_size

/-- The end of an interval. -/
def stuff (c : Config) (a : Answers) (s : State) : State :=
  let s := { s with stuffing_size := s.stuffingSize c }
  let filled := c.parcom.doStuffing a.stuffing s.stuffing_size
  if a.allocated = true ∧ filled ≠ 0 then
    { s with pc := .interval, current := { s.current with stuffing := filled } }
  else { s with pc := .returned .noMemory }

/-- From one state of `GetOutgoingMuxPdus` to the next. -/
def step (c : Config) (s : State) (a : Answers) : Option State :=
  match s.pc with
  | .interval => some (s.beginInterval c a)
  | .mux which n max_size pdu_size_left => s.muxLcnData c a which n max_size pdu_size_left
  | .stuffing => some (s.stuff c a)
  | .returned _ => none

end State

end Ftke.MuxPdus
