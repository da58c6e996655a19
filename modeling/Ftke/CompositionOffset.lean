import Ftke.TimeToSample

/-!
# Ftke.CompositionOffset

The composition offset table (`compositionoffsetatom.cpp`): the positions it keeps for reading in
order, and the marker table that `Run` fills in slices and the search for a sample starts from.
-/

namespace Ftke.CompositionOffset

open TimeToSample (Entry Position Positions pvError getAt)
open TableWindow

variable {count : Nat}

/-- The look-ahead of `ParseEntryUnit`. -/
def threshold : Nat := 1024

/-! ## Reading in order -/

/-- The loop of `resetStateVariables`, which reads the slots as they are. -/
def resetLoop (sampleNum : UInt32) : (left : Nat) → Position → Probe Entry (UInt32 × Position)
  | 0, p => .done (pvError, p)
  | left + 1, p =>
    .slot p.nextIndex fun e =>
      if sampleNum ≤ (p.add e).sampleCount then .done (0, p.add e) else resetLoop sampleNum left (p.add e)

/-- A call of one of the functions that read in order. -/
inductive Call where
  | getSampleCountAt (index : Nat)
  | getSampleOffsetAt (index : Nat)
  | getTimeOffsetForSampleNumberPeek (sampleNum : UInt32)
  | getTimeOffsetForSampleNumberGet (sampleNum : UInt32)
  | resetStateVariables (sampleNum : UInt32)
  | resetPeekwithGet

/-- `resetStateVariables` fills a window that nothing has been read into. -/
def prepare (file : List Entry) : Call → Table Entry count → Table Entry count
  | .resetStateVariables sampleNum, .window w =>
    if w.parsedEntryCnt = 0 then .window (w.parseEntryUnit file threshold sampleNum.toNat).2 else .window w
  | _, table => table

/-- What a call does. -/
def handle (count fuel : Nat) (c : Positions) : Call → Probe Entry (Option (UInt32 × Positions))
  | .getSampleCountAt index => (getAt count Entry.sampleCount index).map fun r => some (r, c)
  | .getSampleOffsetAt index => (getAt count Entry.value index).map fun r => some (r, c)
  | .getTimeOffsetForSampleNumberPeek sampleNum =>
    (c.peek.read count fuel sampleNum).map fun r => r.map fun r => (r.1, { c with peek := r.2 })
  | .getTimeOffsetForSampleNumberGet sampleNum =>
    (c.get.read count fuel sampleNum).map fun r => r.map fun r => (r.1, { c with get := r.2 })
  | .resetStateVariables sampleNum => (resetLoop sampleNum count .start).map fun r => some (r.1, .both r.2)
  | .resetPeekwithGet => .done (some (0, .both c.get))

/-! ## The marker table -/

/-- `MT_SAMPLECOUNT_INCREMENT`. -/
def sampleCountIncrement : Nat := 100

/-- `NUMBER_OF_SAMPLE_POPULATES_PER_RUNL`. -/
def populatesPerRun : Nat := 50

/-- An element of `MT_SampleCount` and of `MT_EntryCount`. -/
structure Marker where
  sampleCount : UInt32
  entryCount : UInt32
  deriving DecidableEq, Inhabited

/-- The marker table and what filling it goes by; there is no table before the first `Run`. -/
structure MarkerTable where
  markers : Option (List Marker)
  counter : Nat
  addSampleCount : UInt32
  prevSampleCount : UInt32
  entrycountTraversed : Nat
  refSample : UInt32
  j : Nat
  scheduled : Bool
  deriving DecidableEq

/-- `ENABLE_MT_LOGIC_ON_CTTS_ENTRY_COUNT_VALUE`. -/
def enableMarkersOn : Nat := 512

/-- What the constructor and `setSamplesCount` leave. -/
def MarkerTable.new (count : Nat) : MarkerTable where
  markers := none
  counter := 1
  addSampleCount := 0
  prevSampleCount := 0
  entrycountTraversed := 0
  refSample := 100
  j := 1
  scheduled := enableMarkersOn < count

/-- `MT_Table_Size`. -/
def tableSize (totalNumSamples : UInt32) : Nat := totalNumSamples.toNat / sampleCountIncrement

/-- The first entry begins the sums over again; `none` for an index outside the marker table. -/
def MarkerTable.begin (m : MarkerTable) (e : Entry) : Option MarkerTable :=
  m.markers.bind fun markers =>
    if 0 < markers.length then
      some { m with
        markers := some (markers.modify 0 ({ · with sampleCount := e.sampleCount }))
        prevSampleCount := e.sampleCount
        addSampleCount := e.sampleCount }
    else none

/-- The next entry is added. -/
def MarkerTable.add (m : MarkerTable) (e : Entry) : MarkerTable :=
  { m with prevSampleCount := m.addSampleCount, addSampleCount := m.addSampleCount + e.sampleCount, j := m.j + 1 }

/-- The marker that is set next; for the same samples as the marker before it has the same entry. -/
def MarkerTable.nextMarker (m : MarkerTable) (markers : List Marker) : Marker :=
  let before := markers.getD (m.counter - 1) default
  ⟨m.prevSampleCount,
    if m.prevSampleCount = before.sampleCount then before.entryCount else UInt32.ofNat m.j - 2⟩

/-- A marker is set, with the loop at `i`; `none` for an index outside the marker table. -/
def MarkerTable.mark (m : MarkerTable) (i : Nat) : Option MarkerTable :=
  m.markers.bind fun markers =>
    if m.counter < markers.length then
      some { m with
        markers := some (markers.set m.counter (m.nextMarker markers))
        counter := m.counter + 1
        refSample := m.refSample + 100
        entrycountTraversed := i - 1 }
    else none

/-- The loop of `populateMarkerTable`. A marker leaves `i` as it is. -/
def populateLoop (count : Nat) (totalNumSamples : UInt32) (i numPopulated : Nat) (m : MarkerTable) :
    Probe Entry (Option MarkerTable) :=
  if i < count ∧ m.refSample < totalNumSamples then
    if i = 0 then
      .check i <| .slot i fun e =>
        match m.begin e with
        | none => .done none
        | some m' => populateLoop count totalNumSamples (i + 1) numPopulated m'
    else if m.addSampleCount < m.refSample then
      .check m.j <| .slot m.j fun e => populateLoop count totalNumSamples (i + 1) numPopulated (m.add e)
    else
      match m.mark i with
      | none => .done none
      | some m' =>
        if populatesPerRun ≤ numPopulated + 1 ∨ tableSize totalNumSamples ≤ m'.counter then .done (some m')
        else populateLoop count totalNumSamples i (numPopulated + 1) m'
  else .done (some m)
termination_by (count - i) + (populatesPerRun - numPopulated)

/-- `createMarkerTable`, unless there is one. -/
def MarkerTable.create (m : MarkerTable) (totalNumSamples : UInt32) : MarkerTable :=
  { m with markers := m.markers.or (some (List.replicate (tableSize totalNumSamples) ⟨0, 0⟩)) }

/-- `Run`. -/
def run (count : Nat) (totalNumSamples : UInt32) (m : MarkerTable) : Probe Entry (Option MarkerTable) :=
  (populateLoop count totalNumSamples m.entrycountTraversed 0 (m.create totalNumSamples)).map fun populated =>
    populated.map fun m' =>
      { m' with
        scheduled :=
          m'.entrycountTraversed < count ∧ m'.refSample < totalNumSamples ∧ m'.counter < tableSize totalNumSamples }

/-- The search for a sample from entry `i` on, with `left` entries to go. -/
def offsetLoop (num : UInt32) : (left i : Nat) → (sampleCount : UInt32) → Probe Entry UInt32
  | 0, _, _ => .done pvError
  | left + 1, i, sampleCount =>
    .check i <| .slot i fun e =>
      if num < sampleCount + e.sampleCount then .done e.value
      else offsetLoop num left (i + 1) (sampleCount + e.sampleCount)

/-- `getTimeOffsetFromMT`. -/
def getTimeOffsetFromMT (count : Nat) (num : UInt32) (currEC : Nat) (currSampleCount : UInt32) :
    Probe Entry UInt32 :=
  if count = 0 then .done pvError
  else if num < currSampleCount then .check currEC <| .slot currEC fun e => .done e.value
  else offsetLoop num (count - (currEC + 1)) (currEC + 1) currSampleCount

/-- The walk back from marker `MT_EC`; `none` for an index outside the marker table. -/
def walkBack (markers : List Marker) (num : UInt32) : (MT_EC : Nat) → Option Marker
  | 0 => markers[0]?
  | MT_EC + 1 =>
    markers[MT_EC + 1]?.bind fun marker =>
      if num < marker.sampleCount then walkBack markers num MT_EC else some marker

/-- The marker that the search for a sample tries first. -/
def firstMarker (totalNumSamples : UInt32) (counter : Nat) (num : UInt32) : Nat :=
  let guess := num.toNat / (sampleCountIncrement - 1)
  -- In 32 bits one less than a table size of 0 is no bound.
  let guess := if tableSize totalNumSamples = 0 then guess else min guess (tableSize totalNumSamples - 1)
  min guess counter

/-- `getTimeOffsetForSampleNumber`; `none` for an index outside the marker table. -/
def getTimeOffsetForSampleNumber (count : Nat) (totalNumSamples : UInt32) (m : MarkerTable) (num : UInt32) :
    Probe Entry (Option UInt32) :=
  match m.markers with
  | some markers =>
    match walkBack markers num (firstMarker totalNumSamples m.counter num) with
    | some marker => (getTimeOffsetFromMT count num marker.entryCount.toNat marker.sampleCount).map some
    | none => .done none
  | none => (if count = 0 then .done pvError else offsetLoop num count 0 0).map some

end Ftke.CompositionOffset
