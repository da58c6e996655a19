import Mathlib.Algebra.Ring.Nat
import Mathlib.Data.UInt

/-!
# Ftke.SampleToChunk

The sample-to-chunk table of an MP4 track (`sampletochunkatom.cpp`) in its 32-bit arithmetic:
the searches from the start of the table, and the position that is moved on from sample to
sample.

The last run of a table has no length. The loops that search it go on until they have passed
the sample and need not end; they take `fuel` here, and `Returns` says that some fuel suffices.
-/

namespace Ftke.SampleToChunk

/-- `PV_ERROR`. -/
def pvError : UInt32 := 0xFFFFFFFF

/-- A run of chunks of the same size. -/
structure Entry where
  firstChunk : UInt32
  samplesPerChunk : UInt32
  sampleDescriptionIndex : UInt32
  deriving DecidableEq, Repr, Inhabited

variable {α : Type*}

/-- A loop that returns, with enough fuel. -/
def Returns (run : Nat → Option α) (a : α) : Prop := ∃ fuel, run fuel = some a

/-! ## The searches -/

/-- How often a loop up to `(int32)numChunksInRun` is run. -/
def turns (numChunksInRun : UInt32) : Nat := numChunksInRun.toInt32.toInt.toNat

/-- The loop over the chunks of a run: the chunk with the sample, counted in the run, and its first
sample, or what the samples add up to. -/
def findInRun (sampleNum samplesPerChunk : UInt32) : Nat → (j sampleCount : UInt32) → (UInt32 × UInt32) ⊕ UInt32
  | 0, _, sampleCount => .inr sampleCount
  | n + 1, j, sampleCount =>
    if sampleNum < sampleCount + samplesPerChunk then .inl (j, sampleCount)
    else findInRun sampleNum samplesPerChunk n (j + 1) (sampleCount + samplesPerChunk)

/-- The loop over the chunks of the last run. -/
def findInLastRun (sampleNum samplesPerChunk : UInt32) : Nat → (k sampleCount : UInt32) → Option (UInt32 × UInt32)
  | 0, _, _ => none
  | fuel + 1, k, sampleCount =>
    if sampleNum < sampleCount + samplesPerChunk then some (k, sampleCount)
    else findInLastRun sampleNum samplesPerChunk fuel (k + 1) (sampleCount + samplesPerChunk)

/-- Where a search ends: the run, the chunk and its first sample, how many chunks are left in the
run from it on, and how many the run has; the last run counts as having one. -/
structure Found where
  run : Nat
  entry : Entry
  chunk : UInt32
  firstSample : UInt32
  chunksLeft : UInt32
  chunksInRun : UInt32
  deriving DecidableEq

/-- The search for a sample, from run `i` on; `none` for a table that ends. The loop over the last
run is `guarded` by a condition that `getSamplesPerChunkCorrespondingToSample` does not have. -/
def search (guarded : Bool) (sampleNum : UInt32) (fuel : Nat) : (i : Nat) → List Entry → (sampleCount : UInt32) →
    Option (Option Found)
  | _, [], _ => some none
  | i, [e], sampleCount =>
    if guarded ∧ sampleNum < sampleCount then some none
    else
      (findInLastRun sampleNum e.samplesPerChunk fuel 0 sampleCount).map fun found =>
        some ⟨i, e, e.firstChunk + found.1, found.2, 1, 1⟩
  | i, e :: e' :: tbl, sampleCount =>
    let numChunksInRun := e'.firstChunk - e.firstChunk
    let count := sampleCount + e.samplesPerChunk * numChunksInRun
    if count < sampleNum then search guarded sampleNum fuel (i + 1) (e' :: tbl) count
    else
      match findInRun sampleNum e.samplesPerChunk (turns numChunksInRun) 0 sampleCount with
      | .inl found =>
        some (some ⟨i, e, e.firstChunk + found.1, found.2, numChunksInRun - found.1, numChunksInRun⟩)
      | .inr sampleCount => search guarded sampleNum fuel (i + 1) (e' :: tbl) sampleCount

/-- `getChunkNumberForSample`. -/
def getChunkNumberForSample (tbl : List Entry) (sampleNum : UInt32) (fuel : Nat) : Option UInt32 :=
  (search true sampleNum fuel 0 tbl 0).map fun found => found.elim pvError Found.chunk

/-- `getSamplesPerChunkCorrespondingToSample`. -/
def getSamplesPerChunkCorrespondingToSample (tbl : List Entry) (sampleNum : UInt32) (fuel : Nat) : Option UInt32 :=
  (search false sampleNum fuel 0 tbl 0).map fun found => found.elim 0 fun f => f.entry.samplesPerChunk

/-- The loop of `getFirstSampleNumInChunk`; `prev` is the run before with its samples, and `none` a
read before the table. -/
def firstSampleLoop (chunkNum : UInt32) : (prev : Option (Entry × UInt32)) → List Entry → (firstSample : UInt32) →
    Option UInt32
  | _, [], _ => some 0
  | prev, e :: tbl, firstSample =>
    if chunkNum < e.firstChunk then
      prev.map fun p => firstSample - p.2 + (chunkNum - p.1.firstChunk) * p.1.samplesPerChunk
    else if chunkNum = e.firstChunk then some firstSample
    else
      match tbl with
      | [] => some (firstSample + (chunkNum - e.firstChunk) * e.samplesPerChunk)
      | e' :: tbl =>
        let samplesInRun := e.samplesPerChunk * (e'.firstChunk - e.firstChunk)
        firstSampleLoop chunkNum (some (e, samplesInRun)) (e' :: tbl) (firstSample + samplesInRun)

/-- `getFirstSampleNumInChunk`. -/
def getFirstSampleNumInChunk (tbl : List Entry) (chunkNum : UInt32) : Option UInt32 :=
  firstSampleLoop chunkNum none tbl 0

/-! ## The position -/

/-- The state of reading; the chunk before the first is -1. -/
structure Cursor where
  majorGetIndex : Nat
  currGetChunk : UInt32
  numGetChunksInRun : Int32
  currGetSampleCount : UInt32
  firstGetSampleInCurrChunk : UInt32
  numGetSamplesPerChunk : UInt32
  currGetSDI : UInt32
  numChunksInRun : UInt32
  deriving DecidableEq

/-- The assignments `resetStateVariables` begins with. -/
def Cursor.start (c : Cursor) : Cursor := ⟨0, 0xFFFFFFFF, 0, 0, 0, 0, 0, c.numChunksInRun⟩

/-- `resetStateVariables(sampleNum)`; `false` is `PV_ERROR`. -/
def resetStateVariables (tbl : List Entry) (c : Cursor) (sampleNum : UInt32) (fuel : Nat) : Option (Bool × Cursor) :=
  (search true sampleNum fuel 0 tbl 0).map fun
    | none => (false, c.start)
    | some found =>
      (true,
        { majorGetIndex := if found.run + 1 < tbl.length then found.run + 1 else found.run
          currGetChunk := found.chunk
          numGetChunksInRun := found.chunksLeft.toInt32
          currGetSampleCount := found.firstSample + found.entry.samplesPerChunk
          firstGetSampleInCurrChunk := found.firstSample
          numGetSamplesPerChunk := found.entry.samplesPerChunk
          currGetSDI := found.entry.sampleDescriptionIndex
          numChunksInRun := found.chunksInRun })

/-- On to the next chunk, which may be the first of the next run; the last run goes on for ever. -/
def Cursor.nextChunk (tbl : List Entry) (c : Cursor) : Option Cursor :=
  if c.numGetChunksInRun > 1 then
    some { c with
      firstGetSampleInCurrChunk := c.currGetSampleCount
      currGetSampleCount := c.currGetSampleCount + c.numGetSamplesPerChunk
      currGetChunk := c.currGetChunk + 1
      numGetChunksInRun := if tbl.length > 1 then c.numGetChunksInRun - 1 else c.numGetChunksInRun }
  else if c.majorGetIndex + 1 < tbl.length then
    let e := tbl.getD c.majorGetIndex default
    let numChunksInRun := (tbl.getD (c.majorGetIndex + 1) default).firstChunk - e.firstChunk
    some
      { majorGetIndex := c.majorGetIndex + 1
        currGetChunk := c.currGetChunk + 1
        numGetChunksInRun := numChunksInRun.toInt32
        currGetSampleCount := c.currGetSampleCount + e.samplesPerChunk
        firstGetSampleInCurrChunk := c.currGetSampleCount
        numGetSamplesPerChunk := e.samplesPerChunk
        currGetSDI := e.sampleDescriptionIndex
        numChunksInRun := numChunksInRun }
  else if c.majorGetIndex + 1 = tbl.length then
    let e := tbl.getD c.majorGetIndex default
    some
      { majorGetIndex := c.majorGetIndex
        currGetChunk := c.currGetChunk + 1
        numGetChunksInRun := 1
        currGetSampleCount := c.currGetSampleCount + e.samplesPerChunk
        firstGetSampleInCurrChunk := c.currGetSampleCount
        numGetSamplesPerChunk := e.samplesPerChunk
        currGetSDI := e.sampleDescriptionIndex
        numChunksInRun := 1 }
  else none

/-- `getChunkNumberForSampleGet`. -/
def getChunkNumberForSampleGet (tbl : List Entry) (c : Cursor) (sampleNum : UInt32) : UInt32 × Cursor :=
  if sampleNum < c.currGetSampleCount then (c.currGetChunk, c)
  else
    match c.nextChunk tbl with
    | some c' => (if sampleNum < c'.currGetSampleCount then c'.currGetChunk else pvError, c')
    | none => (pvError, c)

/-- `getFirstSampleNumInChunkGet`. -/
def getFirstSampleNumInChunkGet (c : Cursor) : UInt32 := c.firstGetSampleInCurrChunk

/-- `getSamplesPerChunkCorrespondingToSampleGet`. -/
def getSamplesPerChunkCorrespondingToSampleGet (c : Cursor) : UInt32 := c.numGetSamplesPerChunk

/-- `getSDIndexGet`. -/
def getSDIndexGet (c : Cursor) : UInt32 := if c.currGetSDI ≠ 0 then c.currGetSDI else pvError

end Ftke.SampleToChunk
