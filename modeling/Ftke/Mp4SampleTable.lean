import Ftke.RunLength
import Mathlib.Algebra.Ring.Nat
import Mathlib.Data.UInt

/-!
# Ftke.Mp4SampleTable

The sample tables of an MP4 track and the reading of its samples
(`fileformats/mp4/parser/src/sampletableatom.cpp`, `timetosampleatom.cpp`,
`compositionoffsetatom.cpp`, `sampletochunkatom.cpp`).

* `Track` — the tables, held in memory;
* `SampleTable` — the state of reading: the current sample and a cursor into each table,
  with a second one for peeking;
* `getNextNSamples`, `peekNextNSamples` — read the next samples, or only their description;
* `resetPlayBackbyTime` — go to the sample for a time;
* `Call`, `SampleTable.handle` — the calls of the parser's user.

Timestamps are 32-bit; sample numbers, sizes and file offsets are natural numbers, in which the
error value is `errorNumber`.
-/

namespace Ftke.Mp4SampleTable

open RunLength

/-! ## Tables -/

/-- `PV_ERROR`, as a time. -/
def pvError : UInt32 := 0xFFFFFFFF

/-- `PV_ERROR`, as a size or an offset. -/
def errorNumber : Nat := 0xFFFFFFFF

/-- The value of a 32-bit word read as signed. -/
def signed (x : UInt32) : Int := x.toBitVec.toInt

inductive MediaType
  | visual
  | audio
  | text
  deriving DecidableEq, Repr

/-- An entry of the sample-to-chunk table; chunks are counted from 0. -/
structure ChunkRun where
  firstChunk : Nat
  samplesPerChunk : Nat
  sampleDescriptionIndex : Nat
  deriving DecidableEq, Repr

instance : Inhabited ChunkRun := ⟨⟨0, 0, 0⟩⟩

/-- The tables of a track. -/
structure Track where
  /-- stts: the time from each sample to the next -/
  timeToSample : List (Entry UInt32)
  /-- ctts, if present: the composition offset of each sample -/
  compositionOffset : Option (List (Entry UInt32))
  /-- stsc -/
  sampleToChunk : List ChunkRun
  /-- stsz: one size for all samples, or 0 -/
  sampleSize : Nat
  sampleSizes : List Nat
  sampleCount : Nat
  /-- stco -/
  chunkOffsets : List Nat
  /-- stss, if present: the numbers of the sync samples, counted from 1 -/
  syncSamples : Option (List Nat)
  mediaType : MediaType
  trackStartTSOffset : UInt32
  oPVContentDownloadable : Bool
  deriving DecidableEq, Repr

namespace Track

/-- `SampleSizeAtom::getSampleSizeAt`. -/
def getSampleSizeAt (tr : Track) (index : Nat) : Nat :=
  if tr.sampleSize ≠ 0 then tr.sampleSize else tr.sampleSizes.getD index 0

/-- `ChunkOffsetAtom::getChunkOffsetAt`; `none` is `PV_ERROR`. -/
def getChunkOffsetAt (tr : Track) (index : Option Nat) : Option Nat :=
  match index.bind (tr.chunkOffsets[·]?) with
  | some offset => if offset = errorNumber then none else some offset
  | none => none

/-! ### Times -/

/-- The loop of `TimeToSampleAtom::getTimestampForSampleNumber`. -/
def timestampLoop (num : Nat) : List (Entry UInt32) → Nat → UInt32 → UInt32
  | [], _, _ => pvError
  | e :: tbl, sampleCount, ts =>
    if num ≤ sampleCount + e.count then ts + e.value * UInt32.ofNat (num - sampleCount)
    else timestampLoop num tbl (sampleCount + e.count) (ts + e.value * UInt32.ofNat e.count)

/-- `TimeToSampleAtom::getTimestampForSampleNumber`. -/
def decodeTimestamp (tr : Track) (num : Nat) : UInt32 :=
  if tr.timeToSample = [] then pvError else if num = 0 then 0 else timestampLoop num tr.timeToSample 0 0

/-- `CompositionOffsetAtom::getTimeOffsetForSampleNumber`, by the scan of the table. -/
def timeOffsetLoop (num : Nat) : List (Entry UInt32) → Nat → UInt32
  | [], _ => pvError
  | e :: tbl, sampleCount =>
    if num < sampleCount + e.count then e.value else timeOffsetLoop num tbl (sampleCount + e.count)

/-- `SampleTableAtom::getTimestampForSampleNumber`. -/
def getTimestampForSampleNumber (tr : Track) (num : Nat) : UInt32 :=
  match tr.compositionOffset with
  | some ctts => tr.decodeTimestamp num + timeOffsetLoop num ctts 0
  | none => tr.decodeTimestamp num

/-- A composition offset that is an error counts as 0. -/
def offsetOr0 (offset : UInt32) : UInt32 := if offset = pvError then 0 else offset

/-- `getCttsOffsetForSampleNumber`. -/
def getCttsOffsetForSampleNumber (tr : Track) (num : Nat) : UInt32 :=
  match tr.compositionOffset with
  | some ctts => offsetOr0 (timeOffsetLoop num ctts 0)
  | none => 0

/-! ### Samples for times -/

/-- The inner loop of `getSampleNumberFromTimestamp`, through the `fuel` samples of a run. -/
def backtrack (ts delta : UInt32) : Nat → UInt32 → Nat → Nat
  | 0, _, sampleCount => sampleCount - 1
  | fuel + 1, timeCount, sampleCount =>
    if timeCount ≤ ts then backtrack ts delta fuel (timeCount + delta) (sampleCount + 1) else sampleCount - 1

/-- The samples of the last run after its first; past the last sample there is only one for video. -/
def lastRun (tr : Track) (ts delta : UInt32) : Nat → UInt32 → Nat → Option Nat
  | 0, timeCount, sampleCount =>
    if ts ≥ timeCount ∧ tr.mediaType = .visual then some (sampleCount + 1) else none
  | samples + 1, timeCount, sampleCount =>
    if timeCount + delta > ts then some (sampleCount + 1 - 1)
    else if timeCount + delta = ts then some (sampleCount + 1)
    else lastRun tr ts delta samples (timeCount + delta) (sampleCount + 1)

/-- The loop of `getSampleNumberFromTimestamp`, `prev` the run before. -/
def sampleNumberLoop (tr : Track) (ts : UInt32) : (prev : Entry UInt32) → List (Entry UInt32) → UInt32 → Nat → Option Nat
  | prev, [], timeCount, sampleCount =>
    lastRun tr ts prev.value (prev.count - 1) (timeCount - prev.value * UInt32.ofNat prev.count)
      (sampleCount - prev.count)
  | prev, e :: tbl, timeCount, sampleCount =>
    if ts < timeCount then
      some (backtrack ts prev.value (prev.count + 1) (timeCount - prev.value * UInt32.ofNat prev.count)
        (sampleCount - prev.count))
    else if ts = timeCount then some sampleCount
    else sampleNumberLoop tr ts e tbl (timeCount + e.value * UInt32.ofNat e.count) (sampleCount + e.count)

/-- `TimeToSampleAtom::getSampleNumberFromTimestamp`; `none` is `PV_ERROR`. -/
def getSampleNumberFromTimestamp (tr : Track) (ts : UInt32) : Option Nat :=
  if tr.timeToSample = [] then none else sampleNumberLoop tr ts ⟨0, 0⟩ tr.timeToSample 0 0

/-- The loop of `getSampleNumberAdjustedWithCTTS`. -/
def adjustLoop (tr : Track) (aTs : UInt32) : Nat → Nat → Nat → UInt32 → Nat
  | 0, _, minimumTsFrameNum, _ => minimumTsFrameNum
  | loops + 1, curSampleParsed, minimumTsFrameNum, minimumTimestamp =>
    if curSampleParsed = 0 then minimumTsFrameNum
    else
      let curSampleTs := tr.getTimestampForSampleNumber curSampleParsed
      if curSampleTs = aTs then curSampleParsed
      else if curSampleTs > aTs ∧ curSampleTs < minimumTimestamp then
        adjustLoop tr aTs loops (curSampleParsed - 1) curSampleParsed curSampleTs
      else adjustLoop tr aTs loops (curSampleParsed - 1) minimumTsFrameNum minimumTimestamp

/-- `getSampleNumberAdjustedWithCTTS`, over the last 10 samples; it leaves `PV_ERROR` as it is, since no sample
number before 0 has a timestamp. -/
def getSampleNumberAdjustedWithCTTS (tr : Track) (aTs : UInt32) (aSampleNumber : Option Nat) : Option Nat :=
  match tr.compositionOffset with
  | none => aSampleNumber
  | some _ => aSampleNumber.map fun num => adjustLoop tr aTs 10 num num (tr.getTimestampForSampleNumber num)

/-- The loop of `SyncSampleAtom::getSyncSampleBefore`: `sync` is the sample of the entry `last` looked at, if any,
and `last2` the sample of the entry before it.  `none` is a read before the table. -/
def syncSampleLoop (sampleNum : Nat) : List Nat → (sync : Nat) → (last2 last : Option Nat) → Option Nat
  | [], sync, last2, _ => if sync ≤ sampleNum then some sync else last2
  | num :: nums, sync, last2, last =>
    if sync < sampleNum then syncSampleLoop sampleNum nums (num - 1) last (some (num - 1))
    else if sync ≤ sampleNum then some sync
    else last2

/-- `SyncSampleAtom::getSyncSampleBefore`. -/
def getSyncSampleBefore (nums : List Nat) (sampleNum : Nat) : Option Nat :=
  syncSampleLoop sampleNum nums 0 none none

/-! ### Chunks -/

/-- Where a search for a sample ends: the run, the chunk and its first sample, how many chunks of the run are left
from it on, and how many the run has; the last run counts as having one. -/
structure FoundChunk where
  run : Nat
  chunk : Nat
  firstSample : Nat
  chunksLeft : Nat
  chunksInRun : Nat
  deriving DecidableEq, Repr

/-- The chunk of a run with the sample: `chunks` are left, and the samples before `sampleCount` passed. -/
def findChunk (samplesPerChunk sampleNum : Nat) : (chunks : Nat) → (chunk sampleCount : Nat) → Option (Nat × Nat)
  | 0, _, _ => none
  | chunks + 1, chunk, sampleCount =>
    if sampleNum < sampleCount + samplesPerChunk then some (chunk, sampleCount)
    else findChunk samplesPerChunk sampleNum chunks (chunk + 1) (sampleCount + samplesPerChunk)

/-- The search of `SampleToChunkAtom::resetStateVariables` and `getChunkNumberForSample` from run `i` on.  The last
run goes on for as many chunks as it takes. -/
def findRun (sampleNum : Nat) : (i : Nat) → List ChunkRun → (sampleCount : Nat) → Option FoundChunk
  | _, [], _ => none
  | i, [e], sampleCount =>
    (findChunk e.samplesPerChunk sampleNum (sampleNum + 1) e.firstChunk sampleCount).map fun found =>
      ⟨i, found.1, found.2, 1, 1⟩
  | i, e :: e' :: tbl, sampleCount =>
    let numChunksInRun := e'.firstChunk - e.firstChunk
    let count := sampleCount + e.samplesPerChunk * numChunksInRun
    if count < sampleNum then findRun sampleNum (i + 1) (e' :: tbl) count
    else
      match findChunk e.samplesPerChunk sampleNum numChunksInRun e.firstChunk sampleCount with
      | some found =>
        some ⟨i, found.1, found.2, numChunksInRun - (found.1 - e.firstChunk), numChunksInRun⟩
      | none => findRun sampleNum (i + 1) (e' :: tbl) count

/-- `SampleToChunkAtom::getChunkNumberForSample`. -/
def getChunkNumberForSample (tr : Track) (sampleNum : Nat) : Option Nat :=
  (findRun sampleNum 0 tr.sampleToChunk 0).map FoundChunk.chunk

/-- `SampleToChunkAtom::getFirstSampleNumInChunk`, from a run on; `firstSample` is that of the run. -/
def firstSampleLoop (chunkNum : Nat) : List ChunkRun → (firstSample : Nat) → Nat
  | [], _ => 0
  | [e], firstSample => firstSample + (chunkNum - e.firstChunk) * e.samplesPerChunk
  | e :: e' :: tbl, firstSample =>
    if chunkNum < e'.firstChunk then firstSample + (chunkNum - e.firstChunk) * e.samplesPerChunk
    else firstSampleLoop chunkNum (e' :: tbl) (firstSample + e.samplesPerChunk * (e'.firstChunk - e.firstChunk))

end Track

/-! ## Cursors -/

/-- The position of `SampleToChunkAtom`, for getting or for peeking; `chunksInRun` (`_numChunksInRun`) is kept
for getting only. -/
structure ChunkCursor where
  majorIndex : Nat
  currChunk : Int
  numChunksInRun : Nat
  currSampleCount : Nat
  firstSampleInCurrChunk : Nat
  numSamplesPerChunk : Nat
  currSDI : Nat
  chunksInRun : Nat
  deriving DecidableEq, Repr

namespace ChunkCursor

/-- The part of `resetStateVariables` before the search. -/
def start (c : ChunkCursor) : ChunkCursor where
  majorIndex := 0
  currChunk := -1
  numChunksInRun := 0
  currSampleCount := 0
  firstSampleInCurrChunk := 0
  numSamplesPerChunk := 0
  currSDI := 0
  chunksInRun := c.chunksInRun

/-- Go to the next chunk, which may be the first of the next run; the last run goes on for ever. -/
def nextChunk (tbl : List ChunkRun) (c : ChunkCursor) : Option ChunkCursor :=
  if c.numChunksInRun > 1 then
    some { c with
      firstSampleInCurrChunk := c.currSampleCount
      currSampleCount := c.currSampleCount + c.numSamplesPerChunk
      currChunk := c.currChunk + 1
      numChunksInRun := if tbl.length > 1 then c.numChunksInRun - 1 else c.numChunksInRun }
  else if c.majorIndex + 1 < tbl.length then
    let e := tbl.getD c.majorIndex default
    let numChunksInRun := (tbl.getD (c.majorIndex + 1) default).firstChunk - e.firstChunk
    some { c with
      numSamplesPerChunk := e.samplesPerChunk
      currSDI := e.sampleDescriptionIndex
      numChunksInRun := numChunksInRun
      chunksInRun := numChunksInRun
      majorIndex := c.majorIndex + 1
      firstSampleInCurrChunk := c.currSampleCount
      currSampleCount := c.currSampleCount + e.samplesPerChunk
      currChunk := c.currChunk + 1 }
  else if c.majorIndex + 1 = tbl.length then
    let e := tbl.getD c.majorIndex default
    some { c with
      numChunksInRun := 1
      chunksInRun := 1
      currSDI := e.sampleDescriptionIndex
      numSamplesPerChunk := e.samplesPerChunk
      firstSampleInCurrChunk := c.currSampleCount
      currSampleCount := c.currSampleCount + e.samplesPerChunk
      currChunk := c.currChunk + 1 }
  else none

/-- The chunk of a cursor, as an index. -/
def chunk (c : ChunkCursor) : Option Nat := if c.currChunk < 0 then none else some c.currChunk.toNat

/-- `getChunkNumberForSampleGet` and `getChunkNumberForSamplePeek`; `none` is `PV_ERROR`. -/
def getChunkNumber (tbl : List ChunkRun) (c : ChunkCursor) (sampleNum : Nat) : Option Nat × ChunkCursor :=
  if sampleNum < c.currSampleCount then (c.chunk, c)
  else
    match c.nextChunk tbl with
    | some c' => if sampleNum < c'.currSampleCount then (c'.chunk, c') else (none, c')
    | none => (none, c)

/-- `resetStateVariables(sampleNum)`; `false` is `PV_ERROR`. -/
def reset (tbl : List ChunkRun) (c : ChunkCursor) (sampleNum : Nat) : Bool × ChunkCursor :=
  match Track.findRun sampleNum 0 tbl 0 with
  | none => (false, c.start)
  | some found =>
    let e := tbl.getD found.run default
    (true,
      { majorIndex := if found.run + 1 < tbl.length then found.run + 1 else found.run
        currChunk := found.chunk
        numChunksInRun := found.chunksLeft
        currSampleCount := found.firstSample + e.samplesPerChunk
        firstSampleInCurrChunk := found.firstSample
        numSamplesPerChunk := e.samplesPerChunk
        currSDI := e.sampleDescriptionIndex
        chunksInRun := found.chunksInRun })

/-- `SDIndex`, as `getNextNSamples` and `peekNextNSamples` report it: counted from 0; of index 0 it is -1. -/
def sampleInfoOf (sdi : Nat) : Nat :=
  if sdi = 0 then errorNumber else if sdi < 2 ^ 31 then sdi - 1 else sdi

def sampleInfo (c : ChunkCursor) : Nat := sampleInfoOf c.currSDI

end ChunkCursor

/-! ## Reading -/

/-- The state of `SampleTableAtom`. -/
structure SampleTable where
  currentPlaybackSampleNumber : Nat
  currentPlaybackSampleTimestamp : UInt32
  currChunkOffset : Nat
  timeGet : Cursor UInt32
  timePeek : Cursor UInt32
  offsetGet : Cursor UInt32
  offsetPeek : Cursor UInt32
  chunkGet : ChunkCursor
  chunkPeek : ChunkCursor
  deriving DecidableEq, Repr

inductive Mp4ErrorCode
  | everythingFine
  | endOfTrack
  | insufficientData
  | insufficientBufferSize
  | readFailed
  | invalidSampleSize
  | invalidChunkOffset
  | readSampleToChunkAtomFailed
  | readTimeToSampleAtomFailed
  | readSampleSizeAtomFailed
  /-- the loop over the chunks does not end, for a chunk without samples -/
  | looping
  deriving DecidableEq, Repr

/-- What is told of a sample. -/
structure Info where
  len : Nat
  ts : UInt32
  tsDelta : UInt32
  sampleInfo : Nat
  deriving DecidableEq, Repr

/-- A sample delivered, with the file offset that its bytes are read from. -/
structure Sample where
  info : Info
  bytesAt : Nat
  deriving DecidableEq, Repr

/-- What can be read from the file: the bytes from `bufStart` on and before `bufEnd`.  A progressive source has a
buffering capacity, and may know the length of the content, otherwise 0. -/
structure Source where
  bufStart : Nat
  bufEnd : Nat
  bufCap : Bool
  contentLength : Nat
  deriving DecidableEq, Repr

/-- What `getNextNSamples` returns: the code, the number of samples delivered, and these. -/
structure GetResult where
  code : Mp4ErrorCode
  s : SampleTable
  n : Nat
  samples : List Sample
  deriving DecidableEq, Repr

namespace SampleTable

variable (tr : Track)

/-! ### Resetting the cursors -/

/-- Both cursors of stts are reset. -/
def resetTime (s : SampleTable) (sampleNum : Nat) : Bool × SampleTable :=
  let r := Cursor.reset 0 tr.timeToSample sampleNum
  (r.1,
    { s with
      timeGet := r.2
      timePeek := r.2 })

/-- Both cursors of ctts are reset. -/
def resetOffset (s : SampleTable) (sampleNum : Nat) : Bool × SampleTable :=
  match tr.compositionOffset with
  | none => (true, s)
  | some ctts =>
    let r := Cursor.reset 0 ctts sampleNum
    (r.1,
      { s with
        offsetGet := r.2
        offsetPeek := r.2 })

/-- Both cursors of stsc are reset. -/
def resetChunk (s : SampleTable) (sampleNum : Nat) : Bool × SampleTable :=
  let r := s.chunkGet.reset tr.sampleToChunk sampleNum
  (r.1,
    { s with
      chunkGet := r.2
      chunkPeek := r.2 })

/-- `SampleToChunkAtom::resetStateVariables()`. -/
def startChunk (s : SampleTable) : SampleTable :=
  { s with
    chunkGet := s.chunkGet.start
    chunkPeek := s.chunkGet.start }

/-- Reading starts over after a cursor could not be reset. -/
def startOver (s : SampleTable) : SampleTable :=
  { s with
    currentPlaybackSampleNumber := 0
    currentPlaybackSampleTimestamp := tr.trackStartTSOffset }

/-- All cursors are reset to the current sample; the first that cannot be is reset to sample 0. -/
def resetCursors (s : SampleTable) : Bool × SampleTable :=
  let num := s.currentPlaybackSampleNumber
  let time := s.resetTime tr num
  if !time.1 then (false, ((time.2.startOver tr).resetTime tr 0).2)
  else
    let chunk := time.2.resetChunk tr num
    if !chunk.1 then (false, (chunk.2.startOver tr).startChunk)
    else
      let offset := chunk.2.resetOffset tr num
      if !offset.1 then (false, ((offset.2.startOver tr).resetOffset tr 0).2)
      else (true, offset.2)

/-! ### getNextNSamples -/

def getChunkNumberForSampleGet (s : SampleTable) (sampleNum : Nat) : Option Nat × SampleTable :=
  let r := s.chunkGet.getChunkNumber tr.sampleToChunk sampleNum
  (r.1, { s with chunkGet := r.2 })

def getTimeDeltaForSampleNumberGet (s : SampleTable) (sampleNum : Nat) : UInt32 × SampleTable :=
  let r := s.timeGet.get pvError tr.timeToSample sampleNum
  (r.1, { s with timeGet := r.2 })

def getCttsOffsetForSampleNumberGet (s : SampleTable) (sampleNum : Nat) : UInt32 × SampleTable :=
  match tr.compositionOffset with
  | none => (0, s)
  | some ctts =>
    let r := s.offsetGet.get pvError ctts sampleNum
    (Track.offsetOr0 r.1, { s with offsetGet := r.2 })

/-- The sizes of the samples from `first` on and before `sampleNum`. -/
def sizesFrom (first sampleNum : Nat) : Nat :=
  ((List.range (sampleNum - first)).map fun i => tr.getSampleSizeAt (first + i)).sum

/-- The descriptions of the samples of a part of a chunk, and where this leaves the state and the time. -/
structure Batch where
  error : Option Mp4ErrorCode
  s : SampleTable
  currTSBase : UInt32
  infos : List Info
  deriving DecidableEq, Repr

/-- The loop over `numSamples` samples from `j` on. -/
def readBatch (sampleInfo : Nat) : (numSamples j : Nat) → SampleTable → (currTSBase : UInt32) → Batch
  | 0, _, s, currTSBase => ⟨none, s, currTSBase, []⟩
  | numSamples + 1, j, s, currTSBase =>
    let size := tr.getSampleSizeAt j
    if size = errorNumber then ⟨some .invalidSampleSize, s, currTSBase, []⟩
    else
      let currTSBase := if j = 0 then tr.trackStartTSOffset else currTSBase
      let tsDelta := s.getTimeDeltaForSampleNumberGet tr j
      if tsDelta.1 = pvError then ⟨some .readFailed, tsDelta.2, currTSBase, []⟩
      else
        let ctts := tsDelta.2.getCttsOffsetForSampleNumberGet tr j
        let info : Info := ⟨size, currTSBase + ctts.1, tsDelta.1, sampleInfo⟩
        let rest := readBatch sampleInfo numSamples (j + 1) ctts.2 (currTSBase + tsDelta.1)
        { rest with infos := info :: rest.infos }

/-- The bytes of the samples of a batch. -/
def sigmaSampleSize (infos : List Info) : Nat := (infos.map Info.len).sum

/-- The samples of a batch lie one after the other in the file. -/
def place : (sampleFileOffset : Nat) → List Info → List Sample
  | _, [] => []
  | sampleFileOffset, info :: infos => ⟨info, sampleFileOffset⟩ :: place (sampleFileOffset + info.len) infos

/-- Reading takes the bytes of a batch into the fragments, which have so much room. -/
def takeRoom : List Nat → Nat → List Nat
  | [], _ => []
  | len :: lens, size => (len - min len size) :: takeRoom lens (size - min len size)

/-- The data of a batch are not there: what earlier batches of the call changed is undone. -/
def insufficientData (src : Source) (s : SampleTable) (startSampleNum n : Nat) (startTSBase : UInt32)
    (sampleFileOffset sigma : Nat) : GetResult :=
  let code :=
    if src.bufCap ∧ src.contentLength ≠ 0 ∧ sigma + sampleFileOffset > src.contentLength then
      Mp4ErrorCode.readFailed
    else .insufficientData
  if s.currentPlaybackSampleNumber ≠ startSampleNum then
    let r := { s with
      currentPlaybackSampleNumber := startSampleNum
      currentPlaybackSampleTimestamp := startTSBase }.resetCursors tr
    if !r.1 then ⟨.readFailed, r.2, n, []⟩
    else
      let s := (r.2.getChunkNumberForSampleGet tr startSampleNum).2
      ⟨code, { s with currChunkOffset := sizesFrom tr s.chunkGet.firstSampleInCurrChunk startSampleNum }, 0, []⟩
  else ⟨code, s, 0, []⟩

/-- The fragments have not enough room for a batch. -/
def insufficientBufferSize (s : SampleTable) (startSampleNum n : Nat) : GetResult :=
  let r := { s with
    currentPlaybackSampleNumber := startSampleNum
    currentPlaybackSampleTimestamp := tr.trackStartTSOffset }.resetCursors tr
  ⟨if r.1 then .insufficientBufferSize else .readFailed, r.2, n, []⟩

/-- The end of the call, with `n` samples delivered. -/
def finish (code : Mp4ErrorCode) (s : SampleTable) (currTSBase : UInt32) (n : Nat) (samples : List Sample) :
    GetResult :=
  ⟨code, { s with currentPlaybackSampleTimestamp := currTSBase }, n, samples⟩

/-- The loop over the chunks, with `samplesYetToBeRead` of `n` samples left.  Nothing else changes the current
sample number meanwhile, which the code guards against. -/
def getLoop (src : Source) (startSampleNum n : Nat) (startTSBase : UInt32) : (fuel : Nat) → SampleTable →
    (sampleNum samplesYetToBeRead : Nat) → (currTSBase : UInt32) → (fragments : List Nat) → List Sample → GetResult
  | fuel, s, sampleNum, samplesYetToBeRead, currTSBase, fragments, samples =>
    if samplesYetToBeRead = 0 then finish .everythingFine s currTSBase n samples
    else
      match fuel with
      | 0 => ⟨.looping, s, 0, []⟩
      | fuel + 1 =>
        let chunk := s.getChunkNumberForSampleGet tr sampleNum
        let s := chunk.2
        if s.chunkGet.chunksInRun = 0 then ⟨.readSampleToChunkAtomFailed, s, 0, []⟩
        else
          let samplesLeftInChunk :=
            s.chunkGet.numSamplesPerChunk - (sampleNum - s.chunkGet.firstSampleInCurrChunk)
          let oStoreOffset := samplesLeftInChunk > samplesYetToBeRead
          let numSamples := if oStoreOffset then samplesYetToBeRead else samplesLeftInChunk
          let samplesYetToBeRead := samplesYetToBeRead - numSamples
          match tr.getChunkOffsetAt chunk.1 with
          | none => finish .invalidChunkOffset s currTSBase (n - samplesYetToBeRead) samples
          | some offset =>
            let batch := readBatch tr s.chunkGet.sampleInfo numSamples sampleNum s currTSBase
            match batch.error with
            | some code => ⟨code, batch.s, 0, []⟩
            | none =>
              let s := batch.s
              let sigma := sigmaSampleSize batch.infos
              let sampleFileOffset := offset + s.currChunkOffset
              if sampleFileOffset < src.bufStart ∨ sigma + sampleFileOffset > src.bufEnd then
                s.insufficientData tr src startSampleNum n startTSBase sampleFileOffset sigma
              else if fragments.sum < sigma then s.insufficientBufferSize tr startSampleNum n
              else
                let s := { s with
                  currChunkOffset := if oStoreOffset then s.currChunkOffset + sigma else 0
                  currentPlaybackSampleNumber := s.currentPlaybackSampleNumber + numSamples }
                let samples := samples ++ place sampleFileOffset batch.infos
                if s.currentPlaybackSampleNumber ≥ tr.sampleCount then
                  finish .endOfTrack s batch.currTSBase (n - samplesYetToBeRead) samples
                else
                  getLoop src startSampleNum n startTSBase fuel s (sampleNum + numSamples)
                    samplesYetToBeRead batch.currTSBase (takeRoom fragments sigma) samples

/-- `getNextNSamples`, from the current sample. -/
def getNextNSamples (src : Source) (s : SampleTable) (n : Nat) (fragments : List Nat) : GetResult :=
  if s.currentPlaybackSampleNumber ≥ tr.sampleCount then ⟨.endOfTrack, s, 0, []⟩
  else
    getLoop tr src s.currentPlaybackSampleNumber n s.currentPlaybackSampleTimestamp n s s.currentPlaybackSampleNumber n
      s.currentPlaybackSampleTimestamp fragments []

/-- Before a get or a peek of the first sample the time starts with the track. -/
def atStart (s : SampleTable) : SampleTable :=
  if s.currentPlaybackSampleNumber = 0 then { s with currentPlaybackSampleTimestamp := tr.trackStartTSOffset } else s

/-- `getNextBundledAccessUnits`. -/
def getNextBundledAccessUnits (src : Source) (s : SampleTable) (n : Nat) (fragments : List Nat) : GetResult :=
  let r := getNextNSamples tr src (s.atStart tr) n fragments
  if r.code = .insufficientBufferSize then r
  else if r.s.currentPlaybackSampleNumber ≥ tr.sampleCount then { r with code := .endOfTrack }
  else if r.code = .invalidSampleSize ∨ r.code = .invalidChunkOffset then { r with code := .readFailed }
  else r

/-! ### peekNextNSamples -/

def getChunkNumberForSamplePeek (s : SampleTable) (sampleNum : Nat) : Option Nat × SampleTable :=
  let r := s.chunkPeek.getChunkNumber tr.sampleToChunk sampleNum
  (r.1, { s with chunkPeek := r.2 })

def getTimeDeltaForSampleNumberPeek (s : SampleTable) (sampleNum : Nat) : UInt32 × SampleTable :=
  let r := s.timePeek.get pvError tr.timeToSample sampleNum
  (r.1, { s with timePeek := r.2 })

def getCttsOffsetForSampleNumberPeek (s : SampleTable) (sampleNum : Nat) : UInt32 × SampleTable :=
  match tr.compositionOffset with
  | none => (0, s)
  | some ctts =>
    let r := s.offsetPeek.get pvError ctts sampleNum
    (Track.offsetOr0 r.1, { s with offsetPeek := r.2 })

/-- What a peek returns. -/
structure PeekResult where
  code : Mp4ErrorCode
  s : SampleTable
  infos : List Info
  deriving DecidableEq, Repr

/-- The loop over the samples to be peeked, with `code` for its end. -/
def peekLoop (code : Mp4ErrorCode) : (samplesToBePeeked sampleNum : Nat) → SampleTable → (currTSBase : UInt32) →
    PeekResult
  | 0, _, s, _ => ⟨code, s, []⟩
  | samplesToBePeeked + 1, sampleNum, s, currTSBase =>
    let chunk := s.getChunkNumberForSamplePeek tr sampleNum
    if chunk.1 = none then ⟨.readSampleToChunkAtomFailed, chunk.2, []⟩
    else
      let size := tr.getSampleSizeAt sampleNum
      if size = errorNumber then ⟨.invalidSampleSize, chunk.2, []⟩
      else
        let tsDelta := chunk.2.getTimeDeltaForSampleNumberPeek tr sampleNum
        if tsDelta.1 = pvError then ⟨.readTimeToSampleAtomFailed, tsDelta.2, []⟩
        else
          let ctts := tsDelta.2.getCttsOffsetForSampleNumberPeek tr sampleNum
          let info : Info := ⟨size, currTSBase + ctts.1, tsDelta.1, chunk.2.chunkPeek.sampleInfo⟩
          let rest := peekLoop code samplesToBePeeked (sampleNum + 1) ctts.2 (currTSBase + tsDelta.1)
          -- an error leaves no sample peeked
          if rest.code = code then { rest with infos := info :: rest.infos } else rest

/-- The peek cursors of stsc and stts are set to those for getting, unless they are just at the current sample. -/
def resetPeekwithGet (s : SampleTable) : SampleTable :=
  { s with
    chunkPeek :=
      if s.chunkPeek.currSampleCount = s.currentPlaybackSampleNumber then s.chunkPeek else s.chunkGet
    timePeek := if s.timePeek.sampleCount = s.currentPlaybackSampleNumber then s.timePeek else s.timeGet }

/-- Is the data of the samples there, if the file is still growing?  The sizes are summed from the start of the
chunk of the first up to the last sample. -/
def peekCheck (fileSize : Option Nat) (s : SampleTable) (sampleNum samplesToBePeeked : Nat) :
    Option Mp4ErrorCode × SampleTable :=
  match fileSize with
  | none => (none, s)
  | some size =>
    if tr.mediaType = .text then (none, s)
    else
      let chunk := s.getChunkNumberForSamplePeek tr sampleNum
      let first := chunk.2.chunkPeek.firstSampleInCurrChunk
      if chunk.1 = none then (some .readSampleToChunkAtomFailed, chunk.2)
      else
        match tr.getChunkOffsetAt chunk.1 with
        | none => (some .readFailed, chunk.2)
        | some offset =>
          let last := sampleNum + samplesToBePeeked - 1
          if (List.range (last - first)).any fun i => tr.getSampleSizeAt (first + i) = errorNumber then
            (some .readSampleSizeAtomFailed, chunk.2)
          else if offset + sizesFrom tr first last > size then (some .readFailed, chunk.2)
          else (none, chunk.2)

/-- `peekNextNSamples`, from the current sample; `fileSize` is the size of a file that is still growing. -/
def peekNextNSamples (fileSize : Option Nat) (s : SampleTable) (n : Nat) : PeekResult :=
  let sampleNum := s.currentPlaybackSampleNumber
  let s := s.resetPeekwithGet
  if sampleNum ≥ tr.sampleCount then ⟨.endOfTrack, s, []⟩
  else
    let samplesToBePeeked := if sampleNum + n ≥ tr.sampleCount then tr.sampleCount - sampleNum else n
    let code : Mp4ErrorCode := if sampleNum + n ≥ tr.sampleCount then .endOfTrack else .everythingFine
    let check := s.peekCheck tr fileSize sampleNum samplesToBePeeked
    match check.1 with
    | some code => ⟨code, check.2, []⟩
    | none =>
      let currTSBase := if sampleNum = 0 then tr.trackStartTSOffset else s.currentPlaybackSampleTimestamp
      peekLoop tr code samplesToBePeeked sampleNum check.2 currTSBase

/-- `peekNextBundledAccessUnits`. -/
def peekNextBundledAccessUnits (fileSize : Option Nat) (s : SampleTable) (n : Nat) : PeekResult :=
  let r := peekNextNSamples tr fileSize (s.atStart tr) n
  if r.code = .invalidSampleSize ∨ r.code = .invalidChunkOffset then { r with code := .readFailed } else r

end SampleTable

/-! ## Going to a time -/

/-- Where `resetPlayBackbyTime` goes. -/
inductive Seek
  /-- the time is not after the start of the track -/
  | beginning
  /-- the time is past the last sample -/
  | pastEnd
  /-- a video track has no sync samples; `table` is whether it has a table of them -/
  | noSyncSample (table : Bool)
  /-- the first sync sample is after the sample looked for, and the entry before it is read -/
  | beforeTable
  | sample (num : Nat)
  deriving DecidableEq, Repr

namespace Track

/-- The timestamp that goes with a sample to go to. -/
def seekTimestamp (tr : Track) (num : Nat) : UInt32 :=
  if num ≠ 0 then tr.getTimestampForSampleNumber num else tr.getCttsOffsetForSampleNumber 0

/-- The part of `resetPlayBackbyTime` that depends on the media type. -/
def seekByMediaType (tr : Track) (time : UInt32) (oDependsOn : Bool) (num : Nat) : Seek :=
  match tr.mediaType with
  | .visual =>
    if oDependsOn then .sample (if num < tr.sampleCount then num + 1 else num)
    else
      match tr.syncSamples with
      | none => .noSyncSample false
      | some [] => .noSyncSample true
      | some nums =>
        match getSyncSampleBefore nums num with
        | some sync => .sample sync
        | none => .beforeTable
  | .audio =>
    if num > 0 ∧ oDependsOn ∧ tr.getTimestampForSampleNumber num < time ∧ num + 1 < tr.sampleCount then
      .sample (num + 1)
    else .sample num
  | .text => .sample num

/-- The sample that `resetPlayBackbyTime` goes to. -/
def seek (tr : Track) (time : UInt32) (oDependsOn : Bool) : Seek :=
  if signed time > signed tr.trackStartTSOffset then
    let ts := time - tr.trackStartTSOffset
    match tr.getSampleNumberAdjustedWithCTTS ts (tr.getSampleNumberFromTimestamp ts) with
    | none => .pastEnd
    | some num => tr.seekByMediaType time oDependsOn num
  else .beginning

/-- The check before the file is positioned, for content that is read without seeking. -/
def canSetFilePointer (tr : Track) (fileSize num : Nat) : Bool :=
  let chunk := tr.getChunkNumberForSample num
  match tr.getChunkOffsetAt chunk with
  | none => false
  | some offset =>
    let first := firstSampleLoop (chunk.getD 0) tr.sampleToChunk 0
    ((List.range (num - first)).all fun i => tr.getSampleSizeAt (first + i) ≠ errorNumber) &&
      offset + SampleTable.sizesFrom tr first num + tr.getSampleSizeAt num ≤ fileSize

end Track

namespace SampleTable

variable (tr : Track)

/-- `check_for_file_pointer_reset`. -/
def checkFilePointer (fileSize : Nat) (trueTS : UInt32) (s : SampleTable) : UInt32 × SampleTable :=
  if tr.oPVContentDownloadable && !tr.canSetFilePointer fileSize s.currentPlaybackSampleNumber then
    (tr.trackStartTSOffset, { s with currentPlaybackSampleNumber := 0 })
  else (trueTS, s)

/-- The end of `resetPlayBackbyTime` for a sample: the offset of the sample in its chunk. -/
def setChunkOffset (fileSize : Nat) (trueTS : UInt32) (s : SampleTable) : UInt32 × SampleTable :=
  let num := s.currentPlaybackSampleNumber
  let chunk := s.getChunkNumberForSampleGet tr num
  let s := chunk.2
  let first := s.chunkGet.firstSampleInCurrChunk
  match tr.getChunkOffsetAt chunk.1 with
  | none => (tr.trackStartTSOffset, { s with currentPlaybackSampleNumber := 0 })
  | some _ =>
    if (List.range (num - first)).any fun i => tr.getSampleSizeAt (first + i) = errorNumber then
      (tr.trackStartTSOffset,
        { s with
          currentPlaybackSampleNumber := 0
          currChunkOffset := 0 })
    else checkFilePointer tr fileSize trueTS { s with currChunkOffset := sizesFrom tr first num }

/-- `resetPlayBackbyTime`, with the timestamp it returns. -/
def resetPlayBackbyTime (fileSize : Nat) (s : SampleTable) (time : UInt32) (oDependsOn : Bool) :
    UInt32 × SampleTable :=
  match tr.seek time oDependsOn with
  | .beginning =>
    let s := { s with
      currentPlaybackSampleNumber := 0
      currChunkOffset := 0 }
    (tr.trackStartTSOffset, ((s.resetTime tr 0).2.resetOffset tr 0).2.startChunk)
  | .noSyncSample false =>
    let s := { s with currentPlaybackSampleNumber := 0 }
    (tr.trackStartTSOffset, ((s.resetTime tr 0).2.resetOffset tr 0).2.startChunk)
  | .noSyncSample true =>
    let r := { s with currentPlaybackSampleNumber := 0 }.resetCursors tr
    (if r.1 then tr.trackStartTSOffset else 0, r.2)
  | .pastEnd =>
    if tr.sampleCount = 0 then
      checkFilePointer tr fileSize 0
        { s with
          currentPlaybackSampleNumber := 0
          currentPlaybackSampleTimestamp := 0 }
    else
      let r := { s with currentPlaybackSampleNumber := tr.sampleCount }.resetCursors tr
      if !r.1 then (0, r.2)
      else
        let ts := tr.getTimestampForSampleNumber tr.sampleCount + tr.trackStartTSOffset
        checkFilePointer tr fileSize ts { r.2 with currentPlaybackSampleTimestamp := ts }
  -- the entry before the table may be anything
  | .beforeTable => (0, s)
  | .sample num =>
    let ts := tr.seekTimestamp num
    let r := { s with
      currentPlaybackSampleNumber := num
      currentPlaybackSampleTimestamp := ts }.resetCursors tr
    if !r.1 then (0, r.2) else setChunkOffset tr fileSize (ts + tr.trackStartTSOffset) r.2

/-! ## Calls -/

/-- A track that has just been read. -/
def new : SampleTable :=
  let time : Cursor UInt32 := .start 0
  let chunk := (ChunkCursor.reset tr.sampleToChunk ⟨0, -1, 0, 0, 0, 0, 0, 0⟩ 0).2
  { currentPlaybackSampleNumber := 0
    currentPlaybackSampleTimestamp := 0
    currChunkOffset := 0
    timeGet := time
    timePeek := time
    offsetGet := time
    offsetPeek := time
    chunkGet := chunk
    chunkPeek := chunk }

end SampleTable

/-- A call of the user: to get samples into buffers with so much room, to peek at them, or to go to a time. -/
inductive Call
  | get (src : Source) (n : Nat) (fragments : List Nat)
  | peek (fileSize : Option Nat) (n : Nat)
  | reset (fileSize : Nat) (time : UInt32) (oDependsOn : Bool)
  deriving DecidableEq, Repr

/-- The state after a call. -/
def SampleTable.handle (tr : Track) (s : SampleTable) : Call → SampleTable
  | .get src n fragments => (getNextBundledAccessUnits tr src s n fragments).s
  | .peek fileSize n => (peekNextBundledAccessUnits tr fileSize s n).s
  | .reset fileSize time oDependsOn => (resetPlayBackbyTime tr fileSize s time oDependsOn).2

end Ftke.Mp4SampleTable
