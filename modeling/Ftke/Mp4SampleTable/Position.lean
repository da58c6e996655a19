import Ftke.Mp4SampleTable.Chunks

/-!
# Ftke.Mp4SampleTable.Position

What reading from a sample delivers.

* `Track.timeDelta`, `compositionOffsetAt`, `chunkOf`, `bytesAt` — what the tables say of a sample;
* `samplesFrom` — the samples from one on, for a time base;
* `Positioned` — the state is at a sample: all cursors are good for it, and its offset in its chunk is kept;
* `readBatch_spec`, `getLoop_step` — one batch of samples, and the part of a call for one chunk.
-/

namespace Ftke.Mp4SampleTable

open RunLength

/-! ## What the tables say -/

namespace Track

/-- The time from sample `j` to the next. -/
def timeDelta (tr : Track) (j : Nat) : UInt32 := (expand tr.timeToSample).getD j 0

/-- The composition offset of sample `j`. -/
def compositionOffsetAt (tr : Track) (j : Nat) : UInt32 :=
  match tr.compositionOffset with
  | none => 0
  | some ctts => (expand ctts).getD j 0

/-- The chunk of sample `j`. -/
def chunkOf (tr : Track) (j : Nat) : Nat := (expand tr.chunkRuns).getD j 0

/-- The first sample after the chunk of sample `j`. -/
def chunkEnd (tr : Track) (j : Nat) : Nat := tr.firstSample (tr.chunkOf j + 1)

/-- The file offset of sample `j`: the offset of its chunk, and the sizes of the samples before it there. -/
def bytesAt (tr : Track) (j : Nat) : Nat :=
  tr.chunkOffsets.getD (tr.chunkOf j) 0 + SampleTable.sizesFrom tr (tr.firstSample (tr.chunkOf j)) j

/-- The time base of sample `j`, where the samples before it give `base`. -/
def timeBase (tr : Track) (j : Nat) (base : UInt32) : UInt32 := if j = 0 then tr.trackStartTSOffset else base

/-- Sample `j` for a time base. -/
def infoAt (tr : Track) (base : UInt32) (j : Nat) : Info where
  len := tr.getSampleSizeAt j
  ts := tr.timeBase j base + tr.compositionOffsetAt j
  tsDelta := tr.timeDelta j
  sampleInfo := ChunkCursor.sampleInfoOf (runAt tr.sampleToChunk (tr.chunkOf j)).sampleDescriptionIndex

/-- `k` samples from sample `j` on. -/
def samplesFrom (tr : Track) : (k j : Nat) → (base : UInt32) → List Sample
  | 0, _, _ => []
  | k + 1, j, base => ⟨tr.infoAt base j, tr.bytesAt j⟩ :: samplesFrom tr k (j + 1) (tr.timeBase j base + tr.timeDelta j)

/-- The time base after `k` samples from sample `j` on. -/
def baseAfter (tr : Track) : (k j : Nat) → (base : UInt32) → UInt32
  | 0, _, base => base
  | k + 1, j, base => baseAfter tr k (j + 1) (tr.timeBase j base + tr.timeDelta j)

end Track

section Tables

variable {tr : Track} {j k l : Nat}

theorem samplesFrom_append (tr : Track) : ∀ (k l j : Nat) (base : UInt32),
    tr.samplesFrom (k + l) j base = tr.samplesFrom k j base ++ tr.samplesFrom l (j + k) (tr.baseAfter k j base)
  | 0, l, j, base => by simp [Track.samplesFrom, Track.baseAfter]
  | k + 1, l, j, base => by
    rw [show k + 1 + l = k + l + 1 by omega, Track.samplesFrom, samplesFrom_append tr k l, Track.samplesFrom,
      Track.baseAfter, List.cons_append, show j + 1 + k = j + (k + 1) by omega]

theorem baseAfter_add (tr : Track) : ∀ (k l j : Nat) (base : UInt32),
    tr.baseAfter (k + l) j base = tr.baseAfter l (j + k) (tr.baseAfter k j base)
  | 0, l, j, base => by simp [Track.baseAfter]
  | k + 1, l, j, base => by
    rw [show k + 1 + l = k + l + 1 by omega, Track.baseAfter, baseAfter_add tr k l, Track.baseAfter,
      show j + 1 + k = j + (k + 1) by omega]

theorem length_samplesFrom (tr : Track) : ∀ (k j : Nat) (base : UInt32), (tr.samplesFrom k j base).length = k
  | 0, _, _ => rfl
  | k + 1, j, base => by rw [Track.samplesFrom, List.length_cons, length_samplesFrom tr k]

theorem sizesFrom_self (tr : Track) (j : Nat) : SampleTable.sizesFrom tr j j = 0 := by
  simp [SampleTable.sizesFrom]

theorem sizesFrom_succ (tr : Track) (h : j ≤ k) :
    SampleTable.sizesFrom tr j (k + 1) = SampleTable.sizesFrom tr j k + tr.getSampleSizeAt k := by
  rw [SampleTable.sizesFrom, SampleTable.sizesFrom, show k + 1 - j = k - j + 1 by omega, List.range_succ,
    List.map_append, List.sum_append]
  simp [show j + (k - j) = k by omega]

theorem sizesFrom_add (tr : Track) (h : j ≤ k) : ∀ l, SampleTable.sizesFrom tr j (k + l) =
    SampleTable.sizesFrom tr j k + SampleTable.sizesFrom tr k (k + l)
  | 0 => by simp [sizesFrom_self]
  | l + 1 => by
    rw [← Nat.add_assoc, sizesFrom_succ tr (by omega), sizesFrom_add tr h l, sizesFrom_succ tr (by omega)]
    omega

theorem chunkOf_eq (hk : k < tr.chunkOffsets.length) (hle : tr.firstSample k ≤ j)
    (hlt : j < tr.firstSample (k + 1)) : tr.chunkOf j = k := by
  have hget := chunkRuns_getElem? hk
  rw [firstSample_succ hk] at hlt
  rw [Track.chunkOf, List.getD_eq_getElem?_getD, expand_getElem? hget hle hlt, Option.getD_some]

theorem chunkOf_bounds (hc : tr.Consistent) (hj : j < tr.sampleCount) :
    tr.firstSample (tr.chunkOf j) ≤ j ∧ j < tr.chunkEnd j := by
  obtain ⟨-, k, hon, hle, hlt⟩ := reset_onChunk hc hj ⟨0, -1, 0, 0, 0, 0, 0, 0⟩
  have hof := chunkOf_eq hon.lt hle hlt
  rw [Track.chunkEnd, hof]
  exact ⟨hle, hlt⟩

theorem getChunkOffsetAt_eq (hc : tr.Consistent) (hk : k < tr.chunkOffsets.length) :
    tr.getChunkOffsetAt (some k) = some (tr.chunkOffsets.getD k 0) := by
  have hget := List.getElem?_eq_getElem hk
  have hne := hc.chunkOffsetNoError _ (List.getElem_mem hk)
  simp only [Track.getChunkOffsetAt, Option.bind_some, hget, if_neg hne, List.getD_eq_getElem?_getD, Option.getD_some]

theorem OnChunk.chunkOf_eq {c : ChunkCursor} (h : OnChunk tr c k) (hle : tr.firstSample k ≤ j)
    (hlt : j < tr.firstSample (k + 1)) : tr.chunkOf j = k := Mp4SampleTable.chunkOf_eq h.lt hle hlt

end Tables

/-! ## States at a sample -/

/-- The cursors for getting into stts and ctts are good for sample `m`. -/
structure TimesGood (tr : Track) (s : SampleTable) (m : Nat) : Prop where
  time : s.timeGet.Good tr.timeToSample m tr.sampleCount
  offset : ∀ ctts, tr.compositionOffset = some ctts → s.offsetGet.Good ctts m tr.sampleCount

/-- The cursors for peeking into stts and stsc are in step with their tables. -/
structure PeeksInStep (tr : Track) (s : SampleTable) : Prop where
  time : s.timePeek.InStep tr.timeToSample
  chunk : ChunkInStep tr s.chunkPeek

/-- The state is at sample `m`. -/
structure Positioned (tr : Track) (s : SampleTable) (m : Nat) : Prop extends TimesGood tr s m where
  number : s.currentPlaybackSampleNumber = m
  chunk : ChunkGood tr s.chunkGet m
  chunkOffset : s.currChunkOffset = SampleTable.sizesFrom tr (tr.firstSample (tr.chunkOf m)) m

/-- The state is at a sample, or past the last. -/
def InPlace (tr : Track) (s : SampleTable) : Prop :=
  s.currentPlaybackSampleNumber < tr.sampleCount →
    Positioned tr s s.currentPlaybackSampleNumber ∧ PeeksInStep tr s

namespace SampleTable

variable {tr : Track} {s : SampleTable} {j k m : Nat}

/-! ## Batches -/

/-- The values that the cursors of stts and ctts have after reading sample `j`. -/
structure AfterSample (tr : Track) (t o : Cursor UInt32) (j : Nat) : Prop where
  time_lt : j < t.sampleCount
  time_value : (expand tr.timeToSample)[j]? = some t.value
  offset_lt : ∀ ctts, tr.compositionOffset = some ctts → j < o.sampleCount
  offset_value : ∀ ctts, tr.compositionOffset = some ctts → (expand ctts)[j]? = some o.value

theorem timeGet_spec (hc : tr.Consistent) (h : s.timeGet.Good tr.timeToSample j tr.sampleCount) (hj : j < tr.sampleCount) :
    ∃ t, s.getTimeDeltaForSampleNumberGet tr j = (tr.timeDelta j, { s with timeGet := t }) ∧
      t.Good tr.timeToSample j tr.sampleCount ∧ j < t.sampleCount ∧ (expand tr.timeToSample)[j]? = some t.value ∧
      tr.timeDelta j ≠ pvError := by
  have hlen : j < (expand tr.timeToSample).length := by rwa [hc.timeTotal]
  obtain ⟨hval, hgood, hlt, heq⟩ := Cursor.get_good pvError hc.timePositive h hlen hj
  have hdelta : tr.timeDelta j = (s.timeGet.get pvError tr.timeToSample j).1 := by
    rw [Track.timeDelta, List.getD_eq_getElem?_getD, hval, Option.getD_some]
  refine ⟨_, by rw [getTimeDeltaForSampleNumberGet, ← hdelta], hgood, hlt, by rw [hval, heq], ?_⟩
  rw [hdelta]
  exact hc.timeNoError _ (List.mem_of_getElem? hval)

theorem offsetGet_spec (hc : tr.Consistent)
    (h : ∀ ctts, tr.compositionOffset = some ctts → s.offsetGet.Good ctts j tr.sampleCount) (hj : j < tr.sampleCount) :
    ∃ o, s.getCttsOffsetForSampleNumberGet tr j = (tr.compositionOffsetAt j, { s with offsetGet := o }) ∧
      ∀ ctts, tr.compositionOffset = some ctts → o.Good ctts j tr.sampleCount ∧ j < o.sampleCount ∧
        (expand ctts)[j]? = some o.value := by
  cases hctts : tr.compositionOffset with
  | none =>
    refine ⟨s.offsetGet, ?_, by simp⟩
    simp only [getCttsOffsetForSampleNumberGet, Track.compositionOffsetAt, hctts]
  | some ctts =>
    have hlen : j < (expand ctts).length := by rwa [hc.offsetTotal ctts hctts]
    obtain ⟨hval, hgood, hlt, heq⟩ := Cursor.get_good pvError (hc.offsetPositive ctts hctts) (h ctts hctts) hlen hj
    have hne := hc.offsetNoError ctts hctts _ (List.mem_of_getElem? hval)
    refine ⟨(s.offsetGet.get pvError ctts j).2, ?_, ?_⟩
    · simp only [getCttsOffsetForSampleNumberGet, Track.compositionOffsetAt, hctts, Track.offsetOr0, if_neg hne,
        List.getD_eq_getElem?_getD, hval, Option.getD_some]
    · intro ctts' hctts'
      cases hctts'
      exact ⟨hgood, hlt, by rw [hval, heq]⟩

/-- The descriptions of `k` samples from sample `j` on, all with the description index `info`. -/
def infosFrom (tr : Track) (info : Nat) : (k j : Nat) → (base : UInt32) → List Info
  | 0, _, _ => []
  | k + 1, j, base =>
    { tr.infoAt base j with sampleInfo := info } :: infosFrom tr info k (j + 1) (tr.timeBase j base + tr.timeDelta j)

/-- **One batch**: the descriptions are those of the tables, and the cursors are good for the next sample. -/
theorem readBatch_spec (hc : tr.Consistent) (info : Nat) : ∀ (k j : Nat) (s : SampleTable) (base : UInt32),
    TimesGood tr s j → j + k ≤ tr.sampleCount →
    ∃ t o, readBatch tr info k j s base =
        ⟨none, { s with timeGet := t, offsetGet := o }, tr.baseAfter k j base, infosFrom tr info k j base⟩ ∧
      TimesGood tr { s with timeGet := t, offsetGet := o } (j + k) ∧ (0 < k → AfterSample tr t o (j + k - 1))
  | 0, j, s, base, h, _ => ⟨s.timeGet, s.offsetGet, rfl, h, by omega⟩
  | k + 1, j, s, base, h, hjk => by
    obtain ⟨t, htime, htgood, htlt, htval, hne⟩ := timeGet_spec hc h.time (by omega)
    obtain ⟨o, hoff, ho⟩ := @offsetGet_spec tr { s with timeGet := t } j hc h.offset (by omega)
    have hnext : TimesGood tr { s with timeGet := t, offsetGet := o } (j + 1) :=
      ⟨htgood.later (Nat.le_succ j) htlt hc.timePositive, fun ctts hctts =>
        (ho ctts hctts).1.later (Nat.le_succ j) (ho ctts hctts).2.1 (hc.offsetPositive ctts hctts)⟩
    obtain ⟨t', o', hrest, hgood, hafter⟩ :=
      readBatch_spec hc info k (j + 1) { s with timeGet := t, offsetGet := o } (tr.timeBase j base + tr.timeDelta j)
        hnext (by omega)
    refine ⟨t', o', ?_, ?_, fun _ => ?_⟩
    · have hsize := hc.sizeNoError j
      simp only [readBatch, if_neg hsize, htime, if_neg hne, hoff]
      rw [show (if j = 0 then tr.trackStartTSOffset else base) = tr.timeBase j base from rfl, hrest]
      rfl
    · rw [show j + (k + 1) = j + 1 + k by omega]
      exact hgood
    · cases k with
      | zero =>
        have hsame : t' = t ∧ o' = o := by
          have heq := congrArg Batch.s hrest
          simp only [readBatch, SampleTable.mk.injEq] at heq
          exact ⟨heq.2.2.2.1.symm, heq.2.2.2.2.2.1.symm⟩
        rw [hsame.1, hsame.2]
        exact ⟨htlt, htval, fun ctts hctts => (ho ctts hctts).2.1, fun ctts hctts => (ho ctts hctts).2.2⟩
      | succ k =>
        have hlast := hafter (by omega)
        rwa [show j + 1 + (k + 1) - 1 = j + (k + 1 + 1) - 1 by omega] at hlast

theorem sigmaSampleSize_infosFrom (tr : Track) (info : Nat) : ∀ (k j : Nat) (base : UInt32),
    sigmaSampleSize (infosFrom tr info k j base) = sizesFrom tr j (j + k)
  | 0, j, _ => by simp [infosFrom, sigmaSampleSize, sizesFrom_self]
  | k + 1, j, base => by
    have htail := sigmaSampleSize_infosFrom tr info k (j + 1) (tr.timeBase j base + tr.timeDelta j)
    have hfirst := sizesFrom_add tr (Nat.le_succ j) k
    rw [sizesFrom_succ tr (Nat.le_refl j), sizesFrom_self] at hfirst
    rw [infosFrom, sigmaSampleSize, List.map_cons, List.sum_cons]
    rw [sigmaSampleSize] at htail
    rw [htail, show j + (k + 1) = j + 1 + k by omega, hfirst]
    simp [Track.infoAt]

theorem place_infosFrom (hc : tr.Consistent) {c : Nat} (hlt : c < tr.chunkOffsets.length) : ∀ (k j : Nat) (base : UInt32),
    tr.firstSample c ≤ j → j + k ≤ tr.firstSample (c + 1) →
    place (tr.chunkOffsets.getD c 0 + sizesFrom tr (tr.firstSample c) j)
      (infosFrom tr (ChunkCursor.sampleInfoOf (runAt tr.sampleToChunk c).sampleDescriptionIndex) k j base) =
      tr.samplesFrom k j base
  | 0, _, _, _, _ => rfl
  | k + 1, j, base, hle, hend => by
    have hof : tr.chunkOf j = c := chunkOf_eq hlt hle (by omega)
    have htail := place_infosFrom hc hlt k (j + 1) (tr.timeBase j base + tr.timeDelta j) (by omega) (by omega)
    rw [sizesFrom_succ tr hle, ← Nat.add_assoc] at htail
    have hlen : (tr.infoAt base j).len = tr.getSampleSizeAt j := rfl
    rw [infosFrom, place, Track.samplesFrom]
    simp only [hlen, htail]
    rw [Track.bytesAt, hof]
    simp only [Track.infoAt, hof]

theorem sum_takeRoom : ∀ (lens : List Nat) (size : Nat), size ≤ lens.sum → (takeRoom lens size).sum = lens.sum - size
  | [], size, h => by simp [takeRoom]
  | len :: lens, size, h => by
    rw [List.sum_cons] at h
    rw [takeRoom, List.sum_cons, List.sum_cons, sum_takeRoom lens _ (by omega)]
    omega

/-! ## One chunk of a call -/

/-- The samples of the chunk of `m` that a call with `n` samples left to read reads. -/
def batchLen (tr : Track) (m n : Nat) : Nat := min n (tr.chunkEnd m - m)

/-- The state after the cursors have been moved over the batch from sample `m` on. -/
structure AfterBatch (tr : Track) (s : SampleTable) (m k : Nat) (s' : SampleTable) : Prop where
  eq : ∃ c t o, s' = { s with chunkGet := c, timeGet := t, offsetGet := o }
  onChunk : OnChunk tr s'.chunkGet (tr.chunkOf m)
  times : TimesGood tr s' (m + k)
  afterSample : AfterSample tr s'.timeGet s'.offsetGet (m + k - 1)

theorem chunk_bounds (hc : tr.Consistent) (h : ChunkGood tr s.chunkGet m) (hm : m < tr.sampleCount) :
    ∃ c, s.getChunkNumberForSampleGet tr m = (some (tr.chunkOf m), { s with chunkGet := c }) ∧
      OnChunk tr c (tr.chunkOf m) ∧ tr.firstSample (tr.chunkOf m) ≤ m ∧ m < tr.chunkEnd m := by
  obtain ⟨k, hsome, hon, hle, hlt⟩ := getChunkNumber_good hc h hm
  have hof := hon.chunkOf_eq hle hlt
  rw [Track.chunkEnd, hof]
  exact ⟨_, by rw [getChunkNumberForSampleGet, hsome], hon, hle, hlt⟩

theorem batchLen_pos (hc : tr.Consistent) (hm : m < tr.sampleCount) {n : Nat} (hn : 0 < n) : 0 < batchLen tr m n := by
  obtain ⟨-, hlt⟩ := chunkOf_bounds hc hm
  rw [batchLen]
  omega

theorem chunkEnd_le (hc : tr.Consistent) (m : Nat) : tr.chunkEnd m ≤ tr.sampleCount := by
  rw [← hc.chunkTotal]
  exact sumTo_le_length _ _

theorem positioned_next (hc : tr.Consistent) (h : Positioned tr s m) (hm : m < tr.sampleCount) {n : Nat}
    {s' : SampleTable} (hs' : AfterBatch tr s m (batchLen tr m n) s') :
    Positioned tr
      { s' with
        currChunkOffset :=
          if tr.chunkEnd m - m > n then s'.currChunkOffset + sizesFrom tr m (m + batchLen tr m n) else 0
        currentPlaybackSampleNumber := s'.currentPlaybackSampleNumber + batchLen tr m n }
      (m + batchLen tr m n) ∨ m + batchLen tr m n = tr.sampleCount := by
  obtain ⟨-, -, -, hle, hlt⟩ := chunk_bounds hc h.chunk hm
  have hend := chunkEnd_le hc m
  obtain ⟨⟨c, t, o, rfl⟩, hon, htimes, -⟩ := hs'
  by_cases hall : m + batchLen tr m n = tr.sampleCount
  · exact Or.inr hall
  · left
    have hbatch : batchLen tr m n = min n (tr.chunkEnd m - m) := rfl
    refine ⟨⟨htimes.time, htimes.offset⟩, ?_, ?_, ?_⟩
    · simp only [h.number]
    · exact hon.good (by omega) (by rw [← Track.chunkEnd]; omega)
    · simp only [h.chunkOffset]
      split
      · next hpart =>
        have hof : tr.chunkOf (m + batchLen tr m n) = tr.chunkOf m :=
          hon.chunkOf_eq (by omega) (by rw [← Track.chunkEnd]; omega)
        rw [hof, sizesFrom_add tr hle]
      · next hwhole =>
        have hnext : tr.firstSample (tr.chunkOf m + 1) = m + batchLen tr m n := by
          rw [← Track.chunkEnd]
          omega
        have hlen := chunk_lt_of_sample hc (show m + batchLen tr m n < tr.sampleCount by omega)
          (Nat.le_of_eq hnext)
        have hspc : 0 < (runAt tr.sampleToChunk (tr.chunkOf m + 1)).samplesPerChunk := by
          obtain ⟨c', -, hon'⟩ := hon.nextChunk hc hlen
          obtain ⟨r, e, hrun, -⟩ := hon'.run
          rw [runAt_of_run hc.chunkIncreasing hrun.get hrun.le hrun.lt]
          exact (hc.chunkSamples e (List.mem_of_getElem? hrun.get)).1
        have hof : tr.chunkOf (m + batchLen tr m n) = tr.chunkOf m + 1 := by
          refine chunkOf_eq hlen (Nat.le_of_eq hnext) ?_
          rw [firstSample_succ hlen]
          omega
        rw [hof, hnext, sizesFrom_self]

/-- The bytes of a batch are where the source has no data. -/
def Unavailable (tr : Track) (src : Source) (m k : Nat) : Prop :=
  tr.bytesAt m < src.bufStart ∨ sizesFrom tr m (m + k) + tr.bytesAt m > src.bufEnd

instance (tr : Track) (src : Source) (m k : Nat) : Decidable (Unavailable tr src m k) :=
  inferInstanceAs (Decidable (_ ∨ _))

/-- **One chunk of a call**: the data are not there, or the room is not, or the samples of the chunk are read. -/
theorem getLoop_step (hc : tr.Consistent) (src : Source) (start n : Nat) (startTS : UInt32) (fuel : Nat)
    (h : Positioned tr s m) (hm : m < tr.sampleCount) {yet : Nat} (hyet : 0 < yet) (base : UInt32)
    (fragments : List Nat) (samples : List Sample) :
    ∃ s', AfterBatch tr s m (batchLen tr m yet) s' ∧
      getLoop tr src start n startTS (fuel + 1) s m yet base fragments samples =
        if Unavailable tr src m (batchLen tr m yet) then
          s'.insufficientData tr src start n startTS (tr.bytesAt m) (sizesFrom tr m (m + batchLen tr m yet))
        else if fragments.sum < sizesFrom tr m (m + batchLen tr m yet) then s'.insufficientBufferSize tr start n
        else
          let next := { s' with
            currChunkOffset :=
              if tr.chunkEnd m - m > yet then s'.currChunkOffset + sizesFrom tr m (m + batchLen tr m yet) else 0
            currentPlaybackSampleNumber := s'.currentPlaybackSampleNumber + batchLen tr m yet }
          let samples' := samples ++ tr.samplesFrom (batchLen tr m yet) m base
          if m + batchLen tr m yet ≥ tr.sampleCount then
            finish .endOfTrack next (tr.baseAfter (batchLen tr m yet) m base) (n - (yet - batchLen tr m yet)) samples'
          else
            getLoop tr src start n startTS fuel next (m + batchLen tr m yet) (yet - batchLen tr m yet)
              (tr.baseAfter (batchLen tr m yet) m base)
              (takeRoom fragments (sizesFrom tr m (m + batchLen tr m yet))) samples' := by
  obtain ⟨c, hchunk, hon, hle, hlt⟩ := chunk_bounds hc h.chunk hm
  have hend := chunkEnd_le hc m
  have hbatch : batchLen tr m yet = min yet (tr.chunkEnd m - m) := rfl
  obtain ⟨t, o, hread, htimes, hafter⟩ := readBatch_spec hc
    (ChunkCursor.sampleInfoOf (runAt tr.sampleToChunk (tr.chunkOf m)).sampleDescriptionIndex) (batchLen tr m yet) m
    { s with chunkGet := c } base ⟨h.time, h.offset⟩ (by omega)
  refine ⟨{ s with chunkGet := c, timeGet := t, offsetGet := o }, ⟨⟨c, t, o, rfl⟩, hon, htimes, hafter (by omega)⟩, ?_⟩
  have hleft : c.numSamplesPerChunk - (m - c.firstSampleInCurrChunk) = tr.chunkEnd m - m := by
    rw [hon.samplesPerChunk, hon.first, Track.chunkEnd, firstSample_succ hon.lt]
    omega
  have hnum : (if tr.chunkEnd m - m > yet then yet else tr.chunkEnd m - m) = batchLen tr m yet := by
    rw [hbatch]
    split <;> omega
  have hoffset := getChunkOffsetAt_eq hc hon.lt
  have hplace := place_infosFrom hc hon.lt (batchLen tr m yet) m base hle (by rw [← Track.chunkEnd]; omega)
  have hbytes : tr.chunkOffsets.getD (tr.chunkOf m) 0 + s.currChunkOffset = tr.bytesAt m := by
    rw [h.chunkOffset, Track.bytesAt]
  rw [← h.chunkOffset, hbytes] at hplace
  rw [getLoop, if_neg (by omega)]
  simp only [hchunk, if_neg hon.chunksInRun, hleft, hnum, hoffset, ChunkCursor.sampleInfo, hon.currSDI, hread,
    sigmaSampleSize_infosFrom, hbytes, hplace]
  simp only [h.number]
  rfl

end SampleTable

end Ftke.Mp4SampleTable
