import Ftke.Mp4SampleTable.Shortage

/-!
# Ftke.Mp4SampleTable.Peek

What a peek returns, and that it moves nothing but its own cursors.

* `PeekReady` — the cursor into ctts, which is not set to the one for getting, is good for the samples to be peeked;
* `peekLoop_spec` — the loop over the samples;
* `peek_spec` — a peek leaves the state in place, and describes the samples that are next.
-/

namespace Ftke.Mp4SampleTable

open RunLength

namespace SampleTable

variable {tr : Track} {s : SampleTable} {j k m n : Nat}

/-! ## One sample -/

theorem timePeek_spec (hc : tr.Consistent) (h : s.timePeek.Good tr.timeToSample j tr.sampleCount)
    (hj : j < tr.sampleCount) :
    ∃ t, s.getTimeDeltaForSampleNumberPeek tr j = (tr.timeDelta j, { s with timePeek := t }) ∧
      t.Good tr.timeToSample (j + 1) tr.sampleCount ∧ tr.timeDelta j ≠ pvError := by
  have hlen : j < (expand tr.timeToSample).length := by rwa [hc.timeTotal]
  obtain ⟨hval, hgood, hlt, -⟩ := Cursor.get_good pvError hc.timePositive h hlen hj
  have hdelta : tr.timeDelta j = (s.timePeek.get pvError tr.timeToSample j).1 := by
    rw [Track.timeDelta, List.getD_eq_getElem?_getD, hval, Option.getD_some]
  refine ⟨_, by rw [getTimeDeltaForSampleNumberPeek, ← hdelta], hgood.later (Nat.le_succ j) hlt hc.timePositive, ?_⟩
  rw [hdelta]
  exact hc.timeNoError _ (List.mem_of_getElem? hval)

theorem offsetPeek_spec (hc : tr.Consistent) {lim : Nat} (hj : j < tr.sampleCount) (hlim : j < lim)
    (s : SampleTable) : ∃ offset o, s.getCttsOffsetForSampleNumberPeek tr j = (offset, { s with offsetPeek := o }) ∧
      ((∀ ctts, tr.compositionOffset = some ctts → s.offsetPeek.Good ctts j lim) →
        offset = tr.compositionOffsetAt j ∧
          ∀ ctts, tr.compositionOffset = some ctts → o.Good ctts (j + 1) lim) := by
  cases hctts : tr.compositionOffset with
  | none =>
    refine ⟨0, s.offsetPeek, by simp only [getCttsOffsetForSampleNumberPeek, hctts], fun _ => ⟨?_, by simp⟩⟩
    simp only [Track.compositionOffsetAt, hctts]
  | some ctts =>
    refine ⟨Track.offsetOr0 (s.offsetPeek.get pvError ctts j).1, (s.offsetPeek.get pvError ctts j).2,
      by simp only [getCttsOffsetForSampleNumberPeek, hctts], fun h => ?_⟩
    have hlen : j < (expand ctts).length := by rwa [hc.offsetTotal ctts hctts]
    have hpos := hc.offsetPositive ctts hctts
    obtain ⟨hval, hgood, hlt, -⟩ := Cursor.get_good pvError hpos (h ctts rfl) hlen hlim
    have hne := hc.offsetNoError ctts hctts _ (List.mem_of_getElem? hval)
    refine ⟨?_, fun ctts' hctts' => ?_⟩
    · simp only [Track.compositionOffsetAt, hctts, Track.offsetOr0, if_neg hne, List.getD_eq_getElem?_getD, hval,
        Option.getD_some]
    · cases hctts'
      exact hgood.later (Nat.le_succ j) hlt hpos

/-! ## The loop -/

/-- **The loop over the samples** describes them, and moves the cursors for peeking alone. -/
theorem peekLoop_spec (hc : tr.Consistent) (code : Mp4ErrorCode) : ∀ (k j : Nat) (s : SampleTable) (base : UInt32),
    s.timePeek.Good tr.timeToSample j tr.sampleCount → ChunkGood tr s.chunkPeek j → j + k ≤ tr.sampleCount →
    (j = 0 → base = tr.trackStartTSOffset) →
    ∃ t o c infos, peekLoop tr code k j s base =
        ⟨code, { s with timePeek := t, offsetPeek := o, chunkPeek := c }, infos⟩ ∧
      t.InStep tr.timeToSample ∧ ChunkInStep tr c ∧
      ((∀ ctts, tr.compositionOffset = some ctts → s.offsetPeek.Good ctts j (j + k)) →
        infos = (tr.samplesFrom k j base).map Sample.info)
  | 0, j, s, base, htime, hchunk, _, _ =>
    ⟨s.timePeek, s.offsetPeek, s.chunkPeek, [], rfl, htime.toInStep, hchunk.inStep, fun _ => rfl⟩
  | k + 1, j, s, base, htime, hchunk, hjk, hbase => by
    obtain ⟨c, hsome, hon, hle, hlt⟩ := getChunkNumber_good hc hchunk (by omega)
    have hof := hon.chunkOf_eq hle hlt
    have htb : tr.timeBase j base = base := by
      rw [Track.timeBase]
      split
      · next hzero => exact (hbase hzero).symm
      · rfl
    obtain ⟨t, hdelta, htgood, hne⟩ := @timePeek_spec tr
      { s with chunkPeek := (s.chunkPeek.getChunkNumber tr.sampleToChunk j).2 } j hc htime (by omega)
    obtain ⟨offset, o, hoff, hready⟩ := @offsetPeek_spec tr j hc (j + (k + 1)) (by omega) (by omega)
      { s with chunkPeek := (s.chunkPeek.getChunkNumber tr.sampleToChunk j).2, timePeek := t }
    obtain ⟨t', o', c', infos, hrest, htin, hcin, hinfos⟩ := peekLoop_spec hc code k (j + 1)
      { s with
        chunkPeek := (s.chunkPeek.getChunkNumber tr.sampleToChunk j).2
        timePeek := t
        offsetPeek := o } (base + tr.timeDelta j) htgood (hon.good (by omega) hlt) (by omega) (by omega)
    have hsize := hc.sizeNoError j
    refine ⟨t', o', c', ⟨tr.getSampleSizeAt j, base + offset, tr.timeDelta j,
      (s.chunkPeek.getChunkNumber tr.sampleToChunk j).2.sampleInfo⟩ :: infos, ?_, htin, hcin, fun hgood => ?_⟩
    · simp only [peekLoop, getChunkNumberForSamplePeek, hsome, reduceCtorEq, if_false, if_neg hsize, hdelta,
        if_neg hne, hoff, hrest, if_true]
    · obtain ⟨hoffset, hnext⟩ := hready hgood
      rw [hinfos (by rwa [show j + 1 + k = j + (k + 1) by omega]), Track.samplesFrom, List.map_cons, hoffset, htb,
        ChunkCursor.sampleInfo, hon.currSDI]
      simp only [Track.infoAt, htb, hof]

/-! ## A peek -/

/-- The cursor for peeking into ctts is good for the next samples. -/
def PeekReady (tr : Track) (s : SampleTable) (n : Nat) : Prop :=
  ∀ ctts, tr.compositionOffset = some ctts →
    s.offsetPeek.Good ctts s.currentPlaybackSampleNumber
      (s.currentPlaybackSampleNumber + readCount tr s.currentPlaybackSampleNumber n)

/-- Setting the cursors for peeking makes those of stts and stsc good for the current sample. -/
theorem resetPeekwithGet_spec (hc : tr.Consistent) (h : Positioned tr s m) (hpeeks : PeeksInStep tr s) :
    ∃ t c, s.resetPeekwithGet = { s with timePeek := t, chunkPeek := c } ∧
      t.Good tr.timeToSample m tr.sampleCount ∧ ChunkGood tr c m := by
  refine ⟨_, _, rfl, ?_, ?_⟩
  · split
    · next heq => exact hpeeks.time.good hc.timePositive (heq.trans h.number)
    · exact h.time
  · split
    · next heq => exact hpeeks.chunk.good (heq.trans h.number)
    · exact h.chunk

theorem peekCheck_spec (hc : tr.Consistent) (fileSize : Option Nat) (hchunk : ChunkGood tr s.chunkPeek m)
    (hm : m < tr.sampleCount) (n : Nat) :
    ∃ code c, s.peekCheck tr fileSize m n = (code, { s with chunkPeek := c }) ∧ ChunkGood tr c m ∧
      (code = none ∨ code = some .readFailed) := by
  cases fileSize with
  | none => exact ⟨none, s.chunkPeek, rfl, hchunk, Or.inl rfl⟩
  | some size =>
    by_cases htext : tr.mediaType = .text
    · exact ⟨none, s.chunkPeek, by simp only [peekCheck, if_pos htext], hchunk, Or.inl rfl⟩
    · obtain ⟨k, hsome, hon, hle, hlt⟩ := getChunkNumber_good hc hchunk hm
      have hsizes : ∀ (first : Nat) (l : List Nat),
          (l.any fun i => decide (tr.getSampleSizeAt (first + i) = errorNumber)) = false := by
        intro first l
        simp [hc.sizeNoError]
      have hin := hon.good hle (Nat.le_of_lt hlt)
      simp only [peekCheck, if_neg htext, getChunkNumberForSamplePeek, hsome, reduceCtorEq, if_false,
        getChunkOffsetAt_eq hc hon.lt, hsizes, Bool.false_eq_true]
      split
      · exact ⟨_, _, rfl, hin, Or.inr rfl⟩
      · exact ⟨_, _, rfl, hin, Or.inl rfl⟩

theorem sameNext_of_peeks (tr : Track) (s : SampleTable) (t o : Cursor UInt32) (c : ChunkCursor) :
    SameNext s { s.atStart tr with timePeek := t, offsetPeek := o, chunkPeek := c } :=
  ⟨atStart_number tr s, atStart_timestamp tr s⟩

theorem inPlace_of_peeks (h : Positioned tr s m) {t o : Cursor UInt32} {c : ChunkCursor}
    (htime : t.InStep tr.timeToSample) (hchunk : ChunkInStep tr c) :
    InPlace tr { s with timePeek := t, offsetPeek := o, chunkPeek := c } := by
  obtain rfl : s.currentPlaybackSampleNumber = m := h.number
  exact fun _ => ⟨⟨⟨h.time, h.offset⟩, rfl, h.chunk, h.chunkOffset⟩, ⟨htime, hchunk⟩⟩

theorem peekNextNSamples_spec (hc : tr.Consistent) (fileSize : Option Nat) (n : Nat) (h : Positioned tr s m)
    (hpeeks : PeeksInStep tr s) (hm : m < tr.sampleCount) :
    ∃ code t o c infos, peekNextNSamples tr fileSize s n =
        ⟨code, { s with timePeek := t, offsetPeek := o, chunkPeek := c }, infos⟩ ∧
      t.InStep tr.timeToSample ∧ ChunkInStep tr c ∧
      (code = .readFailed ∧ infos = [] ∨ (code = .everythingFine ∨ code = .endOfTrack) ∧
        (PeekReady tr s n → infos = (nextSamples tr s n).map Sample.info)) := by
  obtain rfl : s.currentPlaybackSampleNumber = m := h.number
  obtain ⟨t, c, hreset, ht, hchunk⟩ := resetPeekwithGet_spec hc h hpeeks
  have hreads : (if s.currentPlaybackSampleNumber + n ≥ tr.sampleCount then
      tr.sampleCount - s.currentPlaybackSampleNumber else n) = readCount tr s.currentPlaybackSampleNumber n := by
    rw [readCount]
    split <;> omega
  obtain ⟨code, c', hcheck, hchunk', hcode⟩ := @peekCheck_spec tr { s with timePeek := t, chunkPeek := c }
    s.currentPlaybackSampleNumber hc fileSize hchunk hm (readCount tr s.currentPlaybackSampleNumber n)
  rw [peekNextNSamples, hreset]
  simp only [if_neg (Nat.not_le.mpr hm), hreads, hcheck]
  obtain rfl | rfl := hcode
  · have hbase : s.currentPlaybackSampleNumber = 0 →
        (if s.currentPlaybackSampleNumber = 0 then tr.trackStartTSOffset else s.currentPlaybackSampleTimestamp) =
          tr.trackStartTSOffset := fun hzero => if_pos hzero
    obtain ⟨t', o, c'', infos, heq, htin, hcin, hinfos⟩ := peekLoop_spec hc
      (if s.currentPlaybackSampleNumber + n ≥ tr.sampleCount then .endOfTrack else .everythingFine)
      (readCount tr s.currentPlaybackSampleNumber n) s.currentPlaybackSampleNumber
      { s with timePeek := t, chunkPeek := c' } _ ht hchunk' (by rw [readCount]; omega) hbase
    simp only [heq]
    refine ⟨_, t', o, c'', infos, rfl, htin, hcin, Or.inr ⟨?_, fun hready => ?_⟩⟩
    · split
      · exact Or.inr rfl
      · exact Or.inl rfl
    · rw [hinfos hready, nextSamples]
      refine congrArg (List.map Sample.info) (samplesFrom_congr tr _ ?_)
      by_cases hzero : s.currentPlaybackSampleNumber = 0
      · exact Or.inl hzero
      · exact Or.inr (if_neg hzero)
  · exact ⟨_, t, s.offsetPeek, c', [], rfl, ht.toInStep, hchunk'.inStep, Or.inl ⟨rfl, rfl⟩⟩

theorem peekReady_atStart (h : PeekReady tr s n) : PeekReady tr (s.atStart tr) n := by
  rw [atStart]
  split <;> exact h

/-- **A peek** leaves the state in place and the next samples what they were; it fails, or, if the cursor into ctts is
good for them, describes them. -/
theorem peek_spec (hc : tr.Consistent) (fileSize : Option Nat) (n : Nat) (h : InPlace tr s) :
    InPlace tr (peekNextBundledAccessUnits tr fileSize s n).s ∧
      SameNext s (peekNextBundledAccessUnits tr fileSize s n).s ∧
      ((peekNextBundledAccessUnits tr fileSize s n).code = .readFailed ∧
          (peekNextBundledAccessUnits tr fileSize s n).infos = [] ∨
        (PeekReady tr s n →
          (peekNextBundledAccessUnits tr fileSize s n).infos = (nextSamples tr s n).map Sample.info)) := by
  by_cases hm : s.currentPlaybackSampleNumber < tr.sampleCount
  · obtain ⟨hat, hstep⟩ := h hm
    have hat' := positioned_atStart hat
    obtain ⟨code, t, o, c, infos, heq, htin, hcin, hinfos⟩ := peekNextNSamples_spec hc fileSize n hat'
      (peeksInStep_of_same hstep (atStart_samePeeks tr s)) hm
    have hbundled : peekNextBundledAccessUnits tr fileSize s n =
        ⟨code, { s.atStart tr with timePeek := t, offsetPeek := o, chunkPeek := c }, infos⟩ := by
      have hne : ¬(code = .invalidSampleSize ∨ code = .invalidChunkOffset) := by
        obtain ⟨rfl, -⟩ | ⟨rfl | rfl, -⟩ := hinfos <;> simp
      simp only [peekNextBundledAccessUnits, heq, if_neg hne]
    rw [hbundled]
    refine ⟨inPlace_of_peeks hat' htin hcin, sameNext_of_peeks tr s t o c, ?_⟩
    obtain hfail | ⟨-, hready⟩ := hinfos
    · exact Or.inl hfail
    · have hsame : SameNext s (s.atStart tr) := ⟨atStart_number tr s, atStart_timestamp tr s⟩
      refine Or.inr fun hs => ?_
      rw [hready (peekReady_atStart hs), hsame.nextSamples_eq]
  · -- past the last sample nothing is described
    have hzero : readCount tr s.currentPlaybackSampleNumber n = 0 := by
      rw [readCount]
      omega
    have heq : peekNextNSamples tr fileSize (s.atStart tr) n =
        ⟨.endOfTrack, (s.atStart tr).resetPeekwithGet, []⟩ := by
      rw [peekNextNSamples, atStart_number, if_pos (by omega)]
    simp only [peekNextBundledAccessUnits, heq, reduceCtorEq, or_self, if_false]
    refine ⟨fun hlt => absurd hlt ?_, ⟨atStart_number tr s, atStart_timestamp tr s⟩, Or.inr fun _ => ?_⟩
    · simp only [resetPeekwithGet, atStart_number]
      exact hm
    · rw [nextSamples, hzero]
      rfl

end SampleTable

end Ftke.Mp4SampleTable
