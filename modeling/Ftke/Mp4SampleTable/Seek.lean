import Ftke.Mp4SampleTable.Get

/-!
# Ftke.Mp4SampleTable.Seek

Where `resetPlayBackbyTime` leaves the state.

* `Seek.Lands` — when the state is in place after it;
* `setChunkOffset_spec` — the last part, for a sample that the cursors are on;
* `reset_inPlace` — the state is in place where the call lands.
-/

namespace Ftke.Mp4SampleTable

open RunLength

/-- The file can be positioned at the sample, where it is read without seeking. -/
def Track.FileSet (tr : Track) (fileSize num : Nat) : Prop :=
  tr.oPVContentDownloadable = true → tr.canSetFilePointer fileSize num = true

/-- Going there leaves the state in place: on a sample of the track, with the cursors on it, or past the last one. -/
def Seek.Lands (tr : Track) (s : SampleTable) (fileSize : Nat) : Seek → Prop
  | .beginning => True
  -- the offset in the chunk is not set
  | .noSyncSample _ => s.currChunkOffset = 0
  | .pastEnd => tr.oPVContentDownloadable = false
  | .beforeTable => False
  -- where the file cannot be positioned, the sample number alone is set to 0
  | .sample num => num < tr.sampleCount ∧ (num = 0 ∨ tr.FileSet fileSize num)

namespace SampleTable

variable {tr : Track} {s : SampleTable} {fileSize num m : Nat}

/-! ## The first sample -/

theorem sizesFrom_first (hc : tr.Consistent) (hm : 0 < tr.sampleCount) :
    sizesFrom tr (tr.firstSample (tr.chunkOf 0)) 0 = 0 := by
  obtain ⟨hle, -⟩ := chunkOf_bounds hc hm
  rw [Nat.le_zero.mp hle, sizesFrom_self]

theorem restart_inPlace (hc : tr.Consistent) (hoffset : s.currChunkOffset = 0)
    (hnumber : s.currentPlaybackSampleNumber = 0) :
    InPlace tr (((s.resetTime tr 0).2.resetOffset tr 0).2.startChunk) := by
  intro hlt
  have hm : 0 < tr.sampleCount := Nat.zero_lt_of_lt hlt
  obtain ⟨t, htime, htgood⟩ := resetTime_spec hc hm s
  obtain ⟨o, p, hoff, hogood⟩ := resetOffset_spec hc hm { s with timeGet := t, timePeek := t }
  have hbefore := startsBefore s.chunkGet
  simp only [htime, hoff, startChunk]
  simp only [hnumber]
  refine ⟨⟨⟨htgood, fun ctts hctts => (hogood ctts hctts).1⟩, rfl, Or.inl ⟨hbefore, rfl⟩, ?_⟩,
    ⟨htgood.toInStep, Or.inl hbefore⟩⟩
  rw [sizesFrom_first hc hm]
  exact hoffset

/-! ## A sample -/

theorem setChunkOffset_spec (hc : tr.Consistent) (hm : m < tr.sampleCount) (h : CursorsAt tr s m)
    (hnumber : s.currentPlaybackSampleNumber = m) (trueTS : UInt32) (hset : m = 0 ∨ tr.FileSet fileSize m) :
    ∃ time, setChunkOffset tr fileSize trueTS s =
        (time, { s with currChunkOffset := sizesFrom tr (tr.firstSample (tr.chunkOf m)) m }) ∧
      (tr.FileSet fileSize m → time = trueTS) ∧ (¬tr.FileSet fileSize m → time = tr.trackStartTSOffset) := by
  subst hnumber
  have hlt := (chunkOf_bounds hc hm).2
  have hstay : s.currentPlaybackSampleNumber < s.chunkGet.currSampleCount := by
    rw [h.chunk.count]
    exact hlt
  have hoffset : tr.getChunkOffsetAt (some (tr.chunkOf s.currentPlaybackSampleNumber)) =
      some (tr.chunkOffsets.getD (tr.chunkOf s.currentPlaybackSampleNumber) 0) := getChunkOffsetAt_eq hc h.chunk.lt
  have hsizes : ∀ l : List Nat, (l.any fun i => decide (tr.getSampleSizeAt
      (tr.firstSample (tr.chunkOf s.currentPlaybackSampleNumber) + i) = errorNumber)) = false := by
    intro l
    simp [hc.sizeNoError]
  simp only [setChunkOffset, getChunkNumberForSampleGet, ChunkCursor.getChunkNumber, if_pos hstay, h.chunk.chunk_eq,
    hoffset, h.chunk.first, hsizes, Bool.false_eq_true, if_false, checkFilePointer]
  by_cases hfile : tr.FileSet fileSize s.currentPlaybackSampleNumber
  · have hcheck : (tr.oPVContentDownloadable && !tr.canSetFilePointer fileSize s.currentPlaybackSampleNumber) =
        false := by
      cases hdown : tr.oPVContentDownloadable with
      | false => rfl
      | true => simp [hfile hdown]
    simp only [hcheck, Bool.false_eq_true, if_false]
    exact ⟨trueTS, rfl, fun _ => rfl, fun hnot => absurd hfile hnot⟩
  · have hcheck : (tr.oPVContentDownloadable && !tr.canSetFilePointer fileSize s.currentPlaybackSampleNumber) =
        true := by
      simpa [Track.FileSet] using hfile
    have hzero := hset.resolve_right hfile
    simp only [hcheck, if_true]
    refine ⟨tr.trackStartTSOffset, ?_, fun h => absurd h hfile, fun _ => rfl⟩
    rw [← hzero]

theorem resetToSample (hc : tr.Consistent) (hm : m < tr.sampleCount) (hnumber : s.currentPlaybackSampleNumber = m)
    (trueTS : UInt32) (hset : m = 0 ∨ tr.FileSet fileSize m) :
    ∃ s₁ s', s.resetCursors tr = (true, s₁) ∧ (setChunkOffset tr fileSize trueTS s₁).2 = s' ∧
      (tr.FileSet fileSize m → (setChunkOffset tr fileSize trueTS s₁).1 = trueTS) ∧
      (¬tr.FileSet fileSize m → (setChunkOffset tr fileSize trueTS s₁).1 = tr.trackStartTSOffset) ∧
      Positioned tr s' m ∧ PeeksInStep tr s' ∧
      s'.currentPlaybackSampleTimestamp = s.currentPlaybackSampleTimestamp := by
  obtain ⟨t, c, o, p, hreset, hcursors⟩ := resetCursors_spec hc hm hnumber
  obtain ⟨time, heq, htrue, hstart⟩ := setChunkOffset_spec hc hm hcursors hnumber trueTS hset
  have hpeeks := peeksInStep_of_cursorsAt hcursors
  refine ⟨_, _, hreset, rfl, ?_⟩
  rw [heq]
  refine ⟨htrue, hstart, ?_, ⟨hpeeks.time, hpeeks.chunk⟩, rfl⟩
  exact positioned_of_cursorsAt hc hm ⟨⟨hcursors.time, hcursors.offset⟩, hcursors.chunk, hcursors.timePeek,
    hcursors.offsetPeek, hcursors.chunkPeek⟩ hnumber rfl

/-! ## Past the last sample -/

theorem findRun_isSome {j : Nat} : ∀ (i : Nat) (rest : List ChunkRun) (sc : Nat), rest ≠ [] →
    (∀ e ∈ rest, 0 < e.samplesPerChunk) → sc ≤ j → ∃ found, Track.findRun j i rest sc = some found
  | _, [], _, hne, _, _ => absurd rfl hne
  | i, [e], sc, _, hpos, hle => by
    have hfuel : j < sc + (j + 1) * e.samplesPerChunk := by
      have hmul := Nat.le_mul_of_pos_right (j + 1) (hpos e List.mem_cons_self)
      omega
    obtain ⟨q, -, hfind, -, -⟩ := @findChunk_some e.samplesPerChunk j (j + 1) e.firstChunk sc hle hfuel
    exact ⟨_, by rw [Track.findRun, hfind, Option.map_some]⟩
  | i, e :: e' :: tbl, sc, _, hpos, hle => by
    have htail := fun count => findRun_isSome (j := j) (i + 1) (e' :: tbl) count (by simp)
      fun f hf => hpos f (List.mem_cons_of_mem e hf)
    rw [Track.findRun]
    by_cases hcount : sc + e.samplesPerChunk * (e'.firstChunk - e.firstChunk) < j
    · simp only [if_pos hcount]
      exact htail _ (Nat.le_of_lt hcount)
    · simp only [if_neg hcount]
      by_cases hin : j < sc + (e'.firstChunk - e.firstChunk) * e.samplesPerChunk
      · obtain ⟨q, -, hfind, -, -⟩ := @findChunk_some e.samplesPerChunk j (e'.firstChunk - e.firstChunk)
          e.firstChunk sc hle hin
        rw [hfind]
        exact ⟨_, rfl⟩
      · rw [findChunk_none (by omega)]
        refine htail _ ?_
        rw [Nat.mul_comm] at hin
        omega

theorem resetCursors_end (hc : tr.Consistent) (hne : 0 < tr.sampleCount)
    (hnumber : s.currentPlaybackSampleNumber = tr.sampleCount) :
    ∃ s', s.resetCursors tr = (true, s') ∧ s'.currentPlaybackSampleNumber = tr.sampleCount := by
  obtain ⟨htime, -⟩ := @Cursor.reset_good _ tr.timeToSample tr.sampleCount tr.sampleCount 0 hc.timePositive
    (timeToSample_ne_nil hc hne) (Nat.le_of_eq hc.timeTotal.symm)
  obtain ⟨found, hfind⟩ := findRun_isSome 0 tr.sampleToChunk 0 (sampleToChunk_ne_nil hc hne)
    (fun e he => (hc.chunkSamples e he).1) (Nat.zero_le tr.sampleCount)
  cases hctts : tr.compositionOffset with
  | none =>
    simp only [resetCursors, resetTime, resetChunk, resetOffset, ChunkCursor.reset, hnumber, htime, hfind, hctts,
      Bool.not_true, Bool.false_eq_true, if_false]
    exact ⟨_, rfl, rfl⟩
  | some ctts =>
    have htotal := hc.offsetTotal ctts hctts
    have hcne : ctts ≠ [] := by
      rintro rfl
      rw [expand, List.length_nil] at htotal
      omega
    obtain ⟨hoff, -⟩ := @Cursor.reset_good _ ctts tr.sampleCount tr.sampleCount 0 (hc.offsetPositive ctts hctts) hcne
      (Nat.le_of_eq htotal.symm)
    simp only [resetCursors, resetTime, resetChunk, resetOffset, ChunkCursor.reset, hnumber, htime, hfind, hctts, hoff,
      Bool.not_true, Bool.false_eq_true, if_false]
    exact ⟨_, rfl, rfl⟩

/-! ## The call -/

/-- **Going to a time**: the state is in place where the call lands. -/
theorem reset_inPlace (hc : tr.Consistent) (time : UInt32) (oDependsOn : Bool)
    (h : (tr.seek time oDependsOn).Lands tr s fileSize) :
    InPlace tr (resetPlayBackbyTime tr fileSize s time oDependsOn).2 := by
  rw [resetPlayBackbyTime]
  cases hseek : tr.seek time oDependsOn with
  | beginning => exact restart_inPlace hc rfl rfl
  | noSyncSample table =>
    rw [hseek] at h
    cases table with
    | false => exact restart_inPlace hc h rfl
    | true =>
      intro hlt
      have hm : 0 < tr.sampleCount := Nat.zero_lt_of_lt hlt
      obtain ⟨t, c, o, p, hreset, hcursors⟩ := @resetCursors_spec tr { s with currentPlaybackSampleNumber := 0 } 0 hc hm rfl
      simp only [hreset]
      refine ⟨positioned_of_cursorsAt hc hm hcursors rfl ?_, peeksInStep_of_cursorsAt hcursors⟩
      rw [sizesFrom_first hc hm]
      exact h
  | pastEnd =>
    rw [hseek] at h
    have hdown : tr.oPVContentDownloadable = false := h
    by_cases hzero : tr.sampleCount = 0
    · exact fun hlt => absurd hlt (by omega)
    · obtain ⟨s', hreset, hnumber⟩ := @resetCursors_end tr { s with currentPlaybackSampleNumber := tr.sampleCount } hc
        (Nat.pos_of_ne_zero hzero) rfl
      simp only [if_neg hzero, hreset, checkFilePointer, hdown, Bool.not_true, Bool.false_and, Bool.false_eq_true,
        if_false]
      exact fun hlt => absurd hlt (by simp [hnumber])
  | beforeTable =>
    rw [hseek] at h
    exact h.elim
  | sample num =>
    rw [hseek] at h
    obtain ⟨s₁, s', hreset, heq, -, -, hat, hpeeks, -⟩ := @resetToSample tr
      { s with
        currentPlaybackSampleNumber := num
        currentPlaybackSampleTimestamp := tr.seekTimestamp num } fileSize num hc h.1 rfl
      (tr.seekTimestamp num + tr.trackStartTSOffset) h.2
    simp only [hreset, Bool.not_true, Bool.false_eq_true, if_false, heq]
    exact fun _ => ⟨hat.number ▸ hat, hpeeks⟩

end SampleTable

end Ftke.Mp4SampleTable
