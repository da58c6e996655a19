import Ftke.Mp4SampleTable.Seek
import Ftke.Mp4SampleTable.Shortage

/-!
# Ftke.Mp4SampleTable.Times

The times of the samples.

* `Track.decodeTime`, `presentationTime`, `sampleAt` — what the tables say;
* `InTime` — the time that reading goes on from is that of the current sample;
* `samplesFrom_eq`, `baseAfter_eq` — reading in time gives the samples of the tables, and stays in time;
* `seekTimestamp_eq`, `reset_inTime` — the time that `resetPlayBackbyTime` sets and the one it returns.
-/

namespace Ftke.Mp4SampleTable

open RunLength

namespace Track

/-- The sum of the time deltas before sample `j`. -/
def decodeTime (tr : Track) (j : Nat) : UInt32 := ((expand tr.timeToSample).take j).sum

/-- The timestamp of sample `j`. -/
def presentationTime (tr : Track) (j : Nat) : UInt32 :=
  tr.trackStartTSOffset + tr.decodeTime j + tr.compositionOffsetAt j

/-- Sample `j`. -/
def sampleAt (tr : Track) (j : Nat) : Sample where
  info :=
    { len := tr.getSampleSizeAt j
      ts := tr.presentationTime j
      tsDelta := tr.timeDelta j
      sampleInfo := ChunkCursor.sampleInfoOf (runAt tr.sampleToChunk (tr.chunkOf j)).sampleDescriptionIndex }
  bytesAt := tr.bytesAt j

/-- The samples from sample `m` on, `k` of them. -/
def samplesAt (tr : Track) (m k : Nat) : List Sample := (List.range k).map fun i => tr.sampleAt (m + i)

end Track

/-- Going on from the sample gives its time. -/
def InTime (tr : Track) (s : SampleTable) : Prop :=
  s.currentPlaybackSampleNumber = 0 ∨ s.currentPlaybackSampleTimestamp =
    tr.trackStartTSOffset + tr.decodeTime s.currentPlaybackSampleNumber

section Times

variable {tr : Track} {j k m : Nat} {base : UInt32}

theorem decodeTime_zero (tr : Track) : tr.decodeTime 0 = 0 := by simp [Track.decodeTime]

theorem decodeTime_succ (tr : Track) (j : Nat) : tr.decodeTime (j + 1) = tr.decodeTime j + tr.timeDelta j := by
  rw [Track.decodeTime, List.take_add_one, List.sum_append, Track.decodeTime, Track.timeDelta,
    List.getD_eq_getElem?_getD]
  cases (expand tr.timeToSample)[j]? <;> simp

theorem samplesAt_succ (tr : Track) (m k : Nat) :
    tr.samplesAt m (k + 1) = tr.sampleAt m :: tr.samplesAt (m + 1) k := by
  rw [Track.samplesAt, List.range_succ_eq_map, List.map_cons, List.map_map, Track.samplesAt]
  congr 1
  refine List.map_congr_left fun i _ => ?_
  simp only [Function.comp_apply, Nat.succ_eq_add_one]
  rw [show m + (i + 1) = m + 1 + i by omega]

/-- **Reading in time** gives the samples of the tables. -/
theorem samplesFrom_eq (tr : Track) : ∀ (k m : Nat) (base : UInt32),
    tr.timeBase m base = tr.trackStartTSOffset + tr.decodeTime m → tr.samplesFrom k m base = tr.samplesAt m k
  | 0, _, _, _ => rfl
  | k + 1, m, base, h => by
    have hnext : tr.timeBase (m + 1) (tr.timeBase m base + tr.timeDelta m) =
        tr.trackStartTSOffset + tr.decodeTime (m + 1) := by
      rw [decodeTime_succ, ← UInt32.add_assoc, ← h]
      exact if_neg (by omega)
    rw [samplesAt_succ, Track.samplesFrom, samplesFrom_eq tr k (m + 1) _ hnext]
    simp only [Track.infoAt, Track.sampleAt, Track.presentationTime, h]

theorem baseAfter_eq (tr : Track) : ∀ (k m : Nat) (base : UInt32),
    tr.timeBase m base = tr.trackStartTSOffset + tr.decodeTime m →
    tr.baseAfter (k + 1) m base = tr.trackStartTSOffset + tr.decodeTime (m + (k + 1))
  | 0, m, base, h => by
    rw [Track.baseAfter, Track.baseAfter, h, decodeTime_succ, UInt32.add_assoc]
  | k + 1, m, base, h => by
    have hnext : tr.timeBase (m + 1) (tr.timeBase m base + tr.timeDelta m) =
        tr.trackStartTSOffset + tr.decodeTime (m + 1) := by
      rw [decodeTime_succ, ← UInt32.add_assoc, ← h]
      exact if_neg (by omega)
    rw [Track.baseAfter, baseAfter_eq tr k (m + 1) _ hnext, show m + 1 + (k + 1) = m + (k + 1 + 1) by omega]

theorem InTime.timeBase {s : SampleTable} (h : InTime tr s) :
    tr.timeBase s.currentPlaybackSampleNumber (s.atStart tr).currentPlaybackSampleTimestamp =
      tr.trackStartTSOffset + tr.decodeTime s.currentPlaybackSampleNumber := by
  rw [Track.timeBase]
  split
  · next hzero => rw [hzero, decodeTime_zero, UInt32.add_zero]
  · next hne =>
    rw [SampleTable.atStart, if_neg hne]
    exact h.resolve_left hne

/-! ## Times from the tables -/

theorem sum_replicate (value : UInt32) : ∀ k, (List.replicate k value).sum = value * UInt32.ofNat k
  | 0 => by simp
  | k + 1 => by
    rw [List.replicate_succ, List.sum_cons, sum_replicate value k, UInt32.ofNat_add, UInt32.mul_add,
      UInt32.add_comm]
    simp

theorem timestampLoop_eq (num : Nat) : ∀ (tbl : List (Entry UInt32)) (sampleCount : Nat) (ts : UInt32),
    sampleCount < num → num ≤ sampleCount + (expand tbl).length →
    Track.timestampLoop num tbl sampleCount ts = ts + ((expand tbl).take (num - sampleCount)).sum
  | [], _, _, hlt, hle => by
    rw [expand, List.length_nil] at hle
    omega
  | e :: tbl, sampleCount, ts, hlt, hle => by
    rw [expand, List.length_append, List.length_replicate] at hle
    rw [Track.timestampLoop, expand, List.take_append, List.length_replicate, List.take_replicate, List.sum_append,
      sum_replicate]
    split
    · next hin =>
      rw [show min (num - sampleCount) e.count = num - sampleCount by omega,
        show num - sampleCount - e.count = 0 by omega]
      simp
    · next hout =>
      rw [timestampLoop_eq num tbl _ _ (by omega) (by omega), UInt32.add_assoc,
        show min (num - sampleCount) e.count = e.count by omega,
        show num - (sampleCount + e.count) = num - sampleCount - e.count by omega]

theorem timeOffsetLoop_eq (num : Nat) : ∀ (tbl : List (Entry UInt32)) (sampleCount : Nat),
    sampleCount ≤ num → num < sampleCount + (expand tbl).length →
    Track.timeOffsetLoop num tbl sampleCount = (expand tbl).getD (num - sampleCount) 0
  | [], _, hle, hlt => by
    rw [expand, List.length_nil] at hlt
    omega
  | e :: tbl, sampleCount, hle, hlt => by
    rw [expand, List.length_append, List.length_replicate] at hlt
    rw [Track.timeOffsetLoop, expand, List.getD_eq_getElem?_getD]
    split
    · next hin =>
      rw [List.getElem?_append_left (by rw [List.length_replicate]; omega), List.getElem?_replicate,
        if_pos (by omega), Option.getD_some]
    · next hout =>
      rw [timeOffsetLoop_eq num tbl _ (by omega) (by omega),
        List.getElem?_append_right (by rw [List.length_replicate]; omega), List.length_replicate,
        ← List.getD_eq_getElem?_getD, show num - (sampleCount + e.count) = num - sampleCount - e.count by omega]

theorem decodeTimestamp_eq (hc : tr.Consistent) (hm : m < tr.sampleCount) :
    tr.decodeTimestamp m = tr.decodeTime m := by
  rw [Track.decodeTimestamp, if_neg (SampleTable.timeToSample_ne_nil hc hm)]
  split
  · next hzero => rw [hzero, decodeTime_zero]
  · next hne =>
    have hle : m ≤ 0 + (expand tr.timeToSample).length := by
      rw [hc.timeTotal]
      omega
    rw [timestampLoop_eq m tr.timeToSample 0 0 (by omega) hle, UInt32.zero_add, Nat.sub_zero, Track.decodeTime]

theorem compositionOffset_eq (hc : tr.Consistent) (hm : m < tr.sampleCount) {ctts : List (Entry UInt32)}
    (hctts : tr.compositionOffset = some ctts) :
    Track.timeOffsetLoop m ctts 0 = tr.compositionOffsetAt m ∧ tr.compositionOffsetAt m ≠ pvError := by
  have hlen : m < (expand ctts).length := by rwa [hc.offsetTotal ctts hctts]
  have heq : Track.timeOffsetLoop m ctts 0 = tr.compositionOffsetAt m := by
    rw [timeOffsetLoop_eq m ctts 0 (Nat.zero_le m) (by omega), Nat.sub_zero]
    simp only [Track.compositionOffsetAt, hctts]
  refine ⟨heq, hc.offsetNoError ctts hctts _ ?_⟩
  simp only [Track.compositionOffsetAt, hctts, List.getD_eq_getElem?_getD, List.getElem?_eq_getElem hlen,
    Option.getD_some]
  exact List.getElem_mem hlen

/-- The time to go to has the composition offset of the sample in it, but not the start of the track. -/
theorem seekTimestamp_eq (hc : tr.Consistent) (hm : m < tr.sampleCount) :
    tr.seekTimestamp m = tr.decodeTime m + tr.compositionOffsetAt m := by
  rw [Track.seekTimestamp]
  split
  · rw [Track.getTimestampForSampleNumber, decodeTimestamp_eq hc hm]
    cases hctts : tr.compositionOffset with
    | none => simp only [Track.compositionOffsetAt, hctts, UInt32.add_zero]
    | some ctts => simp only [(compositionOffset_eq hc hm hctts).1]
  · next hzero =>
    obtain rfl : m = 0 := by omega
    rw [Track.getCttsOffsetForSampleNumber, decodeTime_zero, UInt32.zero_add]
    cases hctts : tr.compositionOffset with
    | none => simp only [Track.compositionOffsetAt, hctts]
    | some ctts =>
      obtain ⟨heq, hne⟩ := compositionOffset_eq hc hm hctts
      simp only [heq, Track.offsetOr0, if_neg hne]

end Times

/-! ## Going to a time -/

/-- The time that the call returns is that of the sample which it goes to, and reading goes on in time from there. -/
def Seek.Timed (tr : Track) (fileSize : Nat) : Seek → Prop
  | .beginning => tr.compositionOffsetAt 0 = 0
  | .noSyncSample _ => tr.compositionOffsetAt 0 = 0
  | .pastEnd => True
  | .beforeTable => False
  -- the time kept for reading on has the composition offset of the sample in place of the start of the track
  | .sample num =>
    num = 0 ∧ (tr.FileSet fileSize 0 ∨ tr.compositionOffsetAt 0 = 0) ∨
      num ≠ 0 ∧ tr.compositionOffsetAt num = tr.trackStartTSOffset

namespace SampleTable

variable {tr : Track} {s : SampleTable} {fileSize : Nat}

theorem presentationTime_zero (h : tr.compositionOffsetAt 0 = 0) :
    tr.presentationTime 0 = tr.trackStartTSOffset := by
  rw [Track.presentationTime, decodeTime_zero, h, UInt32.add_zero, UInt32.add_zero]

theorem resetTime_number (tr : Track) (s : SampleTable) (m : Nat) :
    (s.resetTime tr m).2.currentPlaybackSampleNumber = s.currentPlaybackSampleNumber := rfl

theorem resetOffset_number (tr : Track) (s : SampleTable) (m : Nat) :
    (s.resetOffset tr m).2.currentPlaybackSampleNumber = s.currentPlaybackSampleNumber := by
  rw [resetOffset]
  split <;> rfl

/-- **Going to a time**: what it returns is the time of the sample it goes to, and reading goes on in time. -/
theorem reset_inTime (hc : tr.Consistent) (time : UInt32) (oDependsOn : Bool)
    (hlands : (tr.seek time oDependsOn).Lands tr s fileSize) (htimed : (tr.seek time oDependsOn).Timed tr fileSize)
    (hlt : (resetPlayBackbyTime tr fileSize s time oDependsOn).2.currentPlaybackSampleNumber < tr.sampleCount) :
    (resetPlayBackbyTime tr fileSize s time oDependsOn).1 =
        tr.presentationTime (resetPlayBackbyTime tr fileSize s time oDependsOn).2.currentPlaybackSampleNumber ∧
      InTime tr (resetPlayBackbyTime tr fileSize s time oDependsOn).2 := by
  have hm : 0 < tr.sampleCount := Nat.zero_lt_of_lt hlt
  rw [resetPlayBackbyTime] at hlt ⊢
  cases hseek : tr.seek time oDependsOn with
  | beginning =>
    rw [hseek] at htimed
    have hzero := presentationTime_zero htimed
    simp only [startChunk, resetOffset_number, resetTime_number, hzero, InTime, true_and, true_or]
  | noSyncSample table =>
    rw [hseek] at htimed
    have hzero := presentationTime_zero htimed
    cases table with
    | false => simp only [startChunk, resetOffset_number, resetTime_number, hzero, InTime, true_and, true_or]
    | true =>
      obtain ⟨t, c, o, p, hreset, -⟩ :=
        @resetCursors_spec tr { s with currentPlaybackSampleNumber := 0 } 0 hc hm rfl
      simp only [hreset, if_true, hzero, InTime, true_and, true_or]
  | pastEnd =>
    rw [hseek] at hlands
    have hdown : tr.oPVContentDownloadable = false := hlands
    obtain ⟨s', hreset, hnumber⟩ :=
      @resetCursors_end tr { s with currentPlaybackSampleNumber := tr.sampleCount } hc hm rfl
    simp only [hseek, if_neg (Nat.ne_of_gt hm), hreset, checkFilePointer, hdown, Bool.not_true, Bool.false_and,
      Bool.false_eq_true, if_false, hnumber] at hlt
    exact absurd hlt (Nat.lt_irrefl _)
  | beforeTable =>
    rw [hseek] at hlands
    exact hlands.elim
  | sample num =>
    rw [hseek] at hlands htimed
    obtain ⟨s₁, s', hreset, heq, hset, hunset, hat, -, htimestamp⟩ := @resetToSample tr
      { s with
        currentPlaybackSampleNumber := num
        currentPlaybackSampleTimestamp := tr.seekTimestamp num } fileSize num hc hlands.1 rfl
      (tr.seekTimestamp num + tr.trackStartTSOffset) hlands.2
    have hseekTime := seekTimestamp_eq hc hlands.1
    have hpresented : tr.seekTimestamp num + tr.trackStartTSOffset = tr.presentationTime num := by
      rw [hseekTime, Track.presentationTime, UInt32.add_comm, UInt32.add_assoc]
    simp only [hreset, Bool.not_true, Bool.false_eq_true, if_false, heq, hat.number]
    obtain ⟨rfl, hfirst⟩ | ⟨hne, hoffset⟩ := htimed
    · refine ⟨?_, Or.inl hat.number⟩
      by_cases hfile : tr.FileSet fileSize 0
      · rw [hset hfile, hpresented]
      · rw [hunset hfile, presentationTime_zero (hfirst.resolve_left hfile)]
    · have hfile : tr.FileSet fileSize num := hlands.2.resolve_left hne
      refine ⟨by rw [hset hfile, hpresented], Or.inr ?_⟩
      rw [htimestamp, hat.number, hseekTime, hoffset, UInt32.add_comm]

end SampleTable

end Ftke.Mp4SampleTable
