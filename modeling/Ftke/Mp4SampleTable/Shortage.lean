import Ftke.Mp4SampleTable.Get

/-!
# Ftke.Mp4SampleTable.Shortage

What a call that finds too little data or too little room leaves behind.

* `Recovers` — when nothing is lost by such a call;
* `afterBatch_positioned`, `insufficientData_spec`, `insufficientBufferSize_spec` — the state after the failure;
* `get_keeps` — a call of which nothing is lost delivers, or leaves what the next call delivers as it was.
-/

namespace Ftke.Mp4SampleTable

open RunLength

namespace SampleTable

variable {tr : Track} {s s' : SampleTable} {src : Source} {m n q l : Nat} {fragments : List Nat}

/-! ## When nothing is lost -/

/-- The samples have one time delta and one composition offset. -/
def Uniform (tr : Track) (m k : Nat) : Prop :=
  ∀ i, m ≤ i → i < m + k →
    tr.timeDelta i = tr.timeDelta (m + k - 1) ∧ tr.compositionOffsetAt i = tr.compositionOffsetAt (m + k - 1)

/-- There is a batch that has its data, as have the batches before it, but the room is too small for them. -/
def ShortOfRoom (tr : Track) (src : Source) (m n : Nat) (fragments : List Nat) : Prop :=
  ∃ j, j ≤ m + readCount tr m n ∧ IsBatchEnd tr (m + readCount tr m n) j ∧
    (∀ i, m ≤ i → i < j → Available tr src i) ∧ fragments.sum < sizesFrom tr m j

/-- Nothing is lost if the call fails: the cursors give the same values again where they stay ahead, and the time and
the offset in the chunk are those that a failure sets. -/
structure Recovers (tr : Track) (s : SampleTable) (src : Source) (n : Nat) (fragments : List Nat) : Prop where
  data : (∃ i, s.currentPlaybackSampleNumber ≤ i ∧
      i < s.currentPlaybackSampleNumber + batchLen tr s.currentPlaybackSampleNumber n ∧ ¬Available tr src i) →
    Uniform tr s.currentPlaybackSampleNumber (batchLen tr s.currentPlaybackSampleNumber n)
  time : ShortOfRoom tr src s.currentPlaybackSampleNumber n fragments →
    s.currentPlaybackSampleNumber = 0 ∨ s.currentPlaybackSampleTimestamp = tr.trackStartTSOffset
  offset : ShortOfRoom tr src s.currentPlaybackSampleNumber n fragments →
    fragments.sum < sizesFrom tr s.currentPlaybackSampleNumber
      (s.currentPlaybackSampleNumber + batchLen tr s.currentPlaybackSampleNumber n) ∨ s.currChunkOffset = 0

theorem Plenty.recovers (hc : tr.Consistent) (h : Plenty tr src s.currentPlaybackSampleNumber n fragments) :
    Recovers tr s src n fragments := by
  have hroom : ¬ShortOfRoom tr src s.currentPlaybackSampleNumber n fragments := by
    rintro ⟨j, hj, -, -, hshort⟩
    by_cases hle : s.currentPlaybackSampleNumber ≤ j
    · have hmono := sizesFrom_mono tr hle hj
      have hplenty := h.room
      omega
    · rw [sizesFrom, Nat.sub_eq_zero_of_le (by omega)] at hshort
      simp at hshort
  refine ⟨?_, fun hshort => absurd hshort hroom, fun hshort => absurd hshort hroom⟩
  rintro ⟨i, hi, hil, hnot⟩
  have hle := batchLen_le_readCount hc s.currentPlaybackSampleNumber n
  exact absurd (h.data i hi (by omega)) hnot

/-! ## The state after a failure -/

theorem afterBatch_positioned (hc : tr.Consistent) (h : Positioned tr s m) (hm : m < tr.sampleCount)
    (hn : 0 < n) (hs' : AfterBatch tr s m (batchLen tr m n) s') (huniform : Uniform tr m (batchLen tr m n)) :
    Positioned tr s' m := by
  have hpos := batchLen_pos hc hm hn
  have hend := chunkEnd_le hc m
  have hbatch : batchLen tr m n = min n (tr.chunkEnd m - m) := rfl
  obtain ⟨hle, hlt⟩ := chunkOf_bounds hc hm
  obtain ⟨⟨c, t, o, rfl⟩, hon, htimes, hafter⟩ := hs'
  refine ⟨⟨?_, fun ctts hctts => ?_⟩, h.number, hon.good hle (Nat.le_of_lt hlt), h.chunkOffset⟩
  · have hahead := hafter.time_lt
    refine htimes.time.earlier (by omega) fun i hi hil => ?_
    have hlen : i < (expand tr.timeToSample).length := by
      rw [hc.timeTotal]
      omega
    have hsame := (huniform i hi hil).1
    rw [Track.timeDelta, Track.timeDelta, List.getD_eq_getElem?_getD, List.getD_eq_getElem?_getD, hafter.time_value,
      List.getElem?_eq_getElem hlen] at hsame
    rw [List.getElem?_eq_getElem hlen]
    exact congrArg some hsame
  · have hahead := hafter.offset_lt ctts hctts
    refine (htimes.offset ctts hctts).earlier (by omega) fun i hi hil => ?_
    have hlen : i < (expand ctts).length := by
      rw [hc.offsetTotal ctts hctts]
      omega
    have hsame := (huniform i hi hil).2
    simp only [Track.compositionOffsetAt, hctts] at hsame
    rw [List.getD_eq_getElem?_getD, List.getD_eq_getElem?_getD, hafter.offset_value ctts hctts,
      List.getElem?_eq_getElem hlen] at hsame
    rw [List.getElem?_eq_getElem hlen]
    exact congrArg some hsame

/-- The state is at sample `m` again, for a time at which the next call starts as it would have done. -/
structure BackAt (tr : Track) (s : SampleTable) (m : Nat) (s' : SampleTable) : Prop where
  positioned : Positioned tr s' m
  peeks : PeeksInStep tr s'
  timestamp : m = 0 ∨ s'.currentPlaybackSampleTimestamp = s.currentPlaybackSampleTimestamp

theorem insufficientData_spec (hc : tr.Consistent) (h : Positioned tr s m) (hpeeks : PeeksInStep tr s)
    (hm : m < tr.sampleCount) (hn : 0 < n) (hbatch : LastBatch tr s m n q l s')
    (huniform : q = m → Uniform tr m (batchLen tr m n)) (sampleFileOffset sigma : Nat) :
    ∃ code s'', s'.insufficientData tr src m n s.currentPlaybackSampleTimestamp sampleFileOffset sigma =
        ⟨code, s'', 0, []⟩ ∧ (code = .insufficientData ∨ code = .readFailed) ∧ BackAt tr s m s'' := by
  obtain ⟨s₁, hat, hsame, hafter, hfirst⟩ := hbatch.before
  have hnumber : s'.currentPlaybackSampleNumber = q := by
    obtain ⟨c, t, o, rfl⟩ := hafter.eq
    exact hat.number
  have hcode : ∀ c : Prop, [Decidable c] →
      (if c then Mp4ErrorCode.readFailed else .insufficientData) = .insufficientData ∨
        (if c then Mp4ErrorCode.readFailed else .insufficientData) = .readFailed := by
    intro c _
    split
    · exact Or.inr rfl
    · exact Or.inl rfl
  rw [insufficientData, hnumber]
  by_cases hq : q = m
  · -- the first batch: nothing is undone
    rw [if_neg (by simp [hq])]
    refine ⟨_, s', rfl, hcode _, ?_⟩
    have hsm := hfirst hq
    rw [hsm, hq, hbatch.first hq] at hafter
    refine ⟨afterBatch_positioned hc h hm hn hafter (huniform hq), peeksInStep_of_same hpeeks hafter.samePeeks,
      Or.inr ?_⟩
    obtain ⟨c, t, o, rfl⟩ := hafter.eq
    rfl
  · -- a later batch: the cursors are reset
    rw [if_pos hq]
    obtain ⟨t, c, o, p, hreset, hcursors⟩ := @resetCursors_spec tr
      { s' with
        currentPlaybackSampleNumber := m
        currentPlaybackSampleTimestamp := s.currentPlaybackSampleTimestamp } m hc hm rfl
    have hin := hcursors.chunk
    have hlt := (chunkOf_bounds hc hm).2
    have hstay : m < c.currSampleCount := by
      rw [hin.count]
      exact hlt
    simp only [hreset, Bool.not_true, Bool.false_eq_true, if_false, getChunkNumberForSampleGet,
      ChunkCursor.getChunkNumber, if_pos hstay]
    refine ⟨_, _, rfl, hcode _, ?_, ?_, Or.inr rfl⟩
    · exact positioned_of_cursorsAt hc hm ⟨⟨hcursors.time, hcursors.offset⟩, hin, hcursors.timePeek,
        hcursors.offsetPeek, hcursors.chunkPeek⟩ rfl (congrArg (sizesFrom tr · m) hin.first)
    · exact ⟨(peeksInStep_of_cursorsAt hcursors).time, (peeksInStep_of_cursorsAt hcursors).chunk⟩

theorem insufficientBufferSize_spec (hc : tr.Consistent) (h : Positioned tr s m) (hm : m < tr.sampleCount)
    (hbatch : LastBatch tr s m n q l s')
    (htime : m = 0 ∨ s.currentPlaybackSampleTimestamp = tr.trackStartTSOffset)
    (hoffset : m < q → s.currChunkOffset = 0) :
    ∃ s'', s'.insufficientBufferSize tr m n = ⟨.insufficientBufferSize, s'', n, []⟩ ∧ BackAt tr s m s'' := by
  obtain ⟨t, c, o, p, hreset, hcursors⟩ := @resetCursors_spec tr
    { s' with
      currentPlaybackSampleNumber := m
      currentPlaybackSampleTimestamp := tr.trackStartTSOffset } m hc hm rfl
  refine ⟨_, by rw [insufficientBufferSize, hreset]; rfl, ?_, peeksInStep_of_cursorsAt hcursors, ?_⟩
  · refine positioned_of_cursorsAt hc hm hcursors rfl ?_
    rw [← h.chunkOffset]
    obtain ⟨s₁, -, -, hafter, hfirst⟩ := hbatch.before
    obtain heq | hlt := Nat.eq_or_lt_of_le hbatch.le
    · obtain ⟨c, t, o, rfl⟩ := hafter.eq
      rw [hfirst heq.symm]
    · exact (hbatch.later hlt).trans (hoffset hlt).symm
  · exact htime.imp_right Eq.symm

/-! ## A call -/

/-- **A call that fails**, if nothing is lost by it: it delivers nothing, and the state is back at its sample. -/
theorem Ends.back {r : GetResult} (hc : tr.Consistent) (h : Positioned tr s m) (hpeeks : PeeksInStep tr s)
    (hm : m < tr.sampleCount) (hrec : Recovers tr s src n fragments)
    (hends : Ends tr src m n s.currentPlaybackSampleTimestamp s m n s.currentPlaybackSampleTimestamp fragments [] r) :
    (∃ s', Plenty tr src m n fragments ∧ r = ⟨endCode tr (m + readCount tr m n), s', readCount tr m n,
        tr.samplesFrom (readCount tr m n) m s.currentPlaybackSampleTimestamp⟩ ∧
      s'.currentPlaybackSampleNumber = m + readCount tr m n ∧
      (m + readCount tr m n < tr.sampleCount → Positioned tr s' (m + readCount tr m n)) ∧ SamePeeks s s') ∨
    ∃ code k s', ¬Plenty tr src m n fragments ∧ r = ⟨code, s', k, []⟩ ∧
      (code = .insufficientData ∨ code = .readFailed ∨ code = .insufficientBufferSize) ∧ BackAt tr s m s' := by
  obtain rfl : s.currentPlaybackSampleNumber = m := h.number
  cases hends with
  | delivered s' hnumber _ hpositioned hsame hplenty =>
    left
    have hle : readCount tr s.currentPlaybackSampleNumber n ≤ n := Nat.min_le_left _ _
    refine ⟨s', hplenty, ?_, hnumber, hpositioned, hsame⟩
    rw [List.nil_append, show n - (n - readCount tr s.currentPlaybackSampleNumber n) =
      readCount tr s.currentPlaybackSampleNumber n by omega]
  | noData q l s' hbatch hmissing =>
    right
    have hnot := @LastBatch.not_plenty_of_data tr s _ n src fragments q l s' hbatch hmissing
    obtain ⟨i, hi, hil, hgone⟩ := hmissing
    have hn : 0 < n := by
      have hbound := hbatch.bound
      have hle := hbatch.le
      have hpos := hbatch.pos
      simp only [readCount] at hbound
      omega
    obtain ⟨code, s'', heq, hcode, hback⟩ := insufficientData_spec hc h hpeeks hm hn hbatch
      (fun hq => hrec.data ⟨i, by omega, by rw [← hbatch.first hq]; omega, hgone⟩) (tr.bytesAt q)
      (sizesFrom tr q (q + l))
    exact ⟨code, 0, s'', hnot, heq, hcode.imp_right Or.inl, hback⟩
  | noRoom q l s' hbatch hdata hat hshort hlater =>
    right
    have hroom : ShortOfRoom tr src s.currentPlaybackSampleNumber n fragments :=
      ⟨q + l, hbatch.bound, hat, hdata, hshort⟩
    obtain ⟨s'', heq, hback⟩ := insufficientBufferSize_spec hc h hm hbatch (hrec.time hroom) fun hlt => by
      obtain hfirst | hzero := hrec.offset hroom
      · have hmore := hlater hlt
        omega
      · exact hzero
    exact ⟨_, n, s'', hbatch.not_plenty_of_room hshort, heq, Or.inr (Or.inr rfl), hback⟩

/-- What a call delivers, if its data and the room for them are there. -/
def nextSamples (tr : Track) (s : SampleTable) (n : Nat) : List Sample :=
  tr.samplesFrom (readCount tr s.currentPlaybackSampleNumber n) s.currentPlaybackSampleNumber
    s.currentPlaybackSampleTimestamp

/-- What the states have in common of which the next calls deliver the same. -/
structure SameNext (s s' : SampleTable) : Prop where
  number : s'.currentPlaybackSampleNumber = s.currentPlaybackSampleNumber
  timestamp : s.currentPlaybackSampleNumber = 0 ∨
    s'.currentPlaybackSampleTimestamp = s.currentPlaybackSampleTimestamp

theorem SameNext.nextSamples_eq (h : SameNext s s') (n : Nat) : nextSamples tr s' n = nextSamples tr s n := by
  rw [nextSamples, nextSamples, h.number, samplesFrom_congr tr _ h.timestamp]

theorem recovers_atStart (h : Recovers tr s src n fragments) : Recovers tr (s.atStart tr) src n fragments := by
  rw [atStart]
  split
  · next hzero => exact ⟨h.data, fun _ => Or.inl hzero, h.offset⟩
  · exact h

/-- **A call of which nothing is lost** delivers, or leaves the next call to deliver the same; the state is in place
after it. -/
theorem get_keeps (hc : tr.Consistent) (h : InPlace tr s) (hrec : Recovers tr s src n fragments) :
    InPlace tr (getNextBundledAccessUnits tr src s n fragments).s ∧
      (Plenty tr src s.currentPlaybackSampleNumber n fragments ∧
          getNextBundledAccessUnits tr src s n fragments =
            ⟨endCode tr (s.currentPlaybackSampleNumber + readCount tr s.currentPlaybackSampleNumber n),
              (getNextBundledAccessUnits tr src s n fragments).s, readCount tr s.currentPlaybackSampleNumber n,
              nextSamples tr s n⟩ ∨
        ¬Plenty tr src s.currentPlaybackSampleNumber n fragments ∧
          (getNextBundledAccessUnits tr src s n fragments).samples = [] ∧
          SameNext s (getNextBundledAccessUnits tr src s n fragments).s) := by
  by_cases hm : s.currentPlaybackSampleNumber < tr.sampleCount
  · obtain ⟨hat, hstep⟩ := h hm
    have hstep' := peeksInStep_of_same hstep (atStart_samePeeks tr s)
    have hends := getNextNSamples_ends hc src n fragments (positioned_atStart hat) hm
    obtain ⟨s', hplenty, heq, hnumber, hpositioned, hpeeks⟩ | ⟨code, k, s', hnot, heq, hcode, hback⟩ :=
      hends.back hc (positioned_atStart hat) hstep' hm (recovers_atStart hrec)
    · rw [samplesFrom_congr tr _ (atStart_timestamp tr s)] at heq
      rw [bundled_of_delivered heq hnumber]
      refine ⟨fun hlt => ?_, Or.inl ⟨hplenty, rfl⟩⟩
      simp only [hnumber] at hlt ⊢
      exact ⟨hpositioned hlt, peeksInStep_of_same hstep' hpeeks⟩
    · have hnumber := hback.positioned.number
      have hbundled : getNextBundledAccessUnits tr src s n fragments = ⟨code, s', k, []⟩ := by
        simp only [getNextBundledAccessUnits, heq, hnumber]
        obtain rfl | rfl | rfl := hcode <;> simp [hm]
      rw [hbundled]
      refine ⟨fun _ => ⟨hnumber ▸ hback.positioned, hback.peeks⟩, Or.inr ⟨hnot, rfl, hnumber, ?_⟩⟩
      obtain hzero | hsame := hback.timestamp
      · exact Or.inl hzero
      · exact (atStart_timestamp tr s).imp_right hsame.trans
  · have hzero : readCount tr s.currentPlaybackSampleNumber n = 0 := by
      rw [readCount]
      omega
    obtain ⟨s', heq, -, -, hin, -⟩ := get_delivers hc h (plenty_of_no_reads hzero)
    rw [heq]
    exact ⟨hin, Or.inl ⟨plenty_of_no_reads hzero, rfl⟩⟩

end SampleTable

end Ftke.Mp4SampleTable
