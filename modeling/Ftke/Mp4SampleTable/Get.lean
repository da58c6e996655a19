import Ftke.Mp4SampleTable.Position

/-!
# Ftke.Mp4SampleTable.Get

How a call that gets samples ends.

* `resetCursors_spec` — resetting puts every cursor on the current sample;
* `Available`, `Plenty` — the data of a sample, and data and room enough for a call;
* `Ends` — the samples are delivered, or the data or the room for one of the batches are missing;
* `getLoop_ends` — the loop over the chunks ends in one of these ways;
* `get_delivers` — a call with plenty delivers the samples from the current one on.
-/

namespace Ftke.Mp4SampleTable

open RunLength

/-! ## Resetting the cursors -/

/-- All cursors are on sample `m`, those for peeking where those for getting are. -/
structure CursorsAt (tr : Track) (s : SampleTable) (m : Nat) : Prop extends TimesGood tr s m where
  chunk : OnChunk tr s.chunkGet (tr.chunkOf m)
  timePeek : s.timePeek = s.timeGet
  offsetPeek : ∀ ctts, tr.compositionOffset = some ctts → s.offsetPeek = s.offsetGet
  chunkPeek : s.chunkPeek = s.chunkGet

namespace SampleTable

variable {tr : Track} {s : SampleTable} {m n : Nat}

theorem peeksInStep_of_cursorsAt (h : CursorsAt tr s m) : PeeksInStep tr s where
  time := h.timePeek ▸ h.time.toInStep
  chunk := Or.inr ⟨tr.chunkOf m, h.chunkPeek ▸ h.chunk⟩

theorem timeToSample_ne_nil (hc : tr.Consistent) (hm : m < tr.sampleCount) : tr.timeToSample ≠ [] := by
  intro hnil
  have htotal := hc.timeTotal
  rw [hnil, expand, List.length_nil] at htotal
  omega

theorem resetTime_spec (hc : tr.Consistent) (hm : m < tr.sampleCount) (s : SampleTable) :
    ∃ t, s.resetTime tr m = (true, { s with timeGet := t, timePeek := t }) ∧
      t.Good tr.timeToSample m tr.sampleCount := by
  obtain ⟨hdone, hgood⟩ := @Cursor.reset_good _ tr.timeToSample m tr.sampleCount 0 hc.timePositive
    (timeToSample_ne_nil hc hm) (by rw [hc.timeTotal]; omega)
  exact ⟨_, by rw [resetTime, hdone], hgood⟩

theorem resetOffset_spec (hc : tr.Consistent) (hm : m < tr.sampleCount) (s : SampleTable) :
    ∃ o p, s.resetOffset tr m = (true, { s with offsetGet := o, offsetPeek := p }) ∧
      ∀ ctts, tr.compositionOffset = some ctts → o.Good ctts m tr.sampleCount ∧ p = o := by
  cases hctts : tr.compositionOffset with
  | none => exact ⟨s.offsetGet, s.offsetPeek, by simp only [resetOffset, hctts], by simp⟩
  | some ctts =>
    have htotal := hc.offsetTotal ctts hctts
    have hne : ctts ≠ [] := by
      rintro rfl
      rw [expand, List.length_nil] at htotal
      omega
    obtain ⟨hdone, hgood⟩ := @Cursor.reset_good _ ctts m tr.sampleCount 0 (hc.offsetPositive ctts hctts) hne
      (by rw [htotal]; omega)
    refine ⟨(Cursor.reset 0 ctts m).2, (Cursor.reset 0 ctts m).2, by simp only [resetOffset, hctts, hdone], ?_⟩
    intro ctts' hctts'
    cases hctts'
    exact ⟨hgood, rfl⟩

theorem resetChunk_spec (hc : tr.Consistent) (hm : m < tr.sampleCount) (s : SampleTable) :
    ∃ c, s.resetChunk tr m = (true, { s with chunkGet := c, chunkPeek := c }) ∧ OnChunk tr c (tr.chunkOf m) := by
  obtain ⟨hdone, k, hon, hle, hlt⟩ := reset_onChunk hc hm s.chunkGet
  refine ⟨_, by rw [resetChunk, hdone], ?_⟩
  rwa [hon.chunkOf_eq hle hlt]

/-- **Resetting** puts every cursor on the current sample, and changes nothing else. -/
theorem resetCursors_spec (hc : tr.Consistent) (hm : m < tr.sampleCount) (h : s.currentPlaybackSampleNumber = m) :
    ∃ t c o p, s.resetCursors tr = (true,
        { s with
          timeGet := t
          timePeek := t
          chunkGet := c
          chunkPeek := c
          offsetGet := o
          offsetPeek := p }) ∧
      CursorsAt tr { s with
        timeGet := t
        timePeek := t
        chunkGet := c
        chunkPeek := c
        offsetGet := o
        offsetPeek := p } m := by
  subst h
  obtain ⟨t, htime, htgood⟩ := resetTime_spec hc hm s
  obtain ⟨c, hchunk, hon⟩ := resetChunk_spec hc hm { s with timeGet := t, timePeek := t }
  obtain ⟨o, p, hoff, hogood⟩ := resetOffset_spec hc hm
    { s with timeGet := t, timePeek := t, chunkGet := c, chunkPeek := c }
  refine ⟨t, c, o, p, ?_, ⟨⟨htgood, fun ctts hctts => (hogood ctts hctts).1⟩, hon, rfl,
    fun ctts hctts => (hogood ctts hctts).2, rfl⟩⟩
  simp only [resetCursors, htime, hchunk, hoff, Bool.not_true, Bool.false_eq_true, if_false]

/-- A state whose cursors are on its sample, with the offset in the chunk, is at the sample. -/
theorem positioned_of_cursorsAt (hc : tr.Consistent) (hm : m < tr.sampleCount) (h : CursorsAt tr s m)
    (hnumber : s.currentPlaybackSampleNumber = m)
    (hoffset : s.currChunkOffset = sizesFrom tr (tr.firstSample (tr.chunkOf m)) m) : Positioned tr s m := by
  obtain ⟨hle, hlt⟩ := chunkOf_bounds hc hm
  exact ⟨h.toTimesGood, hnumber, h.chunk.good hle (Nat.le_of_lt hlt), hoffset⟩

/-! ## Data and room -/

/-- The source has the bytes of sample `j`. -/
def Available (tr : Track) (src : Source) (j : Nat) : Prop :=
  src.bufStart ≤ tr.bytesAt j ∧ tr.bytesAt j + tr.getSampleSizeAt j ≤ src.bufEnd

instance (tr : Track) (src : Source) (j : Nat) : Decidable (Available tr src j) :=
  inferInstanceAs (Decidable (_ ∧ _))

/-- The number of samples that a call for `n` samples from `m` on reads: there may be fewer. -/
def readCount (tr : Track) (m n : Nat) : Nat := min n (tr.sampleCount - m)

/-- The data of the samples are there, and the room for them. -/
structure Plenty (tr : Track) (src : Source) (m n : Nat) (fragments : List Nat) : Prop where
  data : ∀ j, m ≤ j → j < m + readCount tr m n → Available tr src j
  room : sizesFrom tr m (m + readCount tr m n) ≤ fragments.sum

theorem plenty_of_no_reads {src : Source} {fragments : List Nat} (h : readCount tr m n = 0) :
    Plenty tr src m n fragments :=
  ⟨fun j hj hlt => by omega, by rw [h, Nat.add_zero, sizesFrom_self]; exact Nat.zero_le _⟩

theorem sizesFrom_mono (tr : Track) {i j k : Nat} (hij : i ≤ j) (hjk : j ≤ k) :
    sizesFrom tr i j ≤ sizesFrom tr i k := by
  have hsum := sizesFrom_add tr hij (k - j)
  rw [show j + (k - j) = k by omega] at hsum
  omega

theorem bytesAt_add (hc : tr.Consistent) (hm : m < tr.sampleCount) {i : Nat} (hi : m ≤ i) (hend : i < tr.chunkEnd m) :
    tr.bytesAt i = tr.bytesAt m + sizesFrom tr m i := by
  obtain ⟨hle, -⟩ := chunkOf_bounds hc hm
  have hof : tr.chunkOf i = tr.chunkOf m := chunkOf_eq (chunk_lt_of_sample hc hm hle) (by omega) hend
  have hsum := sizesFrom_add tr hle (i - m)
  rw [show m + (i - m) = i by omega] at hsum
  rw [Track.bytesAt, Track.bytesAt, hof, hsum]
  omega

section Batch

variable {src : Source} {l : Nat}

theorem available_of_batch (hc : tr.Consistent) (hm : m < tr.sampleCount) (hend : m + l ≤ tr.chunkEnd m)
    (h : ¬Unavailable tr src m l) {i : Nat} (hi : m ≤ i) (hil : i < m + l) : Available tr src i := by
  have hbytes := bytesAt_add hc hm hi (by omega)
  have hnext := sizesFrom_succ tr hi
  have hmono := sizesFrom_mono tr (show m ≤ i + 1 by omega) (show i + 1 ≤ m + l by omega)
  simp only [Unavailable, not_or, Nat.not_lt] at h
  exact ⟨by omega, by omega⟩

theorem exists_not_available (hc : tr.Consistent) (hm : m < tr.sampleCount) (hl : 0 < l)
    (hend : m + l ≤ tr.chunkEnd m) (h : Unavailable tr src m l) : ∃ i, m ≤ i ∧ i < m + l ∧ ¬Available tr src i := by
  obtain hstart | hlast := h
  · exact ⟨m, by omega, by omega, fun hav => by have := hav.1; omega⟩
  · refine ⟨m + l - 1, by omega, by omega, fun hav => ?_⟩
    have hbytes := bytesAt_add hc hm (show m ≤ m + l - 1 by omega) (by omega)
    have hnext := sizesFrom_succ tr (show m ≤ m + l - 1 by omega)
    rw [show m + l - 1 + 1 = m + l by omega] at hnext
    have hsize := hav.2
    omega

end Batch

/-! ## The loop over the chunks -/

/-- The cursors for peeking stay where they are. -/
structure SamePeeks (s s' : SampleTable) : Prop where
  time : s'.timePeek = s.timePeek
  offset : s'.offsetPeek = s.offsetPeek
  chunk : s'.chunkPeek = s.chunkPeek

/-- The batch of `l` samples at `q` that cannot be read, in a loop that is to read `yet` samples from `p` on: where
the loop has come from there, and what the batch has made of the state. -/
structure LastBatch (tr : Track) (s : SampleTable) (p yet q l : Nat) (s' : SampleTable) : Prop where
  before : ∃ s₁, Positioned tr s₁ q ∧ SamePeeks s s₁ ∧ AfterBatch tr s₁ q l s' ∧ (q = p → s₁ = s)
  pos : 0 < l
  le : p ≤ q
  bound : q + l ≤ p + readCount tr p yet
  first : q = p → l = batchLen tr p yet
  later : p < q → s'.currChunkOffset = 0

/-- A batch ends where a chunk ends, or with the last sample to be read. -/
def IsBatchEnd (tr : Track) (last j : Nat) : Prop := j = last ∨ ∃ c, j = tr.firstSample c

def endCode (tr : Track) (m : Nat) : Mp4ErrorCode := if m < tr.sampleCount then .everythingFine else .endOfTrack

/-- How the loop ends, with `yet` of `n` samples left to read from sample `p` on. -/
inductive Ends (tr : Track) (src : Source) (start n : Nat) (startTS : UInt32) (s : SampleTable) (p yet : Nat)
    (base : UInt32) (fragments : List Nat) (samples : List Sample) : GetResult → Prop
  | delivered (s' : SampleTable) (number : s'.currentPlaybackSampleNumber = p + readCount tr p yet)
      (timestamp : s'.currentPlaybackSampleTimestamp = tr.baseAfter (readCount tr p yet) p base)
      (positioned : p + readCount tr p yet < tr.sampleCount → Positioned tr s' (p + readCount tr p yet))
      (peeks : SamePeeks s s') (plenty : Plenty tr src p yet fragments) :
      Ends tr src start n startTS s p yet base fragments samples
        ⟨endCode tr (p + readCount tr p yet), s', n - (yet - readCount tr p yet),
          samples ++ tr.samplesFrom (readCount tr p yet) p base⟩
  | noData (q l : Nat) (s' : SampleTable) (batch : LastBatch tr s p yet q l s')
      (missing : ∃ i, q ≤ i ∧ i < q + l ∧ ¬Available tr src i) :
      Ends tr src start n startTS s p yet base fragments samples
        (s'.insufficientData tr src start n startTS (tr.bytesAt q) (sizesFrom tr q (q + l)))
  | noRoom (q l : Nat) (s' : SampleTable) (batch : LastBatch tr s p yet q l s')
      (data : ∀ i, p ≤ i → i < q + l → Available tr src i) (atEnd : IsBatchEnd tr (p + readCount tr p yet) (q + l))
      (room : fragments.sum < sizesFrom tr p (q + l))
      (laterRoom : p < q → sizesFrom tr p (p + batchLen tr p yet) ≤ fragments.sum) :
      Ends tr src start n startTS s p yet base fragments samples (s'.insufficientBufferSize tr start n)

section Loop

variable {p yet q l : Nat} {s' : SampleTable}

theorem batchLen_le_readCount (hc : tr.Consistent) (p yet : Nat) : batchLen tr p yet ≤ readCount tr p yet := by
  have hend := chunkEnd_le hc p
  simp only [readCount, batchLen]
  omega

theorem readCount_of_batch (hc : tr.Consistent) (hp : p < tr.sampleCount) :
    batchLen tr p yet + readCount tr (p + batchLen tr p yet) (yet - batchLen tr p yet) = readCount tr p yet := by
  have hend := chunkEnd_le hc p
  simp only [readCount, batchLen]
  omega

theorem AfterBatch.samePeeks (h : AfterBatch tr s p l s') : SamePeeks s s' := by
  obtain ⟨c, t, o, rfl⟩ := h.eq
  exact ⟨rfl, rfl, rfl⟩

theorem SamePeeks.trans {s₁ s₂ s₃ : SampleTable} (h : SamePeeks s₁ s₂) (h' : SamePeeks s₂ s₃) : SamePeeks s₁ s₃ :=
  ⟨h'.time.trans h.time, h'.offset.trans h.offset, h'.chunk.trans h.chunk⟩

theorem lastBatch_first (hc : tr.Consistent) (h : Positioned tr s p) (hp : p < tr.sampleCount) (hyet : 0 < yet)
    (hs' : AfterBatch tr s p (batchLen tr p yet) s') : LastBatch tr s p yet p (batchLen tr p yet) s' where
  before := ⟨s, h, ⟨rfl, rfl, rfl⟩, hs', fun _ => rfl⟩
  pos := batchLen_pos hc hp hyet
  le := Nat.le_refl p
  bound := by
    have hsum := @readCount_of_batch tr p yet hc hp
    omega
  first _ := rfl
  later hlt := absurd hlt (Nat.lt_irrefl p)

theorem LastBatch.later_of (hc : tr.Consistent) (hp : p < tr.sampleCount) (hyet : 0 < yet) {next : SampleTable}
    (hpeeks : SamePeeks s next) (hoffset : batchLen tr p yet < yet → next.currChunkOffset = 0)
    (h : LastBatch tr next (p + batchLen tr p yet) (yet - batchLen tr p yet) q l s') :
    LastBatch tr s p yet q l s' := by
  have hpos := batchLen_pos hc hp hyet
  have hle := h.le
  have hl := h.pos
  have hbound := h.bound
  have hmore : batchLen tr p yet < yet := by
    simp only [readCount] at hbound
    omega
  obtain ⟨s₁, hat, hsame, hafter, hfirst⟩ := h.before
  refine ⟨⟨s₁, hat, hpeeks.trans hsame, hafter, fun heq => by omega⟩, hl, by omega, ?_, fun heq => by omega,
    fun _ => ?_⟩
  · have hsum := @readCount_of_batch tr p yet hc hp
    omega
  · obtain heq | hlt := Nat.eq_or_lt_of_le hle
    · obtain ⟨c, t, o, rfl⟩ := hafter.eq
      rw [← hoffset hmore, ← hfirst heq.symm]
    · exact h.later hlt

/-- **A loop with one more batch**: it ends as the loop after the batch. -/
theorem Ends.afterBatch {src : Source} {start n : Nat} {startTS base : UInt32} {fragments : List Nat}
    {samples : List Sample} {next : SampleTable} {r : GetResult} (hc : tr.Consistent) (hp : p < tr.sampleCount)
    (hyet : 0 < yet) (hpeeks : SamePeeks s next) (hoffset : batchLen tr p yet < yet → next.currChunkOffset = 0)
    (hdata : ¬Unavailable tr src p (batchLen tr p yet))
    (hroom : sizesFrom tr p (p + batchLen tr p yet) ≤ fragments.sum)
    (h : Ends tr src start n startTS next (p + batchLen tr p yet) (yet - batchLen tr p yet)
      (tr.baseAfter (batchLen tr p yet) p base) (takeRoom fragments (sizesFrom tr p (p + batchLen tr p yet)))
      (samples ++ tr.samplesFrom (batchLen tr p yet) p base) r) :
    Ends tr src start n startTS s p yet base fragments samples r := by
  have hsum := @readCount_of_batch tr p yet hc hp
  have hlen : batchLen tr p yet ≤ yet := Nat.min_le_left _ _
  have hend : p + batchLen tr p yet ≤ tr.chunkEnd p := by
    have hbatch : batchLen tr p yet = min yet (tr.chunkEnd p - p) := rfl
    have hlt := (chunkOf_bounds hc hp).2
    omega
  cases h with
  | delivered s' hnumber htimestamp hpositioned hsame hplenty =>
    have hstop : p + batchLen tr p yet + readCount tr (p + batchLen tr p yet) (yet - batchLen tr p yet) =
        p + readCount tr p yet := by omega
    rw [hstop] at hnumber hpositioned ⊢
    rw [← baseAfter_add, hsum] at htimestamp
    rw [List.append_assoc, ← samplesFrom_append, hsum,
      show yet - batchLen tr p yet - readCount tr (p + batchLen tr p yet) (yet - batchLen tr p yet) =
        yet - readCount tr p yet by omega]
    refine .delivered s' hnumber htimestamp hpositioned (hpeeks.trans hsame) ⟨fun i hi hil => ?_, ?_⟩
    · by_cases hin : i < p + batchLen tr p yet
      · exact available_of_batch hc hp hend hdata hi hin
      · exact hplenty.data i (by omega) (by omega)
    · have hrest := hplenty.room
      have hsize := sizesFrom_add tr (Nat.le_add_right p (batchLen tr p yet))
        (readCount tr (p + batchLen tr p yet) (yet - batchLen tr p yet))
      rw [sum_takeRoom _ _ hroom] at hrest
      rw [hstop] at hsize hrest
      omega
  | noData q l s' hbatch hmissing => exact .noData q l s' (hbatch.later_of hc hp hyet hpeeks hoffset) hmissing
  | noRoom q l s' hbatch havail hat hshort _ =>
    have hle := hbatch.le
    refine .noRoom q l s' (hbatch.later_of hc hp hyet hpeeks hoffset) (fun i hi hil => ?_) ?_ ?_ fun _ => hroom
    · by_cases hin : i < p + batchLen tr p yet
      · exact available_of_batch hc hp hend hdata hi hin
      · exact havail i (by omega) hil
    · rwa [show p + batchLen tr p yet + readCount tr (p + batchLen tr p yet) (yet - batchLen tr p yet) =
        p + readCount tr p yet by omega] at hat
    · have hsize := sizesFrom_add tr (Nat.le_add_right p (batchLen tr p yet)) (q + l - (p + batchLen tr p yet))
      rw [show p + batchLen tr p yet + (q + l - (p + batchLen tr p yet)) = q + l by omega] at hsize
      rw [sum_takeRoom _ _ hroom] at hshort
      omega

theorem finish_ends (src : Source) (start n : Nat) (startTS : UInt32) {base : UInt32} {fragments : List Nat}
    {samples : List Sample} (hnumber : s.currentPlaybackSampleNumber = p) (hp : p ≥ tr.sampleCount) :
    Ends tr src start n startTS s p yet base fragments samples (finish .endOfTrack s base (n - yet) samples) := by
  have hzero : readCount tr p yet = 0 := by
    rw [readCount]
    omega
  have hdone := @Ends.delivered tr src start n startTS s p yet base fragments samples
    { s with currentPlaybackSampleTimestamp := base } (by rw [hzero]; exact hnumber) (by rw [hzero]; rfl)
    (fun hlt => by omega) ⟨rfl, rfl, rfl⟩ (plenty_of_no_reads hzero)
  rw [hzero] at hdone
  simpa only [endCode, Nat.add_zero, if_neg (Nat.not_lt.mpr hp), Track.samplesFrom, List.append_nil, Nat.sub_zero,
    finish] using hdone

/-- **The loop ends** with the samples delivered, or with a batch for which the data or the room are missing. -/
theorem getLoop_ends (hc : tr.Consistent) (src : Source) (start n : Nat) (startTS : UInt32) :
    ∀ (fuel : Nat) (s : SampleTable) (p yet : Nat) (base : UInt32) (fragments : List Nat) (samples : List Sample),
    Positioned tr s p → p < tr.sampleCount → yet ≤ fuel →
    Ends tr src start n startTS s p yet base fragments samples
      (getLoop tr src start n startTS fuel s p yet base fragments samples)
  | fuel, s, p, 0, base, fragments, samples, h, hp, _ => by
    have hzero : readCount tr p 0 = 0 := Nat.zero_min _
    have hdone := @Ends.delivered tr src start n startTS s p 0 base fragments samples
      { s with currentPlaybackSampleTimestamp := base } (by rw [hzero]; exact h.number) (by rw [hzero]; rfl)
      (fun _ => by rw [hzero]; exact ⟨⟨h.time, h.offset⟩, h.number, h.chunk, h.chunkOffset⟩) ⟨rfl, rfl, rfl⟩
      (plenty_of_no_reads hzero)
    rw [hzero] at hdone
    simp only [endCode, Nat.add_zero, if_pos hp, Track.samplesFrom, List.append_nil, Nat.sub_zero] at hdone
    cases fuel <;> exact hdone
  | 0, s, p, yet + 1, _, _, _, _, _, hfuel => by omega
  | fuel + 1, s, p, yet + 1, base, fragments, samples, h, hp, hfuel => by
    have hyet : 0 < yet + 1 := by omega
    obtain ⟨s', hafter, heq⟩ := getLoop_step hc src start n startTS fuel h hp hyet base fragments samples
    have hpos := batchLen_pos hc hp hyet
    have hbatch : batchLen tr p (yet + 1) = min (yet + 1) (tr.chunkEnd p - p) := rfl
    have hlt := (chunkOf_bounds hc hp).2
    have hchunkEnd := chunkEnd_le hc p
    have hend : p + batchLen tr p (yet + 1) ≤ tr.chunkEnd p := by omega
    have hlast := lastBatch_first hc h hp hyet hafter
    rw [heq]
    split
    · next hdata => exact .noData p _ s' hlast (exists_not_available hc hp hpos hend hdata)
    · next hdata =>
      split
      · next hroom =>
        refine .noRoom p _ s' hlast (fun i hi hil => available_of_batch hc hp hend hdata hi hil) ?_ hroom
          fun hless => absurd hless (Nat.lt_irrefl p)
        by_cases hpart : batchLen tr p (yet + 1) = yet + 1
        · left
          rw [readCount]
          omega
        · right
          refine ⟨tr.chunkOf p + 1, ?_⟩
          rw [← Track.chunkEnd]
          omega
      · next hroom =>
        have hpeeks := hafter.samePeeks
        have hsame : SamePeeks s { s' with
            currChunkOffset :=
              if tr.chunkEnd p - p > yet + 1 then
                s'.currChunkOffset + sizesFrom tr p (p + batchLen tr p (yet + 1)) else 0
            currentPlaybackSampleNumber := s'.currentPlaybackSampleNumber + batchLen tr p (yet + 1) } :=
          ⟨hpeeks.time, hpeeks.offset, hpeeks.chunk⟩
        refine Ends.afterBatch hc hp hyet hsame (fun hless => if_neg (by omega)) hdata (Nat.le_of_not_lt hroom) ?_
        by_cases hall : p + batchLen tr p (yet + 1) ≥ tr.sampleCount
        · simp only [if_pos hall]
          refine finish_ends src start n startTS ?_ hall
          obtain ⟨c, t, o, rfl⟩ := hafter.eq
          simp only [h.number]
        · simp only [if_neg hall]
          obtain hat | hall := positioned_next hc h hp hafter
          · exact getLoop_ends hc src start n startTS fuel _ _ _ _ _ _ hat (by omega) (by omega)
          · omega

end Loop

/-! ## A call -/

section Call

variable {src : Source} {fragments : List Nat} {q l : Nat} {s' : SampleTable}

theorem samplesFrom_congr (tr : Track) (k : Nat) {base base' : UInt32} (h : m = 0 ∨ base = base') :
    tr.samplesFrom k m base = tr.samplesFrom k m base' := by
  obtain hzero | hsame := h
  · cases k with
    | zero => rfl
    | succ k =>
      have hbase : ∀ base, tr.timeBase m base = tr.trackStartTSOffset := fun _ => if_pos hzero
      simp only [Track.samplesFrom, Track.infoAt, hbase]
  · rw [hsame]

theorem atStart_timestamp (tr : Track) (s : SampleTable) : s.currentPlaybackSampleNumber = 0 ∨
    (s.atStart tr).currentPlaybackSampleTimestamp = s.currentPlaybackSampleTimestamp := by
  rw [atStart]
  split
  · next hzero => exact Or.inl hzero
  · exact Or.inr rfl

@[simp] theorem atStart_number (tr : Track) (s : SampleTable) :
    (s.atStart tr).currentPlaybackSampleNumber = s.currentPlaybackSampleNumber := by
  rw [atStart]
  split <;> rfl

theorem atStart_samePeeks (tr : Track) (s : SampleTable) : SamePeeks s (s.atStart tr) := by
  rw [atStart]
  split <;> exact ⟨rfl, rfl, rfl⟩

theorem positioned_atStart (h : Positioned tr s m) : Positioned tr (s.atStart tr) m := by
  rw [SampleTable.atStart]
  split
  · exact ⟨⟨h.time, h.offset⟩, h.number, h.chunk, h.chunkOffset⟩
  · exact h

theorem peeksInStep_of_same {s' : SampleTable} (h : PeeksInStep tr s) (hsame : SamePeeks s s') : PeeksInStep tr s' :=
  ⟨hsame.time ▸ h.time, hsame.chunk ▸ h.chunk⟩

theorem getNextNSamples_ends (hc : tr.Consistent) (src : Source) (n : Nat) (fragments : List Nat)
    (h : Positioned tr s m) (hm : m < tr.sampleCount) :
    Ends tr src m n s.currentPlaybackSampleTimestamp s m n s.currentPlaybackSampleTimestamp fragments []
      (getNextNSamples tr src s n fragments) := by
  rw [getNextNSamples, h.number, if_neg (by omega)]
  exact getLoop_ends hc src m n _ n s m n _ fragments [] h hm (Nat.le_refl n)

theorem LastBatch.not_plenty_of_data (h : LastBatch tr s m n q l s')
    (hmissing : ∃ i, q ≤ i ∧ i < q + l ∧ ¬Available tr src i) : ¬Plenty tr src m n fragments := by
  intro hplenty
  obtain ⟨i, hi, hil, hnot⟩ := hmissing
  have hle := h.le
  have hbound := h.bound
  exact hnot (hplenty.data i (by omega) (by omega))

theorem LastBatch.not_plenty_of_room (h : LastBatch tr s m n q l s')
    (hshort : fragments.sum < sizesFrom tr m (q + l)) : ¬Plenty tr src m n fragments := by
  intro hplenty
  have hle := h.le
  have hmono := sizesFrom_mono tr (show m ≤ q + l by omega) h.bound
  have hroom := hplenty.room
  omega

theorem Ends.of_plenty {startTS base : UInt32} {r : GetResult} (hplenty : Plenty tr src m n fragments)
    (h : Ends tr src m n startTS s m n base fragments [] r) :
    ∃ s', r = ⟨endCode tr (m + readCount tr m n), s', readCount tr m n, tr.samplesFrom (readCount tr m n) m base⟩ ∧
      s'.currentPlaybackSampleNumber = m + readCount tr m n ∧
      s'.currentPlaybackSampleTimestamp = tr.baseAfter (readCount tr m n) m base ∧
      (m + readCount tr m n < tr.sampleCount → Positioned tr s' (m + readCount tr m n)) ∧ SamePeeks s s' := by
  cases h with
  | delivered s' hnumber htimestamp hpositioned hpeeks _ =>
    have hle : readCount tr m n ≤ n := Nat.min_le_left _ _
    refine ⟨s', ?_, hnumber, htimestamp, hpositioned, hpeeks⟩
    rw [List.nil_append, show n - (n - readCount tr m n) = readCount tr m n by omega]
  | noData q l s' hbatch hmissing => exact absurd hplenty (hbatch.not_plenty_of_data hmissing)
  | noRoom q l s' hbatch _ _ hshort _ => exact absurd hplenty (hbatch.not_plenty_of_room hshort)

theorem bundled_of_delivered {k j : Nat} {samples : List Sample} {s' : SampleTable}
    (h : getNextNSamples tr src (s.atStart tr) n fragments = ⟨endCode tr j, s', k, samples⟩)
    (hnumber : s'.currentPlaybackSampleNumber = j) :
    getNextBundledAccessUnits tr src s n fragments = ⟨endCode tr j, s', k, samples⟩ := by
  simp only [getNextBundledAccessUnits, h, hnumber, endCode]
  by_cases hj : j < tr.sampleCount
  · simp [hj]
  · simp [hj, Nat.le_of_not_lt hj]

/-- **Getting samples**: with plenty of data and room a call delivers the samples from the current one on, as far as
there are any, and leaves the state at the sample after them. -/
theorem get_delivers (hc : tr.Consistent) (h : InPlace tr s)
    (hplenty : Plenty tr src s.currentPlaybackSampleNumber n fragments) :
    ∃ s', getNextBundledAccessUnits tr src s n fragments =
        ⟨endCode tr (s.currentPlaybackSampleNumber + readCount tr s.currentPlaybackSampleNumber n), s',
          readCount tr s.currentPlaybackSampleNumber n,
          tr.samplesFrom (readCount tr s.currentPlaybackSampleNumber n) s.currentPlaybackSampleNumber
            s.currentPlaybackSampleTimestamp⟩ ∧
      s'.currentPlaybackSampleNumber = s.currentPlaybackSampleNumber + readCount tr s.currentPlaybackSampleNumber n ∧
      s'.currentPlaybackSampleTimestamp = tr.baseAfter (readCount tr s.currentPlaybackSampleNumber n)
        s.currentPlaybackSampleNumber (s.atStart tr).currentPlaybackSampleTimestamp ∧
      InPlace tr s' ∧ SamePeeks s s' := by
  by_cases hm : s.currentPlaybackSampleNumber < tr.sampleCount
  · obtain ⟨hat, hstep⟩ := h hm
    have hends := getNextNSamples_ends hc src n fragments (positioned_atStart hat) hm
    obtain ⟨s', heq, hnumber, htimestamp, hpositioned, hpeeks⟩ := hends.of_plenty hplenty
    rw [samplesFrom_congr tr _ (atStart_timestamp tr s)] at heq
    have hsame := (atStart_samePeeks tr s).trans hpeeks
    refine ⟨s', bundled_of_delivered heq hnumber, hnumber, htimestamp, fun hlt => ?_, hsame⟩
    rw [hnumber] at hlt ⊢
    exact ⟨hpositioned hlt, peeksInStep_of_same hstep hsame⟩
  · have hzero : readCount tr s.currentPlaybackSampleNumber n = 0 := by
      rw [readCount]
      omega
    have heq : getNextNSamples tr src (s.atStart tr) n fragments =
        ⟨endCode tr s.currentPlaybackSampleNumber, s.atStart tr, 0, []⟩ := by
      rw [getNextNSamples, atStart_number, if_pos (by omega), endCode, if_neg hm]
    rw [hzero]
    exact ⟨s.atStart tr, bundled_of_delivered heq (atStart_number tr s), atStart_number tr s, rfl,
      fun hlt => absurd (atStart_number tr s ▸ hlt) hm, atStart_samePeeks tr s⟩

end Call

end SampleTable

end Ftke.Mp4SampleTable
