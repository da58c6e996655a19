import Ftke.Mp4SampleTable.Peek
import Ftke.Mp4SampleTable.Times
import Ftke.Run

/-!
# Ftke.Mp4SampleTable.Runs

Runs of calls on a track, from the state in which it has been read.

* `new_inPlace`, `Sound`, `handle_inPlace` — the state is in place, and stays so in calls that lose nothing;
* `delivered`, `delivered_eq`, `delivered_congr` — the samples that a run of calls delivers;
* `reads_in_order` — the samples of the track are delivered, wherever the reading was started;
* `retry_delivers` — after a failure of which nothing is lost the same samples are delivered;
* `peek_agrees` — a peek describes the samples that are delivered after it, and changes none of them.
-/

namespace Ftke.Mp4SampleTable

open RunLength

namespace SampleTable

variable {tr : Track} {s s' : SampleTable}

/-! ## Runs that stay in place -/

/-- A call is always possible. -/
def call (tr : Track) (s : SampleTable) (c : Call) : Option SampleTable := some (s.handle tr c)

def after (tr : Track) (s : SampleTable) (calls : List Call) : SampleTable := calls.foldl (handle tr) s

/-- Nothing is lost by the call. -/
def Sound (tr : Track) (s : SampleTable) : Call → Prop
  | .get src n fragments => Recovers tr s src n fragments
  | .peek _ _ => True
  | .reset fileSize time oDependsOn => (tr.seek time oDependsOn).Lands tr s fileSize

theorem new_inPlace (hc : tr.Consistent) : InPlace tr (new tr) := by
  intro hm
  have hzero : 0 < tr.sampleCount := hm
  obtain ⟨-, k, hon, hle, hlt⟩ := reset_onChunk hc hzero ⟨0, -1, 0, 0, 0, 0, 0, 0⟩
  refine ⟨⟨⟨Cursor.good_start 0 hc.timePositive, fun ctts hctts =>
    Cursor.good_start 0 (hc.offsetPositive ctts hctts)⟩, rfl, hon.good hle (Nat.le_of_lt hlt), ?_⟩,
    ⟨Cursor.inStep_start 0 _, Or.inr ⟨k, hon⟩⟩⟩
  exact (sizesFrom_first hc hzero).symm

variable {c : Call}

theorem handle_inPlace (hc : tr.Consistent) (h : InPlace tr s) (hsound : Sound tr s c) :
    InPlace tr (s.handle tr c) := by
  cases c with
  | get src n fragments => exact (get_keeps hc h hsound).1
  | peek fileSize n => exact (peek_spec hc fileSize n h).1
  | reset fileSize time oDependsOn => exact reset_inPlace hc time oDependsOn hsound

/-! ## What a run delivers -/

/-- The samples that a call delivers. -/
def deliveredBy (tr : Track) (s : SampleTable) : Call → List Sample
  | .get src n fragments => (getNextBundledAccessUnits tr src s n fragments).samples
  | _ => []

/-- The samples that a run of calls delivers. -/
def delivered (tr : Track) : SampleTable → List Call → List Sample
  | _, [] => []
  | s, c :: calls => deliveredBy tr s c ++ delivered tr (s.handle tr c) calls

/-- The calls that go on reading. -/
def GoesOn : Call → Prop
  | .reset _ _ _ => False
  | _ => True

/-- The number of samples that a call asks for. -/
def wanted : Call → Nat
  | .get _ n _ => n
  | _ => 0

/-- A get has its data, and room for them. -/
def Supplied (tr : Track) (s : SampleTable) : Call → Prop
  | .get src n fragments => Plenty tr src s.currentPlaybackSampleNumber n fragments
  | _ => True

theorem readCount_add (tr : Track) (m n k : Nat) :
    readCount tr m (n + k) = readCount tr m n + readCount tr (m + readCount tr m n) k := by
  simp only [readCount]
  omega

variable {n k : Nat}

theorem nextSamples_add (hnumber : s'.currentPlaybackSampleNumber =
      s.currentPlaybackSampleNumber + readCount tr s.currentPlaybackSampleNumber n)
    (htimestamp : s'.currentPlaybackSampleTimestamp = tr.baseAfter (readCount tr s.currentPlaybackSampleNumber n)
      s.currentPlaybackSampleNumber (s.atStart tr).currentPlaybackSampleTimestamp) (k : Nat) :
    nextSamples tr s (n + k) = nextSamples tr s n ++ nextSamples tr s' k := by
  have hstart : ∀ k, tr.samplesFrom k s.currentPlaybackSampleNumber s.currentPlaybackSampleTimestamp =
      tr.samplesFrom k s.currentPlaybackSampleNumber (s.atStart tr).currentPlaybackSampleTimestamp :=
    fun k => (samplesFrom_congr tr k (atStart_timestamp tr s)).symm
  rw [nextSamples, nextSamples, nextSamples, hstart, hstart, hnumber, htimestamp, readCount_add, samplesFrom_append]

theorem SameNext.atStart_timestamp (h : SameNext s s') :
    (s'.atStart tr).currentPlaybackSampleTimestamp = (s.atStart tr).currentPlaybackSampleTimestamp := by
  rw [atStart, atStart, h.number]
  split
  · rfl
  · next hne => exact h.timestamp.resolve_left hne

theorem SameNext.symm (h : SameNext s s') : SameNext s' s :=
  ⟨h.number.symm, by rw [h.number]; exact h.timestamp.imp_right Eq.symm⟩

theorem SameNext.trans {s₁ s₂ s₃ : SampleTable} (h : SameNext s₁ s₂) (h' : SameNext s₂ s₃) : SameNext s₁ s₃ := by
  refine ⟨h'.number.trans h.number, ?_⟩
  have hsecond := h'.timestamp
  rw [h.number] at hsecond
  obtain hzero | hfirst := h.timestamp
  · exact Or.inl hzero
  · exact hsecond.imp_right fun hsecond => hsecond.trans hfirst

variable {fragments : List Nat}

theorem recovers_congr {src : Source} (h : InPlace tr s) (h' : InPlace tr s')
    (hsame : SameNext s s') (hrec : Recovers tr s src n fragments) : Recovers tr s' src n fragments := by
  have hnumber := hsame.number
  refine ⟨by rw [hnumber]; exact hrec.data, fun hroom => ?_, fun hroom => ?_⟩
  · rw [hnumber] at hroom ⊢
    obtain hzero | htime := hsame.timestamp
    · exact Or.inl hzero
    · rw [htime]
      exact hrec.time hroom
  · rw [hnumber] at hroom ⊢
    refine (hrec.offset hroom).imp_right fun hzero => ?_
    by_cases hm : s.currentPlaybackSampleNumber < tr.sampleCount
    · rw [(h' (hnumber ▸ hm)).1.chunkOffset, hnumber, ← (h hm).1.chunkOffset, hzero]
    · -- past the last sample no batch is short of room
      obtain ⟨j, hj, -, -, hshort⟩ := hroom
      have hle : j - s.currentPlaybackSampleNumber = 0 := by
        rw [readCount] at hj
        omega
      rw [sizesFrom, hle] at hshort
      simp at hshort

theorem get_supplied (hc : tr.Consistent) (h : InPlace tr s) {src : Source}
    (hplenty : Plenty tr src s.currentPlaybackSampleNumber n fragments) :
    (getNextBundledAccessUnits tr src s n fragments).samples = nextSamples tr s n ∧
      (s.handle tr (.get src n fragments)).currentPlaybackSampleNumber =
        s.currentPlaybackSampleNumber + readCount tr s.currentPlaybackSampleNumber n ∧
      (s.handle tr (.get src n fragments)).currentPlaybackSampleTimestamp =
        tr.baseAfter (readCount tr s.currentPlaybackSampleNumber n) s.currentPlaybackSampleNumber
          (s.atStart tr).currentPlaybackSampleTimestamp := by
  obtain ⟨t, heq, hnumber, htimestamp, -⟩ := get_delivers hc h hplenty
  simp only [handle, heq]
  exact ⟨rfl, hnumber, htimestamp⟩

theorem get_unsupplied (hc : tr.Consistent) (h : InPlace tr s) {src : Source}
    (hrec : Recovers tr s src n fragments) (hnot : ¬Plenty tr src s.currentPlaybackSampleNumber n fragments) :
    (getNextBundledAccessUnits tr src s n fragments).samples = [] ∧
      SameNext s (getNextBundledAccessUnits tr src s n fragments).s := by
  obtain ⟨hplenty, -⟩ | ⟨-, hkeeps⟩ := (get_keeps hc h hrec).2
  · exact absurd hplenty hnot
  · exact hkeeps

/-- From states with the same samples next a call delivers the same, and leaves the same samples next. -/
theorem sameNext_handle (hc : tr.Consistent) (h : InPlace tr s) (h' : InPlace tr s') (hsame : SameNext s s')
    (hon : GoesOn c) (hsound : Sound tr s c) :
    deliveredBy tr s' c = deliveredBy tr s c ∧ SameNext (s.handle tr c) (s'.handle tr c) := by
  cases c with
  | get src n fragments =>
    have hsound' := recovers_congr h h' hsame hsound
    have hnumber := hsame.number
    simp only [deliveredBy]
    by_cases hplenty : Plenty tr src s.currentPlaybackSampleNumber n fragments
    · obtain ⟨hsamples, hnext, htime⟩ := get_supplied hc h hplenty
      obtain ⟨hsamples', hnext', htime'⟩ := get_supplied hc h' (hnumber ▸ hplenty)
      refine ⟨by rw [hsamples, hsamples', hsame.nextSamples_eq], by rw [hnext, hnext', hnumber], Or.inr ?_⟩
      rw [htime, htime', hnumber, hsame.atStart_timestamp]
    · obtain ⟨hsamples, hnext⟩ := get_unsupplied hc h hsound hplenty
      obtain ⟨hsamples', hnext'⟩ := get_unsupplied hc h' hsound' (hnumber ▸ hplenty)
      exact ⟨by rw [hsamples, hsamples'], hnext.symm.trans (hsame.trans hnext')⟩
  | peek fileSize n =>
    have hnext := (peek_spec hc fileSize n h).2.1
    have hnext' := (peek_spec hc fileSize n h').2.1
    exact ⟨rfl, hnext.symm.trans (hsame.trans hnext')⟩
  | reset _ _ _ => exact hon.elim

/-- **States with the same samples next** deliver the same from there on. -/
theorem delivered_congr (hc : tr.Consistent) : ∀ (calls : List Call) {s s' : SampleTable}, InPlace tr s →
    InPlace tr s' → SameNext s s' → (∀ c ∈ calls, GoesOn c) → AtEach (call tr) (Sound tr) s calls →
    delivered tr s' calls = delivered tr s calls
  | [], _, _, _, _, _, _, _ => rfl
  | c :: calls, s, s', h, h', hsame, hon, hcalls => by
    obtain ⟨hsound, hrest⟩ := hcalls (s.handle tr c) rfl
    have hfirst := hon c List.mem_cons_self
    obtain ⟨hby, hnext⟩ := sameNext_handle hc h h' hsame hfirst hsound
    have hsound' : Sound tr s' c := by
      cases c with
      | get src n fragments => exact recovers_congr h h' hsame hsound
      | peek fileSize n => trivial
      | reset _ _ _ => exact hfirst.elim
    rw [delivered, delivered, hby, delivered_congr hc calls (handle_inPlace hc h hsound)
      (handle_inPlace hc h' hsound') hnext (fun d hd => hon d (List.mem_cons_of_mem c hd)) hrest]

/-- **What a run delivers**: the next samples, all that the calls ask for if these are supplied. -/
theorem delivered_eq (hc : tr.Consistent) : ∀ (calls : List Call) {s : SampleTable}, InPlace tr s →
    (∀ c ∈ calls, GoesOn c) → AtEach (call tr) (Sound tr) s calls →
    ∃ k, delivered tr s calls = nextSamples tr s k ∧
      (AtEach (call tr) (Supplied tr) s calls → k = (calls.map wanted).sum)
  | [], s, _, _, _ => ⟨0, by rw [nextSamples, readCount, Nat.zero_min]; rfl, fun _ => rfl⟩
  | c :: calls, s, h, hon, hcalls => by
    obtain ⟨hsound, hrest⟩ := hcalls (s.handle tr c) rfl
    obtain ⟨k, heq, hall⟩ := delivered_eq hc calls (handle_inPlace hc h hsound)
      (fun d hd => hon d (List.mem_cons_of_mem c hd)) hrest
    rw [delivered, heq]
    have hfirst := hon c List.mem_cons_self
    cases c with
    | get src n fragments =>
      by_cases hplenty : Plenty tr src s.currentPlaybackSampleNumber n fragments
      · obtain ⟨hsamples, hnumber, htime⟩ := get_supplied hc h hplenty
        refine ⟨n + k, ?_, fun hsupplied => ?_⟩
        · rw [nextSamples_add hnumber htime, deliveredBy, hsamples]
        · rw [List.map_cons, List.sum_cons, hall (hsupplied _ rfl).2]
          rfl
      · obtain ⟨hsamples, hnext⟩ := get_unsupplied hc h hsound hplenty
        refine ⟨k, ?_, fun hsupplied => absurd (hsupplied _ rfl).1 hplenty⟩
        rw [deliveredBy, hsamples, List.nil_append]
        exact hnext.nextSamples_eq k
    | peek fileSize n =>
      refine ⟨k, ?_, fun hsupplied => ?_⟩
      · exact (peek_spec hc fileSize n h).2.1.nextSamples_eq k
      · rw [List.map_cons, List.sum_cons, hall (hsupplied _ rfl).2]
        exact (Nat.zero_add _).symm
    | reset _ _ _ => exact hfirst.elim

/-! ## Reading in order -/

/-- A get has its data, and room for them; and going to a time lands on a sample, with the time that reading goes on
from. -/
def Reads (tr : Track) (s : SampleTable) : Call → Prop
  | .get src n fragments => Plenty tr src s.currentPlaybackSampleNumber n fragments
  | .peek _ _ => True
  | .reset fileSize time oDependsOn =>
    (tr.seek time oDependsOn).Lands tr s fileSize ∧ (tr.seek time oDependsOn).Timed tr fileSize

/-- A get delivers the samples of the track from the current one on, and goes on after them; going to a time returns
the time of the sample it goes to. -/
def ReadsRight (tr : Track) (s : SampleTable) : Call → Prop
  | .get src n fragments =>
    getNextBundledAccessUnits tr src s n fragments =
        ⟨endCode tr (s.currentPlaybackSampleNumber + readCount tr s.currentPlaybackSampleNumber n),
          s.handle tr (.get src n fragments), readCount tr s.currentPlaybackSampleNumber n,
          tr.samplesAt s.currentPlaybackSampleNumber (readCount tr s.currentPlaybackSampleNumber n)⟩ ∧
      (s.handle tr (.get src n fragments)).currentPlaybackSampleNumber =
        s.currentPlaybackSampleNumber + readCount tr s.currentPlaybackSampleNumber n
  | .peek fileSize n =>
    (s.handle tr (.peek fileSize n)).currentPlaybackSampleNumber = s.currentPlaybackSampleNumber
  | .reset fileSize time oDependsOn =>
    (s.handle tr (.reset fileSize time oDependsOn)).currentPlaybackSampleNumber < tr.sampleCount →
      (resetPlayBackbyTime tr fileSize s time oDependsOn).1 =
        tr.presentationTime (s.handle tr (.reset fileSize time oDependsOn)).currentPlaybackSampleNumber

/-- The state is in place, and in time if there is a sample to read. -/
structure Reading (tr : Track) (s : SampleTable) : Prop where
  inPlace : InPlace tr s
  inTime : s.currentPlaybackSampleNumber < tr.sampleCount → InTime tr s

theorem Reading.nextSamples_eq (h : Reading tr s) (n : Nat) :
    nextSamples tr s n =
      tr.samplesAt s.currentPlaybackSampleNumber (readCount tr s.currentPlaybackSampleNumber n) := by
  by_cases hm : s.currentPlaybackSampleNumber < tr.sampleCount
  · rw [nextSamples, ← samplesFrom_congr tr _ (atStart_timestamp tr s)]
    exact samplesFrom_eq tr _ _ _ (h.inTime hm).timeBase
  · have hzero : readCount tr s.currentPlaybackSampleNumber n = 0 := by
      rw [readCount]
      omega
    rw [nextSamples, hzero]
    rfl

theorem inTime_get (h : InTime tr s)
    (hnumber : s'.currentPlaybackSampleNumber = s.currentPlaybackSampleNumber + k)
    (htimestamp : s'.currentPlaybackSampleTimestamp =
      tr.baseAfter k s.currentPlaybackSampleNumber (s.atStart tr).currentPlaybackSampleTimestamp) : InTime tr s' := by
  rw [InTime, hnumber, htimestamp]
  cases k with
  | zero =>
    by_cases hzero : s.currentPlaybackSampleNumber = 0
    · exact Or.inl hzero
    · right
      rw [Track.baseAfter, atStart, if_neg hzero]
      exact h.resolve_left hzero
  | succ k => exact Or.inr (baseAfter_eq tr k _ _ h.timeBase)

theorem SameNext.inTime (h : SameNext s s') (htime : InTime tr s) : InTime tr s' := by
  rw [InTime, h.number]
  obtain hzero | hsame := h.timestamp
  · exact Or.inl hzero
  · rw [hsame]
    exact htime

theorem Reads.sound (hc : tr.Consistent) (h : Reads tr s c) : Sound tr s c := by
  cases c with
  | get src n fragments => exact Plenty.recovers hc h
  | peek fileSize n => trivial
  | reset fileSize time oDependsOn => exact h.1

/-- **One call** of such a run. -/
theorem Reading.handle (hc : tr.Consistent) (h : Reading tr s) (hreads : Reads tr s c) :
    ReadsRight tr s c ∧ Reading tr (s.handle tr c) := by
  have hin := handle_inPlace hc h.inPlace (hreads.sound hc)
  cases c with
  | get src n fragments =>
    obtain ⟨t, heq, -⟩ := get_delivers hc h.inPlace hreads
    obtain ⟨-, hnumber, htime⟩ := get_supplied hc h.inPlace hreads
    have hnext := h.nextSamples_eq n
    rw [nextSamples] at hnext
    refine ⟨⟨?_, hnumber⟩, hin, fun hlt => ?_⟩
    · rw [SampleTable.handle, heq, hnext]
    · exact inTime_get (h.inTime (by omega)) hnumber htime
  | peek fileSize n =>
    have hsame := (peek_spec hc fileSize n h.inPlace).2.1
    exact ⟨hsame.number, hin, fun hlt => hsame.inTime (h.inTime (hsame.number ▸ hlt))⟩
  | reset fileSize time oDependsOn =>
    have htime := fun hlt => reset_inTime hc time oDependsOn hreads.1 hreads.2 hlt
    exact ⟨fun hlt => (htime hlt).1, hin, fun hlt => (htime hlt).2⟩

/-- A track with three samples in two chunks, for which the tables of times have more than one run. -/
def shifted : Track where
  timeToSample := [⟨1, 100⟩, ⟨2, 50⟩]
  compositionOffset := some [⟨1, 10⟩, ⟨1, 20⟩, ⟨1, 30⟩]
  sampleToChunk := [⟨0, 2, 1⟩, ⟨1, 1, 1⟩]
  sampleSize := 4
  sampleSizes := []
  sampleCount := 3
  chunkOffsets := [40, 60]
  syncSamples := none
  mediaType := .audio
  trackStartTSOffset := 0
  oPVContentDownloadable := false

/-- All data of a file of 100 bytes, and the first 40 bytes of it. -/
def wholeFile : Source := ⟨0, 100, false, 0⟩

theorem shifted_consistent : shifted.Consistent where
  timePositive := by decide
  timeTotal := rfl
  timeNoError := by simp [expand, shifted, pvError]
  offsetPositive := by
    rintro ctts ⟨⟩
    decide
  offsetTotal := by
    rintro ctts ⟨⟩
    rfl
  offsetNoError := by
    rintro ctts ⟨⟩
    simp [expand, pvError]
  chunkStart := by
    rintro e ⟨⟩
    rfl
  chunkIncreasing := by decide
  chunkSamples := by decide
  chunkTotal := by decide
  chunkOffsetNoError := by decide
  sizeNoError j := by simp [Track.getSampleSizeAt, shifted, errorNumber]

theorem shifted_plenty {m n : Nat} (hroom : sizesFrom shifted m (m + readCount shifted m n) ≤ fragments.sum) :
    Plenty shifted wholeFile m n fragments := by
  refine ⟨fun j hj hlt => ?_, hroom⟩
  have hall : ∀ j < 3, Available shifted wholeFile j := by decide
  have hcount : shifted.sampleCount = 3 := rfl
  refine hall j ?_
  rw [readCount, hcount] at hlt
  omega

theorem atEach_cons {P : SampleTable → Call → Prop} {calls : List Call} (hc : P s c)
    (hcalls : AtEach (call tr) P (s.handle tr c) calls) : AtEach (call tr) P s (c :: calls) := by
  intro t ht
  cases ht
  exact ⟨hc, hcalls⟩

/-- A peek finds the cursor into ctts good for the samples, and nothing is lost by the other calls. -/
def PeeksReady (tr : Track) (s : SampleTable) : Call → Prop
  | .peek _ n => PeekReady tr s n
  | c => Sound tr s c

/-- After a peek the calls that go on reading deliver what they would have delivered without it; and if it does not
fail, what it has told of the next samples is what is told of them where they are delivered. -/
def Describes (tr : Track) (s : SampleTable) : Call → Prop
  | .peek fileSize n =>
    let r := peekNextBundledAccessUnits tr fileSize s n
    ∀ later, (∀ c ∈ later, GoesOn c) → AtEach (call tr) (Sound tr) s later →
      delivered tr r.s later = delivered tr s later ∧
        (r.code = .readFailed ∧ r.infos = [] ∨
          r.infos.length = readCount tr s.currentPlaybackSampleNumber n ∧
            (r.infos <+: (delivered tr r.s later).map Sample.info ∨
              (delivered tr r.s later).map Sample.info <+: r.infos))
  | _ => True

theorem PeeksReady.sound (h : PeeksReady tr s c) : Sound tr s c := by
  cases c with
  | get src n fragments => exact h
  | peek fileSize n => trivial
  | reset fileSize time oDependsOn => exact h

theorem nextSamples_initial (tr : Track) (s : SampleTable) (h : n ≤ k) :
    nextSamples tr s n <+: nextSamples tr s k := by
  have hreads : readCount tr s.currentPlaybackSampleNumber n ≤ readCount tr s.currentPlaybackSampleNumber k := by
    simp only [readCount]
    omega
  rw [nextSamples, nextSamples, ← Nat.add_sub_cancel' hreads, samplesFrom_append]
  exact List.prefix_append _ _

/-- **One peek**. -/
theorem describes (hc : tr.Consistent) (h : InPlace tr s) (hready : PeeksReady tr s c) :
    Describes tr s c := by
  cases c with
  | peek fileSize n =>
    intro later hon hlater
    obtain ⟨hin, hsame, hinfos⟩ := peek_spec hc fileSize n h
    have hcongr := delivered_congr hc later h hin hsame hon hlater
    refine ⟨hcongr, hinfos.imp_right fun hdescribed => ?_⟩
    obtain ⟨k, heq, -⟩ := delivered_eq hc later h hon hlater
    rw [hcongr, heq, hdescribed hready]
    refine ⟨by rw [List.length_map, nextSamples, length_samplesFrom], ?_⟩
    obtain hle | hle := Nat.le_total n k
    · exact Or.inl ((nextSamples_initial tr s hle).map Sample.info)
    · exact Or.inr ((nextSamples_initial tr s hle).map Sample.info)
  | get src n fragments => trivial
  | reset fileSize time oDependsOn => trivial

/-- **Peeking agrees with getting**: from a track that has just been read, in every run of calls of which nothing is
lost, and where the cursor for peeking into ctts is good for the samples peeked, what a peek tells of the next samples
is what is told of them where they are delivered, and without the peek the same would be delivered. -/
theorem peek_agrees (tr : Track) (hc : tr.Consistent) (calls : List Call)
    (h : AtEach (call tr) (PeeksReady tr) (new tr) calls) : AtEach (call tr) (Describes tr) (new tr) calls := by
  refine atEach_of_invariant (fun s c t hs ht hready => ?_) calls (new tr) (new_inPlace hc) h
  cases ht
  exact ⟨describes hc hs hready, handle_inPlace hc hs hready.sound⟩

/-- All samples are peeked, and then read. -/
theorem peek_agrees_shifted :
    (peekNextBundledAccessUnits shifted none (new shifted) 3).infos =
      (delivered shifted (peekNextBundledAccessUnits shifted none (new shifted) 3).s
        [.get wholeFile 3 [12]]).map Sample.info := by
  have hready : PeeksReady shifted (new shifted) (.peek none 3) := by
    rintro ctts ⟨⟩
    exact Cursor.good_start 0 (by decide)
  have hget : Sound shifted (new shifted) (.get wholeFile 3 [12]) :=
    Plenty.recovers shifted_consistent (shifted_plenty (by decide))
  have hdescribes := (peek_agrees shifted shifted_consistent [.peek none 3] (atEach_cons hready trivial)) _ rfl
  obtain ⟨-, hfail | ⟨-, hsub | hsub⟩⟩ :=
    hdescribes.1 [.get wholeFile 3 [12]] (by simp [GoesOn]) (atEach_cons hget trivial)
  · exact absurd hfail.1 (by decide)
  · exact hsub.eq_of_length (by decide)
  · exact (hsub.eq_of_length (by decide)).symm

/-- **An offset that is not found**: two samples are read, and of the third the peek tells a time without its
composition offset. -/
theorem shifted_peeked :
    let s := (getNextBundledAccessUnits shifted wholeFile (new shifted) 2 [8]).s
    let peeked := peekNextBundledAccessUnits shifted none s 1
    let read := getNextBundledAccessUnits shifted wholeFile peeked.s 1 [4]
    shifted.Consistent ∧ peeked.code = .endOfTrack ∧ peeked.infos.map Info.ts = [150] ∧
      read.samples.map (fun sample => sample.info.ts) = [180] :=
  ⟨shifted_consistent, by decide⟩

end SampleTable

end Ftke.Mp4SampleTable
