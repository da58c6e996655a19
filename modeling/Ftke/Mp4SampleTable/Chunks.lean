import Ftke.Mp4SampleTable
import Mathlib.Data.List.Pairwise

/-!
# Ftke.Mp4SampleTable.Chunks

The sample-to-chunk table as a run-length table of chunks, and the cursor into it.

* `runAt`, `chunkRuns` — the run of a chunk, and the samples chunk by chunk;
* `Track.Consistent` — tables that describe the same samples;
* `OnChunk` — the cursor is on a chunk;
* `getChunkNumber_good`, `reset_onChunk` — reading on and resetting keep it on the chunk of the sample.
-/

namespace Ftke.Mp4SampleTable

open RunLength

/-! ## Chunks of a track -/

/-- The run that a chunk belongs to: the last one that does not start after it. -/
def runAt : List ChunkRun → Nat → ChunkRun
  | [], _ => default
  | [e], _ => e
  | e :: e' :: tbl, k => if k < e'.firstChunk then e else runAt (e' :: tbl) k

/-- The number of samples of each chunk, with the number of the chunk. -/
def Track.chunkRuns (tr : Track) : List (Entry Nat) :=
  (List.range tr.chunkOffsets.length).map fun k => ⟨(runAt tr.sampleToChunk k).samplesPerChunk, k⟩

/-- The number of the first sample of a chunk. -/
def Track.firstSample (tr : Track) (k : Nat) : Nat := sumTo tr.chunkRuns k

/-- The tables describe the same samples, and no entry is the error value. -/
structure Track.Consistent (tr : Track) : Prop where
  timePositive : Positive tr.timeToSample
  timeTotal : (expand tr.timeToSample).length = tr.sampleCount
  timeNoError : ∀ delta ∈ expand tr.timeToSample, delta ≠ pvError
  offsetPositive : ∀ ctts, tr.compositionOffset = some ctts → Positive ctts
  offsetTotal : ∀ ctts, tr.compositionOffset = some ctts → (expand ctts).length = tr.sampleCount
  offsetNoError : ∀ ctts, tr.compositionOffset = some ctts → ∀ offset ∈ expand ctts, offset ≠ pvError
  chunkStart : ∀ e, tr.sampleToChunk[0]? = some e → e.firstChunk = 0
  chunkIncreasing : tr.sampleToChunk.Pairwise fun e e' => e.firstChunk < e'.firstChunk
  chunkSamples : ∀ e ∈ tr.sampleToChunk, 0 < e.samplesPerChunk ∧ e.firstChunk < tr.chunkOffsets.length
  chunkTotal : (expand tr.chunkRuns).length = tr.sampleCount
  chunkOffsetNoError : ∀ offset ∈ tr.chunkOffsets, offset ≠ errorNumber
  sizeNoError : ∀ j, tr.getSampleSizeAt j ≠ errorNumber

theorem runAt_of_run : ∀ {tbl : List ChunkRun} {r : Nat} {e : ChunkRun} {k : Nat},
    (tbl.Pairwise fun e e' => e.firstChunk < e'.firstChunk) → tbl[r]? = some e → e.firstChunk ≤ k →
    (∀ e', tbl[r + 1]? = some e' → k < e'.firstChunk) → runAt tbl k = e
  | [], _, _, _, _, h, _, _ => by simp at h
  | [f], 0, e, k, _, h, _, _ => by simpa [runAt] using h
  | [f], r + 1, e, k, _, h, _, _ => by simp at h
  | f :: f' :: tbl, 0, e, k, _, h, _, hnext => by
    have hfe : f = e := by simpa using h
    have hlt := hnext f' (by simp)
    rw [runAt, if_pos hlt, hfe]
  | f :: f' :: tbl, r + 1, e, k, hinc, h, hfirst, hnext => by
    have htail := (List.pairwise_cons.mp hinc).2
    have hget : (f' :: tbl)[r]? = some e := by simpa using h
    have hle : f'.firstChunk ≤ e.firstChunk := by
      have hmem := List.mem_of_getElem? hget
      obtain heq | hin := List.mem_cons.mp hmem
      · exact Nat.le_of_eq (congrArg ChunkRun.firstChunk heq.symm)
      · exact Nat.le_of_lt ((List.pairwise_cons.mp htail).1 e hin)
    rw [runAt, if_neg (by omega)]
    exact runAt_of_run htail hget hfirst fun e' he' => hnext e' (by simpa using he')

section Chunks

variable {tr : Track} {k : Nat}

theorem chunkRuns_getElem? (hk : k < tr.chunkOffsets.length) :
    tr.chunkRuns[k]? = some ⟨(runAt tr.sampleToChunk k).samplesPerChunk, k⟩ := by
  simp [Track.chunkRuns, hk]

theorem firstSample_succ (hk : k < tr.chunkOffsets.length) :
    tr.firstSample (k + 1) = tr.firstSample k + (runAt tr.sampleToChunk k).samplesPerChunk :=
  sumTo_succ (chunkRuns_getElem? hk)

/-- Where there are more samples than the first `k` chunks have, there is a chunk after them. -/
theorem chunk_lt_of_sample (hc : tr.Consistent) {j : Nat} (hj : j < tr.sampleCount) (hk : tr.firstSample k ≤ j) :
    k < tr.chunkOffsets.length := by
  rw [← hc.chunkTotal] at hj
  obtain ⟨e, he⟩ := getElem?_of_lt hj hk
  have hlt := (List.getElem?_eq_some_iff.mp he).1
  simpa [Track.chunkRuns] using hlt

end Chunks

/-! ## The cursor -/

/-- A run of the table with the chunk `k` in it: the last run, or one that the next starts after. -/
structure InRun (tbl : List ChunkRun) (r : Nat) (e : ChunkRun) (k : Nat) : Prop where
  get : tbl[r]? = some e
  le : e.firstChunk ≤ k
  lt : ∀ e', tbl[r + 1]? = some e' → k < e'.firstChunk

/-- Where a cursor is in its run: in the last run it stays, and it counts as one chunk; otherwise the next run is
known, and the chunks left are counted. -/
def RunPosition (tbl : List ChunkRun) (c : ChunkCursor) (r k : Nat) : Prop :=
  match tbl[r + 1]? with
  | none => c.majorIndex = r ∧ c.numChunksInRun = 1
  | some e' => c.majorIndex = r + 1 ∧ c.numChunksInRun = e'.firstChunk - k

/-- The cursor is on chunk `k`. -/
structure OnChunk (tr : Track) (c : ChunkCursor) (k : Nat) : Prop where
  lt : k < tr.chunkOffsets.length
  currChunk : c.currChunk = k
  first : c.firstSampleInCurrChunk = tr.firstSample k
  count : c.currSampleCount = tr.firstSample (k + 1)
  samplesPerChunk : c.numSamplesPerChunk = (runAt tr.sampleToChunk k).samplesPerChunk
  currSDI : c.currSDI = (runAt tr.sampleToChunk k).sampleDescriptionIndex
  chunksInRun : c.chunksInRun ≠ 0
  run : ∃ r e, InRun tr.sampleToChunk r e k ∧ RunPosition tr.sampleToChunk c r k

/-- The cursor is before the first chunk. -/
structure BeforeChunks (c : ChunkCursor) : Prop where
  majorIndex : c.majorIndex = 0
  currChunk : c.currChunk = -1
  numChunksInRun : c.numChunksInRun = 0
  count : c.currSampleCount = 0

/-- The cursor is on a chunk, or before the first. -/
def ChunkInStep (tr : Track) (c : ChunkCursor) : Prop := BeforeChunks c ∨ ∃ k, OnChunk tr c k

/-- The cursor is on the chunk of sample `m`, or just before it. -/
def ChunkGood (tr : Track) (c : ChunkCursor) (m : Nat) : Prop :=
  BeforeChunks c ∧ m = 0 ∨ ∃ k, OnChunk tr c k ∧ tr.firstSample k ≤ m ∧ m ≤ tr.firstSample (k + 1)

section Cursor

variable {tr : Track} {c : ChunkCursor} {k m : Nat}

theorem ChunkGood.inStep (h : ChunkGood tr c m) : ChunkInStep tr c := by
  obtain ⟨h, -⟩ | ⟨k, h, -⟩ := h
  · exact Or.inl h
  · exact Or.inr ⟨k, h⟩

theorem ChunkInStep.good (h : ChunkInStep tr c) (hm : c.currSampleCount = m) : ChunkGood tr c m := by
  obtain h | ⟨k, h⟩ := h
  · exact Or.inl ⟨h, by rw [← hm, h.count]⟩
  · refine Or.inr ⟨k, h, ?_, ?_⟩
    · rw [← hm, h.count]
      exact sumTo_le_succ _ _
    · exact Nat.le_of_eq (hm.symm.trans h.count)

theorem OnChunk.good (h : OnChunk tr c k) (hk : tr.firstSample k ≤ m) (hm : m ≤ tr.firstSample (k + 1)) :
    ChunkGood tr c m := Or.inr ⟨k, h, hk, hm⟩

theorem startsBefore (c : ChunkCursor) : BeforeChunks c.start := ⟨rfl, rfl, rfl, rfl⟩

theorem OnChunk.chunk_eq (h : OnChunk tr c k) : c.chunk = some k := by
  have hneg : ¬ c.currChunk < 0 := by
    rw [h.currChunk]
    omega
  rw [ChunkCursor.chunk, if_neg hneg, h.currChunk, Int.toNat_natCast]

theorem InRun.next (hc : tr.Consistent) {r : Nat} {e' : ChunkRun}
    (he' : tr.sampleToChunk[r + 1]? = some e') (hlast : e'.firstChunk = k + 1) :
    InRun tr.sampleToChunk (r + 1) e' (k + 1) where
  get := he'
  le := by omega
  lt := by
    intro e'' he''
    have hinc := List.pairwise_iff_getElem.mp hc.chunkIncreasing
    obtain ⟨hlt', heq'⟩ := List.getElem?_eq_some_iff.mp he'
    obtain ⟨hlt'', heq''⟩ := List.getElem?_eq_some_iff.mp he''
    have hless := hinc (r + 1) (r + 1 + 1) hlt' hlt'' (by omega)
    rw [heq', heq''] at hless
    omega

theorem OnChunk.of_run (hc : tr.Consistent) {r : Nat} {e : ChunkRun} (hrun : InRun tr.sampleToChunk r e k)
    (hk : k < tr.chunkOffsets.length) (hpos : RunPosition tr.sampleToChunk c r k) (hcurr : c.currChunk = k)
    (hfirst : c.firstSampleInCurrChunk = tr.firstSample k)
    (hcount : c.currSampleCount = tr.firstSample k + e.samplesPerChunk)
    (hspc : c.numSamplesPerChunk = e.samplesPerChunk) (hsdi : c.currSDI = e.sampleDescriptionIndex)
    (hin : c.chunksInRun ≠ 0) : OnChunk tr c k := by
  have hat : runAt tr.sampleToChunk k = e := runAt_of_run hc.chunkIncreasing hrun.get hrun.le hrun.lt
  refine ⟨hk, hcurr, hfirst, ?_, ?_, ?_, hin, r, e, hrun, hpos⟩
  · rw [firstSample_succ hk, hat, hcount]
  · rw [hat, hspc]
  · rw [hat, hsdi]

theorem nextChunk_enter (hc : tr.Consistent) {r : Nat} {e : ChunkRun} (hrun : InRun tr.sampleToChunk r e k)
    (hk : k < tr.chunkOffsets.length) (hfirst : e.firstChunk = k ∨ tr.sampleToChunk.length = r + 1)
    (hmajor : c.majorIndex = r) (hnum : c.numChunksInRun ≤ 1) (hcurr : c.currChunk + 1 = k)
    (hcount : c.currSampleCount = tr.firstSample k) :
    ∃ c', c.nextChunk tr.sampleToChunk = some c' ∧ OnChunk tr c' k := by
  have hlt : r < tr.sampleToChunk.length := (List.getElem?_eq_some_iff.mp hrun.get).1
  have hget : tr.sampleToChunk.getD r default = e := by
    rw [List.getD_eq_getElem?_getD, hrun.get, Option.getD_some]
  rw [ChunkCursor.nextChunk, if_neg (by omega)]
  by_cases hnext : r + 1 < tr.sampleToChunk.length
  · rw [if_pos (by omega)]
    obtain ⟨e', he'⟩ : ∃ e', tr.sampleToChunk[r + 1]? = some e' := ⟨_, List.getElem?_eq_getElem hnext⟩
    have hafter := hrun.lt e' he'
    have hget' : tr.sampleToChunk.getD (r + 1) default = e' := by
      rw [List.getD_eq_getElem?_getD, he', Option.getD_some]
    have hstart : e.firstChunk = k := by omega
    refine ⟨_, rfl, .of_run hc hrun hk ?_ hcurr hcount ?_ ?_ ?_ ?_⟩
    · simp only [RunPosition, he', hmajor, hget, hget', hstart, and_self]
    · simp only [hmajor, hget, hcount]
    · simp only [hmajor, hget]
    · simp only [hmajor, hget]
    · simp only [hmajor, hget, hget', hstart]
      omega
  · rw [if_neg (by omega), if_pos (by omega)]
    have hnone : tr.sampleToChunk[r + 1]? = none := List.getElem?_eq_none (by omega)
    refine ⟨_, rfl, .of_run hc hrun hk ?_ hcurr hcount ?_ ?_ ?_ ?_⟩
    · simp only [RunPosition, hnone, hmajor, and_self]
    · simp only [hmajor, hget, hcount]
    · simp only [hmajor, hget]
    · simp only [hmajor, hget]
    · simp

/-- **The next chunk**: from a chunk the cursor goes to the one after it. -/
theorem OnChunk.nextChunk (hc : tr.Consistent) (h : OnChunk tr c k) (hk : k + 1 < tr.chunkOffsets.length) :
    ∃ c', c.nextChunk tr.sampleToChunk = some c' ∧ OnChunk tr c' (k + 1) := by
  obtain ⟨r, e, hrun, hpos⟩ := h.run
  have hcurr : c.currChunk + 1 = (k + 1 : Nat) := by
    rw [h.currChunk]
    omega
  have hlt : r < tr.sampleToChunk.length := (List.getElem?_eq_some_iff.mp hrun.get).1
  have hsame : (∀ e', tr.sampleToChunk[r + 1]? = some e' → k + 1 < e'.firstChunk) →
      InRun tr.sampleToChunk r e (k + 1) := fun hafter => ⟨hrun.get, by have := hrun.le; omega, hafter⟩
  cases hnext : tr.sampleToChunk[r + 1]? with
  | none =>
    -- the last run
    simp only [RunPosition, hnext] at hpos
    have hlen := List.getElem?_eq_none_iff.mp hnext
    exact nextChunk_enter hc (hsame (by simp [hnext])) hk (Or.inr (by omega)) hpos.1 (by omega) hcurr h.count
  | some e' =>
    simp only [RunPosition, hnext] at hpos
    have hafter := hrun.lt e' hnext
    by_cases hmore : c.numChunksInRun > 1
    · -- another chunk of the run
      have hrun' : InRun tr.sampleToChunk r e (k + 1) := hsame fun f hf => by
        rw [hnext, Option.some.injEq] at hf
        rw [← hf]
        omega
      have hat : runAt tr.sampleToChunk k = e := runAt_of_run hc.chunkIncreasing hrun.get hrun.le hrun.lt
      have hlen : r + 1 < tr.sampleToChunk.length := (List.getElem?_eq_some_iff.mp hnext).1
      rw [ChunkCursor.nextChunk, if_pos hmore]
      refine ⟨_, rfl, .of_run hc hrun' hk ?_ hcurr h.count ?_ ?_ ?_ h.chunksInRun⟩
      · simp only [RunPosition, hnext]
        refine ⟨hpos.1, ?_⟩
        rw [if_pos (by omega)]
        omega
      · simp only [h.count, h.samplesPerChunk, hat]
      · rw [h.samplesPerChunk, hat]
      · rw [h.currSDI, hat]
    · -- the first chunk of the next run
      have hfirst : e'.firstChunk = k + 1 := by omega
      exact nextChunk_enter hc (InRun.next hc hnext hfirst) hk (Or.inl hfirst) hpos.1 (by omega) hcurr h.count

theorem BeforeChunks.nextChunk (hc : tr.Consistent) (h : BeforeChunks c) (hk : 0 < tr.chunkOffsets.length)
    (hne : tr.sampleToChunk ≠ []) : ∃ c', c.nextChunk tr.sampleToChunk = some c' ∧ OnChunk tr c' 0 := by
  obtain ⟨e, he⟩ : ∃ e, tr.sampleToChunk[0]? = some e :=
    ⟨_, List.getElem?_eq_getElem (List.length_pos_iff.mpr hne)⟩
  have hzero := hc.chunkStart e he
  have hrun : InRun tr.sampleToChunk 0 e 0 := by
    refine ⟨he, by omega, fun e' he' => ?_⟩
    have hinc := List.pairwise_iff_getElem.mp hc.chunkIncreasing
    obtain ⟨hlt, heq⟩ := List.getElem?_eq_some_iff.mp he
    obtain ⟨hlt', heq'⟩ := List.getElem?_eq_some_iff.mp he'
    have hless := hinc 0 (0 + 1) hlt hlt' (by omega)
    rw [heq, heq'] at hless
    omega
  refine nextChunk_enter hc hrun hk (Or.inl hzero) h.majorIndex ?_ ?_ ?_
  · rw [h.numChunksInRun]
    omega
  · rw [h.currChunk]
    rfl
  · rw [h.count, Track.firstSample, sumTo_zero]

theorem sampleToChunk_ne_nil (hc : tr.Consistent) (hm : m < tr.sampleCount) : tr.sampleToChunk ≠ [] := by
  intro hnil
  have hempty : expand tr.chunkRuns = [] := by
    refine expand_eq_nil fun e he => ?_
    obtain ⟨k, -, hk⟩ := List.mem_map.mp he
    rw [← hk, hnil]
    rfl
  have htotal := hc.chunkTotal
  rw [hempty, List.length_nil] at htotal
  omega

/-- **Reading on**: a cursor that is good for a sample is put on its chunk. -/
theorem getChunkNumber_good (hc : tr.Consistent) (h : ChunkGood tr c m) (hm : m < tr.sampleCount) :
    ∃ k, (c.getChunkNumber tr.sampleToChunk m).1 = some k ∧ OnChunk tr (c.getChunkNumber tr.sampleToChunk m).2 k ∧
      tr.firstSample k ≤ m ∧ m < tr.firstSample (k + 1) := by
  have henter : ∀ k, tr.firstSample k = m → ∀ c', OnChunk tr c' k → m < c'.currSampleCount := by
    intro k hk c' hon
    obtain ⟨r, e, hrun, -⟩ := hon.run
    have hat := runAt_of_run hc.chunkIncreasing hrun.get hrun.le hrun.lt
    have hspc := (hc.chunkSamples e (List.mem_of_getElem? hrun.get)).1
    rw [hon.count, firstSample_succ hon.lt, hat, hk]
    omega
  simp only [ChunkCursor.getChunkNumber]
  by_cases hlt : m < c.currSampleCount
  · rw [if_pos hlt]
    obtain ⟨hbefore, -⟩ | ⟨k, hon, hk, -⟩ := h
    · rw [hbefore.count] at hlt
      omega
    · exact ⟨k, hon.chunk_eq, hon, hk, by rw [← hon.count]; exact hlt⟩
  · rw [if_neg hlt]
    obtain ⟨k, c', hnext, hon, hk⟩ : ∃ k c', c.nextChunk tr.sampleToChunk = some c' ∧ OnChunk tr c' k ∧
        tr.firstSample k = m := by
      obtain ⟨hbefore, hzero⟩ | ⟨k, hon, -, hle⟩ := h
      · have hfirst : tr.firstSample 0 = m := by rw [Track.firstSample, sumTo_zero, hzero]
        have hlen := chunk_lt_of_sample hc hm (Nat.le_of_eq hfirst)
        obtain ⟨c', hnext, hon⟩ := hbefore.nextChunk hc hlen (sampleToChunk_ne_nil hc hm)
        exact ⟨0, c', hnext, hon, hfirst⟩
      · have hfirst : tr.firstSample (k + 1) = m := by
          have hcount := hon.count
          omega
        have hlen := chunk_lt_of_sample hc hm (Nat.le_of_eq hfirst)
        obtain ⟨c', hnext, hon'⟩ := hon.nextChunk hc hlen
        exact ⟨k + 1, c', hnext, hon', hfirst⟩
    have hin := henter k hk c' hon
    simp only [hnext, if_pos hin]
    exact ⟨k, hon.chunk_eq, hon, Nat.le_of_eq hk, by rw [← hon.count]; exact hin⟩

end Cursor

/-! ## Searching -/

theorem findChunk_some {spc j : Nat} : ∀ {n k sc : Nat}, sc ≤ j → j < sc + n * spc →
    ∃ q, q < n ∧ Track.findChunk spc j n k sc = some (k + q, sc + q * spc) ∧ sc + q * spc ≤ j ∧ j < sc + q * spc + spc
  | 0, k, sc, hle, hlt => by omega
  | n + 1, k, sc, hle, hlt => by
    rw [Track.findChunk]
    split
    · next hin => exact ⟨0, by omega, by simp, by omega, by omega⟩
    · next hout =>
      rw [Nat.succ_mul] at hlt
      obtain ⟨q, hq, hfind, hlow, hhigh⟩ :=
        @findChunk_some spc j n (k + 1) (sc + spc) (by omega) (by omega)
      have hsum : sc + spc + q * spc = sc + (q + 1) * spc := by
        rw [Nat.succ_mul]
        omega
      rw [hsum] at hfind hlow hhigh
      refine ⟨q + 1, by omega, ?_, hlow, hhigh⟩
      rw [hfind, show k + 1 + q = k + (q + 1) by omega]

theorem findChunk_none {spc j : Nat} : ∀ {n k sc : Nat}, sc + n * spc ≤ j → Track.findChunk spc j n k sc = none
  | 0, _, _, _ => rfl
  | n + 1, k, sc, hle => by
    rw [Nat.succ_mul] at hle
    rw [Track.findChunk, if_neg (by omega)]
    exact findChunk_none (by omega)

section Search

variable {tr : Track} {m : Nat}

theorem run_firstSample (hc : tr.Consistent) (hm : m < tr.sampleCount) {a spc : Nat} :
    ∀ q, (∀ p, p < q → (runAt tr.sampleToChunk (a + p)).samplesPerChunk = spc) → tr.firstSample a + q * spc ≤ m →
      a + q < tr.chunkOffsets.length ∧ tr.firstSample (a + q) = tr.firstSample a + q * spc
  | 0, _, hle => by
    have hzero : tr.firstSample a ≤ m := by omega
    exact ⟨chunk_lt_of_sample hc hm hzero, by simp⟩
  | q + 1, hrun, hle => by
    rw [Nat.succ_mul] at hle
    obtain ⟨hlt, heq⟩ := run_firstSample hc hm q (fun p hp => hrun p (by omega)) (by omega)
    have hsucc := firstSample_succ hlt
    rw [hrun q (by omega), heq] at hsucc
    have hnext : tr.firstSample (a + (q + 1)) = tr.firstSample a + (q + 1) * spc := by
      rw [Nat.succ_mul]
      exact hsucc.trans (by omega)
    refine ⟨chunk_lt_of_sample hc hm ?_, hnext⟩
    rw [hnext, Nat.succ_mul]
    exact hle

/-- What a search for sample `m` finds. -/
structure Finds (tr : Track) (m : Nat) (found : Track.FoundChunk) (e : ChunkRun) : Prop where
  run : InRun tr.sampleToChunk found.run e found.chunk
  lt : found.chunk < tr.chunkOffsets.length
  firstSample : found.firstSample = tr.firstSample found.chunk
  le : found.firstSample ≤ m
  sample_lt : m < found.firstSample + e.samplesPerChunk
  inRun : found.chunksInRun ≠ 0
  last : tr.sampleToChunk[found.run + 1]? = none → found.chunksLeft = 1
  next : ∀ e', tr.sampleToChunk[found.run + 1]? = some e' → found.chunksLeft = e'.firstChunk - found.chunk

theorem finds_of_run (hc : tr.Consistent) (hm : m < tr.sampleCount) {i q left inRun : Nat} {e : ChunkRun}
    (he : tr.sampleToChunk[i]? = some e) (hin : ∀ p, p ≤ q → InRun tr.sampleToChunk i e (e.firstChunk + p))
    (hlow : tr.firstSample e.firstChunk + q * e.samplesPerChunk ≤ m)
    (hhigh : m < tr.firstSample e.firstChunk + q * e.samplesPerChunk + e.samplesPerChunk) (hne : inRun ≠ 0)
    (hlast : tr.sampleToChunk[i + 1]? = none → left = 1)
    (hnext : ∀ e', tr.sampleToChunk[i + 1]? = some e' → left = e'.firstChunk - (e.firstChunk + q)) :
    Finds tr m ⟨i, e.firstChunk + q, tr.firstSample e.firstChunk + q * e.samplesPerChunk, left, inRun⟩ e := by
  have hspc : ∀ p, p < q → (runAt tr.sampleToChunk (e.firstChunk + p)).samplesPerChunk = e.samplesPerChunk := by
    intro p hp
    have hrun := hin p (by omega)
    rw [runAt_of_run hc.chunkIncreasing he hrun.le hrun.lt]
  obtain ⟨hlt, hfirst⟩ := run_firstSample hc hm q hspc hlow
  exact ⟨hin q (by omega), hlt, hfirst.symm, hlow, hhigh, hne, hlast, hnext⟩

theorem findRun_finds (hc : tr.Consistent) (hm : m < tr.sampleCount) : ∀ (i : Nat) (rest : List ChunkRun)
    (sc : Nat), tr.sampleToChunk.drop i = rest → rest ≠ [] →
    (∀ e, rest[0]? = some e → sc = tr.firstSample e.firstChunk) → sc ≤ m →
    ∃ found e, Track.findRun m i rest sc = some found ∧ Finds tr m found e
  | i, [], _, _, hne, _, _ => absurd rfl hne
  | i, [e], sc, hdrop, _, hsc, hle => by
    have he : tr.sampleToChunk[i]? = some e := by
      rw [← List.head?_drop, hdrop]
      rfl
    have hnone : tr.sampleToChunk[i + 1]? = none := by
      rw [← List.head?_drop, ← List.drop_drop, hdrop]
      rfl
    have hpos := (hc.chunkSamples e (List.mem_of_getElem? he)).1
    have hfuel : m < sc + (m + 1) * e.samplesPerChunk := by
      have hmul := Nat.le_mul_of_pos_right (m + 1) hpos
      omega
    obtain ⟨q, -, hfind, hlow, hhigh⟩ := @findChunk_some e.samplesPerChunk m (m + 1) e.firstChunk sc hle hfuel
    rw [hsc e rfl] at hlow hhigh
    refine ⟨_, e, by rw [Track.findRun, hfind, Option.map_some], ?_⟩
    rw [hsc e rfl]
    refine finds_of_run hc hm he (fun p _ => ⟨he, by omega, by simp [hnone]⟩) hlow hhigh (by simp) (fun _ => rfl) ?_
    simp [hnone]
  | i, e :: e' :: tbl, sc, hdrop, _, hsc, hle => by
    have he : tr.sampleToChunk[i]? = some e := by
      rw [← List.head?_drop, hdrop]
      rfl
    have htail : tr.sampleToChunk.drop (i + 1) = e' :: tbl := by
      rw [← List.drop_drop, hdrop]
      rfl
    have he' : tr.sampleToChunk[i + 1]? = some e' := by
      rw [← List.head?_drop, htail]
      rfl
    have hinc : e.firstChunk < e'.firstChunk := by
      have hpair := List.pairwise_iff_getElem.mp hc.chunkIncreasing
      obtain ⟨hlt, heq⟩ := List.getElem?_eq_some_iff.mp he
      obtain ⟨hlt', heq'⟩ := List.getElem?_eq_some_iff.mp he'
      have hless := hpair i (i + 1) hlt hlt' (by omega)
      rwa [heq, heq'] at hless
    have hfirst := hsc e rfl
    have hin : ∀ p, p < e'.firstChunk - e.firstChunk → InRun tr.sampleToChunk i e (e.firstChunk + p) := by
      refine fun p hp => ⟨he, by omega, fun f hf => ?_⟩
      rw [he', Option.some.injEq] at hf
      rw [← hf]
      omega
    have hspc : ∀ p, p < e'.firstChunk - e.firstChunk →
        (runAt tr.sampleToChunk (e.firstChunk + p)).samplesPerChunk = e.samplesPerChunk := by
      intro p hp
      have hrun := hin p hp
      rw [runAt_of_run hc.chunkIncreasing he hrun.le hrun.lt]
    have hcomm : e.samplesPerChunk * (e'.firstChunk - e.firstChunk) =
        (e'.firstChunk - e.firstChunk) * e.samplesPerChunk := Nat.mul_comm _ _
    -- the search goes on where the samples of the run are passed
    have hgoOn : sc + e.samplesPerChunk * (e'.firstChunk - e.firstChunk) ≤ m →
        ∃ found f, Track.findRun m (i + 1) (e' :: tbl)
          (sc + e.samplesPerChunk * (e'.firstChunk - e.firstChunk)) = some found ∧ Finds tr m found f := by
      intro hcount
      refine findRun_finds hc hm (i + 1) (e' :: tbl) _ htail (by simp) ?_ hcount
      intro f hf
      have hff : e' = f := by simpa using hf
      rw [hcomm, hfirst] at hcount
      have hnext := (run_firstSample hc hm _ hspc hcount).2
      rw [show e.firstChunk + (e'.firstChunk - e.firstChunk) = e'.firstChunk by omega] at hnext
      rw [hcomm, hfirst, ← hnext, hff]
    rw [Track.findRun]
    by_cases hcount : sc + e.samplesPerChunk * (e'.firstChunk - e.firstChunk) < m
    · simp only [if_pos hcount]
      exact hgoOn (Nat.le_of_lt hcount)
    · simp only [if_neg hcount]
      by_cases heq : sc + e.samplesPerChunk * (e'.firstChunk - e.firstChunk) = m
      · rw [findChunk_none (by rw [← hcomm]; omega)]
        exact hgoOn (Nat.le_of_eq heq)
      · obtain ⟨q, hq, hfind, hlow, hhigh⟩ := @findChunk_some e.samplesPerChunk m
          (e'.firstChunk - e.firstChunk) e.firstChunk sc hle (by rw [← hcomm]; omega)
        rw [hfind]
        rw [hfirst] at hlow hhigh
        refine ⟨_, e, rfl, ?_⟩
        rw [hfirst]
        refine finds_of_run hc hm he (fun p hp => hin p (by omega)) hlow hhigh (by omega) (by simp [he']) ?_
        intro f hf
        rw [he', Option.some.injEq] at hf
        rw [← hf]
        omega

/-- **Resetting**: the cursor is put on the chunk of the sample. -/
theorem reset_onChunk (hc : tr.Consistent) (hm : m < tr.sampleCount) (c : ChunkCursor) :
    (c.reset tr.sampleToChunk m).1 = true ∧
      ∃ k, OnChunk tr (c.reset tr.sampleToChunk m).2 k ∧ tr.firstSample k ≤ m ∧ m < tr.firstSample (k + 1) := by
  have hne := sampleToChunk_ne_nil hc hm
  obtain ⟨found, e, hfind, hfinds⟩ := findRun_finds hc hm 0 tr.sampleToChunk 0 rfl hne (by
    intro e he
    rw [hc.chunkStart e he, Track.firstSample, sumTo_zero]) (Nat.zero_le m)
  have hget : tr.sampleToChunk.getD found.run default = e := by
    rw [List.getD_eq_getElem?_getD, hfinds.run.get, Option.getD_some]
  have hat := runAt_of_run hc.chunkIncreasing hfinds.run.get hfinds.run.le hfinds.run.lt
  have hfirst := hfinds.firstSample
  have hhigh := hfinds.sample_lt
  simp only [ChunkCursor.reset, hfind, hget]
  refine ⟨trivial, found.chunk, .of_run hc hfinds.run hfinds.lt ?_ rfl hfirst ?_ rfl rfl hfinds.inRun, ?_, ?_⟩
  · simp only [RunPosition]
    cases hnext : tr.sampleToChunk[found.run + 1]? with
    | none =>
      have hlen := List.getElem?_eq_none_iff.mp hnext
      exact ⟨if_neg (by omega), hfinds.last hnext⟩
    | some e' =>
      have hlen := (List.getElem?_eq_some_iff.mp hnext).1
      exact ⟨if_pos hlen, hfinds.next e' hnext⟩
  · rw [hfirst]
  · rw [← hfirst]
    exact hfinds.le
  · rw [firstSample_succ hfinds.lt, hat, ← hfirst]
    exact hhigh

end Search

end Ftke.Mp4SampleTable
