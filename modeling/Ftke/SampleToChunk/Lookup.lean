import Ftke.SampleToChunk.Positions

/-!
# Ftke.SampleToChunk.Lookup

Reading on from a sample agrees with the searches from the start of the table: the same chunk,
the same first sample, and the values of the same run.
-/

namespace Ftke.SampleToChunk

variable {tbl : List Entry} {s r r' c c' k : Nat}

/-! ## The position -/

/-- The position is on chunk `ch` of run `r`. -/
structure OnChunk (tbl : List Entry) (c : Cursor) (r ch : Nat) : Prop where
  chunk : c.currGetChunk.toNat = ch
  firstSample : c.firstGetSampleInCurrChunk.toNat = chunkStart tbl r ch
  sampleCount : c.currGetSampleCount.toNat = chunkStart tbl r ch + perChunk tbl r
  samplesPerChunk : c.numGetSamplesPerChunk = (tbl.getD r default).samplesPerChunk
  sdi : c.currGetSDI = (tbl.getD r default).sampleDescriptionIndex
  -- the index is one ahead of the run, except in the last
  index : c.majorGetIndex = if r + 1 < tbl.length then r + 1 else r
  chunksLeft : c.numGetChunksInRun.toInt = if r + 1 < tbl.length then (firstChunk tbl (r + 1) : Int) - ch else 1

theorem toInt_toInt32 {x : UInt32} (h : x.toNat < 2 ^ 31) : x.toInt32.toInt = x.toNat := by
  have hval : x.toInt32.toInt = (x.toNat : Int).bmod (2 ^ 32) := BitVec.toInt_eq_toNat_bmod x.toBitVec
  rw [hval, Int.bmod_eq_of_le (by omega) (by omega)]

variable {sampleNum chunk : UInt32}

/-- **A reset** goes to the chunk of the sample. -/
theorem resetStateVariables_onChunk (hinc : Increasing tbl) (hc : Counted tbl) (c₀ : Cursor)
    (hat : At tbl sampleNum.toNat r c) (ht : Told tbl r c) :
    ∃ cursor, Returns (resetStateVariables tbl c₀ sampleNum) (true, cursor) ∧ OnChunk tbl cursor r c := by
  obtain ⟨fuel, found, hfound, hfinds⟩ := search_finds_start hinc hc true hat ht
  have hspc : found.entry.samplesPerChunk.toNat = perChunk tbl r := by rw [hfinds.entry, perChunk]
  have hleft : found.chunksLeft.toNat < 2 ^ 31 := by
    rw [hfinds.chunksLeft]
    split_ifs with hnext
    · have := hc.chunks (r + 1) hnext
      omega
    · omega
  refine ⟨_, ⟨fuel, by rw [resetStateVariables, hfound]; rfl⟩, hfinds.chunk, hfinds.firstSample, ?_, ?_, ?_, ?_, ?_⟩
  · have := ht.samples
    rw [toNat_add_of_lt (by rw [hfinds.firstSample, hspc]; omega), hfinds.firstSample, hspc]
  · rw [hfinds.entry]
  · rw [hfinds.entry]
  · simp only [hfinds.run]
  · simp only [toInt_toInt32 hleft, hfinds.chunksLeft]
    split_ifs with hnext
    · have := hat.next hnext
      omega
    · rfl

variable {cursor : Cursor}

theorem OnChunk.nextChunk (hinc : Increasing tbl) (hc : Counted tbl) (h : OnChunk tbl cursor r c)
    (hat : At tbl s r c) (hat' : At tbl (chunkStart tbl r c + perChunk tbl r) r' c') (ht : Told tbl r' c') :
    ∃ cursor', cursor.nextChunk tbl = some cursor' ∧ OnChunk tbl cursor' r' c' := by
  have hfollow := hat.following hinc
  have hend := hat.end_eq
  have hcount := h.sampleCount
  have hsamples := ht.samples
  have hle := hat'.le
  have hleft := h.chunksLeft
  have hchunk : c + 1 < 2 ^ 31 → (cursor.currGetChunk + 1).toNat = c + 1 := fun hlt => by
    have hone : (1 : UInt32).toNat = 1 := rfl
    rw [toNat_add_of_lt (by rw [h.chunk, hone]; omega), h.chunk, hone]
  have hnum : (1 : Int32) < cursor.numGetChunksInRun ↔ 1 < cursor.numGetChunksInRun.toInt := by
    rw [Int32.lt_iff_toInt_lt, Int32.toInt_one]
  by_cases hrun : r + 1 < tbl.length
  · have hchunks := hc.chunks (r + 1) hrun
    have hin := hat.next hrun
    rw [if_pos hrun] at hleft
    by_cases hlast : c + 1 = firstChunk tbl (r + 1)
    · -- the next run begins
      rw [if_pos ⟨hrun, hlast⟩] at hfollow
      obtain ⟨rfl, rfl⟩ := hfollow.unique hat'
      have hspc : (tbl.getD (r + 1) default).samplesPerChunk.toNat = perChunk tbl (r + 1) := rfl
      have hfirst : chunkStart tbl (r + 1) (c + 1) = chunkStart tbl r c + perChunk tbl r := by
        rw [hend, hlast, chunkStart_first, chunkStart_next]
      have hsum : (cursor.currGetSampleCount + (tbl.getD (r + 1) default).samplesPerChunk).toNat =
          chunkStart tbl (r + 1) (c + 1) + perChunk tbl (r + 1) := by
        rw [toNat_add_of_lt (by rw [hcount, hspc]; omega), hcount, hspc, hfirst]
      have hindex : cursor.majorGetIndex = r + 1 := by rw [h.index, if_pos hrun]
      have hfew : ¬cursor.numGetChunksInRun > 1 := by
        rw [gt_iff_lt, hnum]
        omega
      rw [Cursor.nextChunk, if_neg hfew, hindex]
      by_cases hmore : r + 1 + 1 < tbl.length
      · have hruns := toNat_chunksInRun hinc hmore
        have hbound := hc.chunks (r + 1 + 1) hmore
        have hless := hinc.first (r + 1) hmore
        rw [if_pos hmore]
        refine ⟨_, rfl, hchunk (by omega), hcount.trans hfirst.symm, hsum, rfl, rfl, (if_pos hmore).symm, ?_⟩
        rw [if_pos hmore, toInt_toInt32 (by omega), hruns]
        omega
      · rw [if_neg hmore, if_pos (by omega)]
        refine ⟨_, rfl, hchunk (by omega), hcount.trans hfirst.symm, hsum, rfl, rfl, (if_neg hmore).symm, ?_⟩
        rw [if_neg hmore]
        rfl
    · rw [if_neg fun hand => hlast hand.2] at hfollow
      obtain ⟨rfl, rfl⟩ := hfollow.unique hat'
      have hspc : cursor.numGetSamplesPerChunk.toNat = perChunk tbl r := by rw [h.samplesPerChunk, perChunk]
      have hsum : (cursor.currGetSampleCount + cursor.numGetSamplesPerChunk).toNat =
          chunkStart tbl r (c + 1) + perChunk tbl r := by
        rw [toNat_add_of_lt (by rw [hcount, hspc]; omega), hcount, hspc, hend]
      have hmany : cursor.numGetChunksInRun > 1 := by
        rw [gt_iff_lt, hnum]
        omega
      rw [Cursor.nextChunk, if_pos hmany]
      refine ⟨_, rfl, hchunk (by omega), hcount.trans hend, hsum, h.samplesPerChunk, h.sdi, h.index, ?_⟩
      rw [if_pos hrun]
      simp only [if_pos (show tbl.length > 1 by omega)]
      rw [Int32.toInt_sub, Int32.toInt_one, Int.bmod_eq_of_le (by omega) (by omega)]
      omega
  · -- the last run goes on
    rw [if_neg fun hand => hrun hand.1] at hfollow
    obtain ⟨rfl, rfl⟩ := hfollow.unique hat'
    rw [if_neg hrun] at hleft
    have hspc : (tbl.getD r default).samplesPerChunk.toNat = perChunk tbl r := rfl
    have hsum : (cursor.currGetSampleCount + (tbl.getD r default).samplesPerChunk).toNat =
        chunkStart tbl r (c + 1) + perChunk tbl r := by
      rw [toNat_add_of_lt (by rw [hcount, hspc]; omega), hcount, hspc, hend]
    have hindex : cursor.majorGetIndex = r := by rw [h.index, if_neg hrun]
    have hfew : ¬cursor.numGetChunksInRun > 1 := by
      rw [gt_iff_lt, hnum]
      omega
    have hlen := hat.run
    rw [Cursor.nextChunk, if_neg hfew, hindex, if_neg hrun, if_pos (by omega)]
    refine ⟨_, rfl, hchunk ht.chunk, hcount.trans hend, hsum, rfl, rfl, (if_neg hrun).symm, ?_⟩
    rw [if_neg hrun]
    rfl

/-- **The next sample** is on the chunk, or on the next one. -/
theorem OnChunk.get (hinc : Increasing tbl) (hc : Counted tbl) (h : OnChunk tbl cursor r c)
    (hat : At tbl s r c) (hnum : sampleNum.toNat = s ∨ sampleNum.toNat = s + 1)
    (hat' : At tbl sampleNum.toNat r' c') (ht : Told tbl r' c') :
    ∃ cursor', getChunkNumberForSampleGet tbl cursor sampleNum = (cursor'.currGetChunk, cursor') ∧
      OnChunk tbl cursor' r' c' := by
  have hle := hat.le
  have hlt := hat.lt
  by_cases hin : sampleNum.toNat < chunkStart tbl r c + perChunk tbl r
  · obtain ⟨rfl, rfl⟩ := (hat.of_bounds (by omega) hin).unique hat'
    refine ⟨cursor, ?_, h⟩
    rw [getChunkNumberForSampleGet, if_pos (by rw [UInt32.lt_iff_toNat_lt, h.sampleCount]; exact hin)]
  · -- the sample is the first of the next chunk
    have heq : sampleNum.toNat = chunkStart tbl r c + perChunk tbl r := by omega
    have hlt' := hat'.lt
    rw [heq] at hat'
    obtain ⟨cursor', hnext, hon⟩ := h.nextChunk hinc hc hat hat' ht
    refine ⟨cursor', ?_, hon⟩
    rw [getChunkNumberForSampleGet, if_neg (by rw [UInt32.lt_iff_toNat_lt, h.sampleCount]; omega), hnext]
    dsimp only
    rw [if_pos (by rw [UInt32.lt_iff_toNat_lt, hon.sampleCount]; exact hlt')]

/-! ## The first sample of a chunk -/

theorem ofNat_before_succ (hinc : Increasing tbl) {i : Nat} (hi : i + 1 < tbl.length) :
    UInt32.ofNat (before tbl i) + (tbl.getD i default).samplesPerChunk *
      ((tbl.getD (i + 1) default).firstChunk - (tbl.getD i default).firstChunk) =
        UInt32.ofNat (before tbl (i + 1)) := by
  rw [← UInt32.toNat_inj, before, UInt32.toNat_add, UInt32.toNat_mul, toNat_chunksInRun hinc hi,
    UInt32.toNat_ofNat', UInt32.toNat_ofNat', perChunk]
  omega

theorem firstSampleLoop_eq (hinc : Increasing tbl) (hat : At tbl s r c) (ht : Told tbl r c) {chunkNum : UInt32}
    (hchunk : chunkNum.toNat = c) : ∀ {rest : List Entry} {i : Nat} {prev : Option (Entry × UInt32)},
    tbl.drop i = rest → rest ≠ [] → i ≤ r →
    firstSampleLoop chunkNum prev rest (UInt32.ofNat (before tbl i)) = some (UInt32.ofNat (chunkStart tbl r c))
  | [], _, _, _, hne, _ => absurd rfl hne
  | e :: rest, i, prev, hdrop, _, hir => by
    have he : tbl.getD i default = e := by
      rw [List.getD_eq_getElem?_getD, ← List.head?_drop, hdrop]
      rfl
    have hfirst : e.firstChunk.toNat = firstChunk tbl i := by rw [firstChunk, he]
    have hrun := hat.run
    have hge := hat.first
    have hoffset : firstChunk tbl i ≤ c → i = r →
        UInt32.ofNat (before tbl i) + (chunkNum - e.firstChunk) * e.samplesPerChunk =
          UInt32.ofNat (chunkStart tbl r c) := by
      rintro hle rfl
      rw [← UInt32.toNat_inj, UInt32.toNat_add, UInt32.toNat_mul,
        UInt32.toNat_sub_of_le _ _ (by rw [UInt32.le_iff_toNat_le]; omega), UInt32.toNat_ofNat',
        UInt32.toNat_ofNat', hchunk, hfirst, chunkStart, perChunk, he, Nat.mul_comm]
      omega
    have hbegun : firstChunk tbl i ≤ c := by
      obtain hlt | rfl := hir.lt_or_eq
      · exact ((firstChunk_mono hinc hlt hrun).trans_le hge).le
      · exact hge
    rw [firstSampleLoop.eq_def]
    dsimp only
    rw [if_neg (by rw [UInt32.lt_iff_toNat_lt]; omega)]
    split_ifs with hat0
    · -- the first chunk of a run
      have hc0 : c = firstChunk tbl i := by rw [← hchunk, hat0, hfirst]
      have hi : i = r := by
        by_contra hne
        have := firstChunk_mono hinc (show i < r by omega) hrun
        omega
      rw [hi] at hc0
      rw [hi, hc0, chunkStart_first]
    · cases rest with
      | nil =>
        have hlen : tbl.length = i + 1 := by
          have := congrArg List.length hdrop
          simp at this
          omega
        dsimp only
        rw [hoffset hbegun (by omega)]
      | cons e' rest =>
        have hlen : i + 1 < tbl.length := by
          have := congrArg List.length hdrop
          simp at this
          omega
        have hdrop' : tbl.drop (i + 1) = e' :: rest := by
          rw [← List.drop_drop, hdrop]
          rfl
        have he' : tbl.getD (i + 1) default = e' := by
          rw [List.getD_eq_getElem?_getD, ← List.head?_drop, hdrop']
          rfl
        have hnext := ofNat_before_succ hinc hlen
        rw [he, he'] at hnext
        dsimp only
        obtain hlt | hi := hir.lt_or_eq
        · rw [hnext]
          exact firstSampleLoop_eq hinc hat ht hchunk hdrop' (by simp) hlt
        · -- the run is found when the next one is past the chunk
          have hpast := hat.next (by omega)
          have hfirst' : e'.firstChunk.toNat = firstChunk tbl (i + 1) := by rw [firstChunk, he']
          rw [firstSampleLoop.eq_def]
          dsimp only
          rw [if_pos (by rw [UInt32.lt_iff_toNat_lt, hfirst', hi]; omega), Option.map_some,
            UInt32.add_sub_cancel, hoffset hbegun hi]

/-! ## The searches return once -/

theorem findInLastRun_mono {sampleNum spc : UInt32} {found : UInt32 × UInt32} :
    ∀ {fuel more : Nat} {k count : UInt32}, fuel ≤ more → findInLastRun sampleNum spc fuel k count = some found →
    findInLastRun sampleNum spc more k count = some found
  | 0, _, _, _, _, h => by simp [findInLastRun] at h
  | fuel + 1, 0, _, _, hle, _ => absurd hle (Nat.not_succ_le_zero fuel)
  | fuel + 1, more + 1, k, count, hle, h => by
    rw [findInLastRun] at h ⊢
    split_ifs at h ⊢
    · exact h
    · exact findInLastRun_mono (Nat.le_of_succ_le_succ hle) h

theorem search_mono {guarded : Bool} {found : Option Found} {fuel more : Nat}
    (hle : fuel ≤ more) : ∀ {rest : List Entry} {i : Nat} {count : UInt32},
      search guarded sampleNum fuel i rest count = some found → search guarded sampleNum more i rest count = some found
  | [], _, _, h => h
  | [e], i, count, h => by
    rw [search] at h ⊢
    split_ifs at h ⊢
    · exact h
    · obtain ⟨x, hx, heq⟩ := Option.map_eq_some_iff.mp h
      rw [findInLastRun_mono hle hx]
      exact congrArg some heq
  | e :: e' :: rest, i, count, h => by
    rw [search] at h ⊢
    split_ifs at h ⊢
    · exact search_mono hle h
    · split at h
      · exact h
      · exact search_mono hle h

theorem search_unique {guarded : Bool} {x y : Option Found} {fuel fuel' : Nat}
    (hx : search guarded sampleNum fuel 0 tbl 0 = some x)
    (hy : search guarded sampleNum fuel' 0 tbl 0 = some y) : x = y := by
  have hx' := search_mono (Nat.le_max_left fuel fuel') hx
  have hy' := search_mono (Nat.le_max_right fuel fuel') hy
  exact Option.some.inj (hx'.symm.trans hy')

/-! ## Both ways -/

theorem returns_chunk (hinc : Increasing tbl) (hc : Counted tbl)
    (hat : At tbl sampleNum.toNat r c) (ht : Told tbl r c) :
    Returns (getChunkNumberForSample tbl sampleNum) chunk ↔ chunk.toNat = c := by
  obtain ⟨fuel, found, hfound, hfinds⟩ := search_finds_start hinc hc true hat ht
  constructor
  · rintro ⟨fuel', h⟩
    obtain ⟨x, hx, heq⟩ := Option.map_eq_some_iff.mp h
    rw [search_unique hx hfound] at heq
    rw [← heq]
    exact hfinds.chunk
  · intro h
    refine ⟨fuel, ?_⟩
    rw [getChunkNumberForSample, hfound]
    exact congrArg some (UInt32.toNat_inj.mp (hfinds.chunk.trans h.symm))

theorem returns_samplesPerChunk (hinc : Increasing tbl) (hc : Counted tbl)
    (hat : At tbl sampleNum.toNat r c) (ht : Told tbl r c) :
    Returns (getSamplesPerChunkCorrespondingToSample tbl sampleNum) (tbl.getD r default).samplesPerChunk := by
  obtain ⟨fuel, found, hfound, hfinds⟩ := search_finds_start hinc hc false hat ht
  refine ⟨fuel, ?_⟩
  rw [getSamplesPerChunkCorrespondingToSample, hfound]
  exact congrArg some (congrArg Entry.samplesPerChunk hfinds.entry)

theorem getFirstSampleNumInChunk_eq (hinc : Increasing tbl) (hat : At tbl s r c) (ht : Told tbl r c)
    (hchunk : chunk.toNat = c) : getFirstSampleNumInChunk tbl chunk = some (UInt32.ofNat (chunkStart tbl r c)) := by
  have hne : tbl ≠ [] := by
    rintro rfl
    exact Nat.not_lt_zero r hat.run
  exact firstSampleLoop_eq hinc hat ht hchunk (i := 0) rfl hne (Nat.zero_le r)

/-- The calls for sample `k` and the ones after it, in this order. -/
def reads (tbl : List Entry) (cursor : Cursor) (k : UInt32) : Nat → UInt32 × Cursor
  | 0 => getChunkNumberForSampleGet tbl cursor k
  | n + 1 => getChunkNumberForSampleGet tbl (reads tbl cursor k n).2 (k + UInt32.ofNat (n + 1))

/-- What a call for a sample returns, and what can be read after it, is what the searches say: the
chunk, its first sample, and the values of the run of the sample, where an index of 0 is an error;
and that first sample is the least one of the chunk. -/
structure Agrees (tbl : List Entry) (sampleNum : UInt32) (result : UInt32 × Cursor) : Prop where
  chunk : Returns (getChunkNumberForSample tbl sampleNum) result.1
  firstSample : getFirstSampleNumInChunk tbl result.1 = some (getFirstSampleNumInChunkGet result.2)
  samplesPerChunk : Returns (getSamplesPerChunkCorrespondingToSample tbl sampleNum)
    (getSamplesPerChunkCorrespondingToSampleGet result.2)
  sdi : ∃ r c, At tbl sampleNum.toNat r c ∧
    getSDIndexGet result.2 =
      if (tbl.getD r default).sampleDescriptionIndex = 0 then pvError
      else (tbl.getD r default).sampleDescriptionIndex
  begins : Returns (getChunkNumberForSample tbl (getFirstSampleNumInChunkGet result.2)) result.1
  least : ∀ s, Returns (getChunkNumberForSample tbl s) result.1 → getFirstSampleNumInChunkGet result.2 ≤ s

theorem OnChunk.agrees (hinc : Increasing tbl) (hc : Counted tbl) (h : OnChunk tbl cursor r c)
    (hat : At tbl sampleNum.toNat r c) (ht : Told tbl r c) :
    Agrees tbl sampleNum (cursor.currGetChunk, cursor) where
  chunk := (returns_chunk hinc hc hat ht).mpr h.chunk
  firstSample := by
    rw [getFirstSampleNumInChunk_eq hinc hat ht h.chunk, ← h.firstSample]
    exact congrArg some UInt32.ofNat_toNat
  samplesPerChunk := by
    rw [getSamplesPerChunkCorrespondingToSampleGet, h.samplesPerChunk]
    exact returns_samplesPerChunk hinc hc hat ht
  sdi := ⟨r, c, hat, by rw [getSDIndexGet, h.sdi, ite_not]⟩
  begins := by
    have hpos := hinc.positive r hat.run
    refine (returns_chunk hinc hc (r := r) (c := c) ?_ ht).mpr h.chunk
    rw [getFirstSampleNumInChunkGet, h.firstSample]
    exact hat.of_bounds (Nat.le_refl _) (by omega)
  least s hs := by
    have hne : tbl ≠ [] := by
      rintro rfl
      exact Nat.not_lt_zero r hat.run
    rw [UInt32.le_iff_toNat_le, getFirstSampleNumInChunkGet, h.firstSample]
    by_contra hlt
    -- a sample before the chunk is in another one
    obtain ⟨r', c', hat'⟩ := exists_at hinc hne s.toNat
    have hbefore : s.toNat ≤ sampleNum.toNat := by
      have := hat.le
      omega
    rw [returns_chunk hinc hc hat' (ht.mono hinc hat' hat hbefore), h.chunk] at hs
    subst hs
    obtain rfl := hat.run_eq hinc hat'
    have := hat'.le
    omega

theorem reads_onChunk (hinc : Increasing tbl) (hc : Counted tbl) {k : UInt32}
    (h : ∃ r c, At tbl k.toNat r c ∧ Told tbl r c ∧ OnChunk tbl cursor r c) : ∀ {n r c : Nat},
    At tbl (k.toNat + n) r c → Told tbl r c → k.toNat + n < 2 ^ 32 →
    ∃ cursor', reads tbl cursor k n = (cursor'.currGetChunk, cursor') ∧ OnChunk tbl cursor' r c
  | 0, r, c, hat, ht, _ => by
    obtain ⟨r₀, c₀, hat₀, -, hon⟩ := h
    exact hon.get hinc hc hat₀ (.inl rfl) hat ht
  | n + 1, r, c, hat, ht, hlt => by
    have hne : tbl ≠ [] := by
      rintro rfl
      exact Nat.not_lt_zero r hat.run
    obtain ⟨r', c', hat'⟩ := exists_at hinc hne (k.toNat + n)
    obtain ⟨cursor', hreads, hon⟩ := reads_onChunk hinc hc h hat' (ht.mono hinc hat' hat (by omega)) (by omega)
    have hnum : (k + UInt32.ofNat (n + 1)).toNat = k.toNat + (n + 1) := by
      rw [UInt32.toNat_add, UInt32.toNat_ofNat']
      omega
    rw [reads, hreads]
    exact hon.get hinc hc hat' (.inr (by omega)) (by rwa [hnum]) ht

/-- **Reading on agrees with the searches**: after a reset to sample `k`, the calls for `k`,
`k + 1` and so on, up to any sample whose chunk and its end can be told in 32 bits. -/
theorem reads_agree (tbl : List Entry) (hinc : Increasing tbl) (hc : Counted tbl) (c₀ : Cursor) (k : UInt32)
    (n r c : Nat) (hat : At tbl (k.toNat + n) r c) (ht : Told tbl r c) :
    ∃ cursor, Returns (resetStateVariables tbl c₀ k) (true, cursor) ∧
      ∀ i ≤ n, Agrees tbl (k + UInt32.ofNat i) (reads tbl cursor k i) := by
  have hne : tbl ≠ [] := by
    rintro rfl
    exact Nat.not_lt_zero r hat.run
  have hlt : k.toNat + n < 2 ^ 32 := hat.lt.trans ht.samples
  obtain ⟨r₀, ch₀, hat₀⟩ := exists_at hinc hne k.toNat
  have ht₀ := ht.mono hinc hat₀ hat (Nat.le_add_right _ _)
  obtain ⟨cursor, hreset, hon⟩ := resetStateVariables_onChunk hinc hc c₀ hat₀ ht₀
  refine ⟨cursor, hreset, fun i hi => ?_⟩
  obtain ⟨r', c', hat'⟩ := exists_at hinc hne (k.toNat + i)
  have ht' := ht.mono hinc hat' hat (by omega)
  obtain ⟨cursor', hreads, hon'⟩ := reads_onChunk hinc hc ⟨r₀, ch₀, hat₀, ht₀, hon⟩ hat' ht' (by omega)
  have hnum : (k + UInt32.ofNat i).toNat = k.toNat + i := by
    rw [UInt32.toNat_add, UInt32.toNat_ofNat']
    omega
  rw [hreads]
  exact hon'.agrees hinc hc (by rwa [hnum]) ht'

/-- A cursor before anything is read. -/
def unread : Cursor := ⟨0, 0xFFFFFFFF, 0, 0, 0, 0, 0, 0⟩

/-- Two chunks of three samples, then chunks of one. -/
def twoRuns : List Entry := [⟨0, 3, 1⟩, ⟨2, 1, 2⟩]

theorem twoRuns_increasing : Increasing twoRuns ∧ Counted twoRuns := by
  refine ⟨⟨fun i hi => ?_, fun i hi => ?_⟩, ⟨fun i hi => ?_, fun i hi => ?_⟩⟩ <;>
    simp only [twoRuns, List.length_cons, List.length_nil] at hi
  · obtain rfl : i = 0 := by omega
    decide
  all_goals
    obtain rfl | rfl : i = 0 ∨ i = 1 := by omega
    all_goals decide

/-- From the second chunk over the end of its run into the last one. -/
theorem reads_agree_twoRuns :
    At twoRuns ((4 : UInt32).toNat + 4) 1 4 ∧ Told twoRuns 1 4 ∧
      ∃ cursor, Returns (resetStateVariables twoRuns unread 4) (true, cursor) ∧
        ∀ i ≤ 4, Agrees twoRuns (4 + UInt32.ofNat i) (reads twoRuns cursor 4 i) := by
  have hat : At twoRuns ((4 : UInt32).toNat + 4) 1 4 := ⟨by decide, by decide, by decide, by decide, by decide⟩
  have ht : Told twoRuns 1 4 := ⟨by decide, by decide⟩
  exact ⟨hat, ht, reads_agree twoRuns twoRuns_increasing.1 twoRuns_increasing.2 unread 4 4 1 4 hat ht⟩

/-- A single run whose description index is 0. -/
def noIndex : List Entry := [⟨0, 1, 0⟩]

/-- A run of as many chunks as a signed word cannot count. -/
def longRun : List Entry := [⟨0, 1, 1⟩, ⟨2 ^ 31, 1, 1⟩]

/-- A description index of 0 is not returned, and a run of `2^31` chunks is not searched. -/
theorem reads_disagree :
    (Increasing noIndex ∧ At noIndex 0 0 0 ∧ ∃ cursor,
      Returns (resetStateVariables noIndex unread 0) (true, cursor) ∧
        getSDIndexGet (reads noIndex cursor 0 0).2 ≠ (noIndex.getD 0 default).sampleDescriptionIndex) ∧
      Increasing longRun ∧ ∃ cursor, Returns (resetStateVariables longRun unread 0) (true, cursor) ∧
        getFirstSampleNumInChunk longRun (reads longRun cursor 0 0).1 ≠
          some (getFirstSampleNumInChunkGet (reads longRun cursor 0 0).2) := by
  refine ⟨⟨⟨fun i hi => ?_, fun i hi => ?_⟩, ⟨by decide, by decide, by decide, by decide, by decide⟩, _,
    ⟨1, rfl⟩, by decide⟩, ⟨fun i hi => ?_, fun i hi => ?_⟩, _, ⟨1, rfl⟩, by decide⟩
  · simp [noIndex] at hi
  · obtain rfl : i = 0 := by simpa [noIndex] using hi
    decide
  · obtain rfl : i = 0 := by
      simp only [longRun, List.length_cons, List.length_nil] at hi
      omega
    decide
  · simp only [longRun, List.length_cons, List.length_nil] at hi
    obtain rfl | rfl : i = 0 ∨ i = 1 := by omega
    all_goals decide

end Ftke.SampleToChunk
