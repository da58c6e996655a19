import Mathlib.Order.Monotone.Basic
import Mathlib.Tactic.SplitIfs
import Ftke.SampleToChunk

/-!
# Ftke.SampleToChunk.Positions

Which chunk a sample is in, in plain arithmetic, and the searches that find it while the numbers
stay within 32 bits.
-/

namespace Ftke.SampleToChunk

/-! ## The chunk of a sample -/

/-- The first chunk of a run. -/
def firstChunk (tbl : List Entry) (i : Nat) : Nat := (tbl.getD i default).firstChunk.toNat

/-- The samples of each of its chunks. -/
def perChunk (tbl : List Entry) (i : Nat) : Nat := (tbl.getD i default).samplesPerChunk.toNat

/-- The samples before a run. -/
def before (tbl : List Entry) : Nat → Nat
  | 0 => 0
  | i + 1 => before tbl i + perChunk tbl i * (firstChunk tbl (i + 1) - firstChunk tbl i)

/-- The first sample of chunk `c`, in run `r`. -/
def chunkStart (tbl : List Entry) (r c : Nat) : Nat := before tbl r + perChunk tbl r * (c - firstChunk tbl r)

/-- Sample `s` is in chunk `c`, which is in run `r`. -/
structure At (tbl : List Entry) (s r c : Nat) : Prop where
  run : r < tbl.length
  first : firstChunk tbl r ≤ c
  next : r + 1 < tbl.length → c < firstChunk tbl (r + 1)
  le : chunkStart tbl r c ≤ s
  lt : s < chunkStart tbl r c + perChunk tbl r

/-- The first chunks increase, and no chunk is empty. -/
structure Increasing (tbl : List Entry) : Prop where
  first : ∀ i, i + 1 < tbl.length → firstChunk tbl i < firstChunk tbl (i + 1)
  positive : ∀ i < tbl.length, 0 < perChunk tbl i

/-- The chunks of the runs, and the samples before the last, can be counted in 32 bits. -/
structure Counted (tbl : List Entry) : Prop where
  chunks : ∀ i < tbl.length, firstChunk tbl i < 2 ^ 31
  samples : ∀ i < tbl.length, before tbl i < 2 ^ 32

variable {tbl : List Entry} {s r r' c c' : Nat}

theorem before_mono (tbl : List Entry) : Monotone (before tbl) :=
  monotone_nat_of_le_succ fun _ => Nat.le_add_right _ _

theorem chunkStart_succ (h : firstChunk tbl r ≤ c) :
    chunkStart tbl r (c + 1) = chunkStart tbl r c + perChunk tbl r := by
  rw [chunkStart, chunkStart, Nat.sub_add_comm h, Nat.mul_add_one, Nat.add_assoc]

theorem chunkStart_mono (tbl : List Entry) (r : Nat) : Monotone (chunkStart tbl r) := fun _ _ h =>
  Nat.add_le_add_left (Nat.mul_le_mul_left _ (Nat.sub_le_sub_right h _)) _

theorem chunkStart_next (r : Nat) : chunkStart tbl r (firstChunk tbl (r + 1)) = before tbl (r + 1) := rfl

theorem chunkStart_first (r : Nat) : chunkStart tbl r (firstChunk tbl r) = before tbl r := by
  simp [chunkStart]

namespace At

theorem end_eq (h : At tbl s r c) : chunkStart tbl r c + perChunk tbl r = chunkStart tbl r (c + 1) :=
  (chunkStart_succ h.first).symm

theorem lt_before (h : At tbl s r c) (hnext : r + 1 < tbl.length) : s < before tbl (r + 1) := by
  have hmono := chunkStart_mono tbl r (h.next hnext)
  have hlt := h.lt
  rw [h.end_eq] at hlt
  exact hlt.trans_le hmono

theorem before_le (h : At tbl s r c) : before tbl r ≤ s := (Nat.le_add_right _ _).trans h.le

theorem run_le (h : At tbl s r c) (h' : At tbl s r' c') : r ≤ r' := by
  by_contra hlt
  have hbefore := h'.lt_before (by have := h.run; omega)
  have hmono := before_mono tbl (show r' + 1 ≤ r by omega)
  have := h.before_le
  omega

theorem chunk_le (h : At tbl s r c) (h' : At tbl s r c') : c ≤ c' := by
  by_contra hlt
  have hmono := chunkStart_mono tbl r (show c' + 1 ≤ c by omega)
  have hlt' := h'.lt
  rw [h'.end_eq] at hlt'
  have := h.le
  omega

/-- **A sample is in one chunk.** -/
theorem unique (h : At tbl s r c) (h' : At tbl s r' c') : r = r' ∧ c = c' := by
  obtain rfl : r = r' := Nat.le_antisymm (h.run_le h') (h'.run_le h)
  exact ⟨rfl, Nat.le_antisymm (h.chunk_le h') (h'.chunk_le h)⟩

theorem of_bounds {s' : Nat} (h : At tbl s r c) (hle : chunkStart tbl r c ≤ s')
    (hlt : s' < chunkStart tbl r c + perChunk tbl r) : At tbl s' r c :=
  ⟨h.run, h.first, h.next, hle, hlt⟩

theorem div_eq (h : At tbl s r c) : (s - before tbl r) / perChunk tbl r = c - firstChunk tbl r := by
  have hle := h.le
  have hlt := h.lt
  unfold chunkStart at hle hlt
  apply Nat.div_eq_of_lt_le
  · rw [Nat.mul_comm]
    omega
  · rw [Nat.add_one_mul, Nat.mul_comm]
    omega

end At

theorem At.following (hinc : Increasing tbl) (h : At tbl s r c) :
    if r + 1 < tbl.length ∧ c + 1 = firstChunk tbl (r + 1) then
      At tbl (chunkStart tbl r c + perChunk tbl r) (r + 1) (c + 1)
    else At tbl (chunkStart tbl r c + perChunk tbl r) r (c + 1) := by
  have hend := h.end_eq
  split_ifs with hlast
  · obtain ⟨hrun, heq⟩ := hlast
    have hpos := hinc.positive (r + 1) hrun
    have hstart : chunkStart tbl (r + 1) (c + 1) = chunkStart tbl r c + perChunk tbl r := by
      rw [hend, heq, chunkStart_first, ← chunkStart_next]
    refine ⟨hrun, heq.ge, fun hnext => ?_, hstart.le, by omega⟩
    rw [heq]
    exact hinc.first (r + 1) hnext
  · have hpos := hinc.positive r h.run
    refine ⟨h.run, Nat.le_succ_of_le h.first, fun hnext => ?_, hend.ge, by omega⟩
    have := h.next hnext
    omega

/-- **Every sample is in a chunk**, the last run being as long as it takes. -/
theorem exists_at (hinc : Increasing tbl) (hne : tbl ≠ []) : ∀ s, ∃ r c, At tbl s r c
  | 0 => by
    have hlen := List.length_pos_of_ne_nil hne
    have hpos := hinc.positive 0 hlen
    refine ⟨0, firstChunk tbl 0, hlen, Nat.le_refl _, hinc.first 0, ?_, ?_⟩
    · rw [chunkStart_first, before]
    · rw [chunkStart_first, before]
      omega
  | s + 1 => by
    obtain ⟨r, c, h⟩ := exists_at hinc hne s
    have hle := h.le
    have hlt := h.lt
    by_cases hin : s + 1 < chunkStart tbl r c + perChunk tbl r
    · exact ⟨r, c, h.of_bounds (by omega) hin⟩
    · have hfollow := h.following hinc
      rw [show chunkStart tbl r c + perChunk tbl r = s + 1 by omega] at hfollow
      split_ifs at hfollow
      · exact ⟨_, _, hfollow⟩
      · exact ⟨_, _, hfollow⟩

variable {i s' : Nat}

theorem firstChunk_mono (hinc : Increasing tbl) (h : i < r) (hr : r < tbl.length) :
    firstChunk tbl i < firstChunk tbl r := by
  induction h with
  | refl => exact hinc.first i hr
  | step h ih => exact (ih (by omega)).trans (hinc.first _ hr)

theorem At.mono (hinc : Increasing tbl) (h : At tbl s r c) (h' : At tbl s' r' c') (hs : s ≤ s') :
    c ≤ c' := by
  have hle := h.le
  have hlt' := h'.lt
  obtain hr | rfl | hr := lt_trichotomy r r'
  · have hnext := h.next (by have := h'.run; omega)
    obtain hlt | heq := (show r + 1 ≤ r' from hr).lt_or_eq
    · have := firstChunk_mono hinc hlt h'.run
      have := h'.first
      omega
    · rw [heq] at hnext
      exact hnext.le.trans h'.first
  · by_contra hlt
    have hmono := chunkStart_mono tbl r (show c' + 1 ≤ c by omega)
    rw [h'.end_eq] at hlt'
    omega
  · have hbefore := h'.lt_before (by have := h.run; omega)
    have hmono := before_mono tbl (show r' + 1 ≤ r from hr)
    have := h.before_le
    omega

theorem At.run_eq (hinc : Increasing tbl) (h : At tbl s r c) (h' : At tbl s' r' c) : r = r' := by
  have hnot : ∀ {s s' r r'}, At tbl s r c → At tbl s' r' c → ¬r < r' := by
    intro s s' r r' h h' hlt
    have hnext := h.next (by have := h'.run; omega)
    obtain hlt' | heq := (show r + 1 ≤ r' from hlt).lt_or_eq
    · have := firstChunk_mono hinc hlt' h'.run
      have := h'.first
      omega
    · have := h'.first
      rw [heq] at hnext
      omega
  have := hnot h h'
  have := hnot h' h
  omega

/-! ## The searches -/

theorem toNat_add_of_lt {a b : UInt32} (h : a.toNat + b.toNat < 2 ^ 32) : (a + b).toNat = a.toNat + b.toNat := by
  rw [UInt32.toNat_add, Nat.mod_eq_of_lt h]

theorem findInRun_of_lt {sampleNum spc : UInt32} : ∀ {n : Nat} {j sampleCount : UInt32},
    sampleCount.toNat ≤ sampleNum.toNat → sampleNum.toNat < sampleCount.toNat + spc.toNat * n →
    sampleCount.toNat + spc.toNat * n < 2 ^ 32 → j.toNat + n < 2 ^ 32 →
    ∃ found, findInRun sampleNum spc n j sampleCount = .inl found ∧
      found.1.toNat = j.toNat + (sampleNum.toNat - sampleCount.toNat) / spc.toNat ∧
      found.2.toNat = sampleCount.toNat + spc.toNat * ((sampleNum.toNat - sampleCount.toNat) / spc.toNat)
  | 0, j, sampleCount, hle, hlt, _, _ => by omega
  | n + 1, j, sampleCount, hle, hlt, hfits, hj => by
    rw [Nat.mul_add_one] at hlt hfits
    have hpos : 0 < spc.toNat := by
      by_contra hzero
      simp only [show spc.toNat = 0 by omega, Nat.zero_mul] at hlt
      omega
    have hadd := toNat_add_of_lt (a := sampleCount) (b := spc) (by omega)
    rw [findInRun]
    split_ifs with hin
    · rw [UInt32.lt_iff_toNat_lt, hadd] at hin
      refine ⟨(j, sampleCount), rfl, ?_, ?_⟩ <;> rw [Nat.div_eq_of_lt (by omega)] <;> simp
    · rw [UInt32.lt_iff_toNat_lt, hadd] at hin
      have hone : (j + 1).toNat = j.toNat + 1 := toNat_add_of_lt (show j.toNat + 1 < 2 ^ 32 by omega)
      obtain ⟨found, hfound, hchunk, hfirst⟩ := @findInRun_of_lt sampleNum spc n (j + 1) (sampleCount + spc)
        (by omega) (by omega) (by omega) (by omega)
      have hdiv : (sampleNum.toNat - sampleCount.toNat) / spc.toNat =
          (sampleNum.toNat - (sampleCount + spc).toNat) / spc.toNat + 1 := by
        rw [← Nat.add_div_right _ hpos]
        congr 1
        omega
      refine ⟨found, hfound, ?_, ?_⟩
      · rw [hchunk, hdiv]
        omega
      · rw [hfirst, hdiv, Nat.mul_add_one]
        omega

theorem findInRun_of_le {sampleNum spc : UInt32} : ∀ {n : Nat} {j sampleCount : UInt32},
    sampleCount.toNat + spc.toNat * n ≤ sampleNum.toNat →
    ∃ count, findInRun sampleNum spc n j sampleCount = .inr count ∧
      count.toNat = sampleCount.toNat + spc.toNat * n
  | 0, j, sampleCount, _ => ⟨sampleCount, rfl, by simp⟩
  | n + 1, j, sampleCount, hle => by
    rw [Nat.mul_add_one] at hle
    have hlt := sampleNum.toNat_lt
    have hadd := toNat_add_of_lt (a := sampleCount) (b := spc) (by omega)
    rw [findInRun, if_neg (by rw [UInt32.lt_iff_toNat_lt, hadd]; omega)]
    obtain ⟨count, hcount, heq⟩ := @findInRun_of_le sampleNum spc n (j + 1) (sampleCount + spc) (by omega)
    exact ⟨count, hcount, by rw [heq, Nat.mul_add_one]; omega⟩

theorem findInLastRun_of_lt {sampleNum spc : UInt32} (hpos : 0 < spc.toNat) : ∀ {n : Nat} {k sampleCount : UInt32},
    sampleCount.toNat ≤ sampleNum.toNat → (sampleNum.toNat - sampleCount.toNat) / spc.toNat = n →
    sampleCount.toNat + spc.toNat * (n + 1) < 2 ^ 32 → k.toNat + n < 2 ^ 32 →
    ∃ found, findInLastRun sampleNum spc (n + 1) k sampleCount = some found ∧
      found.1.toNat = k.toNat + n ∧ found.2.toNat = sampleCount.toNat + spc.toNat * n
  | 0, k, sampleCount, hle, hn, hfits, _ => by
    have hin := Nat.lt_mul_div_succ (sampleNum.toNat - sampleCount.toNat) hpos
    rw [hn] at hin
    have hadd := toNat_add_of_lt (a := sampleCount) (b := spc) (by omega)
    rw [findInLastRun, if_pos (by rw [UInt32.lt_iff_toNat_lt, hadd]; omega)]
    exact ⟨_, rfl, by simp, by simp⟩
  | n + 1, k, sampleCount, hle, hn, hfits, hk => by
    have hout := Nat.mul_div_le (sampleNum.toNat - sampleCount.toNat) spc.toNat
    rw [hn] at hout
    rw [Nat.mul_add_one] at hfits hout
    have hadd := toNat_add_of_lt (a := sampleCount) (b := spc) (by omega)
    have hone : (k + 1).toNat = k.toNat + 1 := toNat_add_of_lt (show k.toNat + 1 < 2 ^ 32 by omega)
    have hdiv : (sampleNum.toNat - (sampleCount + spc).toNat) / spc.toNat = n := by
      have hsplit : sampleNum.toNat - sampleCount.toNat =
          sampleNum.toNat - (sampleCount + spc).toNat + spc.toNat := by omega
      rw [hsplit, Nat.add_div_right _ hpos] at hn
      omega
    obtain ⟨found, hfound, hchunk, hfirst⟩ := @findInLastRun_of_lt sampleNum spc hpos n (k + 1) (sampleCount + spc)
      (by omega) hdiv (by omega) (by omega)
    rw [findInLastRun, if_neg (by rw [UInt32.lt_iff_toNat_lt, hadd]; omega)]
    refine ⟨found, hfound, by omega, ?_⟩
    rw [hfirst, Nat.mul_add_one]
    omega

/-- A position that can be told in 32 bits: the chunk, and the end of it. -/
structure Told (tbl : List Entry) (r c : Nat) : Prop where
  chunk : c < 2 ^ 31
  samples : chunkStart tbl r c + perChunk tbl r < 2 ^ 32

theorem Told.mono (hinc : Increasing tbl) (ht : Told tbl r' c') (h : At tbl s r c) (h' : At tbl s' r' c')
    (hs : s ≤ s') : Told tbl r c := by
  have hc := h.mono hinc h' hs
  have htold := ht.samples
  have hlt' := h'.lt
  refine ⟨hc.trans_lt ht.chunk, ?_⟩
  by_contra hbig
  obtain ⟨rfl, rfl⟩ := (h.of_bounds (h.le.trans hs) (by omega)).unique h'
  exact hbig htold

/-- A search ends in chunk `c` of run `r`. -/
structure Finds (tbl : List Entry) (r c : Nat) (found : Found) : Prop where
  run : found.run = r
  entry : found.entry = tbl.getD r default
  chunk : found.chunk.toNat = c
  firstSample : found.firstSample.toNat = chunkStart tbl r c
  chunksLeft : found.chunksLeft.toNat = if r + 1 < tbl.length then firstChunk tbl (r + 1) - c else 1

theorem toNat_chunksInRun (hinc : Increasing tbl) (hi : i + 1 < tbl.length) :
    ((tbl.getD (i + 1) default).firstChunk - (tbl.getD i default).firstChunk).toNat =
      firstChunk tbl (i + 1) - firstChunk tbl i :=
  UInt32.toNat_sub_of_le _ _ (UInt32.le_iff_toNat_le.mpr (hinc.first i hi).le)

theorem turns_eq {x : UInt32} (h : x.toNat < 2 ^ 31) : turns x = x.toNat := by
  have hval : x.toInt32.toInt = (x.toNat : Int).bmod (2 ^ 32) := BitVec.toInt_eq_toNat_bmod x.toBitVec
  rw [Int.bmod_eq_of_le (by omega) (by omega)] at hval
  rw [turns, hval, Int.toNat_natCast]

/-- **The search finds the sample**, from any run before it. -/
theorem search_finds (hinc : Increasing tbl) (hc : Counted tbl) (guarded : Bool) {sampleNum : UInt32}
    (hat : At tbl sampleNum.toNat r c) (ht : Told tbl r c) : ∀ {rest : List Entry} {i : Nat} {sampleCount : UInt32},
    tbl.drop i = rest → rest ≠ [] → sampleCount.toNat = before tbl i → i ≤ r →
    ∃ fuel found, search guarded sampleNum fuel i rest sampleCount = some (some found) ∧ Finds tbl r c found
  | [], _, _, _, hne, _, _ => absurd rfl hne
  | [e], i, sampleCount, hdrop, _, hcount, hir => by
    have hlen : tbl.length = i + 1 := by
      have := congrArg List.length hdrop
      simp at this
      omega
    have he : tbl.getD i default = e := by
      rw [List.getD_eq_getElem?_getD, ← List.head?_drop, hdrop]
      rfl
    obtain rfl : i = r := by
      have := hat.run
      omega
    have hspc : e.samplesPerChunk.toNat = perChunk tbl i := by rw [perChunk, he]
    have hfirst : e.firstChunk.toNat = firstChunk tbl i := by rw [firstChunk, he]
    have hdiv := hat.div_eq
    have hge := hat.first
    have htold := ht.samples
    rw [chunkStart] at htold
    have hbefore := hat.before_le
    obtain ⟨found, hfound, hchunk, hsample⟩ := @findInLastRun_of_lt sampleNum e.samplesPerChunk
      (by rw [hspc]; exact hinc.positive i hat.run) (c - firstChunk tbl i) 0 sampleCount (by omega)
      (by rw [hcount, hspc]; exact hdiv) (by rw [hcount, hspc, Nat.mul_add_one]; omega)
      (by have := ht.chunk; simp; omega)
    refine ⟨_, _, by rw [search, if_neg (by rw [UInt32.lt_iff_toNat_lt]; omega), hfound]; rfl,
      rfl, he.symm, ?_, ?_, ?_⟩
    · have hzero : (0 : UInt32).toNat = 0 := rfl
      have := ht.chunk
      rw [toNat_add_of_lt (by omega), hchunk]
      omega
    · rw [hsample, hcount, hspc, chunkStart]
    · rw [if_neg (by omega)]
      rfl
  | e :: e' :: rest, i, sampleCount, hdrop, _, hcount, hir => by
    have hlen : i + 1 < tbl.length := by
      have := congrArg List.length hdrop
      simp at this
      omega
    have he : tbl.getD i default = e := by
      rw [List.getD_eq_getElem?_getD, ← List.head?_drop, hdrop]
      rfl
    have hdrop' : tbl.drop (i + 1) = e' :: rest := by
      rw [← List.drop_drop, hdrop]
      rfl
    have he' : tbl.getD (i + 1) default = e' := by
      rw [List.getD_eq_getElem?_getD, ← List.head?_drop, hdrop']
      rfl
    have hspc : e.samplesPerChunk.toNat = perChunk tbl i := by rw [perChunk, he]
    have hnum : (e'.firstChunk - e.firstChunk).toNat = firstChunk tbl (i + 1) - firstChunk tbl i := by
      rw [← he, ← he']
      exact toNat_chunksInRun hinc hlen
    have hchunks := hc.chunks (i + 1) hlen
    have hsamples := hc.samples (i + 1) hlen
    have hnext : before tbl (i + 1) =
        before tbl i + perChunk tbl i * (firstChunk tbl (i + 1) - firstChunk tbl i) := rfl
    have hmul : (e.samplesPerChunk * (e'.firstChunk - e.firstChunk)).toNat =
        perChunk tbl i * (firstChunk tbl (i + 1) - firstChunk tbl i) := by
      rw [UInt32.toNat_mul, hspc, hnum, Nat.mod_eq_of_lt (by omega)]
    have hsum : (sampleCount + e.samplesPerChunk * (e'.firstChunk - e.firstChunk)).toNat = before tbl (i + 1) := by
      rw [toNat_add_of_lt (by omega), hmul, hcount, ← hnext]
    have hturns := turns_eq (x := e'.firstChunk - e.firstChunk) (by omega)
    rw [hnum] at hturns
    have hrec : before tbl (i + 1) ≤ sampleNum.toNat → i + 1 ≤ r := by
      intro hle
      by_contra hlt
      obtain rfl : i = r := by omega
      have := hat.lt_before hlen
      omega
    obtain hlt | heq | hgt := lt_trichotomy (before tbl (i + 1)) sampleNum.toNat
    · obtain ⟨fuel, found, hfound, hfinds⟩ := search_finds hinc hc guarded hat ht hdrop' (by simp) hsum
        (hrec hlt.le)
      refine ⟨fuel, found, ?_, hfinds⟩
      rw [search, if_pos (by rw [UInt32.lt_iff_toNat_lt, hsum]; exact hlt)]
      exact hfound
    · obtain ⟨count, hinr, hcount'⟩ := @findInRun_of_le sampleNum e.samplesPerChunk
        (turns (e'.firstChunk - e.firstChunk)) 0 sampleCount (by rw [hturns, hspc, hcount]; omega)
      rw [hturns, hspc, hcount, ← hnext] at hcount'
      obtain ⟨fuel, found, hfound, hfinds⟩ := search_finds hinc hc guarded hat ht hdrop' (by simp) hcount'
        (hrec heq.le)
      refine ⟨fuel, found, ?_, hfinds⟩
      rw [search, if_neg (by rw [UInt32.lt_iff_toNat_lt, hsum]; omega), hinr]
      exact hfound
    · -- the sample is in this run
      obtain rfl : i = r := by
        by_contra hne
        have := before_mono tbl (show i + 1 ≤ r by omega)
        have := hat.before_le
        omega
      have hdiv := hat.div_eq
      have hge := hat.first
      have hbefore := hat.before_le
      have hin := hat.next hlen
      obtain ⟨found, hinl, hchunk, hsample⟩ := @findInRun_of_lt sampleNum e.samplesPerChunk
        (turns (e'.firstChunk - e.firstChunk)) 0 sampleCount (by omega) (by rw [hturns, hspc, hcount]; omega)
        (by rw [hturns, hspc, hcount]; omega) (by rw [hturns]; simp; omega)
      rw [hcount, hspc, hdiv] at hchunk hsample
      have hzero : (0 : UInt32).toNat = 0 := rfl
      have hfirst : e.firstChunk.toNat = firstChunk tbl i := by rw [firstChunk, he]
      refine ⟨0, _, by
        rw [search, if_neg (by rw [UInt32.lt_iff_toNat_lt, hsum]; omega), hinl], rfl, he.symm, ?_, hsample, ?_⟩
      · have := ht.chunk
        rw [toNat_add_of_lt (by omega), hchunk]
        omega
      · rw [if_pos hlen, UInt32.toNat_sub_of_le _ _ (by rw [UInt32.le_iff_toNat_le]; omega), hnum, hchunk]
        omega

theorem search_finds_start (hinc : Increasing tbl) (hc : Counted tbl) (guarded : Bool) {sampleNum : UInt32}
    (hat : At tbl sampleNum.toNat r c) (ht : Told tbl r c) :
    ∃ fuel found, search guarded sampleNum fuel 0 tbl 0 = some (some found) ∧ Finds tbl r c found :=
  search_finds hinc hc guarded hat ht rfl (List.ne_nil_of_length_pos (Nat.zero_lt_of_lt hat.run)) rfl (Nat.zero_le r)

end Ftke.SampleToChunk
