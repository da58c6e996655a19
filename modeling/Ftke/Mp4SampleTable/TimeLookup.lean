import Ftke.Mp4SampleTable.Times

/-!
# Ftke.Mp4SampleTable.TimeLookup

Looking up the time of a sample and the sample for a time (`timetosampleatom.cpp`): in a table
whose times do not leave 31 bits, each is the inverse of the other.
-/

namespace Ftke.Mp4SampleTable

open RunLength

/-! ## The time of a sample -/

/-- The sum of the deltas before sample `n`. -/
def sampleTime (tbl : List (Entry UInt32)) (n : Nat) : Nat := (((expand tbl).take n).map UInt32.toNat).sum

/-- The number of samples of a table. -/
def totalSamples (tbl : List (Entry UInt32)) : Nat := (expand tbl).length

/-- The time after the last sample. -/
def totalTime (tbl : List (Entry UInt32)) : Nat := sampleTime tbl (totalSamples tbl)

section Times

variable {tbl : List (Entry UInt32)} {e : Entry UInt32} {m n d : Nat}

theorem sampleTime_succ (tbl : List (Entry UInt32)) (n : Nat) :
    sampleTime tbl (n + 1) = sampleTime tbl n + ((expand tbl).getD n 0).toNat := by
  rw [sampleTime, List.take_add_one, List.map_append, List.sum_append, sampleTime, List.getD_eq_getElem?_getD]
  cases (expand tbl)[n]? <;> simp

theorem sampleTime_mono (tbl : List (Entry UInt32)) : Monotone (sampleTime tbl) :=
  monotone_nat_of_le_succ fun n => by
    rw [sampleTime_succ]
    exact Nat.le_add_right _ _

theorem mem_expand {x : UInt32} : ∀ {tbl : List (Entry UInt32)}, x ∈ expand tbl → ∃ e ∈ tbl, e.value = x
  | e :: tbl, h => by
    rw [expand, List.mem_append, List.mem_replicate] at h
    obtain ⟨-, rfl⟩ | h := h
    · exact ⟨e, List.mem_cons_self, rfl⟩
    · obtain ⟨e', he', rfl⟩ := mem_expand h
      exact ⟨e', List.mem_cons_of_mem _ he', rfl⟩

theorem sampleTime_lt_succ (hpos : ∀ e ∈ tbl, 0 < e.value) (hn : n < totalSamples tbl) :
    sampleTime tbl n < sampleTime tbl (n + 1) := by
  obtain ⟨e, he, hval⟩ := mem_expand (List.getElem_mem hn)
  have hlt : 0 < e.value.toNat := hpos e he
  rw [sampleTime_succ, List.getD_eq_getElem?_getD, List.getElem?_eq_getElem hn, Option.getD_some, ← hval]
  omega

theorem sampleTime_of_le (h : n ≤ e.count) : sampleTime (e :: tbl) n = e.value.toNat * n := by
  rw [sampleTime, expand, List.take_append_of_le_length (by simpa using h), List.take_replicate, Nat.min_eq_left h]
  simp [Nat.mul_comm]

theorem sampleTime_add : sampleTime (e :: tbl) (e.count + n) = e.value.toNat * e.count + sampleTime tbl n := by
  rw [sampleTime, expand, List.take_append, List.length_replicate, Nat.add_sub_cancel_left, List.map_append,
    List.sum_append, List.take_replicate, Nat.min_eq_right (Nat.le_add_right _ _)]
  simp [sampleTime, Nat.mul_comm]

theorem toNat_sum : ∀ l : List UInt32, (l.map UInt32.toNat).sum < 2 ^ 32 → l.sum.toNat = (l.map UInt32.toNat).sum
  | [], _ => rfl
  | x :: l, h => by
    rw [List.map_cons, List.sum_cons] at h
    rw [List.sum_cons, UInt32.toNat_add, toNat_sum l (by omega), List.map_cons, List.sum_cons, Nat.mod_eq_of_lt h]

theorem totalSamples_cons : totalSamples (e :: tbl) = e.count + totalSamples tbl := by
  rw [totalSamples, expand, List.length_append, List.length_replicate, totalSamples]

theorem totalTime_cons : totalTime (e :: tbl) = e.value.toNat * e.count + totalTime tbl := by
  rw [totalTime, totalSamples_cons, sampleTime_add, totalTime]

/-! ## The sample for a time -/

/-- `n` is the last sample that begins no later than `d`. -/
structure LastBegun (tbl : List (Entry UInt32)) (d n : Nat) : Prop where
  lt : n < totalSamples tbl
  le : sampleTime tbl n ≤ d
  next : d < sampleTime tbl (n + 1)

theorem LastBegun.largest (h : LastBegun tbl d n) (hm : sampleTime tbl m ≤ d) : m ≤ n := by
  by_contra hlt
  have := sampleTime_mono tbl (show n + 1 ≤ m by omega)
  have := h.next
  omega

theorem lastBegun_of_lt (hd : d < e.value.toNat * e.count) : LastBegun (e :: tbl) d (d / e.value.toNat) := by
  have hpos : 0 < e.value.toNat := Nat.pos_of_ne_zero fun h => by simp [h] at hd
  have hlt : d / e.value.toNat < e.count := Nat.div_lt_of_lt_mul hd
  refine ⟨?_, ?_, ?_⟩
  · rw [totalSamples, expand, List.length_append, List.length_replicate]
    omega
  · rw [sampleTime_of_le hlt.le]
    exact Nat.mul_div_le d _
  · rw [sampleTime_of_le hlt, Nat.mul_add_one]
    exact Nat.lt_mul_div_succ d hpos

theorem LastBegun.cons (h : LastBegun tbl d n) :
    LastBegun (e :: tbl) (e.value.toNat * e.count + d) (e.count + n) := by
  obtain ⟨hlt, hle, hnext⟩ := h
  refine ⟨?_, ?_, ?_⟩
  · rw [totalSamples] at hlt
    rw [totalSamples, expand, List.length_append, List.length_replicate]
    omega
  · rw [sampleTime_add]
    omega
  · rw [Nat.add_assoc, sampleTime_add]
    omega

/-! ## The loops -/

theorem toNat_runTime (h : e.value.toNat * e.count < 2 ^ 32) :
    (e.value * UInt32.ofNat e.count).toNat = e.value.toNat * e.count := by
  rw [UInt32.toNat_mul, UInt32.toNat_ofNat', Nat.mul_mod_mod, Nat.mod_eq_of_lt h]

theorem backtrack_eq {ts delta : UInt32} (hdelta : 0 < delta.toNat) : ∀ {fuel : Nat} {timeCount : UInt32}
    {sampleCount : Nat}, timeCount.toNat ≤ ts.toNat → ts.toNat < timeCount.toNat + delta.toNat * fuel →
    timeCount.toNat + delta.toNat * fuel < 2 ^ 32 →
    Track.backtrack ts delta (fuel + 1) timeCount sampleCount =
      sampleCount + (ts.toNat - timeCount.toNat) / delta.toNat
  | 0, timeCount, sampleCount, hle, hlt, hfits => by omega
  | fuel + 1, timeCount, sampleCount, hle, hlt, hfits => by
    rw [Nat.mul_add_one] at hlt hfits
    have hnext : (timeCount + delta).toNat = timeCount.toNat + delta.toNat := by
      rw [UInt32.toNat_add, Nat.mod_eq_of_lt (by omega)]
    rw [Track.backtrack, if_pos (UInt32.le_iff_toNat_le.mpr hle)]
    by_cases hmore : (timeCount + delta).toNat ≤ ts.toNat
    · rw [backtrack_eq hdelta hmore (by omega) (by omega), hnext]
      rw [show ts.toNat - timeCount.toNat = ts.toNat - (timeCount.toNat + delta.toNat) + delta.toNat by omega,
        Nat.add_div_right _ hdelta]
      omega
    · rw [Track.backtrack, if_neg (by rwa [UInt32.le_iff_toNat_le]), Nat.div_eq_of_lt (by omega)]
      rfl

theorem lastRun_eq (tr : Track) {ts delta : UInt32} : ∀ {samples : Nat} {timeCount : UInt32} {sampleCount : Nat},
    timeCount.toNat < ts.toNat → ts.toNat ≤ timeCount.toNat + delta.toNat * samples →
    timeCount.toNat + delta.toNat * samples < 2 ^ 32 →
    Track.lastRun tr ts delta samples timeCount sampleCount =
      some (sampleCount + (ts.toNat - timeCount.toNat) / delta.toNat)
  | 0, timeCount, sampleCount, hlt, hle, hfits => by omega
  | samples + 1, timeCount, sampleCount, hlt, hle, hfits => by
    rw [Nat.mul_add_one] at hle hfits
    have hdelta : 0 < delta.toNat := by
      by_contra hzero
      simp only [show delta.toNat = 0 by omega, Nat.zero_mul] at hle
      omega
    have hnext : (timeCount + delta).toNat = timeCount.toNat + delta.toNat := by
      rw [UInt32.toNat_add, Nat.mod_eq_of_lt (by omega)]
    rw [Track.lastRun]
    split_ifs with hover hat
    · rw [gt_iff_lt, UInt32.lt_iff_toNat_lt] at hover
      rw [Nat.div_eq_of_lt (by omega)]
      rfl
    · rw [← UInt32.toNat_inj] at hat
      rw [show ts.toNat - timeCount.toNat = delta.toNat by omega, Nat.div_self hdelta]
    · rw [gt_iff_lt, UInt32.lt_iff_toNat_lt] at hover
      rw [← UInt32.toNat_inj] at hat
      rw [lastRun_eq tr (by omega) (by omega) (by omega), hnext,
        show ts.toNat - timeCount.toNat = ts.toNat - (timeCount.toNat + delta.toNat) + delta.toNat by omega,
        Nat.add_div_right _ hdelta]
      congr 1
      omega

/-- **The search finds the last sample begun**; `prev` is the run passed last, which began at
`start`, before the time looked for. -/
theorem sampleNumberLoop_eq (tr : Track) {ts : UInt32} : ∀ {tbl : List (Entry UInt32)} {prev : Entry UInt32}
    {timeCount : UInt32} {first start : Nat}, Positive tbl → (∀ e ∈ tbl, 0 < e.value) →
    timeCount.toNat = start + prev.value.toNat * prev.count → (prev.count = 0 ∨ start < ts.toNat) →
    start + totalTime (prev :: tbl) < 2 ^ 32 → start ≤ ts.toNat →
    0 < totalSamples (prev :: tbl) → ts.toNat ≤ start + sampleTime (prev :: tbl) (totalSamples (prev :: tbl) - 1) →
    ∃ n, Track.sampleNumberLoop tr ts prev tbl timeCount (first + prev.count) = some (first + n) ∧
      LastBegun (prev :: tbl) (ts.toNat - start) n
  | [], prev, timeCount, first, start, _, _, htime, hbegun, hfits, hle, hsome, hlast => by
    obtain ⟨count, hcount⟩ : ∃ count, prev.count = count + 1 := by
      have : totalSamples ([] : List (Entry UInt32)) = 0 := rfl
      rw [totalSamples_cons] at hsome
      exact ⟨prev.count - 1, by omega⟩
    have hnil : totalTime ([] : List (Entry UInt32)) = 0 := rfl
    rw [totalTime_cons, hnil] at hfits
    rw [totalSamples_cons, sampleTime_of_le (by simp [totalSamples, expand])] at hlast
    have hback : (timeCount - prev.value * UInt32.ofNat prev.count).toNat = start := by
      have hrun := toNat_runTime (e := prev) (by omega)
      rw [UInt32.toNat_sub_of_le _ _ (by rw [UInt32.le_iff_toNat_le]; omega)]
      omega
    rw [hcount, Nat.mul_add_one] at hfits
    have hlast' : ts.toNat ≤ start + prev.value.toNat * count := by
      simpa [hcount, totalSamples, expand] using hlast
    refine ⟨(ts.toNat - start) / prev.value.toNat, ?_, lastBegun_of_lt ?_⟩
    · rw [Track.sampleNumberLoop, lastRun_eq tr, hback, Nat.add_sub_cancel]
      · rw [hback]
        omega
      · rw [hback, hcount]
        exact hlast'
      · rw [hback, hcount, Nat.add_sub_cancel]
        omega
    · have hpos : 0 < prev.value.toNat := by
        by_contra hzero
        simp only [show prev.value.toNat = 0 by omega, Nat.zero_mul] at hlast'
        omega
      rw [hcount, Nat.mul_add_one]
      omega
  | e :: tbl, prev, timeCount, first, start, hpos, hdelta, htime, hbegun, hfits, hle, hsome, hlast => by
    rw [totalTime_cons] at hfits
    have hecount : 0 < e.count := hpos e List.mem_cons_self
    have hevalue : 0 < e.value.toNat := hdelta e List.mem_cons_self
    have hmore : 0 < totalSamples (e :: tbl) := by
      rw [totalSamples_cons]
      omega
    rw [Track.sampleNumberLoop]
    split_ifs with hpast hat
    · -- the time is in the run passed last
      rw [UInt32.lt_iff_toNat_lt] at hpast
      have hback : (timeCount - prev.value * UInt32.ofNat prev.count).toNat = start := by
        have hrun := toNat_runTime (e := prev) (by omega)
        rw [UInt32.toNat_sub_of_le _ _ (by rw [UInt32.le_iff_toNat_le]; omega)]
        omega
      have hvalue : 0 < prev.value.toNat := by
        by_contra hzero
        simp only [show prev.value.toNat = 0 by omega, Nat.zero_mul] at htime
        omega
      refine ⟨(ts.toNat - start) / prev.value.toNat, ?_, lastBegun_of_lt (by omega)⟩
      rw [backtrack_eq hvalue (by omega) (by omega) (by omega), hback, Nat.add_sub_cancel]
    · -- the run to come begins at the time
      have hzero : LastBegun (e :: tbl) 0 0 := by
        refine ⟨hmore, Nat.le_refl _, ?_⟩
        rw [sampleTime_of_le (by omega)]
        omega
      refine ⟨prev.count, rfl, ?_⟩
      have hcons := hzero.cons (e := prev)
      rw [← UInt32.toNat_inj] at hat
      rwa [Nat.add_zero, Nat.add_zero, show prev.value.toNat * prev.count = ts.toNat - start by omega] at hcons
    · -- the time is later
      rw [UInt32.lt_iff_toNat_lt] at hpast
      rw [← UInt32.toNat_inj] at hat
      have hrun : e.value.toNat * e.count < 2 ^ 32 := by
        rw [totalTime_cons] at hfits
        omega
      have htime' : (timeCount + e.value * UInt32.ofNat e.count).toNat =
          timeCount.toNat + e.value.toNat * e.count := by
        rw [totalTime_cons] at hfits
        rw [UInt32.toNat_add, toNat_runTime hrun, Nat.mod_eq_of_lt (by omega)]
      have hlast' : ts.toNat ≤ timeCount.toNat + sampleTime (e :: tbl) (totalSamples (e :: tbl) - 1) := by
        rw [totalSamples_cons, show prev.count + totalSamples (e :: tbl) - 1 =
          prev.count + (totalSamples (e :: tbl) - 1) by omega, sampleTime_add] at hlast
        omega
      obtain ⟨n, hn, hbegun'⟩ := @sampleNumberLoop_eq tr ts tbl e _ (first + prev.count) timeCount.toNat
        (fun e' he' => hpos e' (List.mem_cons_of_mem _ he')) (fun e' he' => hdelta e' (List.mem_cons_of_mem _ he'))
        htime' (.inr (by omega)) (by omega) (by omega) hmore hlast'
      refine ⟨prev.count + n, by rw [hn, Nat.add_assoc], ?_⟩
      have hcons := hbegun'.cons (e := prev)
      rwa [show prev.value.toNat * prev.count + (ts.toNat - timeCount.toNat) = ts.toNat - start by omega] at hcons

end Times

/-! ## Both ways -/

section Lookup

variable {tr : Track} {n : Nat} {ts : UInt32}

/-- A table whose times can be looked up. -/
structure Timed (tbl : List (Entry UInt32)) : Prop where
  counts : Positive tbl
  deltas : ∀ e ∈ tbl, 0 < e.value
  total : totalTime tbl < 2 ^ 31

theorem Timed.lt {tbl : List (Entry UInt32)} (h : Timed tbl) (hn : n ≤ totalSamples tbl) :
    sampleTime tbl n < 2 ^ 31 :=
  (sampleTime_mono tbl hn).trans_lt h.total

theorem Timed.totalSamples_pos {tbl : List (Entry UInt32)} (h : Timed tbl) (hne : tbl ≠ []) :
    0 < totalSamples tbl := by
  obtain ⟨e, tbl, rfl⟩ := List.exists_cons_of_ne_nil hne
  have := h.counts e List.mem_cons_self
  rw [totalSamples_cons]
  omega

theorem toNat_decodeTimestamp (h : Timed tr.timeToSample) (hne : tr.timeToSample ≠ [])
    (hn : n ≤ totalSamples tr.timeToSample) : (tr.decodeTimestamp n).toNat = sampleTime tr.timeToSample n := by
  have hlt := h.lt hn
  rw [Track.decodeTimestamp, if_neg hne]
  split_ifs with hzero
  · rw [hzero]
    rfl
  · rw [timestampLoop_eq n tr.timeToSample 0 0 (by omega) (by simpa [totalSamples] using hn), UInt32.zero_add,
      Nat.sub_zero, toNat_sum _ (hlt.trans (by decide)), sampleTime]

theorem getSampleNumberFromTimestamp_eq (h : Timed tr.timeToSample) (hne : tr.timeToSample ≠ [])
    (hts : ts.toNat ≤ sampleTime tr.timeToSample (totalSamples tr.timeToSample - 1)) :
    ∃ n, tr.getSampleNumberFromTimestamp ts = some n ∧ LastBegun tr.timeToSample ts.toNat n := by
  have hpos := h.totalSamples_pos hne
  have htotal := h.total
  -- the run before the first has no samples
  have hbefore : totalTime (⟨0, 0⟩ :: tr.timeToSample) = totalTime tr.timeToSample := by
    simp [totalTime_cons]
  obtain ⟨n, hn, hbegun⟩ := @sampleNumberLoop_eq tr ts tr.timeToSample ⟨0, 0⟩ 0 0 0 h.counts h.deltas rfl (.inl rfl)
    (by rw [hbefore]; omega) (Nat.zero_le _) (by simpa [totalSamples_cons] using hpos)
    (by simpa [totalSamples, expand, sampleTime] using hts)
  refine ⟨n, ?_, ?_⟩
  · rw [Track.getSampleNumberFromTimestamp, if_neg hne]
    simpa using hn
  · obtain ⟨hlt, hle, hnext⟩ := hbegun
    exact ⟨by simpa [totalSamples, expand] using hlt, by simpa [sampleTime, expand] using hle,
      by simpa [sampleTime, expand] using hnext⟩

/-- The lookups of a table: the time of every sample, and of the end; for every time up to that of
the last sample the last one begun; and back from the time of a sample to the sample. -/
structure LooksUp (tr : Track) : Prop where
  time : ∀ n ≤ totalSamples tr.timeToSample, (tr.decodeTimestamp n).toNat = sampleTime tr.timeToSample n
  sample : ∀ ts : UInt32, 0 < totalSamples tr.timeToSample →
    ts.toNat ≤ sampleTime tr.timeToSample (totalSamples tr.timeToSample - 1) →
    ∃ n, tr.getSampleNumberFromTimestamp ts = some n ∧ sampleTime tr.timeToSample n ≤ ts.toNat ∧
      ∀ m, sampleTime tr.timeToSample m ≤ ts.toNat → m ≤ n
  back : ∀ n < totalSamples tr.timeToSample, tr.getSampleNumberFromTimestamp (tr.decodeTimestamp n) = some n

/-- **The two lookups** are right for every table with an entry, and inverse to one another. -/
theorem looksUp (tr : Track) (h : Timed tr.timeToSample) (hne : tr.timeToSample ≠ []) : LooksUp tr where
  time n hn := toNat_decodeTimestamp h hne hn
  sample ts _ hts := by
    obtain ⟨n, hn, hbegun⟩ := getSampleNumberFromTimestamp_eq h hne hts
    exact ⟨n, hn, hbegun.le, fun m hm => hbegun.largest hm⟩
  back n hn := by
    have htime := toNat_decodeTimestamp h hne hn.le
    have hlast := sampleTime_mono tr.timeToSample (show n ≤ totalSamples tr.timeToSample - 1 by omega)
    obtain ⟨m, hm, hbegun⟩ := getSampleNumberFromTimestamp_eq h hne (htime.le.trans hlast)
    have hnm := hbegun.largest htime.ge
    have hstep := hbegun.le
    rw [htime] at hstep
    have hmn : m ≤ n := by
      by_contra hlt
      have hmono := sampleTime_mono tr.timeToSample (show n + 1 ≤ m by omega)
      have hless := sampleTime_lt_succ h.deltas hn
      omega
    rw [hm, Nat.le_antisymm hmn hnm]

/-- A track with a table for its times and nothing else. -/
def timedTrack (tbl : List (Entry UInt32)) : Track where
  timeToSample := tbl
  compositionOffset := none
  sampleToChunk := []
  sampleSize := 0
  sampleSizes := []
  sampleCount := 0
  chunkOffsets := []
  syncSamples := none
  mediaType := .audio
  trackStartTSOffset := 0
  oPVContentDownloadable := false

/-- Runs of one sample among longer ones. -/
theorem looksUp_runs :
    (timedTrack [⟨2, 5⟩, ⟨1, 7⟩, ⟨1, 3⟩, ⟨3, 10⟩]).timeToSample ≠ [] ∧
      LooksUp (timedTrack [⟨2, 5⟩, ⟨1, 7⟩, ⟨1, 3⟩, ⟨3, 10⟩]) :=
  ⟨by decide, looksUp _ ⟨by decide, by decide, by decide⟩ (by decide)⟩

/-- A table without entries gives no time, not even that of its end. -/
theorem not_looksUp_nil : Timed (timedTrack []).timeToSample ∧ ¬LooksUp (timedTrack []) := by
  refine ⟨⟨by decide, by decide, by decide⟩, fun h => ?_⟩
  have hzero := h.time 0 (Nat.zero_le _)
  revert hzero
  decide

end Lookup

end Ftke.Mp4SampleTable
