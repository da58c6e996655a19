import Ftke.SampleToChunk.OnDemand
import Ftke.TimeToSample
import Mathlib.Data.Int.GCD
import Mathlib.Logic.Function.Iterate
import Mathlib.Logic.Relation

/-!
# Ftke.SampleToChunk.Termination

When the lookups in the sample-to-chunk table and in the decoding time table return.

* `lastRunEnds_iff` — the sums of the last run go through a residue class modulo 2 ^ 32;
* `parse_returns_iff`, `refill_returns_iff` — when entries are read from the file;
* `search_returns_iff` — when a search ends, over the vectors of either parsing mode;
* `lookups_return_iff` — all of them, and the lookups of the decoding time table, which always return.
-/

namespace Ftke.SampleToChunk

open TableWindow

/-! ## The last run -/

theorem exists_mul_mod_add_eq {m c p d : Nat} (hm : 0 < m) (hd : c + p.gcd m * d < m) :
    ∃ n, (c + (n + 1) * p) % m = c + p.gcd m * d := by
  obtain ⟨k, hk⟩ : ∃ k, p * k % m = p.gcd m % m := by
    by_cases hlt : p.gcd m < m
    · obtain ⟨k, -, hk⟩ := Nat.exists_mul_mod_eq_gcd hlt
      exact ⟨k, by rw [hk, Nat.mod_eq_of_lt hlt]⟩
    · have hgcd : p.gcd m = m := le_antisymm (Nat.le_of_dvd hm (Nat.gcd_dvd_right p m)) (Nat.not_lt.mp hlt)
      exact ⟨0, by simp [hgcd]⟩
  refine ⟨k * d + m - 1, ?_⟩
  have hturns : (k * d + m - 1 + 1) * p = p * k * d + m * p := by
    rw [Nat.sub_add_cancel (by omega)]
    ring
  have hmul : p * k * d % m = p.gcd m * d % m := by rw [Nat.mul_mod, hk, Nat.mod_mul_mod]; simp [Nat.mul_mod]
  rw [hturns, ← Nat.add_assoc, Nat.add_mul_mod_self_left, Nat.add_mod, hmul, ← Nat.add_mod, Nat.mod_eq_of_lt hd]

theorem mod_le_of_dvd {g m v : Nat} (hg : g ∣ m) (hv : v < m) : v ≤ m - g + v % g := by
  obtain ⟨q, rfl⟩ := hg
  have hdiv : v / g < q := Nat.div_lt_of_lt_mul hv
  have hle : g * (v / g) + g ≤ g * q := by
    rw [← Nat.mul_succ]
    exact Nat.mul_le_mul_left g hdiv
  have hsplit := Nat.div_add_mod v g
  omega

/-- **Sums with a fixed step** modulo `m` come above `s` exactly if the largest number of their class does. -/
theorem lt_add_mul_mod_iff {m c p s : Nat} (hc : c < m) :
    (∃ n, s < (c + (n + 1) * p) % m) ↔ s < m - p.gcd m + c % p.gcd m := by
  have hm : 0 < m := Nat.zero_lt_of_lt hc
  constructor
  · rintro ⟨n, hn⟩
    have hle := mod_le_of_dvd (Nat.gcd_dvd_right p m) (Nat.mod_lt (c + (n + 1) * p) hm)
    obtain ⟨r, hr⟩ : p.gcd m ∣ (n + 1) * p := (Nat.gcd_dvd_left p m).mul_left (n + 1)
    rw [Nat.mod_mod_of_dvd _ (Nat.gcd_dvd_right p m), hr, Nat.add_mul_mod_self_left, ← hr] at hle
    omega
  · intro hs
    have hgcd : 0 < p.gcd m := Nat.gcd_pos_of_pos_right p hm
    obtain ⟨q, hq⟩ := Nat.gcd_dvd_right p m
    have hdiv : c / p.gcd m < q := Nat.div_lt_of_lt_mul (by omega)
    have hsplit := Nat.div_add_mod c (p.gcd m)
    have hmod := Nat.mod_lt c hgcd
    have htop : p.gcd m * (c / p.gcd m) + p.gcd m * (q - 1 - c / p.gcd m) + p.gcd m = m := by
      conv_rhs => rw [hq]
      rw [← Nat.mul_add, ← Nat.mul_succ]
      congr 1
      omega
    obtain ⟨n, hn⟩ := exists_mul_mod_add_eq (c := c) (p := p) (d := q - 1 - c / p.gcd m) hm (by omega)
    exact ⟨n, by omega⟩

/-- The search of the last run ends. -/
def LastRunEnds (sampleNum samplesPerChunk sampleCount : UInt32) : Prop :=
  sampleNum.toNat <
    2 ^ 32 - samplesPerChunk.toNat.gcd (2 ^ 32) + sampleCount.toNat % samplesPerChunk.toNat.gcd (2 ^ 32)

theorem toNat_add_mod (a b : UInt32) : (a + b).toNat = (a.toNat + b.toNat) % 2 ^ 32 := UInt32.toNat_add a b

theorem findInLastRun_isSome (sampleNum samplesPerChunk : UInt32) : ∀ {fuel : Nat} {k sampleCount : UInt32},
    (findInLastRun sampleNum samplesPerChunk fuel k sampleCount).isSome ↔
      ∃ n < fuel, sampleNum.toNat < (sampleCount.toNat + (n + 1) * samplesPerChunk.toNat) % 2 ^ 32
  | 0, _, _ => by simp [findInLastRun]
  | fuel + 1, k, sampleCount => by
    rw [findInLastRun]
    split
    case isTrue hlt =>
      rw [UInt32.lt_iff_toNat_lt, toNat_add_mod] at hlt
      simp only [Option.isSome_some, true_iff]
      exact ⟨0, Nat.succ_pos fuel, by simpa using hlt⟩
    case isFalse hge =>
      rw [UInt32.lt_iff_toNat_lt, toNat_add_mod] at hge
      rw [findInLastRun_isSome sampleNum samplesPerChunk, toNat_add_mod]
      have hshift : ∀ n, ((sampleCount.toNat + samplesPerChunk.toNat) % 2 ^ 32 + (n + 1) * samplesPerChunk.toNat) %
          2 ^ 32 = (sampleCount.toNat + (n + 1 + 1) * samplesPerChunk.toNat) % 2 ^ 32 := by
        intro n
        rw [Nat.mod_add_mod, Nat.add_assoc]
        ring_nf
      constructor
      · rintro ⟨n, hn, hlt⟩
        exact ⟨n + 1, by omega, by rw [← hshift]; exact hlt⟩
      · rintro ⟨n, hn, hlt⟩
        cases n with
        | zero => exact absurd (by simpa using hlt) hge
        | succ n => exact ⟨n, by omega, by rw [hshift]; exact hlt⟩

/-- **When the search of the last run ends.** -/
theorem lastRunEnds_iff {sampleNum samplesPerChunk sampleCount : UInt32} {k : UInt32} :
    (∃ fuel, (findInLastRun sampleNum samplesPerChunk fuel k sampleCount).isSome) ↔
      LastRunEnds sampleNum samplesPerChunk sampleCount := by
  rw [LastRunEnds, ← lt_add_mul_mod_iff sampleCount.toNat_lt]
  constructor
  · rintro ⟨fuel, hfuel⟩
    obtain ⟨n, -, hn⟩ := (findInLastRun_isSome _ _).mp hfuel
    exact ⟨n, hn⟩
  · rintro ⟨n, hn⟩
    exact ⟨n + 1, (findInLastRun_isSome _ _).mpr ⟨n, Nat.lt_succ_self n, hn⟩⟩

theorem lastRunEnds_of_lt {sampleNum samplesPerChunk sampleCount : UInt32} (h : sampleNum < sampleCount) :
    LastRunEnds sampleNum samplesPerChunk sampleCount := by
  have hle := mod_le_of_dvd (Nat.gcd_dvd_right samplesPerChunk.toNat (2 ^ 32)) sampleCount.toNat_lt
  exact lt_of_lt_of_le (UInt32.lt_iff_toNat_lt.mp h) hle

/-! ## One run -/

/-- What a search makes of a run that is not the last: where the sample is, or the samples before the
next run. -/
def inRun (sampleNum : UInt32) (i : Nat) (e e' : Entry) (sampleCount : UInt32) : Found ⊕ UInt32 :=
  let numChunksInRun := e'.firstChunk - e.firstChunk
  let count := sampleCount + e.samplesPerChunk * numChunksInRun
  if count < sampleNum then .inr count
  else
    (findInRun sampleNum e.samplesPerChunk (turns numChunksInRun) 0 sampleCount).map
      (fun found => ⟨i, e, e.firstChunk + found.1, found.2, numChunksInRun - found.1, numChunksInRun⟩) id

/-- The sample is in the run, and the search sees it there. -/
def Reaches (sampleNum : UInt32) (e e' : Entry) (sampleCount : UInt32) : Prop :=
  sampleNum ≤ sampleCount + e.samplesPerChunk * (e'.firstChunk - e.firstChunk) ∧
    ∃ n < turns (e'.firstChunk - e.firstChunk),
      sampleNum.toNat < (sampleCount.toNat + (n + 1) * e.samplesPerChunk.toNat) % 2 ^ 32

/-- The samples before the next run; the chunks of a run from 2 ^ 31 on may not be counted. -/
def samplesBefore (sampleNum : UInt32) (e e' : Entry) (sampleCount : UInt32) : UInt32 :=
  let numChunksInRun := e'.firstChunk - e.firstChunk
  let count := sampleCount + e.samplesPerChunk * numChunksInRun
  if count < sampleNum then count
  else sampleCount + e.samplesPerChunk * UInt32.ofNat (turns numChunksInRun)

theorem findInRun_of_reached (sampleNum samplesPerChunk : UInt32) : ∀ {n : Nat} {j sampleCount : UInt32},
    (∃ k < n, sampleNum.toNat < (sampleCount.toNat + (k + 1) * samplesPerChunk.toNat) % 2 ^ 32) →
      ∃ found, findInRun sampleNum samplesPerChunk n j sampleCount = .inl found
  | 0, _, _, h => by simp at h
  | n + 1, j, sampleCount, ⟨k, hk, hlt⟩ => by
    rw [findInRun]
    split
    · exact ⟨_, rfl⟩
    case isFalse hge =>
      rw [UInt32.lt_iff_toNat_lt, toNat_add_mod] at hge
      cases k with
      | zero => exact absurd (by simpa using hlt) hge
      | succ k =>
        refine findInRun_of_reached sampleNum samplesPerChunk ⟨k, by omega, ?_⟩
        rw [toNat_add_mod, Nat.mod_add_mod, Nat.add_assoc]
        convert hlt using 3
        ring

theorem findInRun_of_not_reached (sampleNum samplesPerChunk : UInt32) : ∀ {n : Nat} {j sampleCount : UInt32},
    ¬(∃ k < n, sampleNum.toNat < (sampleCount.toNat + (k + 1) * samplesPerChunk.toNat) % 2 ^ 32) →
      findInRun sampleNum samplesPerChunk n j sampleCount = .inr (sampleCount + samplesPerChunk * UInt32.ofNat n)
  | 0, _, _, _ => by simp [findInRun]
  | n + 1, j, sampleCount, h => by
    have hge : ¬sampleNum < sampleCount + samplesPerChunk := fun hlt =>
      h ⟨0, by omega, by rw [UInt32.lt_iff_toNat_lt, toNat_add_mod] at hlt; simpa using hlt⟩
    rw [findInRun, if_neg hge, findInRun_of_not_reached sampleNum samplesPerChunk]
    · rw [UInt32.ofNat_add, UInt32.mul_add]
      simp [UInt32.add_assoc, UInt32.add_comm samplesPerChunk]
    · rintro ⟨k, hk, hlt⟩
      refine h ⟨k + 1, by omega, ?_⟩
      rw [toNat_add_mod, Nat.mod_add_mod, Nat.add_assoc] at hlt
      convert hlt using 3
      ring

theorem inRun_of_reaches {sampleNum sampleCount : UInt32} {e e' : Entry} (i : Nat)
    (h : Reaches sampleNum e e' sampleCount) : ∃ found, inRun sampleNum i e e' sampleCount = .inl found := by
  obtain ⟨found, hfound⟩ := findInRun_of_reached sampleNum e.samplesPerChunk (j := 0) h.2
  simp only [inRun, UInt32.not_lt.mpr h.1, if_false, hfound, Sum.map_inl]
  exact ⟨_, rfl⟩

theorem inRun_of_not_reaches {sampleNum sampleCount : UInt32} {e e' : Entry} (i : Nat)
    (h : ¬Reaches sampleNum e e' sampleCount) :
    inRun sampleNum i e e' sampleCount = .inr (samplesBefore sampleNum e e' sampleCount) := by
  simp only [inRun, samplesBefore]
  split
  · rfl
  case isFalse hle =>
    rw [findInRun_of_not_reached _ _ fun hreached => h ⟨UInt32.not_lt.mp hle, hreached⟩]
    rfl

/-! ## Reading from the file -/

section

variable {size count last sampleCnt i : Nat} [NeZero size] {file : List Entry} {hlast : last ≤ count}

/-- A turn of the loop of `ParseEntryUnit`, which ends at entry `last` and at the end of the file. -/
def turn (file : List Entry) (hlast : last ≤ count) (x : UInt32 × Window Entry size count) :
    UInt32 × Window Entry size count :=
  if h : x.2.parsedEntryCnt < last then
    match file[(x.2.goTo (h.trans_le hlast)).filePos]? with
    | none => x
    | some e =>
      if e.firstChunk > x.1 then
        (e.firstChunk,
          (x.2.goTo (h.trans_le hlast)).store (e.from (if x.2.parsedEntryCnt = 0 then e.firstChunk else 1)))
      else (x.1, skip (x.2.goTo (h.trans_le hlast)))
  else x

/-- At the start of a block an entry is left out: the next turn goes back to it. -/
def Stalled (file : List Entry) (hlast : last ≤ count) (x : UInt32 × Window Entry size count) : Prop :=
  ∃ h : x.2.parsedEntryCnt < last, x.2.parsedEntryCnt % size = 0 ∧
    ∃ e, file[(x.2.goTo (h.trans_le hlast)).filePos]? = some e ∧ e.firstChunk ≤ x.1

omit [NeZero size] in
theorem goTo_goTo (w : Window Entry size count) (h : w.parsedEntryCnt < count) (pos : Nat) :
    ({ w.goTo h with filePos := pos } : Window Entry size count).goTo h =
      { w.goTo h with filePos := if w.parsedEntryCnt % size = 0 then (w.goTo h).filePos else pos } := by
  have hne : w.parsedEntryCnt / size ≠
      if w.parsedEntryCnt / size = w.nextBuffNumber then w.nextBuffNumber + 1 else w.nextBuffNumber := by
    split <;> omega
  simp only [Window.goTo, hne, if_false]
  congr 1
  split <;> rfl

omit [NeZero size] in
theorem goTo_skip_filePos {w : Window Entry size count} (h : w.parsedEntryCnt < count)
    (hstart : w.parsedEntryCnt % size = 0) : ((skip (w.goTo h)).goTo h).filePos = (w.goTo h).filePos :=
  (congrArg Window.filePos (goTo_goTo w h _)).trans (if_pos hstart)

theorem parse_succ (file : List Entry) (hlast : last ≤ count) (fuel : Nat)
    (x : UInt32 × Window Entry size count) :
    (∃ w, parse file hlast (fuel + 1) x.1 x.2 = some w ∧ turn file hlast x = x ∧ ¬Stalled file hlast x ∧
        w.parsedEntryCnt = x.2.parsedEntryCnt) ∨
      parse file hlast (fuel + 1) x.1 x.2 = parse file hlast fuel (turn file hlast x).1 (turn file hlast x).2 := by
  by_cases hlt : x.2.parsedEntryCnt < last
  · rw [parse, turn, dif_pos hlt, dif_pos hlt]
    cases he : file[(x.2.goTo (hlt.trans_le hlast)).filePos]? with
    | none =>
      refine Or.inl ⟨_, rfl, rfl, ?_, rfl⟩
      rintro ⟨_, -, e, he', -⟩
      rw [he] at he'
      contradiction
    | some e =>
      refine Or.inr ?_
      simp only
      split <;> rfl
  · refine Or.inl ⟨x.2, by rw [parse, dif_neg hlt], by rw [turn, dif_neg hlt], ?_, rfl⟩
    rintro ⟨h, -⟩
    exact hlt h

variable {x : UInt32 × Window Entry size count}

theorem turn_of_stalled (h : Stalled file hlast x) (fuel : Nat) :
    Stalled file hlast (turn file hlast x) ∧
      parse file hlast (fuel + 1) x.1 x.2 = parse file hlast fuel (turn file hlast x).1 (turn file hlast x).2 := by
  obtain ⟨hlt, hstart, e, he, hle⟩ := id h
  have hturn : turn file hlast x = (x.1, skip (x.2.goTo (hlt.trans_le hlast))) := by
    simp [turn, hlt, he, UInt32.not_lt.mpr hle]
  constructor
  · rw [hturn]
    exact ⟨hlt, hstart, e, by rw [← he]; exact congrArg (file[·]?) (goTo_skip_filePos _ hstart), hle⟩
  · rcases parse_succ file hlast fuel x with ⟨w, -, -, hnot, -⟩ | hnext
    · exact absurd h hnot
    · exact hnext

/-- **The loop never ends** once it has left out an entry at the start of a block. -/
theorem parse_of_stalled : ∀ {fuel : Nat} {x : UInt32 × Window Entry size count}, Stalled file hlast x →
    parse file hlast fuel x.1 x.2 = none
  | 0, _, _ => rfl
  | fuel + 1, _, h => by
    obtain ⟨hstalled, hnext⟩ := turn_of_stalled h fuel
    rw [hnext]
    exact parse_of_stalled hstalled

variable {fuel fuel' : Nat}

theorem not_stalled_of_parse {w : Window Entry size count}
    (h : parse file hlast fuel x.1 x.2 = some w) (k : Nat) : ¬Stalled file hlast ((turn file hlast)^[k] x) := by
  induction fuel generalizing x k with
  | zero => contradiction
  | succ fuel ih =>
    rcases parse_succ file hlast fuel x with ⟨_, -, hstop, hnot, -⟩ | hnext
    · rwa [Function.iterate_fixed hstop]
    · cases k with
      | zero =>
        intro hstalled
        have hnone : parse file hlast (fuel + 1) x.1 x.2 = none := parse_of_stalled hstalled
        rw [hnone] at h
        contradiction
      | succ k => exact ih (hnext ▸ h) k

theorem parse_ends : ∀ (x : UInt32 × Window Entry size count), (∀ k, ¬Stalled file hlast ((turn file hlast)^[k] x)) →
    ∃ fuel, (parse file hlast fuel x.1 x.2).isSome := by
  intro x
  induction hn : (last - x.2.parsedEntryCnt) * (file.length + 1) + (file.length - x.2.filePos)
    using Nat.strong_induction_on generalizing x with
  | _ n ih =>
    intro hk
    by_cases hlt : x.2.parsedEntryCnt < last
    · cases he : file[(x.2.goTo (hlt.trans_le hlast)).filePos]? with
      | none => exact ⟨1, by simp [parse, hlt, he]⟩
      | some e =>
        have hpos := (List.getElem?_eq_some_iff.mp he).1
        have hmeasure : (last - (turn file hlast x).2.parsedEntryCnt) * (file.length + 1) +
            (file.length - (turn file hlast x).2.filePos) < n := by
          rw [turn, dif_pos hlt, he]
          simp only
          split
          · obtain ⟨d, hd⟩ : ∃ d, last - x.2.parsedEntryCnt = d + 1 := ⟨last - x.2.parsedEntryCnt - 1, by omega⟩
            have hd' : last - (x.2.parsedEntryCnt + 1) = d := by omega
            simp only [Window.goTo_parsedEntryCnt, hd', Window.store]
            rw [← hn, hd, Nat.succ_mul]
            omega
          case isFalse hle =>
            have hmid : x.2.parsedEntryCnt % size ≠ 0 := fun hstart =>
              hk 0 ⟨hlt, hstart, e, he, UInt32.not_lt.mp hle⟩
            have hsame : (x.2.goTo (hlt.trans_le hlast)).filePos = x.2.filePos := by
              simp only [Window.goTo, hmid, if_false]
            rw [hsame] at hpos
            simp only [skip, Window.goTo_parsedEntryCnt, hsame]
            omega
        obtain ⟨fuel, hfuel⟩ := ih _ hmeasure _ rfl fun k => hk (k + 1)
        refine ⟨fuel + 1, ?_⟩
        rcases parse_succ file hlast fuel x with ⟨w, hw, -⟩ | hnext
        · rw [hw, Option.isSome_some]
        · rwa [hnext]
    · exact ⟨1, by simp [parse, hlt]⟩

/-- **When the loop of `ParseEntryUnit` ends.** -/
theorem parse_returns_iff (x : UInt32 × Window Entry size count) :
    (∃ fuel, (parse file hlast fuel x.1 x.2).isSome) ↔ ∀ k, ¬Stalled file hlast ((turn file hlast)^[k] x) := by
  constructor
  · rintro ⟨fuel, hfuel⟩
    obtain ⟨w, hw⟩ := Option.isSome_iff_exists.mp hfuel
    exact not_stalled_of_parse hw
  · exact parse_ends x

/-! ## Slices -/

/-- The entry up to which `ParseEntryUnit(sample_cnt)` reads. -/
def upTo (count sampleCnt : Nat) : Nat := min ((sampleCnt + threshold) % 2 ^ 32) count

theorem upTo_le (count sampleCnt : Nat) : upTo count sampleCnt ≤ count := Nat.min_le_right _ _

theorem parseEntryUnit_eq (fuel : Nat) (w : Window Entry size count) :
    parseEntryUnit file fuel w sampleCnt = parse file (upTo_le count sampleCnt) fuel 0 w := rfl

/-- The slice read for entry `sampleCnt` never comes to a stand. -/
def NeverStalls (file : List Entry) (sampleCnt : Nat) (w : Window Entry size count) : Prop :=
  ∀ k, ¬Stalled file (upTo_le count sampleCnt) ((turn file (upTo_le count sampleCnt))^[k] (0, w))

theorem parseEntryUnit_returns_iff {w : Window Entry size count} :
    (∃ fuel, (parseEntryUnit file fuel w sampleCnt).isSome) ↔ NeverStalls file sampleCnt w := by
  simp only [parseEntryUnit_eq]
  exact parse_returns_iff (0, w)

/-- A slice up to entry `last` keeps an entry: the one at the start of its block, or one of those that
follow in the file. -/
def KeepsTo (file : List Entry) (hlast : last ≤ count) (w : Window Entry size count) : Prop :=
  ∃ h : w.parsedEntryCnt < last,
    if w.parsedEntryCnt % size = 0 then
      ∃ e, file[(w.goTo (Nat.lt_of_lt_of_le h hlast)).filePos]? = some e ∧ 0 < e.firstChunk
    else ∃ e ∈ file.drop w.filePos, 0 < e.firstChunk

/-- The slice read from where the window is keeps an entry. -/
def Keeps (file : List Entry) (w : Window Entry size count) : Prop := KeepsTo file (upTo_le count w.parsedEntryCnt) w

theorem parse_mono : ∀ {fuel : Nat} {x : UInt32 × Window Entry size count} {w : Window Entry size count},
    parse file hlast fuel x.1 x.2 = some w → x.2.parsedEntryCnt ≤ w.parsedEntryCnt
  | 0, _, _, h => by contradiction
  | fuel + 1, x, w, h => by
    rcases parse_succ file hlast fuel x with ⟨w', hw', -, -, hsame⟩ | hnext
    · rw [hw', Option.some.injEq] at h
      rw [← h, hsame]
    · have hle : x.2.parsedEntryCnt ≤ (turn file hlast x).2.parsedEntryCnt := by
        unfold turn
        split
        · split
          · exact le_rfl
          · split
            · exact Nat.le_succ _
            · exact le_rfl
        · exact le_rfl
      exact hle.trans (parse_mono (hnext ▸ h))

theorem parse_fuel_mono {w : Window Entry size count}
    (hle : fuel ≤ fuel') (h : parse file hlast fuel x.1 x.2 = some w) : parse file hlast fuel' x.1 x.2 = some w := by
  induction fuel generalizing x fuel' with
  | zero => contradiction
  | succ fuel ih =>
    obtain ⟨d, rfl⟩ : ∃ d, fuel' = d + 1 := ⟨fuel' - 1, by omega⟩
    by_cases hlt : x.2.parsedEntryCnt < last
    · rw [parse, dif_pos hlt] at h ⊢
      cases he : file[(x.2.goTo (hlt.trans_le hlast)).filePos]? with
      | none =>
        rw [he] at h
        exact h
      | some e =>
        rw [he] at h
        simp only at h ⊢
        split at h
        · rw [if_pos ‹_›]
          exact @ih (e.firstChunk, _) d (by omega) h
        · rw [if_neg ‹_›]
          exact @ih (x.1, skip _) d (by omega) h
    · rw [parse, dif_neg hlt] at h ⊢
      exact h

theorem parse_keeps : ∀ {fuel : Nat} {prev : UInt32} {w w' : Window Entry size count},
    parse file hlast fuel prev w = some w' → w.parsedEntryCnt < last → w.parsedEntryCnt % size ≠ 0 →
      (∃ e ∈ file.drop w.filePos, prev < e.firstChunk) → w.parsedEntryCnt < w'.parsedEntryCnt
  | 0, _, _, _, h, _, _, _ => by contradiction
  | fuel + 1, prev, w, w', h, hlt, hmid, ⟨e, hmem, hprev⟩ => by
    have hpos : (w.goTo (hlt.trans_le hlast)).filePos = w.filePos := by simp only [Window.goTo, hmid, if_false]
    have hlen : w.filePos < file.length := by
      have hne := List.ne_nil_of_mem hmem
      rw [ne_eq, List.drop_eq_nil_iff] at hne
      omega
    rw [parse, dif_pos hlt, hpos, List.getElem?_eq_getElem hlen] at h
    simp only at h
    split at h
    · exact Nat.lt_of_succ_le (parse_mono (x := (_, _)) h)
    case isFalse hge =>
      rw [List.drop_eq_getElem_cons hlen] at hmem
      have hrest : e ∈ file.drop (w.filePos + 1) := by
        rcases List.mem_cons.mp hmem with rfl | hrest
        · exact absurd hprev hge
        · exact hrest
      have hskip : (skip (w.goTo (hlt.trans_le hlast))).filePos = w.filePos + 1 := congrArg (· + 1) hpos
      have hlater := parse_keeps h hlt hmid ⟨e, by rwa [hskip], hprev⟩
      exact hlater

/-- Inside a block the loop goes on to the end of the file when there is nothing to keep. -/
theorem parse_keeps_nothing : ∀ {fuel : Nat} {prev : UInt32} {w w' : Window Entry size count},
    parse file hlast fuel prev w = some w' → w.parsedEntryCnt < last → w.parsedEntryCnt % size ≠ 0 →
      (∀ e ∈ file.drop w.filePos, ¬prev < e.firstChunk) →
        w'.parsedEntryCnt = w.parsedEntryCnt ∧ file.length ≤ w'.filePos
  | 0, _, _, _, h, _, _, _ => by contradiction
  | fuel + 1, prev, w, w', h, hlt, hmid, hnone => by
    have hpos : (w.goTo (hlt.trans_le hlast)).filePos = w.filePos := by simp only [Window.goTo, hmid, if_false]
    rw [parse, dif_pos hlt, hpos] at h
    by_cases hlen : w.filePos < file.length
    · rw [List.drop_eq_getElem_cons hlen] at hnone
      rw [List.getElem?_eq_getElem hlen] at h
      simp only [hnone _ List.mem_cons_self, if_false] at h
      obtain ⟨hsame, hend⟩ := parse_keeps_nothing h hlt hmid (by
        simp only [skip, hpos]
        exact fun e he => hnone e (List.mem_cons_of_mem _ he))
      exact ⟨hsame, hend⟩
    · rw [List.getElem?_eq_none (Nat.not_lt.mp hlen), Option.some.injEq] at h
      rw [← h, hpos]
      exact ⟨rfl, Nat.not_lt.mp hlen⟩

theorem slice_cases_start {w w' : Window Entry size count} (hlt : w.parsedEntryCnt < last)
    (hstart : w.parsedEntryCnt % size = 0) (h : parse file hlast (fuel + 1) 0 w = some w') :
    (KeepsTo file hlast w ∧ w.parsedEntryCnt < w'.parsedEntryCnt) ∨
      (¬KeepsTo file hlast w ∧ ¬KeepsTo file hlast w' ∧ w'.parsedEntryCnt = w.parsedEntryCnt) := by
  cases he : file[(w.goTo (hlt.trans_le hlast)).filePos]? with
  | none =>
    rw [parse, dif_pos hlt, he, Option.some.injEq] at h
    have hnot : ¬KeepsTo file hlast w := by
      rintro ⟨_, hkeep⟩
      simp [hstart, he] at hkeep
    refine Or.inr ⟨hnot, ?_, by rw [← h, Window.goTo_parsedEntryCnt]⟩
    have hsame : (w'.goTo (h ▸ hlt.trans_le hlast)).filePos = (w.goTo (hlt.trans_le hlast)).filePos := by
      subst h
      exact (congrArg Window.filePos (goTo_goTo w _ _)).trans (if_pos hstart)
    rintro ⟨hlt', hkeep⟩
    rw [hsame, he] at hkeep
    subst h
    simp [hstart] at hkeep
  | some e =>
    by_cases hpos : 0 < e.firstChunk
    · refine Or.inl ⟨⟨hlt, by rw [if_pos hstart]; exact ⟨e, he, hpos⟩⟩, ?_⟩
      rw [parse, dif_pos hlt, he] at h
      simp only [gt_iff_lt, hpos, if_true] at h
      exact Nat.lt_of_succ_le (parse_mono (x := (_, _)) h)
    · have hstalled : Stalled file hlast (0, w) := ⟨hlt, hstart, e, he, UInt32.not_lt.mp hpos⟩
      have hnone : parse file hlast (fuel + 1) 0 w = none := parse_of_stalled hstalled
      rw [hnone] at h
      contradiction

/-- **A slice keeps an entry, or no slice after it does.** -/
theorem slice_cases {w w' : Window Entry size count} (h : parse file hlast fuel 0 w = some w') :
    (KeepsTo file hlast w ∧ w.parsedEntryCnt < w'.parsedEntryCnt) ∨
      (¬KeepsTo file hlast w ∧ ¬KeepsTo file hlast w' ∧ w'.parsedEntryCnt = w.parsedEntryCnt) := by
  obtain ⟨fuel, rfl⟩ : ∃ d, fuel = d + 1 := by
    cases fuel with
    | zero => contradiction
    | succ d => exact ⟨d, rfl⟩
  by_cases hlt : w.parsedEntryCnt < last
  · by_cases hstart : w.parsedEntryCnt % size = 0
    · exact slice_cases_start hlt hstart h
    · by_cases hkeep : ∃ e ∈ file.drop w.filePos, 0 < e.firstChunk
      · exact Or.inl ⟨⟨hlt, by rwa [if_neg hstart]⟩, parse_keeps h hlt hstart hkeep⟩
      · obtain ⟨hsame, hend⟩ := parse_keeps_nothing h hlt hstart fun e he hpos => hkeep ⟨e, he, hpos⟩
        refine Or.inr ⟨?_, ?_, hsame⟩
        · rintro ⟨_, h'⟩
          exact hkeep (by rwa [if_neg hstart] at h')
        · rintro ⟨_, h'⟩
          rw [hsame, if_neg hstart, List.drop_eq_nil_of_le hend] at h'
          simp at h'
  · rw [parse, dif_neg hlt, Option.some.injEq] at h
    subst h
    have hnot : ¬KeepsTo file hlast w := fun hkeep => hlt hkeep.1
    exact Or.inr ⟨hnot, hnot, rfl⟩

theorem keeps_cases {w w' : Window Entry size count}
    (h : parseEntryUnit file fuel w w.parsedEntryCnt = some w') :
    (Keeps file w ∧ w.parsedEntryCnt < w'.parsedEntryCnt) ∨
      (¬Keeps file w ∧ ¬Keeps file w' ∧ w'.parsedEntryCnt = w.parsedEntryCnt) := by
  rcases slice_cases h with hkeep | ⟨hnot, hnot', hsame⟩
  · exact Or.inl hkeep
  · have hsame' : ∀ p, p = w.parsedEntryCnt → ¬KeepsTo file (upTo_le count p) w' := by
      rintro _ rfl
      exact hnot'
    exact Or.inr ⟨hnot, hsame' _ hsame, hsame⟩

/-! ## Refilling the window -/

/-- A turn of the loop that fills the window again up to entry `i`. -/
def Slice (file : List Entry) (i : Nat) (w w' : Window Entry size count) : Prop :=
  w.parsedEntryCnt ≤ i ∧ ∃ fuel, parseEntryUnit file fuel w w.parsedEntryCnt = some w'

/-- Every slice that is read for entry `i` comes to an end, and keeps an entry. -/
def Refills (file : List Entry) (i : Nat) (w : Window Entry size count) : Prop :=
  ∀ w', Relation.ReflTransGen (Slice file i) w w' → w'.parsedEntryCnt ≤ i →
    NeverStalls file w'.parsedEntryCnt w' ∧ Keeps file w'

theorem Slice.unique {w w₁ w₂ : Window Entry size count} (h₁ : Slice file i w w₁) (h₂ : Slice file i w w₂) :
    w₁ = w₂ := by
  obtain ⟨-, fuel₁, h₁⟩ := h₁
  obtain ⟨-, fuel₂, h₂⟩ := h₂
  have h₁' := parse_fuel_mono (x := (0, w)) (Nat.le_max_left fuel₁ fuel₂) h₁
  have h₂' := parse_fuel_mono (x := (0, w)) (Nat.le_max_right fuel₁ fuel₂) h₂
  exact Option.some.inj (h₁'.symm.trans h₂')

theorem refill_fuel_mono (hle : fuel ≤ fuel') : ∀ {turns turns' : Nat}
    {w w' : Window Entry size count}, turns ≤ turns' → refill file fuel i turns w = some w' →
      refill file fuel' i turns' w = some w'
  | 0, _, _, _, _, h => by contradiction
  | turns + 1, 0, _, _, hturns, _ => by omega
  | turns + 1, turns' + 1, w, w', hturns, h => by
    rw [refill] at h ⊢
    split
    case isTrue hparsed =>
      rw [if_pos hparsed] at h
      obtain ⟨w₁, hw₁, hrest⟩ := Option.bind_eq_some_iff.mp h
      have hslice : parseEntryUnit file fuel' w w.parsedEntryCnt = some w₁ := parse_fuel_mono (x := (0, w)) hle hw₁
      rw [hslice, Option.bind_some]
      exact refill_fuel_mono hle (Nat.le_of_succ_le_succ hturns) hrest
    case isFalse hparsed => rwa [if_neg hparsed] at h

theorem refills_of_refill : ∀ {turns : Nat} {w : Window Entry size count},
    (refill file fuel i turns w).isSome → Refills file i w
  | 0, _, h => by contradiction
  | turns + 1, w, h => by
    rw [refill] at h
    intro w' hreach hle
    split at h
    case isTrue hparsed =>
      obtain ⟨r, hr⟩ := Option.isSome_iff_exists.mp h
      obtain ⟨w₁, hw₁, hrest⟩ := Option.bind_eq_some_iff.mp hr
      have hnext : Refills file i w₁ := refills_of_refill (Option.isSome_of_eq_some hrest)
      rcases hreach.cases_head with rfl | ⟨w₂, hslice, hreach⟩
      · refine ⟨parseEntryUnit_returns_iff.mp ⟨fuel, Option.isSome_of_eq_some hw₁⟩, ?_⟩
        rcases keeps_cases hw₁ with ⟨hkeep, -⟩ | ⟨-, hstuck, hsame⟩
        · exact hkeep
        · exact absurd (hnext w₁ .refl (by omega)).2 hstuck
      · rw [hslice.unique ⟨hparsed, fuel, hw₁⟩] at hreach
        exact hnext w' hreach hle
    case isFalse hparsed =>
      rcases hreach.cases_head with rfl | ⟨w₂, hslice, -⟩
      · exact absurd hle hparsed
      · exact absurd hslice.1 hparsed

theorem refill_of_refills {w : Window Entry size count} (h : Refills file i w) :
    ∃ fuel, (refill file fuel i fuel w).isSome := by
  induction hn : i + 1 - w.parsedEntryCnt using Nat.strong_induction_on generalizing w with
  | _ n ih =>
    by_cases hparsed : w.parsedEntryCnt ≤ i
    · obtain ⟨hnever, hkeep⟩ := h w .refl hparsed
      obtain ⟨fuel, hfuel⟩ := parseEntryUnit_returns_iff.mpr hnever
      obtain ⟨w₁, hw₁⟩ := Option.isSome_iff_exists.mp hfuel
      have hmore : w.parsedEntryCnt < w₁.parsedEntryCnt := by
        rcases keeps_cases hw₁ with ⟨-, hmore⟩ | ⟨hstuck, -⟩
        · exact hmore
        · exact absurd hkeep hstuck
      obtain ⟨fuel', hfuel'⟩ := ih _ (by omega) (fun w' hreach =>
        h w' (.head ⟨hparsed, fuel, hw₁⟩ hreach)) rfl
      obtain ⟨r, hr⟩ := Option.isSome_iff_exists.mp hfuel'
      refine ⟨max fuel fuel' + 1, ?_⟩
      have hslice : parseEntryUnit file (max fuel fuel' + 1) w w.parsedEntryCnt = some w₁ :=
        parse_fuel_mono (x := (0, w)) (by omega) hw₁
      have hrest : refill file (max fuel fuel' + 1) i (max fuel fuel') w₁ = some r :=
        refill_fuel_mono (by omega) (by omega) hr
      rw [refill, if_pos hparsed, hslice, Option.bind_some, hrest, Option.isSome_some]
    · exact ⟨1, by rw [refill, if_neg hparsed, Option.isSome_some]⟩

/-- **When the window is filled again.** -/
theorem refill_returns_iff {w : Window Entry size count} :
    (∃ fuel, (refill file fuel i fuel w).isSome) ↔ Refills file i w :=
  ⟨fun ⟨_, h⟩ => refills_of_refill h, refill_of_refills⟩

/-- `CheckAndParseEntry(i)` comes to an end. -/
def Checks (file : List Entry) (i : Nat) (w : Window Entry size count) : Prop :=
  if w.parsedEntryCnt ≤ i then NeverStalls file i w
  else w.currBuffNumber ≠ i / size → Refills file i { w with parsedEntryCnt := i / size * size }

theorem checkAndParseEntry_returns_iff {w : Window Entry size count} :
    (∃ fuel, (checkAndParseEntry file fuel i w).isSome) ↔ Checks file i w := by
  simp only [checkAndParseEntry, Checks]
  split
  · exact parseEntryUnit_returns_iff
  · by_cases hblock : w.currBuffNumber ≠ i / size
    · simp only [hblock, ne_eq, not_false_eq_true, if_true, forall_const]
      exact refill_returns_iff
    · simp only [hblock, if_false, Option.isSome_some, exists_const, false_imp_iff]

end

/-! ## The searches in either parsing mode -/

/-- What `resetStateVariables` makes of what it has found. -/
def Cursor.afterReset (count : Nat) (c : Cursor) : Option Found → Bool × Cursor
  | none => (false, c.start)
  | some found =>
    (true,
      { majorGetIndex := if found.run + 1 < count then found.run + 1 else found.run
        currGetChunk := found.chunk
        numGetChunksInRun := found.chunksLeft.toInt32
        currGetSampleCount := found.firstSample + found.entry.samplesPerChunk
        firstGetSampleInCurrChunk := found.firstSample
        numGetSamplesPerChunk := found.entry.samplesPerChunk
        currGetSDI := found.entry.sampleDescriptionIndex
        numChunksInRun := found.chunksInRun })

/-- The vectors: none for a table without entries, or with all entries or those of a window. -/
inductive Vectors : (count : Nat) → Type where
  | null : Vectors 0
  | whole {count : Nat} (entries : Vector Entry count) : Vectors count
  | window {count : Nat} (w : Window Entry maxCachedTableEntries count) : Vectors count

namespace Vectors

variable {count : Nat}

/-- `CheckAndParseEntry(i)` where the parsing mode is 1. -/
def check (file : List Entry) (turns i : Nat) : Vectors count → Option (Vectors count)
  | .null => some .null
  | .whole entries => some (.whole entries)
  | .window w => (checkAndParseEntry file turns i w).map .window

/-- The slot of entry `i`. -/
def slot (i : Nat) (h : i < count) : Vectors count → Entry
  | .null => absurd h (Nat.not_lt_zero i)
  | .whole entries => entries[i]
  | .window w => w.slot i

/-- What `getSamplesPerChunkCorrespondingToSample` returns when there is nothing to find. -/
def notFound : Vectors count → UInt32
  | .null => pvError
  | _ => 0

/-- What a turn of a search reads: entry `i` and the one after it. `resetStateVariables` checks the
entry `ahead`, and not entry `i`. -/
def read (ahead : Bool) (file : List Entry) (turns i : Nat) (h : i < count) (v : Vectors count) :
    Option ((Entry × Option Entry) × Vectors count) :=
  if ahead then
    (v.check file turns (i + 1)).map fun v =>
      ((v.slot i h, if h' : i + 1 < count then some (v.slot (i + 1) h') else none), v)
  else
    (v.check file turns i).bind fun v =>
      if h' : i + 1 < count then
        (v.check file turns (i + 1)).map fun v' => ((v.slot i h, some (v'.slot (i + 1) h')), v')
      else some ((v.slot i h, none), v)

variable (ahead guarded : Bool) (file : List Entry) (turns : Nat) (sampleNum : UInt32)

/-- The search for a sample from run `i` on; its loop over the last run takes `fuel`. -/
def search (fuel i : Nat) (sampleCount : UInt32) (v : Vectors count) : Option (Option Found × Vectors count) :=
  if h : i < count then
    (v.read ahead file turns i h).bind fun r =>
      match r.1.2 with
      | none =>
        if guarded ∧ sampleNum < sampleCount then some (none, r.2)
        else
          (findInLastRun sampleNum r.1.1.samplesPerChunk fuel 0 sampleCount).map fun found =>
            (some ⟨i, r.1.1, r.1.1.firstChunk + found.1, found.2, 1, 1⟩, r.2)
      | some e' =>
        match inRun sampleNum i r.1.1 e' sampleCount with
        | .inl found => some (some found, r.2)
        | .inr sampleCount => search fuel (i + 1) sampleCount r.2
  else some (none, v)
termination_by count - i

/-- The search ends: every entry it needs is read, and a run has the sample. -/
def Ends (i : Nat) (sampleCount : UInt32) (v : Vectors count) : Prop :=
  if h : i < count then
    match v.read ahead file turns i h with
    | none => False
    | some ((e, none), _) => LastRunEnds sampleNum e.samplesPerChunk sampleCount
    | some ((e, some e'), v') =>
      Reaches sampleNum e e' sampleCount ∨ Ends (i + 1) (samplesBefore sampleNum e e' sampleCount) v'
  else True
termination_by count - i

/-- `getChunkNumberForSample`. -/
def getChunkNumberForSample (fuel : Nat) (v : Vectors count) : Option (UInt32 × Vectors count) :=
  (v.search false true file turns sampleNum fuel 0 0).map fun r => (r.1.elim pvError Found.chunk, r.2)

/-- `getSamplesPerChunkCorrespondingToSample`. -/
def getSamplesPerChunkCorrespondingToSample (fuel : Nat) (v : Vectors count) : Option (UInt32 × Vectors count) :=
  (v.search false false file turns sampleNum fuel 0 0).map fun r =>
    (r.1.elim v.notFound fun f => f.entry.samplesPerChunk, r.2)

/-- `resetStateVariables(sampleNum)`; `false` is `PV_ERROR`. -/
def resetStateVariables (fuel : Nat) (c : Cursor) (v : Vectors count) : Option ((Bool × Cursor) × Vectors count) :=
  (v.search true true file turns sampleNum fuel 0 0).map fun r => (Cursor.afterReset count c r.1, r.2)

variable {ahead guarded file turns sampleNum}

/-- **When a search ends.** -/
theorem search_returns_iff {i : Nat} {sampleCount : UInt32} {v : Vectors count} :
    (∃ fuel, (v.search ahead guarded file turns sampleNum fuel i sampleCount).isSome) ↔
      v.Ends ahead file turns sampleNum i sampleCount := by
  induction hn : count - i generalizing i sampleCount v with
  | zero =>
    have hge : ¬i < count := by omega
    simp [search, Ends, hge]
  | succ n ih =>
    have hlt : i < count := by omega
    unfold search Ends
    simp only [dif_pos hlt]
    match hread : v.read ahead file turns i hlt with
    | none => simp
    | some ((e, none), v') =>
      simp only [Option.bind_some]
      split
      case isTrue hguard => simp [lastRunEnds_of_lt hguard.2]
      case isFalse => simp only [Option.isSome_map, lastRunEnds_iff]
    | some ((e, some e'), v') =>
      simp only [Option.bind_some]
      by_cases hreach : Reaches sampleNum e e' sampleCount
      · obtain ⟨found, hfound⟩ := inRun_of_reaches i hreach
        simp [hfound, hreach]
      · simp only [inRun_of_not_reaches i hreach, hreach, false_or]
        exact ih (by omega)

theorem read_whole (ahead : Bool) (turns : Nat) {i : Nat} (h : i < count) (entries : Vector Entry count) :
    (whole entries).read ahead file turns i h =
      some ((entries[i], if h' : i + 1 < count then some entries[i + 1] else none), whole entries) := by
  simp only [read, check, slot, Option.map_some, Option.bind_some]
  split
  · rfl
  · split <;> rfl

end Vectors

end Ftke.SampleToChunk

/-! ## The decoding time table -/

namespace Ftke.Probe

theorem All.run_of_checks {α β σ : Type*} {store : Store σ α} {Inv : σ → Prop}
    (hcheck : ∀ i s, Inv s → ∃ s', store.check i s = some s' ∧ Inv s') {P : β → Prop} {p : Probe α β} (h : p.All P)
    {s : σ} (hs : Inv s) : ∃ b s', p.run store s = some (b, s') ∧ P b ∧ Inv s' := by
  induction p generalizing s with
  | done b => exact ⟨b, s, rfl, h, hs⟩
  | check i next ih =>
    obtain ⟨s₁, hfill, hs₁⟩ := hcheck i s hs
    obtain ⟨b, s', hrun, hb, hs'⟩ := ih h hs₁
    exact ⟨b, s', by rw [Probe.run, hfill, Option.bind_some, hrun], hb, hs'⟩
  | slot i next ih => exact ih (store.slot i s) (h (store.slot i s)) hs

end Ftke.Probe

namespace Ftke.TimeToSample

open TableWindow

theorem backtrack_isSome {ts delta : UInt32} : ∀ {n fuel : Nat} {sampleCount timeCount : UInt32}, n < fuel →
    ts < timeCount + delta * UInt32.ofNat n → (backtrack ts delta fuel sampleCount timeCount).isSome
  | _, 0, _, _, hfuel, _ => absurd hfuel (Nat.not_lt_zero _)
  | 0, fuel + 1, _, _, _, hlt => by
    rw [backtrack, if_neg (UInt32.not_le.mpr (by simpa using hlt)), Option.isSome_some]
  | n + 1, fuel + 1, sampleCount, timeCount, hfuel, hlt => by
    rw [backtrack]
    split
    · refine backtrack_isSome (Nat.lt_of_succ_lt_succ hfuel) ?_
      rw [UInt32.ofNat_add, UInt32.mul_add] at hlt
      convert hlt using 1
      simp [UInt32.add_assoc, UInt32.add_comm delta]
    · rfl

/-- **The search ends, whatever the slots hold.** -/
theorem sampleNumberLoop_all (count : Nat) (ts : UInt32) (always visual : Bool) {fuel : Nat}
    (hfuel : 2 ^ 32 ≤ fuel) : ∀ {left i : Nat} {sampleCount timeCount : UInt32},
      (sampleNumberLoop count ts always visual fuel left i sampleCount timeCount).All (·.isSome)
  | 0, _, _, _ => fun _ => rfl
  | left + 1, i, sampleCount, timeCount => by
    rw [sampleNumberLoop]
    simp only [Probe.All]
    split
    case isTrue hlt =>
      intro e
      refine backtrack_isSome (e.sampleCount.toNat_lt.trans_le hfuel) ?_
      simpa using hlt
    case isFalse =>
      split
      · rfl
      · exact fun e => sampleNumberLoop_all count ts always visual hfuel

theorem getSampleNumberFromTimestamp_all (count : Nat) (ts : UInt32) (always visual : Bool) {fuel : Nat}
    (hfuel : 2 ^ 32 ≤ fuel) : (getSampleNumberFromTimestamp count ts always visual fuel).All (·.isSome) := by
  unfold getSampleNumberFromTimestamp
  split
  · rfl
  · exact sampleNumberLoop_all count ts always visual hfuel

/-- The look-ahead of `ParseEntryUnit`. -/
def threshold : Nat := 1024

/-- What can be read of a table from its head on. Places in a file are 32-bit numbers. -/
structure Readable where
  entries : List Entry
  fits : 8 * entries.length < 2 ^ 32

/-- The vectors after any reading: a window holds what was read of the file. -/
def Sound (f : Readable) : Table Entry count → Prop
  | .whole _ => True
  | .window w => ∃ base, w.Holds f.entries base

theorem refill_isSome (f : Readable) {base i : Nat} (hlen : i < f.entries.length) (hi : i < count) : ∀ {fuel : Nat}
    {w : Window Entry maxCachedTableEntries count}, w.Holds f.entries base → i + 1 - w.parsedEntryCnt < fuel →
      ∃ w', w.refill f.entries threshold i fuel = some w' ∧ w'.Holds f.entries base
  | 0, _, _, hfuel => absurd hfuel (Nat.not_lt_zero _)
  | fuel + 1, w, h, hfuel => by
    rw [Window.refill]
    split
    case isTrue hle =>
      obtain ⟨hholds, hcnt⟩ := h.parseEntryUnit_mod threshold w.parsedEntryCnt
      have hfits := f.fits
      have hmod : (w.parsedEntryCnt + threshold) % 2 ^ 32 = w.parsedEntryCnt + threshold :=
        Nat.mod_eq_of_lt (by simp only [threshold]; omega)
      rw [hmod] at hcnt
      simp only [threshold] at hcnt
      exact refill_isSome f hlen hi hholds (by simp only [threshold]; omega)
    case isFalse => exact ⟨w, rfl, h⟩

/-- **`CheckAndParseEntry` ends**, also where the file ends inside the table. -/
theorem check_returns (f : Readable) {fuel : Nat} (hfuel : f.entries.length < fuel) (i : Nat)
    {tbl : Table Entry count} (h : Sound f tbl) :
    ∃ tbl', tbl.check f.entries threshold fuel i = some tbl' ∧ Sound f tbl' := by
  cases tbl with
  | whole entries => exact ⟨.whole entries, rfl, trivial⟩
  | window w =>
    obtain ⟨base, hw⟩ := h
    simp only [Table.check, Window.checkAndParseEntry]
    split
    case isTrue => exact ⟨_, rfl, base, (hw.parseEntryUnit_mod threshold i).1⟩
    case isFalse hlt =>
      split
      · have hparsed := hw.parsed_le
        have hlength := hw.parsed_le_length
        have hi : i < w.parsedEntryCnt := Nat.lt_of_not_le hlt
        obtain ⟨w', hw', hholds⟩ :=
          @refill_isSome _ f _ i (by omega) (by omega) fuel _ (hw.back hi) (by simp only; omega)
        exact ⟨.window w', by rw [hw']; rfl, _, hholds⟩
      · exact ⟨_, rfl, base, hw⟩

/-- **`getSampleNumberFromTimestamp` returns.** -/
theorem getSampleNumberFromTimestamp_returns (f : Readable) (ts : UInt32) (always visual : Bool) {fuel : Nat}
    (hfuel : 2 ^ 32 ≤ fuel) {tbl : Table Entry count} (h : Sound f tbl) :
    ∃ r tbl', (getSampleNumberFromTimestamp count ts always visual fuel).run
      (Table.store f.entries threshold fuel) tbl = some (some r, tbl') ∧ Sound f tbl' := by
  have hfits := f.fits
  have hcheck : ∀ i (tbl : Table Entry count), Sound f tbl →
      ∃ tbl', (Table.store f.entries threshold fuel).check i tbl = some tbl' ∧ Sound f tbl' := fun i _ hs =>
    check_returns f (by omega) i hs
  obtain ⟨r, tbl', hrun, hsome, hsound⟩ :=
    (getSampleNumberFromTimestamp_all count ts always visual hfuel).run_of_checks hcheck h
  obtain ⟨r, rfl⟩ := Option.isSome_iff_exists.mp hsome
  exact ⟨r, tbl', hrun, hsound⟩

end Ftke.TimeToSample

/-! ## The lookups -/

namespace Ftke.SampleToChunk

open TableWindow Vectors

/-- **The lookups return** exactly under these conditions: a search of the sample-to-chunk table when
every entry it needs is read and a run has the sample, and a check of it when no slice stalls and the
window can be filled again; those of the decoding time table always. -/
theorem lookups_return_iff {count : Nat} (file : List Entry) (sampleNum : UInt32) (c : Cursor) (v : Vectors count)
    (i : Nat) (w : Window Entry maxCachedTableEntries count) (f : TimeToSample.Readable) {runs : Nat}
    (tbl : { tbl : Table TimeToSample.Entry runs // TimeToSample.Sound f tbl }) (ts : UInt32)
    (always visual : Bool) :
    ((∃ turns fuel, (v.getChunkNumberForSample file turns sampleNum fuel).isSome) ↔
      ∃ turns, v.Ends false file turns sampleNum 0 0) ∧
    ((∃ turns fuel, (v.getSamplesPerChunkCorrespondingToSample file turns sampleNum fuel).isSome) ↔
      ∃ turns, v.Ends false file turns sampleNum 0 0) ∧
    ((∃ turns fuel, (v.resetStateVariables file turns sampleNum fuel c).isSome) ↔
      ∃ turns, v.Ends true file turns sampleNum 0 0) ∧
    ((∃ fuel, (checkAndParseEntry file fuel i w).isSome) ↔ Checks file i w) ∧
    (∀ fuel ≥ 2 ^ 32, ∃ r tbl', (TimeToSample.getSampleNumberFromTimestamp runs ts always visual fuel).run
      (Table.store f.entries TimeToSample.threshold fuel) tbl.1 = some (some r, tbl') ∧ TimeToSample.Sound f tbl') ∧
    ∀ fuel > f.entries.length, ∃ tbl', tbl.1.check f.entries TimeToSample.threshold fuel i = some tbl' ∧
      TimeToSample.Sound f tbl' := by
  refine ⟨?_, ?_, ?_, checkAndParseEntry_returns_iff, ?_, ?_⟩
  · simp only [Vectors.getChunkNumberForSample, Option.isSome_map, search_returns_iff]
  · simp only [Vectors.getSamplesPerChunkCorrespondingToSample, Option.isSome_map, search_returns_iff]
  · simp only [Vectors.resetStateVariables, Option.isSome_map, search_returns_iff]
  · exact fun fuel hfuel => TimeToSample.getSampleNumberFromTimestamp_returns f ts always visual hfuel tbl.2
  · exact fun fuel hfuel => TimeToSample.check_returns f hfuel i tbl.2

/-- **Lookups that never return**: a table with no samples in its chunks, and a file whose first entry
is for chunk 0. -/
theorem lookups_diverge :
    (∀ turns fuel, (Vectors.whole #v[⟨0, 0, 1⟩]).getChunkNumberForSample [] turns 0 fuel = none) ∧
      ∀ fuel, checkAndParseEntry [⟨0, 1, 1⟩] fuel 0
        (Window.new (Vector.replicate (4097 / maxCachedTableEntries + 1) 0) (Vector.replicate _ default) :
          Window Entry maxCachedTableEntries 4097) = none := by
  constructor
  · intro turns fuel
    have hnot : ¬(Vectors.whole #v[⟨0, 0, 1⟩]).Ends false [] turns 0 0 0 := by
      rw [Ends, dif_pos (by decide), read_whole]
      simp [LastRunEnds]
    have hnone : ¬((Vectors.whole #v[⟨0, 0, 1⟩]).search false true [] turns 0 fuel 0 0).isSome := fun h =>
      hnot (search_returns_iff.mp ⟨fuel, h⟩)
    rw [Vectors.getChunkNumberForSample, Option.not_isSome_iff_eq_none.mp hnone, Option.map_none]
  · intro fuel
    exact parse_of_stalled (x := (0, _)) ⟨by decide, rfl, ⟨0, 1, 1⟩, rfl, by decide⟩

end Ftke.SampleToChunk
