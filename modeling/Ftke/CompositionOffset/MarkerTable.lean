import Ftke.CompositionOffset
import Mathlib.Order.Monotone.Basic

/-!
# Ftke.CompositionOffset.MarkerTable

What the marker table holds while `Run` fills it, and what a search that starts from it finds.

A marker has the number of an entry and the samples up to and with that entry. The search is right
from every marker that has been set; from one that has not, it starts after the first entry with no
samples counted.
-/

namespace Ftke.CompositionOffset

open TimeToSample (Entry pvError)
open TableWindow

/-! ## The entry that contains a sample -/

/-- The samples of the first `n` entries. -/
def before (entries : Nat → Entry) : Nat → Nat
  | 0 => 0
  | n + 1 => before entries n + (entries n).sampleCount.toNat

/-- Entry `i` contains sample `num`. -/
def Contains (entries : Nat → Entry) (num i : Nat) : Prop := before entries i ≤ num ∧ num < before entries (i + 1)

/-- The first `n` entries have the samples of the track, counted in 32 bits. -/
structure Covers (entries : Nat → Entry) (count total n : Nat) : Prop where
  le_count : n ≤ count
  total_le : total ≤ before entries n
  lt : before entries n < 2 ^ 32

variable {entries : Nat → Entry} {count n i num : Nat} {total : UInt32}

theorem before_mono (entries : Nat → Entry) : Monotone (before entries) :=
  monotone_nat_of_le_succ fun _ => Nat.le_add_right _ _

theorem Contains.unique {i' : Nat} (h : Contains entries num i) (h' : Contains entries num i') : i = i' := by
  by_contra hne
  rcases Nat.lt_or_gt_of_ne hne with hlt | hlt
  · have hle := before_mono entries (show i + 1 ≤ i' from hlt)
    exact absurd (h.2.trans_le hle) (Nat.not_lt.mpr h'.1)
  · have hle := before_mono entries (show i' + 1 ≤ i from hlt)
    exact absurd (h'.2.trans_le hle) (Nat.not_lt.mpr h.1)

theorem Covers.mono {total' total : Nat} (h : Covers entries count total n) (hle : total' ≤ total) :
    Covers entries count total' n := ⟨h.le_count, hle.trans h.total_le, h.lt⟩

/-- Before the samples of the track are passed, the sum with the next entry is exact; `skipped` samples
have been left out of it. -/
theorem Covers.toNat_add {total skipped : Nat} (h : Covers entries count total n) {sum : UInt32}
    (hsum : sum.toNat + skipped = before entries i) (hlt : before entries i < total) :
    i < n ∧ (sum + (entries i).sampleCount).toNat + skipped = before entries (i + 1) := by
  have hi : i < n := by
    by_contra hge
    have hle := before_mono entries (Nat.not_lt.mp hge)
    have htotal := h.total_le
    omega
  have hle := before_mono entries (show i + 1 ≤ n from hi)
  have hn := h.lt
  refine ⟨hi, ?_⟩
  simp only [before] at hle ⊢
  rw [UInt32.toNat_add, Nat.mod_eq_of_lt (by omega)]
  omega

/-- The result is the offset of the entry that contains the sample. -/
def IsOffsetOf (entries : Nat → Entry) (count num : Nat) (offset : UInt32) : Prop :=
  ∃ i < count, Contains entries num i ∧ offset = (entries i).value

/-- The scan from entry `i` on, with `skipped` samples left out of the sum, finds the entry of the
sample that is so much later. -/
theorem offsetLoop_skipped {skipped : Nat} {num : UInt32} (h : Covers entries count (num.toNat + skipped + 1) n) :
    ∀ {left i : Nat} {sum : UInt32} {last : Option Nat}, i + left = count → sum.toNat + skipped = before entries i →
      before entries i ≤ num.toNat + skipped →
        (offsetLoop num left i sum).Yields entries (· < count) (IsOffsetOf entries count (num.toNat + skipped)) last
  | 0, i, _, _, hcount, _, hle => by
    have hlast := before_mono entries (show n ≤ i by have := h.le_count; omega)
    have htotal := h.total_le
    omega
  | left + 1, i, sum, _, hcount, hsum, hle => by
    obtain ⟨hi, hadd⟩ := h.toNat_add hsum (by omega)
    refine ⟨by omega, rfl, ?_⟩
    beta_reduce
    split
    case isTrue hfound =>
      rw [UInt32.lt_iff_toNat_lt] at hfound
      exact ⟨i, by omega, ⟨hle, by omega⟩, rfl⟩
    case isFalse hnot =>
      rw [UInt32.lt_iff_toNat_lt] at hnot
      exact offsetLoop_skipped h (by omega) hadd (by omega)

/-- **The linear scan from an entry on** finds the entry that contains the sample. -/
theorem offsetLoop_yields (h : Covers entries count total.toNat n) {num : UInt32} (hnum : num < total) {left : Nat}
    {sum : UInt32} {last : Option Nat} (hcount : i + left = count) (hsum : sum.toNat = before entries i)
    (hle : before entries i ≤ num.toNat) :
    (offsetLoop num left i sum).Yields entries (· < count) (IsOffsetOf entries count num.toNat) last :=
  @offsetLoop_skipped _ _ _ 0 num (h.mono hnum) _ _ _ _ hcount hsum hle

/-! ## The markers -/

/-- A marker that has been set; the first one is for the first entry. -/
structure Marker.Set (entries : Nat → Entry) (count k : Nat) (marker : Marker) : Prop where
  lt : marker.entryCount.toNat < count
  sampleCount : marker.sampleCount.toNat = before entries (marker.entryCount.toNat + 1)
  first : k = 0 → marker.entryCount = 0

theorem getTimeOffsetFromMT_yields (h : Covers entries count total.toNat n) {num : UInt32} (hnum : num < total)
    {marker : Marker} {k : Nat} (hset : marker.Set entries count k)
    (hback : num < marker.sampleCount → marker.entryCount = 0) :
    (getTimeOffsetFromMT count num marker.entryCount.toNat marker.sampleCount).Yields entries (· < count)
      (IsOffsetOf entries count num.toNat) none := by
  have hlt := hset.lt
  rw [getTimeOffsetFromMT, if_neg (by omega)]
  split
  case isTrue hsmall =>
    have hzero := hback hsmall
    rw [UInt32.lt_iff_toNat_lt, hset.sampleCount, hzero] at hsmall
    refine ⟨hlt, rfl, 0, by omega, ⟨Nat.zero_le _, hsmall⟩, by rw [hzero]; rfl⟩
  case isFalse hlarge =>
    rw [UInt32.lt_iff_toNat_lt, hset.sampleCount] at hlarge
    exact offsetLoop_yields h hnum (by omega) hset.sampleCount (by omega)

theorem walkBack_set {markers : List Marker} {num : UInt32} : ∀ {k : Nat},
    (∀ k' ≤ k, ∃ marker, markers[k']? = some marker ∧ marker.Set entries count k') →
      ∃ marker k', walkBack markers num k = some marker ∧ marker.Set entries count k' ∧
        (num < marker.sampleCount → marker.entryCount = 0)
  | 0, h => by
    obtain ⟨marker, hget, hset⟩ := h 0 le_rfl
    exact ⟨marker, 0, hget, hset, fun _ => hset.first rfl⟩
  | k + 1, h => by
    obtain ⟨marker, hget, hset⟩ := h (k + 1) le_rfl
    by_cases hlt : num < marker.sampleCount
    · obtain ⟨found, k', hwalk, hfound⟩ := @walkBack_set markers num k fun k' hk' => h k' (by omega)
      exact ⟨found, k', by simp only [walkBack, hget, Option.bind_some, if_pos hlt, hwalk], hfound⟩
    · exact ⟨marker, k + 1, by simp only [walkBack, hget, Option.bind_some, if_neg hlt], hset,
        fun hlt' => absurd hlt' hlt⟩

/-! ## Filling -/

/-- The marker table while it is being filled: the markers before `counter` are set, the others are as
they were made, and `j` entries have been added. -/
structure MarkerTable.Filling (entries : Nat → Entry) (count : Nat) (total : UInt32) (n : Nat) (m : MarkerTable)
    (markers : List Marker) : Prop where
  markers_eq : m.markers = some markers
  length : markers.length = tableSize total
  counter_pos : 1 ≤ m.counter
  counter_le : m.counter ≤ tableSize total
  refSample : m.refSample.toNat = 100 * m.counter
  j_pos : 1 ≤ m.j
  j_le : m.j ≤ n
  addSampleCount : m.addSampleCount.toNat = before entries m.j
  prevSampleCount : m.prevSampleCount.toNat = before entries (max (m.j - 1) 1)
  set : ∀ k < m.counter, ∃ marker, markers[k]? = some marker ∧ marker.Set entries count k
  unset : ∀ k, m.counter ≤ k → k < tableSize total → markers[k]? = some ⟨0, 0⟩
  first : m.j = 1 → (markers.getD (m.counter - 1) default).sampleCount.toNat = before entries 1

namespace MarkerTable.Filling

variable {m : MarkerTable} {markers : List Marker}

theorem add (h : m.Filling entries count total n markers) (hcover : Covers entries count total.toNat n)
    (hlt : m.addSampleCount < m.refSample) (href : m.refSample < total) :
    m.j < count ∧ (m.add (entries m.j)).Filling entries count total n markers := by
  rw [UInt32.lt_iff_toNat_lt] at hlt href
  have hsum := h.addSampleCount
  obtain ⟨hj, hadd⟩ := @Covers.toNat_add _ _ _ m.j _ 0 hcover _ hsum (by omega)
  have hcount := hcover.le_count
  have hpos := h.j_pos
  refine ⟨by omega, ?_⟩
  exact
    { markers_eq := h.markers_eq
      length := h.length
      counter_pos := h.counter_pos
      counter_le := h.counter_le
      refSample := h.refSample
      j_pos := Nat.le_add_left 1 m.j
      j_le := hj
      addSampleCount := hadd
      prevSampleCount := by
        change m.addSampleCount.toNat = before entries (max (m.j + 1 - 1) 1)
        rw [hsum, Nat.add_sub_cancel, max_eq_left hpos]
      set := h.set
      unset := h.unset
      first := fun hone => by
        change m.j + 1 = 1 at hone
        omega }

theorem set_next (h : m.Filling entries count total n markers) (hcover : Covers entries count total.toNat n)
    (hcount : count < 2 ^ 32) :
    (m.nextMarker markers).Set entries count m.counter := by
  have hpos := h.counter_pos
  have hjpos := h.j_pos
  have hjle := h.j_le
  have hle := hcover.le_count
  obtain ⟨last, hget, hlast⟩ := h.set (m.counter - 1) (by omega)
  have hgetD : markers.getD (m.counter - 1) default = last := by rw [List.getD_eq_getElem?_getD, hget]; rfl
  have hfirst := h.first
  simp only [MarkerTable.nextMarker]
  rw [hgetD] at hfirst ⊢
  by_cases heq : m.prevSampleCount = last.sampleCount
  · rw [if_pos heq]
    exact ⟨hlast.lt, by rw [heq]; exact hlast.sampleCount, fun h => by omega⟩
  · rw [if_neg heq]
    have hj : 2 ≤ m.j := by
      by_contra hsmall
      have hone : m.j = 1 := by omega
      apply heq
      rw [← UInt32.toNat_inj, h.prevSampleCount, hfirst hone, hone]
      rfl
    have hentry : (UInt32.ofNat m.j - 2).toNat = m.j - 2 := by
      have hof : (UInt32.ofNat m.j).toNat = m.j := UInt32.toNat_ofNat_of_lt' (by simp only [UInt32.size]; omega)
      rw [UInt32.toNat_sub_of_le _ _ (by rw [UInt32.le_iff_toNat_le, hof]; exact hj), hof]
      rfl
    refine ⟨by simp only [hentry]; omega, ?_, fun h => by omega⟩
    simp only [hentry, h.prevSampleCount]
    congr 1
    omega

theorem mark (h : m.Filling entries count total n markers) (hcover : Covers entries count total.toNat n)
    (hcount : count < 2 ^ 32) (hlt : m.counter < tableSize total) (i : Nat) :
    ∃ m' markers', m.mark i = some m' ∧ m'.Filling entries count total n markers' ∧
      m'.counter = m.counter + 1 := by
  have hset := h.set_next hcover hcount
  have htotal : tableSize total * 100 ≤ total.toNat := Nat.div_mul_le_self _ _
  have hsize := total.toNat_lt
  refine ⟨{ m with
      markers := some (markers.set m.counter (m.nextMarker markers))
      counter := m.counter + 1
      refSample := m.refSample + 100
      entrycountTraversed := i - 1 }, markers.set m.counter (m.nextMarker markers), ?_, ?_, rfl⟩
  · rw [MarkerTable.mark, h.markers_eq, Option.bind_some, if_pos (by rw [h.length]; exact hlt)]
  exact
    { markers_eq := rfl
      length := by rw [List.length_set, h.length]
      counter_pos := Nat.le_add_left 1 m.counter
      counter_le := hlt
      refSample := by
        change (m.refSample + 100).toNat = 100 * (m.counter + 1)
        rw [UInt32.toNat_add, h.refSample]
        change (100 * m.counter + 100) % 2 ^ 32 = _
        omega
      j_pos := h.j_pos
      j_le := h.j_le
      addSampleCount := h.addSampleCount
      prevSampleCount := h.prevSampleCount
      set := fun k hk => by
        change k < m.counter + 1 at hk
        by_cases hkc : k = m.counter
        · subst hkc
          exact ⟨_, List.getElem?_set_self (by rw [h.length]; exact hlt), hset⟩
        · obtain ⟨marker, hget, hmarker⟩ := h.set k (by omega)
          exact ⟨marker, by rw [List.getElem?_set_ne (Ne.symm hkc), hget], hmarker⟩
      unset := fun k hk hkt => by
        change m.counter + 1 ≤ k at hk
        rw [List.getElem?_set_ne (by omega), h.unset k (by omega) hkt]
      first := fun hone => by
        change m.j = 1 at hone
        have hlen : m.counter < markers.length := by rw [h.length]; exact hlt
        let markers' := markers.set m.counter (m.nextMarker markers)
        change (markers'.getD (m.counter + 1 - 1) default).sampleCount.toNat = _
        rw [Nat.add_sub_cancel, List.getD_eq_getElem?_getD, List.getElem?_set_self hlen, Option.getD_some]
        change m.prevSampleCount.toNat = _
        rw [h.prevSampleCount, hone]
        rfl }

end MarkerTable.Filling

theorem populateLoop_yields (hcover : Covers entries count total.toNat n) (hcount : count < 2 ^ 32)
    {numPopulated : Nat} {m : MarkerTable} {markers : List Marker} {last : Option Nat} (hi : 1 ≤ i)
    (h : m.Filling entries count total n markers) (hlt : m.counter < tableSize total)
    (hpop : numPopulated < populatesPerRun) :
    (populateLoop count total i numPopulated m).Yields entries (· < count)
      (fun r => ∃ m' markers', r = some m' ∧ m'.Filling entries count total n markers' ∧
        m'.counter ≤ m.counter + (populatesPerRun - numPopulated)) last := by
  -- Every turn adds an entry or sets a marker.
  induction hturns : (count - i) + (populatesPerRun - numPopulated) using Nat.strong_induction_on
    generalizing i numPopulated m markers last with
  | _ turns ih =>
    rw [populateLoop]
    split
    case isTrue hmore =>
      rw [if_neg (by omega)]
      split
      case isTrue hsmall =>
        obtain ⟨hj, hadd⟩ := h.add hcover hsmall hmore.2
        exact ⟨hj, rfl, ih _ (by omega) (by omega) hadd hlt hpop rfl⟩
      case isFalse =>
        obtain ⟨m', markers', hmark, hm', hcounter⟩ := h.mark hcover hcount hlt i
        simp only [hmark]
        split
        case isTrue => exact ⟨m', markers', rfl, hm', by omega⟩
        case isFalse hgo =>
          refine (ih _ (by omega) hi hm' (by omega) (by omega) rfl).mono ?_
          rintro - ⟨m₁, markers₁, rfl, hm₁, hle⟩
          exact ⟨m₁, markers₁, rfl, hm₁, by omega⟩
    case isFalse => exact ⟨m, markers, rfl, h, Nat.le_add_right _ _⟩

/-- A marker table into which the first entry goes, for the first time or again. -/
structure MarkerTable.Startable (entries : Nat → Entry) (count : Nat) (total : UInt32) (m : MarkerTable)
    (markers : List Marker) : Prop where
  markers_eq : m.markers = some markers
  length : markers.length = tableSize total
  counter_pos : 1 ≤ m.counter
  counter_le : m.counter ≤ tableSize total
  refSample : m.refSample.toNat = 100 * m.counter
  j_eq : m.j = 1
  set : ∀ k < m.counter, k ≠ 0 → ∃ marker, markers[k]? = some marker ∧ marker.Set entries count k
  unset : ∀ k, m.counter ≤ k → k < tableSize total → markers[k]? = some ⟨0, 0⟩
  zero : ∃ marker, markers[0]? = some marker ∧ marker.entryCount = 0
  first : m.counter ≠ 1 → (markers.getD (m.counter - 1) default).sampleCount.toNat = before entries 1

theorem MarkerTable.Filling.startable {m : MarkerTable} {markers : List Marker}
    (h : m.Filling entries count total n markers) (hj : m.j = 1) : m.Startable entries count total markers where
  markers_eq := h.markers_eq
  length := h.length
  counter_pos := h.counter_pos
  counter_le := h.counter_le
  refSample := h.refSample
  j_eq := hj
  set k hk _ := h.set k hk
  unset := h.unset
  zero := by
    obtain ⟨marker, hget, hset⟩ := h.set 0 h.counter_pos
    exact ⟨marker, hget, hset.first rfl⟩
  first _ := h.first hj

theorem MarkerTable.Startable.begin {m : MarkerTable} {markers : List Marker}
    (h : m.Startable entries count total markers) (hn : 1 ≤ n) (hcount : 1 ≤ count) :
    ∃ m' markers', m.begin (entries 0) = some m' ∧ m'.Filling entries count total n markers' ∧
      m'.counter = m.counter := by
  have hpos := h.counter_pos
  have hle := h.counter_le
  have hlen : 0 < markers.length := by rw [h.length]; omega
  have hone : (entries 0).sampleCount.toNat = before entries 1 := (Nat.zero_add _).symm
  obtain ⟨marker, hget, hzero⟩ := h.zero
  let markers' := markers.modify 0 ({ · with sampleCount := (entries 0).sampleCount })
  have hfirst : markers'[0]? = some { marker with sampleCount := (entries 0).sampleCount } := by
    simp [markers', hget]
  have hrest : ∀ k, k ≠ 0 → markers'[k]? = markers[k]? := fun k hk => by
    simp [markers', Ne.symm hk]
  refine ⟨{ m with
      markers := some markers'
      prevSampleCount := (entries 0).sampleCount
      addSampleCount := (entries 0).sampleCount }, markers', ?_, ?_, rfl⟩
  · rw [MarkerTable.begin, h.markers_eq, Option.bind_some, if_pos hlen]
  exact
    { markers_eq := rfl
      length := by rw [List.length_modify, h.length]
      counter_pos := hpos
      counter_le := hle
      refSample := h.refSample
      j_pos := h.j_eq.ge
      j_le := h.j_eq.le.trans hn
      addSampleCount := by
        change (entries 0).sampleCount.toNat = before entries m.j
        rw [h.j_eq, hone]
      prevSampleCount := by
        change (entries 0).sampleCount.toNat = before entries (max (m.j - 1) 1)
        rw [h.j_eq, hone]
        rfl
      set := fun k hk => by
        by_cases hk0 : k = 0
        · subst hk0
          refine ⟨_, hfirst, ?_, ?_, fun _ => hzero⟩
          · simp only [hzero]
            exact hcount
          · simp only [hzero]
            exact hone
        · rw [hrest k hk0]
          exact h.set k hk hk0
      unset := fun k hk hkt => by
        change m.counter ≤ k at hk
        rw [hrest k (by omega)]
        exact h.unset k hk hkt
      first := fun _ => by
        change (markers'.getD (m.counter - 1) default).sampleCount.toNat = before entries 1
        by_cases hc : m.counter = 1
        · rw [hc, List.getD_eq_getElem?_getD, hfirst]
          exact hone
        · rw [List.getD_eq_getElem?_getD, hrest _ (by omega), ← List.getD_eq_getElem?_getD]
          exact h.first hc }

/-! ## Run -/

/-- The marker table between two calls of `Run`. -/
def MarkerTable.Reached (entries : Nat → Entry) (count : Nat) (total : UInt32) (n : Nat) (m : MarkerTable) : Prop :=
  (m.markers = none ∧ m.counter = 1 ∧ m.entrycountTraversed = 0 ∧ m.refSample = 100 ∧ m.j = 1) ∨
    ∃ markers, m.Filling entries count total n markers ∧ (m.scheduled = true → m.counter < tableSize total)

theorem MarkerTable.reached_new : (MarkerTable.new count).Reached entries count total n :=
  .inl ⟨rfl, rfl, rfl, rfl, rfl⟩

theorem populateLoop_start (hcover : Covers entries count total.toNat n) (hcount : count < 2 ^ 32)
    {m : MarkerTable} {markers : List Marker} (h : m.Startable entries count total markers)
    (hlt : m.counter < tableSize total) :
    (populateLoop count total 0 0 m).Yields entries (· < count)
      (fun r => ∃ m' markers', r = some m' ∧ m'.Filling entries count total n markers' ∧
        m'.counter ≤ m.counter + populatesPerRun) none := by
  have htotal : tableSize total * 100 ≤ total.toNat := Nat.div_mul_le_self _ _
  have hn : 1 ≤ n := by
    rcases Nat.eq_zero_or_pos n with hzero | hpos
    · have hle := hcover.total_le
      rw [hzero] at hle
      simp only [before] at hle
      omega
    · exact hpos
  have hpos : 1 ≤ count := hn.trans hcover.le_count
  have href : m.refSample < total := by
    rw [UInt32.lt_iff_toNat_lt, h.refSample]
    omega
  obtain ⟨m', markers', hbegin, hm', hcounter⟩ := h.begin (n := n) hn hpos
  rw [populateLoop, if_pos ⟨hpos, href⟩, if_pos rfl]
  refine ⟨hpos, rfl, ?_⟩
  simp only [hbegin]
  rw [← hcounter]
  exact @populateLoop_yields _ _ _ _ _ hcover hcount 0 m' markers' _ le_rfl hm' (by omega) (by decide)

/-- The condition on a `Run`: it has been scheduled, the table has room for two markers, and it does
not go back to the first entry after others have been added. -/
structure MarkerTable.CanRun (total : UInt32) (m : MarkerTable) : Prop where
  scheduled : m.scheduled = true
  size : 2 ≤ tableSize total
  start : m.entrycountTraversed = 0 → m.j = 1

/-- **Every `Run` fills the table with markers that are right.** -/
theorem run_yields (hcover : Covers entries count total.toNat n) (hcount : count < 2 ^ 32) {m : MarkerTable}
    (h : m.Reached entries count total n) (hrun : m.CanRun total) :
    (run count total m).Yields entries (· < count)
      (fun r => ∃ m' markers, r = some m' ∧ m'.Filling entries count total n markers ∧
        (m'.scheduled = true → m'.counter < tableSize total) ∧ m'.counter ≤ m.counter + populatesPerRun) none := by
  have hsize := hrun.size
  apply Probe.yields_map
  refine Probe.Yields.mono (Q := fun r => ∃ m' markers', r = some m' ∧ m'.Filling entries count total n markers' ∧
    m'.counter ≤ m.counter + populatesPerRun) ?_ ?_
  · rintro - ⟨m', markers', rfl, hm', hle⟩
    refine ⟨_, markers', rfl, { hm' with }, fun hs => ?_, hle⟩
    simp only [decide_eq_true_eq] at hs
    exact hs.2.2
  · rcases h with ⟨hnone, hc, he, href, hj⟩ | ⟨markers, hm, hlt⟩
    · rw [he]
      refine @populateLoop_start _ _ _ _ hcover hcount (m.create total)
        (List.replicate (tableSize total) ⟨0, 0⟩) ?_ ?_
      · exact
          { markers_eq := by simp only [MarkerTable.create, hnone, Option.none_or]
            length := List.length_replicate
            counter_pos := hc.ge
            counter_le := hc.le.trans (by omega)
            refSample := by
              change m.refSample.toNat = 100 * m.counter
              rw [href, hc]
              rfl
            j_eq := hj
            set := fun k hk hk0 => by
              change k < m.counter at hk
              omega
            unset := fun k _ hkt => by rw [List.getElem?_replicate, if_pos hkt]
            zero := ⟨⟨0, 0⟩, by rw [List.getElem?_replicate, if_pos (by omega)], rfl⟩
            first := fun hne => absurd hc hne }
      · change m.counter < _
        omega
    · have hcreate : m.create total = m := by
        simp only [MarkerTable.create, hm.markers_eq, Option.some_or]
        rw [← hm.markers_eq]
      rw [hcreate]
      by_cases he : m.entrycountTraversed = 0
      · rw [he]
        exact populateLoop_start hcover hcount (hm.startable (hrun.start he)) (hlt hrun.scheduled)
      · exact @populateLoop_yields _ _ _ _ _ hcover hcount 0 m markers _ (by omega) hm (hlt hrun.scheduled)
          (by decide)

/-! ## The search -/

/-- The condition on a search: there is no marker table, it is complete, or the marker that is tried
first has been set. -/
def MarkerTable.CanFind (total : UInt32) (m : MarkerTable) (num : UInt32) : Prop :=
  m.markers = none ∨ m.counter = tableSize total ∨ num.toNat / (sampleCountIncrement - 1) < m.counter

theorem getTimeOffsetForSampleNumber_yields (hcover : Covers entries count total.toNat n) {m : MarkerTable}
    (h : m.Reached entries count total n) {num : UInt32} (hnum : num < total) (hfind : m.CanFind total num) :
    (getTimeOffsetForSampleNumber count total m num).Yields entries (· < count)
      (fun r => ∃ offset, r = some offset ∧ IsOffsetOf entries count num.toNat offset) none := by
  rcases h with ⟨hnone, -⟩ | ⟨markers, hm, -⟩
  · simp only [getTimeOffsetForSampleNumber, hnone]
    apply Probe.yields_map
    refine Probe.Yields.mono (fun offset hoffset => ⟨offset, rfl, hoffset⟩) ?_
    split
    case isTrue hzero =>
      have hle := hcover.total_le
      have hn := hcover.le_count
      rw [UInt32.lt_iff_toNat_lt] at hnum
      obtain rfl : n = 0 := by omega
      simp only [before] at hle
      omega
    case isFalse => exact offsetLoop_yields hcover hnum (Nat.zero_add _) rfl (Nat.zero_le _)
  · have hpos := hm.counter_pos
    have hle := hm.counter_le
    have hfirst : firstMarker total m.counter num < m.counter := by
      rcases hfind with hnone | hfull | hset
      · rw [hm.markers_eq] at hnone
        cases hnone
      · simp only [firstMarker]
        rw [if_neg (by omega)]
        omega
      · simp only [firstMarker]
        rw [if_neg (by omega)]
        omega
    obtain ⟨marker, k, hwalk, hset, hback⟩ := @walkBack_set entries count markers num
      (firstMarker total m.counter num) fun k hk => hm.set k (by omega)
    simp only [getTimeOffsetForSampleNumber, hm.markers_eq, hwalk]
    apply Probe.yields_map
    exact (getTimeOffsetFromMT_yields hcover hnum hset hback).mono fun offset hoffset => ⟨offset, rfl, hoffset⟩

/-- **From a marker that has not been set** the search finds the entry of a later sample: the samples
of the first entry are left out. -/
theorem getTimeOffsetForSampleNumber_unset {markers : List Marker} {m : MarkerTable}
    (h : m.Filling entries count total n markers) {num : UInt32} (hlt : m.counter < tableSize total)
    (hguess : m.counter ≤ num.toNat / (sampleCountIncrement - 1))
    (hcover : Covers entries count (num.toNat + (entries 0).sampleCount.toNat + 1) n) (hcount : 1 ≤ count) :
    (getTimeOffsetForSampleNumber count total m num).Yields entries (· < count)
      (fun r => ∃ offset, r = some offset ∧
        IsOffsetOf entries count (num.toNat + (entries 0).sampleCount.toNat) offset) none := by
  have hpos := h.counter_pos
  have hfirst : firstMarker total m.counter num = m.counter - 1 + 1 := by
    simp only [firstMarker]
    rw [if_neg (by omega)]
    omega
  have hget : markers[m.counter - 1 + 1]? = some ⟨0, 0⟩ := h.unset _ (by omega) (by omega)
  have hzero : ¬num < (0 : UInt32) := by simp
  have hwalk : walkBack markers num (firstMarker total m.counter num) = some ⟨0, 0⟩ := by
    rw [hfirst, walkBack, hget, Option.bind_some, if_neg hzero]
  simp only [getTimeOffsetForSampleNumber, h.markers_eq, hwalk]
  apply Probe.yields_map
  refine Probe.Yields.mono (fun offset hoffset => ⟨offset, rfl, hoffset⟩) ?_
  rw [getTimeOffsetFromMT, if_neg (by omega), if_neg hzero]
  refine offsetLoop_skipped hcover ?_ ?_ ?_
  · change 0 + 1 + (count - (0 + 1)) = count
    omega
  · rfl
  · change 0 + (entries 0).sampleCount.toNat ≤ _
    omega

/-! ## Runs of the scheduler and searches -/

/-- A `Run`, or a search for a sample. -/
inductive MarkerCall where
  | run
  | getTimeOffsetForSampleNumber (num : UInt32)

/-- What a call does. -/
def handleMarkers (count : Nat) (total : UInt32) (m : MarkerTable) :
    MarkerCall → Probe Entry (Option (UInt32 × MarkerTable))
  | .run => (run count total m).map fun r => r.map fun m' => (0, m')
  | .getTimeOffsetForSampleNumber num => (getTimeOffsetForSampleNumber count total m num).map fun r => r.map (·, m)

/-- The condition on a call. -/
def MarkerTable.Allows (total : UInt32) (m : MarkerTable) : MarkerCall → Prop
  | .run => m.CanRun total
  | .getTimeOffsetForSampleNumber num => num < total ∧ m.CanFind total num

/-- What the plain linear scan answers. -/
def scan (entries : Nat → Entry) (count : Nat) : MarkerCall → UInt32
  | .run => 0
  | .getTimeOffsetForSampleNumber num => (offsetLoop num count 0 0).eval entries

/-- The answers to a sequence of calls; `none` if one of them indexes outside the marker table. -/
def markerAnswers (parsingMode : Nat) (t : Stored Entry 8)
    (places : Vector Nat (t.entryCount / maxCachedTableEntries + 1)) (memory : Vector Entry maxCachedTableEntries)
    (turns : Nat) (total : UInt32) (calls : List MarkerCall) : Option (List UInt32) :=
  Probe.answers (fun _ table => table) (handleMarkers t.entryCount total) (Table.store t.file threshold turns) calls
    (MarkerTable.new t.entryCount) (Table.load parsingMode t places memory)

/-- Every call meets its condition. -/
def AllAllowed (parsingMode : Nat) (t : Stored Entry 8)
    (places : Vector Nat (t.entryCount / maxCachedTableEntries + 1)) (memory : Vector Entry maxCachedTableEntries)
    (turns : Nat) (total : UInt32) (calls : List MarkerCall) : Prop :=
  Probe.Meets (fun _ table => table) (handleMarkers t.entryCount total) (Table.store t.file threshold turns)
    (fun m _ call => m.Allows total call) calls (MarkerTable.new t.entryCount)
    (Table.load parsingMode t places memory)

theorem IsOffsetOf.unique {a b : UInt32} (ha : IsOffsetOf entries count num a)
    (hb : IsOffsetOf entries count num b) : a = b := by
  obtain ⟨i, -, hi, rfl⟩ := ha
  obtain ⟨j, -, hj, rfl⟩ := hb
  rw [hi.unique hj]

theorem scan_isOffsetOf (hcover : Covers entries count total.toNat n) {num : UInt32} (hnum : num < total) :
    IsOffsetOf entries count num.toNat (scan entries count (.getTimeOffsetForSampleNumber num)) :=
  (@offsetLoop_yields _ _ _ _ _ hcover _ hnum _ _ none (Nat.zero_add _) rfl (Nat.zero_le _)).eval

theorem handleMarkers_yields (hcover : Covers entries count total.toNat n) (hcount : count < 2 ^ 32)
    {m : MarkerTable} (h : m.Reached entries count total n) (call : MarkerCall) (hallows : m.Allows total call) :
    (handleMarkers count total m call).Yields entries (· < count)
      (fun r => ∃ m', r = some (scan entries count call, m') ∧ m'.Reached entries count total n) none := by
  cases call with
  | run =>
    apply Probe.yields_map
    refine (run_yields hcover hcount h hallows).mono ?_
    rintro - ⟨m', markers, rfl, hm', hs, -⟩
    exact ⟨m', rfl, .inr ⟨markers, hm', hs⟩⟩
  | getTimeOffsetForSampleNumber num =>
    apply Probe.yields_map
    refine (getTimeOffsetForSampleNumber_yields hcover h hallows.1 hallows.2).mono ?_
    rintro - ⟨offset, rfl, hoffset⟩
    exact ⟨m, by rw [Option.map_some, hoffset.unique (scan_isOffsetOf hcover hallows.1)], h⟩

/-- **With the marker table every search gives what the plain linear scan gives**, which is the offset
of the entry that contains the sample, and no call indexes outside it: in both parsing modes, in every
sequence of runs and searches that meet their conditions. -/
theorem markerAnswers_eq (parsingMode : Nat) (t : Stored Entry 8)
    (places : Vector Nat (t.entryCount / maxCachedTableEntries + 1)) (memory : Vector Entry maxCachedTableEntries)
    {turns : Nat} (hturns : maxCachedTableEntries < turns) {total : UInt32} {n : Nat}
    (hcover : Covers t.entry t.entryCount total.toNat n) {calls : List MarkerCall}
    (hcalls : AllAllowed parsingMode t places memory turns total calls) :
    markerAnswers parsingMode t places memory turns total calls = some (calls.map (scan t.entry t.entryCount)) ∧
      ∀ num < total,
        IsOffsetOf t.entry t.entryCount num.toNat
          (scan t.entry t.entryCount (.getTimeOffsetForSampleNumber num)) := by
  have hserves := Table.serves t threshold (by decide) (by decide) (by decide) hturns
  have hfits := t.fits
  have hstep : ∀ m table call, m.Reached t.entry t.entryCount total n → Table.Valid t table → m.Allows total call →
      ∃ m' table', (handleMarkers t.entryCount total m call).run (Table.store t.file threshold turns) table =
        some (some (scan t.entry t.entryCount call, m'), table') ∧ m'.Reached t.entry t.entryCount total n ∧
          Table.Valid t table' := ?_
  · have hload := Table.valid_load t parsingMode places memory
    exact ⟨Probe.answers_map hstep calls MarkerTable.reached_new hload hcalls, fun num => scan_isOffsetOf hcover⟩
  intro m table call hm htable hallows
  obtain ⟨-, s', hrun, ⟨m', rfl, hm'⟩, hs'⟩ :=
    (handleMarkers_yields hcover (by simp only [Stored.entryCount]; omega) hm call hallows).run_start hserves htable
  exact ⟨m', s', hrun, hm', hs'⟩

/-! ## A marker that has not been set -/

/-- Entries of ten samples each. -/
@[irreducible] def tens (n : Nat) : List Entry := (List.range n).map fun i => ⟨10, UInt32.ofNat i⟩

theorem length_tens (n : Nat) : (tens n).length = n := by rw [tens, List.length_map, List.length_range]

/-- A table for which `Run` is scheduled and takes two turns. -/
def tensTable : Stored Entry 8 := ⟨tens 600, [], by rw [length_tens]; decide⟩

theorem entryCount_tensTable : tensTable.entryCount = 600 := length_tens 600

theorem entry_tensTable {i : Nat} (hi : i < 600) : tensTable.entry i = ⟨10, UInt32.ofNat i⟩ := by
  have hget : (tens 600)[i]? = some ⟨10, UInt32.ofNat i⟩ := by
    rw [tens, List.getElem?_map, List.getElem?_range hi, Option.map_some]
  rw [Stored.entry, entryCount_tensTable, Nat.mod_eq_of_lt hi, List.getD_eq_getElem?_getD]
  exact congrArg (·.getD default) hget

theorem before_tensTable : ∀ {i : Nat}, i ≤ 600 → before tensTable.entry i = 10 * i
  | 0, _ => rfl
  | i + 1, hi => by
    rw [before, before_tensTable (by omega), entry_tensTable (by omega)]
    change 10 * i + 10 = _
    omega

theorem covers_tensTable {total : Nat} (h : total ≤ 6000) :
    Covers tensTable.entry tensTable.entryCount total 600 where
  le_count := entryCount_tensTable.ge
  total_le := by rw [before_tensTable le_rfl]; exact h
  lt := by rw [before_tensTable le_rfl]; decide

theorem isOffsetOf_tensTable {offset : UInt32} (hnum : num < 6000)
    (h : IsOffsetOf tensTable.entry tensTable.entryCount num offset) : offset = UInt32.ofNat (num / 10) := by
  obtain ⟨i, -, hi, rfl⟩ := h
  have hcontains : Contains tensTable.entry num (num / 10) := by
    rw [Contains, before_tensTable (by omega), before_tensTable (by omega)]
    omega
  rw [hi.unique hcontains, entry_tensTable (by omega)]

theorem canRun_tensTable : (MarkerTable.new tensTable.entryCount).CanRun 6000 where
  scheduled := by rw [entryCount_tensTable]; rfl
  size := by decide
  start _ := rfl

theorem markerAnswers_eq_tensTable :
    markerAnswers 0 tensTable (.replicate _ 0) (.replicate _ default) 4097 6000 [.run] = some [0] ∧
      IsOffsetOf tensTable.entry tensTable.entryCount (5100 : UInt32).toNat
        (scan tensTable.entry tensTable.entryCount (.getTimeOffsetForSampleNumber 5100)) := by
  obtain ⟨hanswers, hscan⟩ := @markerAnswers_eq 0 tensTable (.replicate _ 0) (.replicate _ default) 4097 (by decide)
    6000 600 (covers_tensTable le_rfl) [.run] ⟨canRun_tensTable, fun _ _ _ => trivial⟩
  exact ⟨hanswers, hscan 5100 (by decide)⟩

/-- **After one `Run`**, which sets fifty markers, a search that is estimated to start at the next one
returns the offset of the entry after the right one. -/
theorem markerAnswers_unset :
    markerAnswers 0 tensTable (.replicate _ 0) (.replicate _ default) 4097 6000
        [.run, .getTimeOffsetForSampleNumber 5100] = some [0, 511] ∧
      scan tensTable.entry tensTable.entryCount (.getTimeOffsetForSampleNumber 5100) = 510 := by
  have hcover : Covers tensTable.entry tensTable.entryCount (6000 : UInt32).toNat 600 := covers_tensTable le_rfl
  constructor
  · obtain ⟨m, markers, hrun, hm, -, hcounter⟩ :=
      (run_yields hcover (by rw [entryCount_tensTable]; decide) MarkerTable.reached_new canRun_tensTable).eval
    have hten : (tensTable.entry 0).sampleCount.toNat = 10 := by rw [entry_tensTable (by decide)]; rfl
    have hle : m.counter ≤ 51 := hcounter
    obtain ⟨offset, hfind, hoffset⟩ := (@getTimeOffsetForSampleNumber_unset _ _ _ 6000 markers m hm 5100
      (hle.trans_lt (by decide)) hle (by rw [hten]; exact covers_tensTable (by decide))
      (by rw [entryCount_tensTable]; decide)).eval
    rw [hten] at hoffset
    obtain rfl := isOffsetOf_tensTable (by decide) hoffset
    rw [markerAnswers, Table.load, if_neg (by simp), Table.answers_whole tensTable threshold 4097 fun _ => rfl]
    simp only [Probe.tableAnswers, handleMarkers, Probe.eval_map, hrun, hfind, Option.map_some, Option.bind_some]
    rfl
  · exact isOffsetOf_tensTable (by decide) (scan_isOffsetOf hcover (by decide))

end Ftke.CompositionOffset
