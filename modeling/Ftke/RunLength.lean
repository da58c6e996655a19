import Mathlib.Data.List.Basic

/-!
# Ftke.RunLength

Run-length tables read in order by a cursor.

A table says of each of its runs how many items it has and the value of each.

* `expand`, `sumTo` — the items of a table, and their number in its first runs;
* `Cursor` — a position in the table: the runs passed, the items in them, and the value of the last;
* `Cursor.get` — the value of an item, with at most one run passed for it;
* `Cursor.reset` — a cursor for reading on from an item;
* `Cursor.Good`, `get_good`, `reset_good` — when a cursor gives the values of the items from one on.
-/

namespace Ftke.RunLength

variable {α : Type*}

/-- A run of items with one value. -/
structure Entry (α : Type*) where
  count : Nat
  value : α
  deriving DecidableEq, Repr

/-! ## Tables -/

/-- The values of the items. -/
def expand : List (Entry α) → List α
  | [] => []
  | e :: tbl => List.replicate e.count e.value ++ expand tbl

/-- The number of items in the first `k` runs. -/
def sumTo : List (Entry α) → Nat → Nat
  | [], _ => 0
  | _ :: _, 0 => 0
  | e :: tbl, k + 1 => e.count + sumTo tbl k

/-- Every run has items. -/
def Positive (tbl : List (Entry α)) : Prop := ∀ e ∈ tbl, 0 < e.count

instance (tbl : List (Entry α)) : Decidable (Positive tbl) := inferInstanceAs (Decidable (∀ e ∈ tbl, 0 < e.count))

@[simp] theorem sumTo_zero (tbl : List (Entry α)) : sumTo tbl 0 = 0 := by
  cases tbl <;> rfl

theorem sumTo_length : ∀ tbl : List (Entry α), sumTo tbl tbl.length = (expand tbl).length
  | [] => rfl
  | e :: tbl => by
    simp only [List.length_cons, sumTo, expand, List.length_append, List.length_replicate]
    rw [sumTo_length tbl]

theorem sumTo_succ : ∀ {tbl : List (Entry α)} {k : Nat} {e : Entry α}, tbl[k]? = some e →
    sumTo tbl (k + 1) = sumTo tbl k + e.count
  | [], _, _, h => by simp at h
  | f :: tbl, 0, e, h => by
    have hfe : f = e := by simpa using h
    simp [sumTo, hfe]
  | f :: tbl, k + 1, e, h => by
    have hget : tbl[k]? = some e := by simpa using h
    rw [sumTo, sumTo_succ hget, sumTo]
    omega

theorem sumTo_le_succ (tbl : List (Entry α)) (k : Nat) : sumTo tbl k ≤ sumTo tbl (k + 1) := by
  induction tbl generalizing k with
  | nil => simp [sumTo]
  | cons e tbl ih =>
    cases k with
    | zero => simp
    | succ k =>
      have htail := ih k
      simp only [sumTo]
      omega

theorem sumTo_mono (tbl : List (Entry α)) {k l : Nat} (h : k ≤ l) : sumTo tbl k ≤ sumTo tbl l := by
  induction h with
  | refl => exact Nat.le_refl _
  | step _ ih => exact Nat.le_trans ih (sumTo_le_succ tbl _)

theorem sumTo_le_length : ∀ (tbl : List (Entry α)) (k : Nat), sumTo tbl k ≤ (expand tbl).length
  | [], _ => Nat.zero_le _
  | e :: tbl, 0 => Nat.zero_le _
  | e :: tbl, k + 1 => by
    have htail := sumTo_le_length tbl k
    simp only [sumTo, expand, List.length_append, List.length_replicate]
    omega

theorem expand_getElem? : ∀ {tbl : List (Entry α)} {k : Nat} {e : Entry α}, tbl[k]? = some e →
    ∀ {j : Nat}, sumTo tbl k ≤ j → j < sumTo tbl k + e.count → (expand tbl)[j]? = some e.value
  | [], _, _, h, _, _, _ => by simp at h
  | f :: tbl, 0, e, h, j, _, hj => by
    have hfe : f = e := by simpa using h
    have hlt : j < (List.replicate f.count f.value).length := by
      simp only [sumTo_zero] at hj
      simp only [List.length_replicate, hfe]
      omega
    rw [expand, List.getElem?_append_left hlt, hfe]
    simp only [List.length_replicate, hfe] at hlt
    simp [hlt]
  | f :: tbl, k + 1, e, h, j, hk, hj => by
    have hget : tbl[k]? = some e := by simpa using h
    simp only [sumTo] at hk hj
    have hle : (List.replicate f.count f.value).length ≤ j := by
      simp only [List.length_replicate]
      omega
    rw [expand, List.getElem?_append_right hle, List.length_replicate]
    exact expand_getElem? hget (by omega) (by omega)

theorem expand_eq_nil : ∀ {tbl : List (Entry α)}, (∀ e ∈ tbl, e.count = 0) → expand tbl = []
  | [], _ => rfl
  | e :: tbl, h => by
    rw [expand, h e List.mem_cons_self, List.replicate_zero, List.nil_append]
    exact expand_eq_nil fun f hf => h f (List.mem_cons_of_mem e hf)

theorem getElem?_of_lt {tbl : List (Entry α)} {k j : Nat} (hj : j < (expand tbl).length) (hk : sumTo tbl k ≤ j) :
    ∃ e, tbl[k]? = some e := by
  by_cases h : k < tbl.length
  · exact ⟨tbl[k], List.getElem?_eq_getElem h⟩
  · have hmono := sumTo_mono tbl (show tbl.length ≤ k by omega)
    rw [sumTo_length] at hmono
    omega

/-! ## Cursors -/

/-- The runs passed, the items in them, and the value of the last of them. -/
structure Cursor (α : Type*) where
  next : Nat
  sampleCount : Nat
  value : α
  deriving DecidableEq, Repr

namespace Cursor

/-- A cursor before the table. -/
def start (zero : α) : Cursor α := ⟨0, 0, zero⟩

/-- Pass one run, and more while these are empty at the start of the table; past the last run the first
follows again. -/
def advance [Inhabited α] (tbl : List (Entry α)) : Nat → Cursor α → Cursor α
  | 0, c => c
  | fuel + 1, c =>
    let e := tbl.getD (c.next % tbl.length) ⟨0, default⟩
    let c' : Cursor α := ⟨c.next + 1, c.sampleCount + e.count, e.value⟩
    if c'.sampleCount = 0 then advance tbl fuel c' else c'

/-- The value of item `j`, or `err` if it is not in the next run either. -/
def get [Inhabited α] (err : α) (tbl : List (Entry α)) (c : Cursor α) (j : Nat) : α × Cursor α :=
  if tbl = [] then (err, c)
  else if j < c.sampleCount then (c.value, c)
  else
    let c' := advance tbl (tbl.length + 1) c
    if j < c'.sampleCount then (c'.value, c') else (err, c')

/-- Pass runs until they have `j` items or more. -/
def resetLoop (j : Nat) : List (Entry α) → Cursor α → Bool × Cursor α
  | [], c => (false, c)
  | e :: tbl, c =>
    let c' : Cursor α := ⟨c.next + 1, c.sampleCount + e.count, e.value⟩
    if j ≤ c'.sampleCount then (true, c') else resetLoop j tbl c'

/-- A cursor for reading from item `j` on; the table may have too few items for it. -/
def reset (zero : α) (tbl : List (Entry α)) (j : Nat) : Bool × Cursor α := resetLoop j tbl (start zero)

/-! ## Cursors that can be read from -/

/-- The cursor is in step with the table. -/
structure InStep (tbl : List (Entry α)) (c : Cursor α) : Prop where
  next_le : c.next ≤ tbl.length
  sampleCount_eq : c.sampleCount = sumTo tbl c.next

/-- The items from `j` on and before `lim` that are passed have the value of the cursor, and `j` is not beyond
the next run. -/
structure Good (tbl : List (Entry α)) (c : Cursor α) (j lim : Nat) : Prop extends InStep tbl c where
  value_eq : ∀ i, j ≤ i → i < c.sampleCount → i < lim → (expand tbl)[i]? = some c.value
  reaches : j < (expand tbl).length → j < sumTo tbl (c.next + 1)

variable {tbl : List (Entry α)} {c : Cursor α} {j lim : Nat}

theorem inStep_start (zero : α) (tbl : List (Entry α)) : InStep tbl (start zero) :=
  ⟨Nat.zero_le _, (sumTo_zero tbl).symm⟩

theorem InStep.good (h : InStep tbl c) (hpos : Positive tbl) (hj : c.sampleCount = j) : Good tbl c j lim where
  toInStep := h
  value_eq i hi hc _ := by omega
  reaches hlen := by
    have hle : sumTo tbl c.next ≤ j := by
      have hcount := h.sampleCount_eq
      omega
    obtain ⟨e, he⟩ := getElem?_of_lt hlen hle
    have hcount := hpos e (List.mem_of_getElem? he)
    rw [sumTo_succ he, ← h.sampleCount_eq, hj]
    omega

theorem good_start (zero : α) (hpos : Positive tbl) : Good tbl (start zero) 0 lim :=
  (inStep_start zero tbl).good hpos rfl

theorem Good.later (h : Good tbl c j lim) {k : Nat} (hjk : j ≤ k) (hk : k ≤ c.sampleCount) (hpos : Positive tbl) :
    Good tbl c k lim where
  toInStep := h.toInStep
  value_eq i hi hc hl := h.value_eq i (by omega) hc hl
  reaches hlen := by
    obtain hlt | heq := Nat.lt_or_eq_of_le hk
    · have hle := sumTo_le_succ tbl c.next
      rw [← h.sampleCount_eq] at hle
      omega
    · exact (@InStep.good _ tbl c k lim h.toInStep hpos heq.symm).reaches hlen

theorem Good.earlier (h : Good tbl c j lim) {k : Nat} (hk : k < c.sampleCount)
    (hval : ∀ i, k ≤ i → i < j → (expand tbl)[i]? = some c.value) : Good tbl c k lim where
  toInStep := h.toInStep
  value_eq i hi hc hl := by
    by_cases hij : i < j
    · exact hval i hi hij
    · exact h.value_eq i (by omega) hc hl
  reaches _ := by
    have hle := sumTo_le_succ tbl c.next
    rw [← h.sampleCount_eq] at hle
    omega

theorem advance_eq [Inhabited α] (hpos : Positive tbl) {e : Entry α} (he : tbl[c.next]? = some e) (fuel : Nat) :
    advance tbl (fuel + 1) c = ⟨c.next + 1, c.sampleCount + e.count, e.value⟩ := by
  have hlt : c.next < tbl.length := (List.getElem?_eq_some_iff.mp he).1
  have hcount := hpos e (List.mem_of_getElem? he)
  simp only [advance, Nat.mod_eq_of_lt hlt, List.getD_eq_getElem?_getD, he, Option.getD_some]
  rw [if_neg]
  omega

theorem inStep_advance (h : InStep tbl c) {e : Entry α} (he : tbl[c.next]? = some e) :
    InStep tbl ⟨c.next + 1, c.sampleCount + e.count, e.value⟩ where
  next_le := (List.getElem?_eq_some_iff.mp he).1
  sampleCount_eq := by rw [sumTo_succ he, h.sampleCount_eq]

/-- **Reading on**: a good cursor gives the value of the item, and stays good for this item and the next. -/
theorem get_good [Inhabited α] (err : α) (hpos : Positive tbl) (h : Good tbl c j lim) (hj : j < (expand tbl).length)
    (hlim : j < lim) :
    (expand tbl)[j]? = some (get err tbl c j).1 ∧ Good tbl (get err tbl c j).2 j lim ∧
      j < (get err tbl c j).2.sampleCount ∧ (get err tbl c j).2.value = (get err tbl c j).1 := by
  have hne : tbl ≠ [] := by
    rintro rfl
    simp [expand] at hj
  simp only [get, if_neg hne]
  split
  · next hlt => exact ⟨h.value_eq j (Nat.le_refl j) hlt hlim, h, hlt, rfl⟩
  · next hge =>
    have hle : sumTo tbl c.next ≤ j := by
      rw [← h.sampleCount_eq]
      omega
    obtain ⟨e, he⟩ := getElem?_of_lt hj hle
    have hreach := h.reaches hj
    rw [sumTo_succ he, ← h.sampleCount_eq] at hreach
    have hval : ∀ i, j ≤ i → i < c.sampleCount + e.count → (expand tbl)[i]? = some e.value := by
      intro i hi hc
      rw [h.sampleCount_eq] at hc
      exact expand_getElem? he (by omega) hc
    rw [advance_eq hpos he, if_pos hreach]
    refine ⟨hval j (Nat.le_refl j) hreach, ⟨inStep_advance h.toInStep he, fun i hi hc _ => hval i hi hc, ?_⟩, hreach, rfl⟩
    intro _
    have hsucc := sumTo_le_succ tbl (c.next + 1)
    rw [sumTo_succ he, ← h.sampleCount_eq] at hsucc
    exact Nat.lt_of_lt_of_le hreach hsucc

theorem resetLoop_good {full : List (Entry α)} (hpos : Positive full) : ∀ (rest : List (Entry α)) (c : Cursor α),
    InStep full c → full.drop c.next = rest → (c.next = 0 ∨ c.sampleCount < j) → j ≤ (expand full).length →
    rest ≠ [] → (resetLoop j rest c).1 = true ∧ Good full (resetLoop j rest c).2 j lim
  | [], _, _, _, _, _, hrest => absurd rfl hrest
  | e :: rest, c, hc, hdrop, hlow, hj, _ => by
    have he : full[c.next]? = some e := by
      rw [← List.head?_drop, hdrop]
      rfl
    have hstep := inStep_advance hc he
    have htail : full.drop (c.next + 1) = rest := by
      rw [← List.drop_drop, hdrop]
      rfl
    simp only [resetLoop]
    split
    · next hle =>
      refine ⟨rfl, hstep, fun i hi hlt _ => ?_, fun hlen => ?_⟩
      · refine expand_getElem? he ?_ (by rw [← hc.sampleCount_eq]; exact hlt)
        rw [← hc.sampleCount_eq]
        obtain hzero | hbelow := hlow
        · have hcount : c.sampleCount = 0 := by rw [hc.sampleCount_eq, hzero, sumTo_zero]
          omega
        · omega
      · obtain hlt | heq := Nat.lt_or_eq_of_le hle
        · have hsucc := sumTo_le_succ full (c.next + 1)
          rw [sumTo_succ he, ← hc.sampleCount_eq] at hsucc
          exact Nat.lt_of_lt_of_le hlt hsucc
        · exact (@InStep.good _ full _ j lim hstep hpos heq.symm).reaches hlen
    · next hgt =>
      have hbelow : c.sampleCount + e.count < j := Nat.lt_of_not_le hgt
      refine resetLoop_good hpos rest _ hstep htail (Or.inr hbelow) hj ?_
      rintro rfl
      have hlen : full.length ≤ c.next + 1 := List.drop_eq_nil_iff.mp htail
      have hmono := sumTo_mono full hlen
      rw [sumTo_length, sumTo_succ he, ← hc.sampleCount_eq] at hmono
      omega

/-- **Resetting**: the cursor is good for the item that it is reset to. -/
theorem reset_good (zero : α) (hpos : Positive tbl) (hne : tbl ≠ []) (hj : j ≤ (expand tbl).length) :
    (reset zero tbl j).1 = true ∧ Good tbl (reset zero tbl j).2 j lim :=
  resetLoop_good hpos tbl (start zero) (inStep_start zero tbl) rfl (Or.inl rfl) hj hne

end Cursor

end Ftke.RunLength
