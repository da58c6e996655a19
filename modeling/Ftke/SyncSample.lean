import Mathlib.Algebra.Ring.Nat
import Mathlib.Data.List.Basic
import Mathlib.Data.Nat.Find
import Mathlib.Order.Bounds.Basic

/-!
# Ftke.SyncSample

The sync sample table of a track (`stss`): the samples at which decoding may start.

Both searches run over the table from the value 0, as if sample 0 were a sync sample.
`getSyncSampleBefore` steps back to the entry before the one that it stopped at, which is
none for a sample before the first sync sample (`search_cases`); `getSyncSampleFollowing`
steps past an exact hit, and has met none when the sample is 0.
-/

namespace Ftke.SyncSample

/-! ## The atom -/

/-- `SyncSampleAtom`.  The entries count the samples from 1. -/
structure SyncSampleAtom where
  psampleNumbers : List UInt32

/-- `PV_ERROR`. -/
def pvError : Int32 := -1

/-- The `while` loop of both searches over the entries that are left: `sync` and `count`
at its end. -/
def search (sampleNum : UInt32) : List UInt32 → UInt32 → ℕ → UInt32 × ℕ
  | [], sync, count => (sync, count)
  | entry :: rest, sync, count =>
    if sync < sampleNum then search sampleNum rest (entry - 1) (count + 1) else (sync, count)

namespace SyncSampleAtom

variable (a : SyncSampleAtom)

/-- `(int32)_entryCount`, the bound of every loop. -/
def entryCount : Int32 := (UInt32.ofNat a.psampleNumbers.length).toInt32

/-- The entries below that bound. -/
def visited : List UInt32 := a.psampleNumbers.take a.entryCount.toInt.toNat

/-- `_psampleNumbers[count] - 1`; `none` is a read outside the table. -/
def sampleAt (count : ℤ) : Option Int32 :=
  if count < 0 then none else a.psampleNumbers[count.toNat]?.map fun entry => (entry - 1).toInt32

/-- `getSyncSampleFollowing`. -/
def getSyncSampleFollowing (sampleNum : UInt32) : Option Int32 :=
  let (sync, count) := search sampleNum a.visited 0 0
  -- the table has ended below `sampleNum`
  if sync < sampleNum then some pvError
  else if sync = sampleNum then
    if count < a.entryCount.toInt then a.sampleAt count else some 0
  else some sync.toInt32

/-- `getSyncSampleBefore`. -/
def getSyncSampleBefore (sampleNum : UInt32) : Option Int32 :=
  let (sync, count) := search sampleNum a.visited 0 0
  if sync ≤ sampleNum then some sync.toInt32 else a.sampleAt (count - 2)

/-- `IsSyncSample`. -/
def isSyncSample (sampleNum : UInt32) : Bool := a.visited.any fun entry => entry - 1 == sampleNum

/-! ## The table as a set of samples -/

/-- The sync samples, counted from 0. -/
def syncSamples : Set ℕ := {s | ∃ entry ∈ a.psampleNumbers, entry.toNat = s + 1}

/-- A table whose entries increase from 1 on, as many as an `int32` counts. -/
structure Increasing : Prop where
  increasing : a.psampleNumbers.Pairwise (· < ·)
  pos : ∀ entry ∈ a.psampleNumbers, 1 ≤ entry
  short : a.psampleNumbers.length < 2 ^ 31

/-- A sample number as the searches return it. -/
def sample (s : ℕ) : Int32 := (UInt32.ofNat s).toInt32

end SyncSampleAtom

variable {n sync : UInt32} {count : ℕ} {a : SyncSampleAtom}

theorem toInt_entryCount : a.entryCount.toInt = ((a.psampleNumbers.length % 2 ^ 32 : ℕ) : ℤ).bmod (2 ^ 32) :=
  BitVec.toInt_eq_toNat_bmod (UInt32.ofNat a.psampleNumbers.length).toBitVec

theorem toInt_entryCount_of_short (h : a.psampleNumbers.length < 2 ^ 31) :
    a.entryCount.toInt = a.psampleNumbers.length := by
  rw [toInt_entryCount, Int.bmod]
  grind

theorem visited_of_short (h : a.psampleNumbers.length < 2 ^ 31) : a.visited = a.psampleNumbers := by
  rw [SyncSampleAtom.visited, toInt_entryCount_of_short h]
  simp

/-- From 2^31 entries on the bound is negative, and no entry is seen. -/
theorem visited_of_long (h : 2 ^ 31 ≤ a.psampleNumbers.length) (hfit : a.psampleNumbers.length < 2 ^ 32) :
    a.visited = [] := by
  have hneg : a.entryCount.toInt ≤ 0 := by
    rw [toInt_entryCount, Int.bmod]
    grind
  rw [SyncSampleAtom.visited, Int.toNat_of_nonpos hneg, List.take_zero]

/-! ## The loop -/

theorem search_stop (h : ¬sync < n) (l : List UInt32) : search n l sync count = (sync, count) := by
  cases l <;> simp [search, h]

/-- **The loop stops behind the first sync sample at or after `n`, or at the end of the table.** -/
theorem search_cases (count : ℕ) (l : List UInt32) (h : sync < n) :
    (∃ A entry B, l = A ++ entry :: B ∧ (∀ e ∈ A, e - 1 < n) ∧ ¬entry - 1 < n ∧
      search n l sync count = (entry - 1, count + A.length + 1)) ∨
    ((∀ e ∈ l, e - 1 < n) ∧ ∃ last < n, search n l sync count = (last, count + l.length) ∧
      (l = [] ∧ last = sync ∨ ∃ A entry, l = A ++ [entry] ∧ last = entry - 1)) := by
  induction l generalizing sync count with
  | nil => exact .inr ⟨by simp, sync, h, by simp [search], .inl ⟨rfl, rfl⟩⟩
  | cons entry rest ih =>
    rw [search, if_pos h]
    by_cases hlt : entry - 1 < n
    · rcases ih (count + 1) hlt with
        ⟨A, e, B, rfl, hA, he, heq⟩ | ⟨hall, last, hlast, heq, hend⟩
      · refine .inl ⟨entry :: A, e, B, rfl, by simpa [hlt] using hA, he, ?_⟩
        rw [heq, List.length_cons]
        congr 1
        omega
      · refine .inr ⟨by simpa [hlt] using hall, last, hlast, ?_, .inr ?_⟩
        · rw [heq, List.length_cons]
          congr 1
          omega
        · rcases hend with ⟨rfl, rfl⟩ | ⟨A, e, rfl, rfl⟩
          · exact ⟨[], entry, rfl, rfl⟩
          · exact ⟨entry :: A, e, rfl, rfl⟩
    · exact .inl ⟨[], entry, rest, rfl, by simp, hlt, search_stop hlt rest⟩

/-! ## What the table has around a sample -/

section

variable {A B : List UInt32} {p : UInt32} {k s : ℕ}

theorem toNat_pred (hp : 1 ≤ p) : (p - 1).toNat + 1 = p.toNat := by
  have hsub := UInt32.toNat_sub_of_le _ _ hp
  have hle := UInt32.le_iff_toNat_le.mp hp
  simp only [UInt32.toNat_one] at hsub hle
  omega

theorem sample_toNat (p : UInt32) : SyncSampleAtom.sample p.toNat = p.toInt32 := by
  simp [SyncSampleAtom.sample]

theorem mem_syncSamples (h : a.Increasing) : s ∈ a.syncSamples ↔ ∃ e ∈ a.psampleNumbers, (e - 1).toNat = s := by
  constructor
  · rintro ⟨e, he, hs⟩
    exact ⟨e, he, by have := toNat_pred (h.pos e he); omega⟩
  · rintro ⟨e, he, rfl⟩
    exact ⟨e, he, (toNat_pred (h.pos e he)).symm⟩

/-- The entries increase along the table, and so do the samples. -/
theorem toNat_pred_lt (h : a.Increasing) (hl : a.psampleNumbers = A ++ p :: B) :
    (∀ e ∈ A, (e - 1).toNat < (p - 1).toNat) ∧ ∀ e ∈ B, (p - 1).toNat < (e - 1).toNat := by
  have hinc := h.increasing
  have hpos := h.pos
  rw [hl] at hinc hpos
  have hp := toNat_pred (hpos p (by simp))
  have ⟨_, hB, hA⟩ := List.pairwise_append.mp hinc
  constructor
  · intro e he
    have hlt := UInt32.lt_iff_toNat_lt.mp (hA e he p (by simp))
    have := toNat_pred (hpos e (by simp [he]))
    omega
  · intro e he
    have hlt := UInt32.lt_iff_toNat_lt.mp ((List.pairwise_cons.mp hB).1 e he)
    have := toNat_pred (hpos e (by simp [he]))
    omega

theorem isGreatest_entry (h : a.Increasing) (hl : a.psampleNumbers = A ++ p :: B)
    (hp : (p - 1).toNat ≤ k) (hB : ∀ e ∈ B, k < (e - 1).toNat) :
    IsGreatest {s ∈ a.syncSamples | s ≤ k} (p - 1).toNat := by
  refine ⟨⟨(mem_syncSamples h).mpr ⟨p, by simp [hl], rfl⟩, hp⟩, fun s ⟨hs, hk⟩ => ?_⟩
  obtain ⟨e, he, rfl⟩ := (mem_syncSamples h).mp hs
  have hA := (toNat_pred_lt h hl).1 e
  have hB := hB e
  simp only [hl, List.mem_append, List.mem_cons] at he
  grind

theorem isLeast_entry (h : a.Increasing) (hl : a.psampleNumbers = A ++ p :: B)
    (hA : ∀ e ∈ A, (e - 1).toNat < k) (hp : k ≤ (p - 1).toNat) :
    IsLeast {s ∈ a.syncSamples | k ≤ s} (p - 1).toNat := by
  refine ⟨⟨(mem_syncSamples h).mpr ⟨p, by simp [hl], rfl⟩, hp⟩, fun s ⟨hs, hk⟩ => ?_⟩
  obtain ⟨e, he, rfl⟩ := (mem_syncSamples h).mp hs
  have hA := hA e
  have hB := (toNat_pred_lt h hl).2 e
  simp only [hl, List.mem_append, List.mem_cons] at he
  grind

theorem sampleAt_length (hl : a.psampleNumbers = A ++ p :: B) :
    a.sampleAt A.length = some (p - 1).toInt32 := by
  simp [SyncSampleAtom.sampleAt, hl]

end

/-! ## The searches -/

/-- What the comment of `getSyncSampleFollowing` and its callers ask of the three lookups. -/
structure Exact (a : SyncSampleAtom) (n : UInt32) : Prop where
  before : ∀ s, IsGreatest {s ∈ a.syncSamples | s ≤ n.toNat} s →
    a.getSyncSampleBefore n = some (SyncSampleAtom.sample s)
  later : n.toNat ∈ a.syncSamples → ∀ s, IsLeast {s ∈ a.syncSamples | n.toNat + 1 ≤ s} s →
    a.getSyncSampleFollowing n = some (SyncSampleAtom.sample s)
  following : ¬(n.toNat ∈ a.syncSamples ∧ ∃ s ∈ a.syncSamples, n.toNat + 1 ≤ s) →
    ∀ s, IsLeast {s ∈ a.syncSamples | n.toNat ≤ s} s →
      a.getSyncSampleFollowing n = some (SyncSampleAtom.sample s)
  within : a.getSyncSampleBefore n ≠ none ∧ a.getSyncSampleFollowing n ≠ none
  agree : a.isSyncSample n = true ↔ n.toNat ∈ a.syncSamples

/-- What they answer: behind the last sync sample the search ahead gives 0. -/
structure Answers (a : SyncSampleAtom) (n : UInt32) : Prop where
  before : ∀ s, IsGreatest {s ∈ a.syncSamples | s ≤ n.toNat} s →
    a.getSyncSampleBefore n = some (SyncSampleAtom.sample s)
  later : 0 < n.toNat → n.toNat ∈ a.syncSamples → ∀ s, IsLeast {s ∈ a.syncSamples | n.toNat + 1 ≤ s} s →
    a.getSyncSampleFollowing n = some (SyncSampleAtom.sample s)
  last : 0 < n.toNat → IsGreatest a.syncSamples n.toNat → a.getSyncSampleFollowing n = some 0
  following : n.toNat ∉ a.syncSamples → ∀ s, IsLeast {s ∈ a.syncSamples | n.toNat ≤ s} s →
    a.getSyncSampleFollowing n = some (SyncSampleAtom.sample s)
  within : a.getSyncSampleFollowing n ≠ none ∧
    ((n = 0 ∨ a.psampleNumbers = [] ∨ ∃ s ∈ a.syncSamples, s ≤ n.toNat) → a.getSyncSampleBefore n ≠ none)
  agree : a.isSyncSample n = true ↔ n.toNat ∈ a.syncSamples

theorem lt_of_pred_lt {A : List UInt32} (hA : ∀ e ∈ A, e - 1 < n) : ∀ e ∈ A, (e - 1).toNat < n.toNat :=
  fun e he => UInt32.lt_iff_toNat_lt.mp (hA e he)

/-- **`getSyncSampleBefore` finds the last sync sample up to its argument.** -/
theorem getSyncSampleBefore_eq (h : a.Increasing) {s : ℕ}
    (hs : IsGreatest {s ∈ a.syncSamples | s ≤ n.toNat} s) :
    a.getSyncSampleBefore n = some (SyncSampleAtom.sample s) := by
  rw [SyncSampleAtom.getSyncSampleBefore, visited_of_short h.short]
  by_cases hn : 0 < n
  · rcases search_cases 0 a.psampleNumbers hn with
      ⟨A, e, B, hl, hA, he, heq⟩ | ⟨hall, last, hlast, heq, hend⟩
    · have hle : n.toNat ≤ (e - 1).toNat := Nat.not_lt.mp fun h => he (UInt32.lt_iff_toNat_lt.mpr h)
      have hB := (toNat_pred_lt h hl).2
      simp only [heq]
      split
      · rename_i hhit
        have hhit := UInt32.le_iff_toNat_le.mp hhit
        have hgreatest := isGreatest_entry (k := n.toNat) h hl (by omega) (by grind)
        rw [hs.unique hgreatest, sample_toNat]
      · rename_i hmiss
        have hmiss : n.toNat < (e - 1).toNat :=
          Nat.not_le.mp fun h => hmiss (UInt32.le_iff_toNat_le.mpr h)
        -- the search has gone past the sample: the entry before is the one
        rcases List.eq_nil_or_concat' A with rfl | ⟨A, p, rfl⟩
        · obtain ⟨⟨hmem, hle⟩, -⟩ := hs
          obtain ⟨d, hd, rfl⟩ := (mem_syncSamples h).mp hmem
          rw [hl] at hd
          grind
        · have hl' : a.psampleNumbers = A ++ p :: e :: B := by simp [hl]
          have hp := lt_of_pred_lt hA p (by simp)
          have hgreatest := isGreatest_entry (k := n.toNat) h hl' (by omega) (by grind)
          rw [hs.unique hgreatest, sample_toNat, ← sampleAt_length hl']
          congr 1
          simp
          omega
    · rw [heq]
      simp only [UInt32.le_of_lt hlast, if_true]
      rcases hend with ⟨hnil, rfl⟩ | ⟨A, p, hl, rfl⟩
      · obtain ⟨⟨⟨d, hd, -⟩, -⟩, -⟩ := hs
        rw [hnil] at hd
        contradiction
      · have hp := lt_of_pred_lt hall p (by simp [hl])
        have hgreatest := isGreatest_entry (k := n.toNat) h hl (by omega) (by simp)
        rw [hs.unique hgreatest, sample_toNat]
  · obtain rfl : n = 0 := by simpa [UInt32.lt_iff_toNat_lt, ← UInt32.toNat_inj] using hn
    have hzero : s = 0 := by simpa using hs.1.2
    rw [search_stop hn, hzero]
    rfl

/-- Where the search ahead ends, and with what. -/
theorem getSyncSampleFollowing_cases (h : a.Increasing) (n : UInt32) :
    (n = 0 ∧ a.getSyncSampleFollowing n = if a.psampleNumbers = [] then some 0 else a.sampleAt 0) ∨
    (0 < n ∧ (∀ e ∈ a.psampleNumbers, (e - 1).toNat < n.toNat) ∧ a.getSyncSampleFollowing n = some pvError) ∨
    ∃ (A : List UInt32) (e : UInt32) (B : List UInt32),
      0 < n ∧ a.psampleNumbers = A ++ e :: B ∧ (∀ d ∈ A, (d - 1).toNat < n.toNat) ∧
      (n.toNat < (e - 1).toNat ∧ a.getSyncSampleFollowing n = some (e - 1).toInt32 ∨
        n.toNat = (e - 1).toNat ∧
          (B = [] ∧ a.getSyncSampleFollowing n = some 0 ∨
            ∃ d D, B = d :: D ∧ a.getSyncSampleFollowing n = some (d - 1).toInt32)) := by
  rw [SyncSampleAtom.getSyncSampleFollowing, visited_of_short h.short, toInt_entryCount_of_short h.short]
  by_cases hn : 0 < n
  · rcases search_cases 0 a.psampleNumbers hn with
      ⟨A, e, B, hl, hA, he, heq⟩ | ⟨hall, last, hlast, heq, -⟩
    · have hle : n.toNat ≤ (e - 1).toNat := Nat.not_lt.mp fun h => he (UInt32.lt_iff_toNat_lt.mpr h)
      refine .inr (.inr ⟨A, e, B, hn, hl, lt_of_pred_lt hA, ?_⟩)
      simp only [heq, he, if_false]
      by_cases hhit : e - 1 = n
      · refine .inr ⟨by rw [hhit], ?_⟩
        rw [if_pos hhit]
        cases B with
        | nil => exact .inl ⟨rfl, by simp [hl]⟩
        | cons d D =>
          have hl' : a.psampleNumbers = (A ++ [e]) ++ d :: D := by simp [hl]
          refine .inr ⟨d, D, rfl, ?_⟩
          have hmore : ((0 + A.length + 1 : ℕ) : ℤ) < (a.psampleNumbers.length : ℤ) := by
            rw [hl, List.length_append, List.length_cons, List.length_cons]
            omega
          rw [if_pos hmore, ← sampleAt_length hl']
          simp
      · have hne : n.toNat ≠ (e - 1).toNat := fun h => hhit (UInt32.toNat_inj.mp h.symm)
        exact .inl ⟨by omega, if_neg hhit⟩
    · exact .inr (.inl ⟨hn, lt_of_pred_lt hall, by simp [heq, hlast]⟩)
  · obtain rfl : n = 0 := by simpa [UInt32.lt_iff_toNat_lt, ← UInt32.toNat_inj] using hn
    refine .inl ⟨rfl, ?_⟩
    simp only [search_stop hn, hn, if_false, if_true]
    cases hl : a.psampleNumbers <;> simp

/-- **`getSyncSampleFollowing` finds the first sync sample from its argument on.** -/
theorem getSyncSampleFollowing_eq (h : a.Increasing) {s : ℕ} (hn : n.toNat ∉ a.syncSamples)
    (hs : IsLeast {s ∈ a.syncSamples | n.toNat ≤ s} s) :
    a.getSyncSampleFollowing n = some (SyncSampleAtom.sample s) := by
  obtain ⟨e, he, hes⟩ := (mem_syncSamples h).mp hs.1.1
  have hle := hs.1.2
  rcases getSyncSampleFollowing_cases h n with
    ⟨rfl, heq⟩ | ⟨-, hall, -⟩ | ⟨A, p, B, -, hl, hA, ⟨hmiss, heq⟩ | ⟨hhit, -⟩⟩
  · rcases hl : a.psampleNumbers with _ | ⟨p, B⟩
    · simp [hl] at he
    · have hleast := isLeast_entry (A := []) (k := 0) h hl (by simp) (by simp)
      rw [hs.unique hleast, sample_toNat, heq, if_neg (by simp [hl]), ← sampleAt_length (A := []) hl]
      simp
  · exact absurd (hall e he) (by omega)
  · rw [hs.unique (isLeast_entry h hl hA (by omega)), sample_toNat, heq]
  · exact absurd ((mem_syncSamples h).mpr ⟨p, by simp [hl], hhit.symm⟩) hn

/-- **Behind a sync sample it finds the next one.** -/
theorem getSyncSampleFollowing_later (h : a.Increasing) {s : ℕ} (hpos : 0 < n.toNat)
    (hn : n.toNat ∈ a.syncSamples) (hs : IsLeast {s ∈ a.syncSamples | n.toNat + 1 ≤ s} s) :
    a.getSyncSampleFollowing n = some (SyncSampleAtom.sample s) := by
  obtain ⟨e, he, hen⟩ := (mem_syncSamples h).mp hn
  obtain ⟨d, hd, hds⟩ := (mem_syncSamples h).mp hs.1.1
  have hle := hs.1.2
  rcases getSyncSampleFollowing_cases h n with
    ⟨rfl, -⟩ | ⟨-, hall, -⟩ | ⟨A, p, B, -, hl, hA, ⟨hmiss, -⟩ | ⟨hhit, ⟨rfl, -⟩ | ⟨q, D, rfl, heq⟩⟩⟩
  · simp at hpos
  · exact absurd (hall e he) (by omega)
  · have hB := (toNat_pred_lt h hl).2 e
    have hA := hA e
    simp only [hl, List.mem_append, List.mem_cons] at he
    grind
  · have hA := hA d
    simp only [hl, List.mem_append, List.mem_singleton] at hd
    grind
  · have hl' : a.psampleNumbers = (A ++ [p]) ++ q :: D := by simp [hl]
    have hq := (toNat_pred_lt h hl).2 q (by simp)
    have hleast := isLeast_entry (k := n.toNat + 1) h hl' (by grind) (by omega)
    rw [hs.unique hleast, sample_toNat, heq]

/-- **Behind the last sync sample it gives 0.** -/
theorem getSyncSampleFollowing_last (h : a.Increasing) (hpos : 0 < n.toNat)
    (hn : IsGreatest a.syncSamples n.toNat) : a.getSyncSampleFollowing n = some 0 := by
  obtain ⟨e, he, hen⟩ := (mem_syncSamples h).mp hn.1
  have hmax : ∀ d ∈ a.psampleNumbers, (d - 1).toNat ≤ n.toNat := fun d hd =>
    hn.2 ((mem_syncSamples h).mpr ⟨d, hd, rfl⟩)
  rcases getSyncSampleFollowing_cases h n with
    ⟨rfl, -⟩ | ⟨-, hall, -⟩ | ⟨A, p, B, -, hl, hA, ⟨hmiss, -⟩ | ⟨hhit, ⟨-, heq⟩ | ⟨q, D, rfl, -⟩⟩⟩
  · simp at hpos
  · exact absurd (hall e he) (by omega)
  · exact absurd (hmax p (by simp [hl])) (by omega)
  · exact heq
  · have hq := (toNat_pred_lt h hl).2 q (by simp)
    exact absurd (hmax q (by simp [hl])) (by omega)

theorem getSyncSampleFollowing_within (h : a.Increasing) (n : UInt32) : a.getSyncSampleFollowing n ≠ none := by
  rcases getSyncSampleFollowing_cases h n with
    ⟨-, heq⟩ | ⟨-, -, heq⟩ | ⟨A, p, B, -, -, -, ⟨-, heq⟩ | ⟨-, ⟨-, heq⟩ | ⟨q, D, -, heq⟩⟩⟩
  · rcases hl : a.psampleNumbers with _ | ⟨p, B⟩
    · simp [heq, hl]
    · have hp := sampleAt_length (A := []) hl
      rw [heq, if_neg (by simp [hl])]
      grind
  all_goals simp [heq]

/-- The table is read within it where a sync sample precedes the argument. -/
theorem getSyncSampleBefore_within (h : a.Increasing)
    (hn : n = 0 ∨ a.psampleNumbers = [] ∨ ∃ s ∈ a.syncSamples, s ≤ n.toNat) :
    a.getSyncSampleBefore n ≠ none := by
  rcases hn with rfl | hnil | ⟨s, hs, hle⟩
  · rw [SyncSampleAtom.getSyncSampleBefore, search_stop (by decide)]
    simp
  · rw [SyncSampleAtom.getSyncSampleBefore, visited_of_short h.short, hnil, search]
    simp
  · classical
    obtain ⟨m, hm⟩ : ∃ m, IsGreatest {s ∈ a.syncSamples | s ≤ n.toNat} m :=
      ⟨Nat.findGreatest (· ∈ a.syncSamples) n.toNat, ⟨Nat.findGreatest_spec hle hs, Nat.findGreatest_le _⟩,
        fun _ h => Nat.le_findGreatest h.2 h.1⟩
    simp [getSyncSampleBefore_eq h hm]

theorem isSyncSample_iff (h : a.Increasing) : a.isSyncSample n = true ↔ n.toNat ∈ a.syncSamples := by
  rw [SyncSampleAtom.isSyncSample, visited_of_short h.short, List.any_eq_true, mem_syncSamples h]
  simp only [beq_iff_eq, UInt32.toNat_inj]

/-- **The lookups of a table of sync samples.** -/
theorem lookups_answer (a : SyncSampleAtom) (n : UInt32) (h : a.Increasing) : Answers a n where
  before _ := getSyncSampleBefore_eq h
  later hpos hn _ := getSyncSampleFollowing_later h hpos hn
  last := getSyncSampleFollowing_last h
  following hn _ := getSyncSampleFollowing_eq h hn
  within := ⟨getSyncSampleFollowing_within h n, getSyncSampleBefore_within h⟩
  agree := isSyncSample_iff h

theorem lookups_answer_two : Answers ⟨[3, 8]⟩ 4 :=
  lookups_answer ⟨[3, 8]⟩ 4 ⟨by simp, by simp, by simp⟩

/-- With 2^31 entries and more the loops see none of them. -/
theorem not_exact_of_long (h : 2 ^ 31 ≤ a.psampleNumbers.length) (hfit : a.psampleNumbers.length < 2 ^ 32)
    (hn : n.toNat ∈ a.syncSamples) : ¬Exact a n := fun hexact => by
  have hseen := hexact.agree.mpr hn
  rw [SyncSampleAtom.isSyncSample, visited_of_long h hfit] at hseen
  contradiction

/-- Behind the last sync sample the answer is 0; before the first one the entry in front of
the table is read; ahead of the sync sample 0 the answer is 0 again. -/
theorem lookups_not_exact : ¬Exact ⟨[3]⟩ 2 ∧ ¬Exact ⟨[3]⟩ 1 ∧ ¬Exact ⟨[1, 8]⟩ 0 := by
  refine ⟨fun h => ?_, fun h => h.within.1 (by decide), fun h => ?_⟩
  · have hleast : IsLeast {s ∈ SyncSampleAtom.syncSamples ⟨[3]⟩ | (2 : UInt32).toNat ≤ s} 2 := by
      constructor <;> simp [SyncSampleAtom.syncSamples, lowerBounds]
    have hlast : ¬((2 : UInt32).toNat ∈ SyncSampleAtom.syncSamples ⟨[3]⟩ ∧
        ∃ s ∈ SyncSampleAtom.syncSamples ⟨[3]⟩, (2 : UInt32).toNat + 1 ≤ s) := by
      simp [SyncSampleAtom.syncSamples]
    exact absurd (h.following hlast 2 hleast) (by decide)
  · have hleast : IsLeast {s ∈ SyncSampleAtom.syncSamples ⟨[1, 8]⟩ | (0 : UInt32).toNat + 1 ≤ s} 7 := by
      constructor <;> simp [SyncSampleAtom.syncSamples, lowerBounds]
    exact absurd (h.later (by simp [SyncSampleAtom.syncSamples]) 7 hleast) (by decide)

end Ftke.SyncSample
