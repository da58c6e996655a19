import Ftke.TableWindow
import Mathlib.Data.UInt

/-!
# Ftke.SampleSize

The sample size table (`samplesizeatom.cpp`) for samples of different sizes. With parsing mode 1 it
has a window like the other tables, and a short cut: an entry of the block before the current one is
taken from the window without reading it again. The short cut compares the index with how far the
current block has been filled, but the index is one in the table, not in the block.
-/

namespace Ftke.SampleSize

open TableWindow

/-- Whether the file is read through a buffer, by which the window is larger. -/
inductive Buffering where
  | file
  | mbds

/-- `MAX_CACHED_TABLE_ENTRIES_FILE` or `_MBDS`. -/
def Buffering.size : Buffering → Nat
  | file => 4096
  | mbds => 16384

/-- `TABLE_ENTRIES_THRESHOLD_FILE` or `_MBDS`. -/
def Buffering.threshold : Buffering → Nat
  | file => 1024
  | mbds => 4096

instance (b : Buffering) : NeZero b.size := ⟨by cases b <;> decide⟩

/-- `PV_ERROR`. -/
def pvError : UInt32 := 0xFFFFFFFF

/-- The table with its window, and `_SkipOldEntry`. -/
structure Sizes (size count : Nat) where
  window : Window UInt32 size count
  skipOldEntry : Bool

variable {size count : Nat}

/-- The short cut is taken: the entry falls in the block before the current one, and its index is
past the place in the window that is filled next. -/
def Sizes.ShortCut (s : Sizes size count) (index : Nat) : Prop :=
  s.skipOldEntry = false ∧ s.window.parsedEntryCnt % size < index ∧ s.window.currBuffNumber = index / size + 1

instance (s : Sizes size count) (index : Nat) : Decidable (s.ShortCut index) :=
  inferInstanceAs (Decidable (_ ∧ _ ∧ _))

/-- `getSampleSizeAt` in parsing mode 1. Without the short cut it does what `CheckAndParseEntry` of
the other tables does. -/
def Sizes.getSampleSizeAt [NeZero size] (file : List UInt32) (threshold fuel index : Nat) (s : Sizes size count) :
    Option (UInt32 × Sizes size count) :=
  if index < count then
    if s.window.parsedEntryCnt ≤ index then
      let w := (s.window.parseEntryUnit file threshold index).2
      some (w.slot index, { s with window := w })
    else if s.ShortCut index then some (s.window.slot index, s)
    else (s.window.checkAndParseEntry file threshold fuel index).map fun w => (w.slot index, ⟨w, false⟩)
  else some (pvError, s)

/-- A call, or the flag being set from outside. -/
inductive Call where
  | skipOldEntry
  | getSampleSizeAt (index : Nat)

/-- The sizes that the calls return in parsing mode 1. -/
def Sizes.answers [NeZero size] (file : List UInt32) (threshold fuel : Nat) :
    List Call → Sizes size count → Option (List UInt32)
  | [], _ => some []
  | .skipOldEntry :: calls, s => answers file threshold fuel calls { s with skipOldEntry := true }
  | .getSampleSizeAt index :: calls, s =>
    (s.getSampleSizeAt file threshold fuel index).bind fun r =>
      (answers file threshold fuel calls r.2).map (r.1 :: ·)

/-- The sizes that the calls return in parsing mode 0; `none` for an index outside the vector. -/
def wholeAnswers (entries : List UInt32) : List Call → Option (List UInt32)
  | [] => some []
  | .skipOldEntry :: calls => wholeAnswers entries calls
  | .getSampleSizeAt index :: calls => entries[index]?.bind fun e => (wholeAnswers entries calls).map (e :: ·)

/-- The sizes that the calls return. -/
def sizes (parsingMode : Nat) (b : Buffering) (t : Stored UInt32 4) (places : Vector Nat (t.entryCount / b.size + 1))
    (memory : Vector UInt32 b.size) (fuel : Nat) (calls : List Call) : Option (List UInt32) :=
  if parsingMode = 1 ∧ b.size < t.entryCount then
    Sizes.answers t.file b.threshold fuel calls ⟨Window.new places memory, false⟩
  else wholeAnswers t.entries calls

/-! ## When the short cut is right -/

/-- Where the reading that filled the window has begun, after a call. -/
def Sizes.baseAfter (s : Sizes size count) (base index : Nat) : Nat :=
  if s.ShortCut index then base else s.window.baseAfter base index

/-- If the short cut is taken for an entry, it has been read since the file was last gone back in, and
its slot has not been filled again. -/
def Sizes.Fresh (s : Sizes size count) (base index : Nat) : Prop :=
  index < s.window.parsedEntryCnt → s.ShortCut index → base ≤ index ∧ s.window.parsedEntryCnt ≤ index + size

/-- Every call finds its entry fresh, if it takes the short cut. -/
def Sizes.AllFresh [NeZero size] (file : List UInt32) (threshold fuel : Nat) :
    List Call → (base : Nat) → Sizes size count → Prop
  | [], _, _ => True
  | .skipOldEntry :: calls, base, s => AllFresh file threshold fuel calls base { s with skipOldEntry := true }
  | .getSampleSizeAt index :: calls, base, s =>
    s.Fresh base index ∧
      ∀ r, s.getSampleSizeAt file threshold fuel index = some r →
        AllFresh file threshold fuel calls (s.baseAfter base index) r.2

section

variable [NeZero size] {file : List UInt32} {base threshold fuel index : Nat} {s : Sizes size count}

/-- **A call returns its entry**, if the short cut is not taken for one that is not in the window. -/
theorem getSampleSizeAt_fresh (h : s.window.Valid file base) (hcount : count ≤ file.length)
    (hfit : count + threshold ≤ 2 ^ 32) (hpos : 0 < threshold) (hsize : threshold ≤ size) (hfuel : size < fuel)
    (hi : index < count) (hfresh : s.Fresh base index) :
    ∃ e s', s.getSampleSizeAt file threshold fuel index = some (e, s') ∧ file[index]? = some e ∧
      s'.window.Valid file (s.baseAfter base index) := by
  obtain ⟨w', hcheck, hw', hentry⟩ := h.checkAndParseEntry hcount hfit hpos hsize hfuel hi
  by_cases hparsed : s.window.parsedEntryCnt ≤ index
  · have hbase : s.window.baseAfter base index = base := if_pos (.inl hparsed)
    simp only [Window.checkAndParseEntry, if_pos hparsed, Option.some.injEq] at hcheck
    subst hcheck
    refine ⟨_, _, by simp only [Sizes.getSampleSizeAt, if_pos hi, if_pos hparsed]; rfl, hentry, ?_⟩
    simpa only [Sizes.baseAfter, hbase, ite_self] using hw'
  · by_cases hcut : s.ShortCut index
    · obtain ⟨hle, hwin⟩ := hfresh (by omega) hcut
      refine ⟨_, s, by simp only [Sizes.getSampleSizeAt, if_pos hi, if_neg hparsed, if_pos hcut]; rfl, ?_, ?_⟩
      · exact h.holds.entry index hle (by omega) hwin
      · simpa only [Sizes.baseAfter, if_pos hcut] using h
    · refine ⟨_, ⟨w', false⟩, ?_, hentry, ?_⟩
      · simp only [Sizes.getSampleSizeAt, if_pos hi, if_neg hparsed, if_neg hcut, hcheck, Option.map_some]
      · simpa only [Sizes.baseAfter, if_neg hcut] using hw'

/-- **The short cut to a slot that has been filled again** returns the entry of the current block. -/
theorem getSampleSizeAt_shortCut (h : s.window.Valid file base) (hi : index < count) (hcut : s.ShortCut index)
    (hover : index + size < s.window.parsedEntryCnt) :
    ∃ e, s.getSampleSizeAt file threshold fuel index = some (e, s) ∧ file[index + size]? = some e := by
  have hparsed : ¬s.window.parsedEntryCnt ≤ index := by omega
  refine ⟨s.window.slot index, by simp only [Sizes.getSampleSizeAt, if_pos hi, if_neg hparsed, if_pos hcut], ?_⟩
  have hblock : s.window.currBuffNumber = (index + size) / size := by
    rw [hcut.2.2, Nat.add_div_right _ (NeZero.pos size)]
  rw [h.entry_of_block hover hblock]
  simp [Window.slot]

end

/-- **In a run whose short cuts are all right, mode 1 returns the sizes of mode 0.** -/
theorem answers_fresh (b : Buffering) (t : Stored UInt32 4) {fuel : Nat} (hfuel : b.size < fuel) :
    ∀ {calls : List Call} {base : Nat} {s : Sizes b.size t.entryCount}, s.window.Valid t.file base →
      (∀ index, .getSampleSizeAt index ∈ calls → index < t.entryCount) →
      s.AllFresh t.file b.threshold fuel calls base →
        s.answers t.file b.threshold fuel calls = wholeAnswers t.entries calls
  | [], _, _, _, _, _ => rfl
  | .skipOldEntry :: calls, base, s, hs, hin, hfresh => by
    rw [Sizes.answers, wholeAnswers]
    exact answers_fresh b t hfuel hs (fun index h => hin index (List.mem_cons_of_mem _ h)) hfresh
  | .getSampleSizeAt index :: calls, base, s, hs, hin, hfresh => by
    have hi := hin index List.mem_cons_self
    have hfits := t.fits
    have hfit : t.entryCount + b.threshold ≤ 2 ^ 32 := by
      have hthreshold : b.threshold ≤ 4096 := by cases b <;> decide
      simp only [Stored.entryCount]
      omega
    obtain ⟨e, s', hget, hentry, hs'⟩ := getSampleSizeAt_fresh hs (by simp) hfit (by cases b <;> decide)
      (by cases b <;> decide) hfuel hi hfresh.1
    have hread : t.entries[index]? = some e := by rw [← hentry, List.getElem?_append_left hi]
    rw [Sizes.answers, wholeAnswers, hget, hread]
    simp only [Option.bind_some]
    rw [answers_fresh b t hfuel hs' (fun index h => hin index (List.mem_cons_of_mem _ h)) (hfresh.2 _ hget)]

/-- **Mode 1 returns the sizes of mode 0**, as long as every entry that the short cut is taken for has
been read since the file was last gone back in and is still in its slot. -/
theorem sizes_fresh (b : Buffering) (t : Stored UInt32 4) (places : Vector Nat (t.entryCount / b.size + 1))
    (memory : Vector UInt32 b.size) {fuel : Nat} (hfuel : b.size < fuel) {calls : List Call}
    (hin : ∀ index, .getSampleSizeAt index ∈ calls → index < t.entryCount)
    (hfresh : b.size < t.entryCount →
      Sizes.AllFresh t.file b.threshold fuel calls 0 ⟨Window.new places memory, false⟩) :
    sizes 1 b t places memory fuel calls = sizes 0 b t places memory fuel calls := by
  simp only [sizes, true_and, zero_ne_one, false_and, if_false]
  split
  · exact answers_fresh b t hfuel (Window.valid_new places memory) hin (hfresh ‹_›)
  · rfl

/-! ## A short cut that is wrong -/

/-- The sizes 0, 1, ... -/
@[irreducible] def countUp (n : Nat) : List UInt32 := (List.range n).map UInt32.ofNat

theorem length_countUp (n : Nat) : (countUp n).length = n := by rw [countUp, List.length_map, List.length_range]

theorem getElem?_countUp {i n : Nat} (hi : i < n) : (countUp n)[i]? = some (UInt32.ofNat i) := by
  rw [countUp, List.getElem?_map, List.getElem?_range hi, Option.map_some]

/-- A table of two windows' length. -/
def twoBlockTable : Stored UInt32 4 := ⟨countUp 8192, [], by rw [length_countUp]; decide⟩

theorem getElem?_file {i : Nat} (hi : i < 8192) : twoBlockTable.file[i]? = some (UInt32.ofNat i) := by
  rw [Stored.file, twoBlockTable, List.append_nil, getElem?_countUp hi]

theorem sizes_fresh_twoBlocks :
    sizes 1 .file twoBlockTable (.replicate _ 0) (.replicate _ 0) 4097 [.getSampleSizeAt 8191, .skipOldEntry] =
      sizes 0 .file twoBlockTable (.replicate _ 0) (.replicate _ 0) 4097 [.getSampleSizeAt 8191, .skipOldEntry] := by
  refine sizes_fresh .file twoBlockTable _ _ (by decide) (fun index h => ?_) fun _ =>
    ⟨fun h => absurd h (Nat.not_lt_zero _), fun _ _ => trivial⟩
  obtain rfl : index = 8191 := by simpa using h
  rw [show twoBlockTable.entryCount = 8192 from length_countUp 8192]
  decide

theorem getSampleSizeAt_twoBlocks (places : Vector Nat (twoBlockTable.entryCount / Buffering.file.size + 1))
    (memory : Vector UInt32 Buffering.file.size) :
    ∃ s : Sizes Buffering.file.size twoBlockTable.entryCount,
      Sizes.getSampleSizeAt twoBlockTable.file 1024 4097 7168 ⟨Window.new places memory, false⟩ = some (7168, s) ∧
        s.window.Valid twoBlockTable.file 0 ∧ s.window.parsedEntryCnt = 8192 ∧ s.skipOldEntry = false := by
  have hcount : twoBlockTable.entryCount = 8192 := length_countUp 8192
  have hlen : twoBlockTable.file.length = 8192 := by simp [Stored.file, twoBlockTable, length_countUp]
  have hnew := @Window.valid_new _ _ _ _ twoBlockTable.file places memory
  obtain ⟨e, s, hget, hentry, hs⟩ := @getSampleSizeAt_fresh _ _ _ _ 0 1024 4097 7168
    ⟨Window.new places memory, false⟩ hnew (by simp) (by rw [hcount]; decide) (by decide) (by decide) (by decide)
    (by rw [hcount]; decide)
    fun h => absurd h (Nat.not_lt_zero _)
  rw [getElem?_file (by decide)] at hentry
  obtain rfl := Option.some.inj hentry
  refine ⟨s, hget, hs, ?_⟩
  have hparsed : (Window.new (α := UInt32) places memory).parsedEntryCnt ≤ 7168 := Nat.zero_le _
  have hi : 7168 < twoBlockTable.entryCount := by rw [hcount]; decide
  simp only [Sizes.getSampleSizeAt, if_pos hparsed, if_pos hi, Option.some.injEq, Prod.mk.injEq] at hget
  obtain ⟨-, rfl⟩ := hget
  have hcnt := (hnew.holds.parseEntryUnit_mod 1024 7168).2
  have hmin : min (min ((7168 + 1024) % 2 ^ 32) twoBlockTable.entryCount) twoBlockTable.file.length = 8192 := by
    rw [hcount, hlen]
    decide
  exact ⟨hcnt.trans (by rw [hmin]; rfl), rfl⟩

/-- **Going back by a block** after that returns the size one block later. -/
theorem sizes_twoBlocks :
    sizes 0 .file twoBlockTable (.replicate _ 0) (.replicate _ 0) 4097 [.getSampleSizeAt 7168, .getSampleSizeAt 1] =
        some [7168, 1] ∧
      sizes 1 .file twoBlockTable (.replicate _ 0) (.replicate _ 0) 4097
        [.getSampleSizeAt 7168, .getSampleSizeAt 1] = some [7168, 4097] := by
  have hcount : twoBlockTable.entryCount = 8192 := length_countUp 8192
  constructor
  · simp only [sizes, zero_ne_one, false_and, if_false, wholeAnswers]
    change ((countUp 8192)[7168]?.bind fun e => ((countUp 8192)[1]?.bind _).map _) = _
    rw [getElem?_countUp (by decide), getElem?_countUp (by decide)]
    rfl
  · obtain ⟨s, hget, hs, hparsed, hskip⟩ := getSampleSizeAt_twoBlocks (.replicate _ 0) (.replicate _ 0)
    have hcurr : s.window.currBuffNumber = 1 := by
      have hsettled : s.window.currBuffNumber = (s.window.parsedEntryCnt - 1) / 4096 := hs.settled
      rw [hsettled, hparsed]
    have hcut : s.ShortCut 1 := ⟨hskip, by rw [hparsed]; decide, hcurr⟩
    obtain ⟨e, hget', hentry⟩ := @getSampleSizeAt_shortCut _ _ _ twoBlockTable.file 0 1024 4097 1 s hs
      (by rw [hcount]; decide) hcut (by rw [hparsed]; decide)
    rw [show 1 + Buffering.file.size = 4097 from rfl, getElem?_file (by decide)] at hentry
    obtain rfl := Option.some.inj hentry
    rw [sizes, if_pos ⟨rfl, by rw [hcount]; decide⟩]
    simp only [Sizes.answers]
    rw [show Buffering.file.threshold = 1024 from rfl, hget]
    simp only [Option.bind_some, hget']
    rfl

end Ftke.SampleSize
