import Ftke.SampleToChunk
import Ftke.TableWindow

/-!
# Ftke.SampleToChunk.OnDemand

The entries of the sample-to-chunk table as the constructor reads them in parsing mode 0, and as
`ParseEntryUnit` reads them in parsing mode 1. Both count chunks from 0 and leave out an entry whose
first chunk does not come after that of the entry kept before it; but mode 1 subtracts 1 from every
first chunk except that of entry 0, starts over with every slice that is read, and reads the table's
number of entries whatever it has left out.
-/

namespace Ftke.SampleToChunk

open TableWindow

/-! ## Parsing mode 0 -/

/-- An entry with its first chunk counted from `offSet`. -/
def Entry.from (e : Entry) (offSet : UInt32) : Entry := { e with firstChunk := e.firstChunk - offSet }

/-- The loop of the constructor. -/
def eagerLoop (offSet : UInt32) : (prevFirstChunk : UInt32) → List Entry → List Entry
  | _, [] => []
  | prevFirstChunk, e :: file =>
    if e.firstChunk > prevFirstChunk then e.from offSet :: eagerLoop offSet e.firstChunk file
    else eagerLoop offSet prevFirstChunk file

/-- The entries that the constructor keeps; `_entryCount` is their number. -/
def eager (file : List Entry) : List Entry := eagerLoop (file.headD default).firstChunk 0 file

/-! ## Parsing mode 1 -/

section

variable {size count : Nat} [NeZero size]

/-- An entry that was read and is left out. -/
def skip (w : Window Entry size count) : Window Entry size count := { w with filePos := w.filePos + 1 }

/-- The loop of `ParseEntryUnit` up to entry `last`. At the start of a block every turn goes back to
its place in the file. -/
def parse (file : List Entry) {last : Nat} (hlast : last ≤ count) : (fuel : Nat) → (prevFirstChunk : UInt32) →
    Window Entry size count → Option (Window Entry size count)
  | 0, _, _ => none
  | fuel + 1, prevFirstChunk, w =>
    if h : w.parsedEntryCnt < last then
      match file[(w.goTo (h.trans_le hlast)).filePos]? with
      | none => some (w.goTo (h.trans_le hlast))
      | some e =>
        let offSet := if w.parsedEntryCnt = 0 then e.firstChunk else 1
        if e.firstChunk > prevFirstChunk then
          parse file hlast fuel e.firstChunk ((w.goTo (h.trans_le hlast)).store (e.from offSet))
        else parse file hlast fuel prevFirstChunk (skip (w.goTo (h.trans_le hlast)))
    else some w

/-- The look-ahead of `ParseEntryUnit`. -/
def threshold : Nat := 512

/-- `ParseEntryUnit(sample_cnt)`. -/
def parseEntryUnit (file : List Entry) (fuel : Nat) (w : Window Entry size count) (sampleCnt : Nat) :
    Option (Window Entry size count) :=
  parse file (Nat.min_le_right ((sampleCnt + threshold) % 2 ^ 32) count) fuel 0 w

/-- The loop that fills the window again up to entry `i`. -/
def refill (file : List Entry) (fuel i : Nat) : (turns : Nat) → Window Entry size count →
    Option (Window Entry size count)
  | 0, _ => none
  | turns + 1, w =>
    if w.parsedEntryCnt ≤ i then (parseEntryUnit file fuel w w.parsedEntryCnt).bind (refill file fuel i turns)
    else some w

/-- `CheckAndParseEntry(i)`. -/
def checkAndParseEntry (file : List Entry) (fuel i : Nat) (w : Window Entry size count) :
    Option (Window Entry size count) :=
  if w.parsedEntryCnt ≤ i then parseEntryUnit file fuel w i
  else if w.currBuffNumber ≠ i / size then refill file fuel i fuel { w with parsedEntryCnt := i / size * size }
  else some w

/-- The entries that accesses see; `none` stands for `PV_ERROR`. -/
def lazyAnswers (file : List Entry) (fuel : Nat) : List Nat → Window Entry size count → Option (List (Option Entry))
  | [], _ => some []
  | i :: accesses, w =>
    if i < count then
      (checkAndParseEntry file fuel i w).bind fun w' =>
        (lazyAnswers file fuel accesses w').map (some (w'.slot i) :: ·)
    else (lazyAnswers file fuel accesses w).map (none :: ·)

end

/-! ## Tables whose first chunks increase -/

/-- The first chunks increase, and come after `prev`. -/
def Ascending : (prev : UInt32) → List Entry → Prop
  | _, [] => True
  | prev, e :: file => prev < e.firstChunk ∧ Ascending e.firstChunk file

theorem length_eagerLoop_le (offSet : UInt32) : ∀ (prev : UInt32) (file : List Entry),
    (eagerLoop offSet prev file).length ≤ file.length
  | _, [] => le_rfl
  | prev, e :: file => by
    rw [eagerLoop]
    split
    · exact Nat.succ_le_succ (length_eagerLoop_le offSet _ file)
    · exact (length_eagerLoop_le offSet prev file).trans (Nat.le_succ _)

theorem ascending_of_length (offSet : UInt32) : ∀ {prev : UInt32} {file : List Entry},
    (eagerLoop offSet prev file).length = file.length → Ascending prev file
  | _, [], _ => trivial
  | prev, e :: file, h => by
    rw [eagerLoop] at h
    split at h
    case isTrue hlt => exact ⟨hlt, ascending_of_length offSet (Nat.succ.inj h)⟩
    case isFalse =>
      have hle := length_eagerLoop_le offSet prev file
      rw [h, List.length_cons] at hle
      omega

theorem eagerLoop_of_ascending (offSet : UInt32) : ∀ {prev : UInt32} {file : List Entry}, Ascending prev file →
    eagerLoop offSet prev file = file.map (·.from offSet)
  | _, [], _ => rfl
  | _, _ :: _, h => by rw [eagerLoop, if_pos h.1, eagerLoop_of_ascending offSet h.2, List.map_cons]

theorem Ascending.lt : ∀ {prev : UInt32} {file : List Entry} {k : Nat} {e e' : Entry}, Ascending prev file →
    file[k]? = some e → file[k + 1]? = some e' → e.firstChunk < e'.firstChunk
  | _, [], _, _, _, _, h, _ => by simp at h
  | _, [_], 0, _, _, _, _, h' => by simp at h'
  | _, _ :: _ :: _, 0, _, _, hasc, h, h' => by
    simp only [List.getElem?_cons_zero, List.getElem?_cons_succ, Option.some.injEq] at h h'
    obtain rfl := h
    obtain rfl := h'
    exact hasc.2.1
  | _, _ :: file, k + 1, _, _, hasc, h, h' => by
    simp only [List.getElem?_cons_succ] at h h'
    exact hasc.2.lt h h'

theorem Ascending.pos : ∀ {prev : UInt32} {file : List Entry} {e : Entry}, Ascending prev file → e ∈ file →
    prev < e.firstChunk
  | _, [], _, _, h => by simp at h
  | prev, e' :: file, e, hasc, h => by
    rcases List.mem_cons.mp h with rfl | htail
    · exact hasc.1
    · exact UInt32.lt_trans hasc.1 (hasc.2.pos htail)

/-- The entries as parsing mode 1 has them, when none is left out. -/
def lazyTable (file : List Entry) : List Entry :=
  file.mapIdx fun i e => e.from (if i = 0 then e.firstChunk else 1)

theorem getElem?_lazyTable (file : List Entry) (i : Nat) :
    (lazyTable file)[i]? = file[i]?.map fun e => e.from (if i = 0 then e.firstChunk else 1) := by
  rw [lazyTable, List.getElem?_mapIdx]

theorem length_lazyTable (file : List Entry) : (lazyTable file).length = file.length := List.length_mapIdx

/-! ## Reading such a table through the window -/

section

variable {t : Stored Entry 12} {size base i fuel : Nat} [NeZero size] {w : Window Entry size t.entryCount}

theorem parse_of_ascending (hasc : Ascending 0 t.entries) {last : Nat} (hlast : last ≤ t.entryCount) :
    ∀ {fuel : Nat} {prev : UInt32} {w : Window Entry size t.entryCount}, w.Holds (lazyTable t.file) base →
      last - w.parsedEntryCnt < fuel →
        (w.parsedEntryCnt < last → ∀ e, t.entries[w.parsedEntryCnt]? = some e → prev < e.firstChunk) →
          parse t.file hlast fuel prev w = some (w.parse (lazyTable t.file) hlast).2
  | 0, _, _, _, hfuel, _ => absurd hfuel (Nat.not_lt_zero _)
  | fuel + 1, prev, w, h, hfuel, hprev => by
    by_cases hlt : w.parsedEntryCnt < last
    · have hcount := hlt.trans_le hlast
      obtain ⟨e, he⟩ : ∃ e, t.entries[w.parsedEntryCnt]? = some e := ⟨_, List.getElem?_eq_getElem hcount⟩
      have hfile : t.file[w.parsedEntryCnt]? = some e := by rw [List.getElem?_append_left hcount, he]
      have hmapped := getElem?_lazyTable t.file w.parsedEntryCnt
      rw [hfile, Option.map_some] at hmapped
      have hpos := h.goTo_filePos hcount
      have hstore := (h.goTo hcount).store hpos (h.block_lt_goTo hcount) hcount hmapped
      rw [parse, dif_pos hlt, Window.parse, dif_pos hlt]
      simp only [hpos, hfile, hmapped]
      rw [if_pos (hprev hlt e he)]
      refine parse_of_ascending hasc hlast hstore ?_ fun _ e' he' => hasc.lt he he'
      simp only [Window.store_parsedEntryCnt, Window.goTo_parsedEntryCnt]
      omega
    · rw [parse, dif_neg hlt, Window.Holds.parse_end hlast (by omega)]

theorem parseEntryUnit_of_ascending (hasc : Ascending 0 t.entries) (h : w.Holds (lazyTable t.file) base)
    (hfuel : t.entryCount < fuel) (sampleCnt : Nat) :
    parseEntryUnit t.file fuel w sampleCnt = some (w.parseEntryUnit (lazyTable t.file) threshold sampleCnt).2 :=
  parse_of_ascending hasc _ h (by omega) fun _ _ he => hasc.pos (List.mem_of_getElem? he)

theorem refill_of_ascending (hasc : Ascending 0 t.entries) (hfuel : t.entryCount < fuel) :
    ∀ {turns : Nat} {w : Window Entry size t.entryCount}, w.Holds (lazyTable t.file) base →
      refill t.file fuel i turns w = w.refill (lazyTable t.file) threshold i turns
  | 0, _, _ => rfl
  | turns + 1, w, h => by
    rw [refill, Window.refill]
    split
    · rw [parseEntryUnit_of_ascending hasc h hfuel, Option.bind_some]
      exact refill_of_ascending hasc hfuel (h.parseEntryUnit_mod threshold w.parsedEntryCnt).1
    · rfl

theorem checkAndParseEntry_of_ascending (hasc : Ascending 0 t.entries) (hfuel : t.entryCount < fuel)
    (h : w.Holds (lazyTable t.file) base) (i : Nat) :
    checkAndParseEntry t.file fuel i w = w.checkAndParseEntry (lazyTable t.file) threshold fuel i := by
  rw [checkAndParseEntry, Window.checkAndParseEntry]
  split
  case isTrue => exact parseEntryUnit_of_ascending hasc h hfuel i
  case isFalse hlt =>
    split
    · exact refill_of_ascending hasc hfuel (h.back (by omega))
    · rfl

/-- **Such a table is seen as it is in the file**, with the first chunks of mode 1. -/
theorem lazyAnswers_of_ascending (hasc : Ascending 0 t.entries) (hsize : threshold ≤ size)
    (hfuel : t.entryCount < fuel) (hfuel' : size < fuel) : ∀ {accesses : List Nat} {base : Nat} {w : Window Entry size t.entryCount},
      w.Valid (lazyTable t.file) base →
        lazyAnswers t.file fuel accesses w = some (accesses.map fun i => (lazyTable t.entries)[i]?)
  | [], _, _, _ => rfl
  | i :: accesses, base, w, h => by
    rw [lazyAnswers]
    split
    case isTrue hi =>
      have hfits := t.fits
      have hfit : t.entryCount + threshold ≤ 2 ^ 32 := by
        simp only [Stored.entryCount, threshold]
        omega
      obtain ⟨w', hcheck, hw', hentry⟩ :=
        h.checkAndParseEntry (by rw [length_lazyTable]; simp) hfit (by decide) hsize hfuel' hi
      have hsame : (lazyTable t.entries)[i]? = some (w'.slot i) := by
        rw [← hentry, getElem?_lazyTable, getElem?_lazyTable, List.getElem?_append_left hi]
      rw [checkAndParseEntry_of_ascending hasc hfuel h.holds, hcheck, Option.bind_some,
        lazyAnswers_of_ascending hasc hsize hfuel hfuel' hw', Option.map_some, List.map_cons, hsame]
    case isFalse hi =>
      rw [lazyAnswers_of_ascending hasc hsize hfuel hfuel' h, Option.map_some, List.map_cons]
      rw [getElem?_lazyTable, List.getElem?_eq_none (Nat.not_lt.mp hi), Option.map_none]

end

/-! ## Both modes -/

/-- In every sequence of accesses, parsing mode 1 sees the entries of parsing mode 0. -/
def SeesTheSame (t : Stored Entry 12) : Prop :=
  ∀ (places : Vector Nat (t.entryCount / maxCachedTableEntries + 1)) (memory : Vector Entry maxCachedTableEntries)
    (accesses : List Nat), ∃ turns, ∀ fuel ≥ turns,
      lazyAnswers t.file fuel accesses (Window.new places memory) =
        some (accesses.map fun i => (eager t.entries)[i]?)

/-- The first entry is for chunk 1, and the first chunks increase. -/
def Regular (entries : List Entry) : Prop := (entries.headD default).firstChunk = 1 ∧ Ascending 0 entries

theorem lazyTable_of_regular {entries : List Entry} (h : Regular entries) : lazyTable entries = eager entries := by
  rw [eager, eagerLoop_of_ascending _ h.2, h.1]
  apply List.ext_getElem?
  intro i
  rw [getElem?_lazyTable, List.getElem?_map]
  cases hget : entries[i]? with
  | none => rfl
  | some e =>
    by_cases hi : i = 0
    · subst hi
      have hhead : e.firstChunk = 1 := by
        rw [← h.1, List.headD_eq_head?_getD, List.head?_eq_getElem?, hget]
        rfl
      simp [hhead]
    · simp [hi]

theorem ascending_of_seesTheSame {t : Stored Entry 12} (h : SeesTheSame t) : Ascending 0 t.entries := by
  apply ascending_of_length (t.entries.headD default).firstChunk
  refine le_antisymm (length_eagerLoop_le _ _ _) (Nat.not_lt.mp fun hlt => ?_)
  change (eager t.entries).length < t.entryCount at hlt
  -- The first entry that mode 0 does not have is one that mode 1 returns, or is still looking for.
  obtain ⟨turns, hturns⟩ := h (.replicate _ 0) (.replicate _ default) [(eager t.entries).length]
  have hanswer := hturns turns le_rfl
  rw [lazyAnswers, if_pos hlt] at hanswer
  obtain ⟨w, -, hw⟩ := Option.bind_eq_some_iff.mp hanswer
  simp [lazyAnswers] at hw

theorem head_of_seesTheSame {t : Stored Entry 12} (hlong : 1 < t.entryCount) (h : SeesTheSame t) :
    (t.entries.headD default).firstChunk = 1 := by
  have hasc := ascending_of_seesTheSame h
  obtain ⟨turns, hturns⟩ := h (.replicate _ 0) (.replicate _ default) [1]
  have hanswer := hturns (max turns (t.entryCount + maxCachedTableEntries + 1)) (Nat.le_max_left _ _)
  rw [lazyAnswers_of_ascending hasc (by decide) (by omega) (by omega) (Window.valid_new _ _)] at hanswer
  rw [eager, eagerLoop_of_ascending _ hasc] at hanswer
  simp only [List.map_cons, List.map_nil, Option.some.injEq, List.cons.injEq, and_true, getElem?_lazyTable,
    List.getElem?_map, List.getElem?_eq_getElem hlong, Option.map_some, one_ne_zero, if_false] at hanswer
  have hchunk := congrArg Entry.firstChunk hanswer
  simp only [Entry.from] at hchunk
  exact (sub_right_inj.mp hchunk).symm

/-- **Parsing mode 1 sees the table of parsing mode 0** exactly when the first entry is for chunk 1 and
the first chunks increase. -/
theorem seesTheSame_iff (t : Stored Entry 12) (hlong : maxCachedTableEntries < t.entryCount) :
    SeesTheSame t ↔ Regular t.entries := by
  constructor
  · intro h
    exact ⟨head_of_seesTheSame (lt_of_le_of_lt (by decide) hlong) h, ascending_of_seesTheSame h⟩
  · intro h places memory accesses
    refine ⟨t.entryCount + maxCachedTableEntries + 1, fun fuel hfuel => ?_⟩
    rw [← lazyTable_of_regular h]
    exact lazyAnswers_of_ascending h.2 (by decide) (by omega) (by omega) (Window.valid_new _ _)

/-! ## Tables of one chunk an entry -/

/-- Entries for `n` chunks from `c` on. -/
def chunksFrom : (n : Nat) → (c : UInt32) → List Entry
  | 0, _ => []
  | n + 1, c => ⟨c, 1, 1⟩ :: chunksFrom n (c + 1)

theorem length_chunksFrom : ∀ (n : Nat) (c : UInt32), (chunksFrom n c).length = n
  | 0, _ => by rw [chunksFrom, List.length_nil]
  | n + 1, c => by rw [chunksFrom, List.length_cons, length_chunksFrom n (c + 1)]

theorem headD_chunksFrom (n : Nat) (c : UInt32) : ((chunksFrom (n + 1) c).headD default).firstChunk = c := by
  rw [chunksFrom, List.headD_cons]

theorem ascending_chunksFrom : ∀ {n : Nat} {prev c : UInt32}, prev < c → c.toNat + n ≤ 2 ^ 32 →
    Ascending prev (chunksFrom n c)
  | 0, _, _, _, _ => by
    rw [chunksFrom]
    trivial
  | n + 1, _, c, hlt, hfit => by
    rw [chunksFrom]
    refine ⟨hlt, ?_⟩
    by_cases hn : n = 0
    · subst hn
      rw [chunksFrom]
      trivial
    · have hadd : (c + 1).toNat = c.toNat + 1 := by
        rw [UInt32.toNat_add]
        exact Nat.mod_eq_of_lt (by change c.toNat + 1 < 2 ^ 32; omega)
      refine ascending_chunksFrom ?_ (by omega)
      rw [UInt32.lt_iff_toNat_lt, hadd]
      exact Nat.lt_succ_self _

/-- A table that is longer than the window. -/
def chunkTable (c : UInt32) : Stored Entry 12 := ⟨chunksFrom (4096 + 1) c, [], by rw [length_chunksFrom]; decide⟩

theorem entryCount_chunkTable (c : UInt32) : (chunkTable c).entryCount = 4097 := length_chunksFrom _ c

theorem seesTheSame_chunkTable : SeesTheSame (chunkTable 1) :=
  (seesTheSame_iff (chunkTable 1) (by rw [entryCount_chunkTable]; decide)).mpr
    ⟨headD_chunksFrom 4096 1, ascending_chunksFrom (by decide) (by decide)⟩

/-- **The first entry is for chunk 2**: mode 0 counts the others from it, mode 1 from 1. -/
theorem not_seesTheSame_chunkTable : ¬SeesTheSame (chunkTable 2) := by
  intro h
  have hhead := head_of_seesTheSame (by rw [entryCount_chunkTable]; decide) h
  rw [show (chunkTable 2).entries = chunksFrom (4096 + 1) 2 from rfl, headD_chunksFrom] at hhead
  exact absurd hhead (by decide)

end Ftke.SampleToChunk
