import Ftke.Probe
import Mathlib.Data.Nat.Basic
import Mathlib.Tactic.Ring

/-!
# Ftke.TableWindow

The tables of an MP4 track in parsing mode 1 (`timetosampleatom.cpp`, `chunkoffsetatom.cpp`,
`compositionoffsetatom.cpp`, `samplesizeatom.cpp`): a window of as many entries as the vectors of
the table have, which `ParseEntryUnit` fills from the file and `CheckAndParseEntry` moves.

The file is the list of the entries that can be read from the head of the table on, and a place in
it is counted in entries. A read past its end fails, and goes on failing until the file is gone
back in.
-/

namespace Ftke.TableWindow

/-- The state of a table of `count` entries with vectors of `size` entries. -/
structure Window (α : Type*) (size count : Nat) where
  parsedEntryCnt : Nat
  currEntryPoint : Nat
  currBuffNumber : Nat
  nextBuffNumber : Nat
  stblFptrVec : Vector Nat (count / size + 1)
  filePos : Nat
  entries : Vector α size

variable {α : Type*} {size count : Nat}

/-- What the constructor leaves; the vectors hold whatever was in their memory. -/
def Window.new (places : Vector Nat (count / size + 1)) (memory : Vector α size) : Window α size count :=
  ⟨0, 0, 0, 0, places, 0, memory⟩

theorem block_lt {p : Nat} (h : p < count) : p / size < count / size + 1 :=
  Nat.lt_succ_of_le (Nat.div_le_div_right h.le)

/-- The place of a block in the file is noted when it is come to for the first time, and gone to
before its first entry is read. -/
def Window.goTo (w : Window α size count) (h : w.parsedEntryCnt < count) : Window α size count :=
  let block := w.parsedEntryCnt / size
  let places := if block = w.nextBuffNumber then w.stblFptrVec.set block w.filePos (block_lt h) else w.stblFptrVec
  { w with
    currEntryPoint := w.parsedEntryCnt % size
    currBuffNumber := block
    nextBuffNumber := if block = w.nextBuffNumber then w.nextBuffNumber + 1 else w.nextBuffNumber
    stblFptrVec := places
    filePos := if w.parsedEntryCnt % size = 0 then getElem places block (block_lt h) else w.filePos }

/-- The entry that was read goes into its slot. -/
def Window.store [NeZero size] (w : Window α size count) (e : α) : Window α size count :=
  { w with
    parsedEntryCnt := w.parsedEntryCnt + 1
    filePos := w.filePos + 1
    entries := w.entries.set (w.parsedEntryCnt % size) e (Nat.mod_lt _ (NeZero.pos size)) }

@[simp] theorem Window.goTo_parsedEntryCnt (w : Window α size count) (h : w.parsedEntryCnt < count) :
    (w.goTo h).parsedEntryCnt = w.parsedEntryCnt := rfl

@[simp] theorem Window.goTo_currBuffNumber (w : Window α size count) (h : w.parsedEntryCnt < count) :
    (w.goTo h).currBuffNumber = w.parsedEntryCnt / size := rfl

@[simp] theorem Window.goTo_entries (w : Window α size count) (h : w.parsedEntryCnt < count) :
    (w.goTo h).entries = w.entries := rfl

@[simp] theorem Window.store_parsedEntryCnt [NeZero size] (w : Window α size count) (e : α) :
    (w.store e).parsedEntryCnt = w.parsedEntryCnt + 1 := rfl

@[simp] theorem Window.store_currBuffNumber [NeZero size] (w : Window α size count) (e : α) :
    (w.store e).currBuffNumber = w.currBuffNumber := rfl

/-- The loop of `ParseEntryUnit` up to entry `last`; `false` for a read that fails. -/
def Window.parse [NeZero size] (file : List α) {last : Nat} (hlast : last ≤ count) (w : Window α size count) :
    Bool × Window α size count :=
  if h : w.parsedEntryCnt < last then
    match file[(w.goTo (h.trans_le hlast)).filePos]? with
    | none => (false, w.goTo (h.trans_le hlast))
    | some e => ((w.goTo (h.trans_le hlast)).store e).parse file hlast
  else (true, w)
termination_by last - w.parsedEntryCnt
decreasing_by simp only [Window.store_parsedEntryCnt, Window.goTo_parsedEntryCnt]; omega

/-- `ParseEntryUnit(entry_cnt)`, which looks `threshold` entries ahead. -/
def Window.parseEntryUnit [NeZero size] (file : List α) (threshold : Nat) (w : Window α size count)
    (entryCnt : Nat) : Bool × Window α size count :=
  w.parse file (Nat.min_le_right ((entryCnt + threshold) % 2 ^ 32) count)

/-- The loop that fills the window again up to entry `i`. -/
def Window.refill [NeZero size] (file : List α) (threshold i : Nat) : (fuel : Nat) → Window α size count →
    Option (Window α size count)
  | 0, _ => none
  | fuel + 1, w =>
    if w.parsedEntryCnt ≤ i then refill file threshold i fuel (w.parseEntryUnit file threshold w.parsedEntryCnt).2
    else some w

/-- `CheckAndParseEntry(i)`. -/
def Window.checkAndParseEntry [NeZero size] (file : List α) (threshold fuel i : Nat) (w : Window α size count) :
    Option (Window α size count) :=
  if w.parsedEntryCnt ≤ i then some (w.parseEntryUnit file threshold i).2
  else if w.currBuffNumber ≠ i / size then
    refill file threshold i fuel { w with parsedEntryCnt := i / size * size }
  else some w

/-- The slot of entry `i`. -/
def Window.slot [NeZero size] (w : Window α size count) (i : Nat) : α :=
  getElem w.entries (i % size) (Nat.mod_lt _ (NeZero.pos size))

/-! ## What the window holds -/

/-- Reading has gone on from entry `base` without going back; what it has read fills the window. -/
structure Window.Holds [NeZero size] (file : List α) (base : Nat) (w : Window α size count) : Prop where
  base_le : base ≤ w.parsedEntryCnt
  base_dvd : size ∣ base
  parsed_le : w.parsedEntryCnt ≤ count
  parsed_le_length : w.parsedEntryCnt ≤ file.length
  parsed_le_next : w.parsedEntryCnt ≤ w.nextBuffNumber * size
  place : ∀ b (hb : b < count / size + 1), b < w.nextBuffNumber → w.stblFptrVec[b] = b * size
  filePos : w.parsedEntryCnt % size ≠ 0 ∨ w.parsedEntryCnt = w.nextBuffNumber * size →
    w.filePos = w.parsedEntryCnt
  entry : ∀ k, base ≤ k → k < w.parsedEntryCnt → w.parsedEntryCnt ≤ k + size → file[k]? = some (w.slot k)

/-- The current block is that of the entry read last. -/
def Window.Settled (w : Window α size count) : Prop := w.currBuffNumber = (w.parsedEntryCnt - 1) / size

section

variable [NeZero size] {file : List α} {base threshold i : Nat} {w : Window α size count}

theorem Window.holds_new (places : Vector Nat (count / size + 1)) (memory : Vector α size) :
    (Window.new (α := α) places memory).Holds file 0 where
  base_le := Nat.zero_le _
  base_dvd := dvd_zero _
  parsed_le := Nat.zero_le _
  parsed_le_length := Nat.zero_le _
  parsed_le_next := Nat.zero_le _
  place _ _ hb := absurd hb (Nat.not_lt_zero _)
  filePos _ := rfl
  entry _ _ hk := absurd hk (Nat.not_lt_zero _)

omit [NeZero size] in
theorem Window.settled_new (places : Vector Nat (count / size + 1)) (memory : Vector α size) :
    (Window.new (α := α) places memory).Settled := by
  simp [Window.Settled, Window.new]

namespace Window.Holds

theorem block_le_next (h : w.Holds file base) : w.parsedEntryCnt / size ≤ w.nextBuffNumber :=
  Nat.div_le_of_le_mul (by rw [Nat.mul_comm]; exact h.parsed_le_next)

theorem next_eq_iff (h : w.Holds file base) :
    w.parsedEntryCnt / size = w.nextBuffNumber ↔ w.parsedEntryCnt = w.nextBuffNumber * size := by
  have hle := h.parsed_le_next
  constructor
  · intro heq
    have hdiv := Nat.div_mul_le_self w.parsedEntryCnt size
    rw [heq] at hdiv
    omega
  · intro heq
    rw [heq, Nat.mul_div_cancel _ (NeZero.pos size)]

theorem goTo_filePos (h : w.Holds file base) (hlt : w.parsedEntryCnt < count) :
    (w.goTo hlt).filePos = w.parsedEntryCnt := by
  simp only [Window.goTo]
  by_cases hpoint : w.parsedEntryCnt % size = 0
  · have hstart : w.parsedEntryCnt / size * size = w.parsedEntryCnt :=
      Nat.div_mul_cancel (Nat.dvd_of_mod_eq_zero hpoint)
    rw [if_pos hpoint]
    by_cases hnext : w.parsedEntryCnt / size = w.nextBuffNumber
    · simp only [hnext, if_true, Vector.getElem_set_self]
      exact h.filePos (.inr (h.next_eq_iff.mp hnext))
    · simp only [hnext, if_false]
      rw [h.place _ (block_lt hlt) (lt_of_le_of_ne h.block_le_next hnext), hstart]
  · rw [if_neg hpoint]
    exact h.filePos (.inl hpoint)

theorem block_lt_goTo (h : w.Holds file base) (hlt : w.parsedEntryCnt < count) :
    w.parsedEntryCnt / size < (w.goTo hlt).nextBuffNumber := by
  have hle := h.block_le_next
  simp only [Window.goTo]
  split <;> omega

theorem goTo (h : w.Holds file base) (hlt : w.parsedEntryCnt < count) : (w.goTo hlt).Holds file base where
  base_le := h.base_le
  base_dvd := h.base_dvd
  parsed_le := h.parsed_le
  parsed_le_length := h.parsed_le_length
  parsed_le_next := by
    have hle := h.parsed_le_next
    simp only [Window.goTo]
    split
    · rw [Nat.add_mul]
      omega
    · exact hle
  place b hb hbn := by
    by_cases hnext : w.parsedEntryCnt / size = w.nextBuffNumber
    · simp only [Window.goTo, hnext, if_true] at hbn ⊢
      by_cases hbb : w.nextBuffNumber = b
      · subst hbb
        have hstart := h.next_eq_iff.mp hnext
        rw [Vector.getElem_set_self, h.filePos (.inr hstart), hstart]
      · rw [Vector.getElem_set_ne _ _ hbb]
        exact h.place b hb (by omega)
    · simp only [Window.goTo, hnext, if_false] at hbn ⊢
      exact h.place b hb hbn
  filePos _ := h.goTo_filePos hlt
  entry := h.entry

theorem store (h : w.Holds file base) (hpos : w.filePos = w.parsedEntryCnt)
    (hblock : w.parsedEntryCnt / size < w.nextBuffNumber) (hlt : w.parsedEntryCnt < count) {e : α}
    (he : file[w.parsedEntryCnt]? = some e) : (w.store e).Holds file base where
  base_le := h.base_le.trans (Nat.le_succ _)
  base_dvd := h.base_dvd
  parsed_le := hlt
  parsed_le_length := (List.getElem?_eq_some_iff.mp he).1
  parsed_le_next := by
    have hmod := Nat.lt_div_mul_add (NeZero.pos size) (a := w.parsedEntryCnt)
    have hmul : (w.parsedEntryCnt / size + 1) * size ≤ w.nextBuffNumber * size := Nat.mul_le_mul_right _ hblock
    rw [Nat.add_mul, Nat.one_mul] at hmul
    change w.parsedEntryCnt + 1 ≤ w.nextBuffNumber * size
    omega
  place := h.place
  filePos _ := congrArg (· + 1) hpos
  entry k hbase hk hwin := by
    change k < w.parsedEntryCnt + 1 at hk
    change w.parsedEntryCnt + 1 ≤ k + size at hwin
    by_cases hkp : k = w.parsedEntryCnt
    · subst hkp
      simp [he, Window.slot, Window.store]
    · have hne : w.parsedEntryCnt % size ≠ k % size := by
        intro heq
        have hmod := Nat.sub_mod_eq_zero_of_mod_eq heq
        rw [Nat.mod_eq_of_lt (by omega)] at hmod
        omega
      rw [h.entry k hbase (by omega) (by omega)]
      simp [Window.slot, Window.store, Vector.getElem_set_ne _ _ hne]

variable {last : Nat}

theorem parse_end (hlast : last ≤ count) (hge : last ≤ w.parsedEntryCnt) :
    w.parse file hlast = (true, w) := by
  rw [Window.parse, dif_neg (Nat.not_lt.mpr hge)]

theorem parse_fails (hlast : last ≤ count) (h : w.Holds file base) (hlt : w.parsedEntryCnt < last)
    (hend : file.length ≤ w.parsedEntryCnt) : w.parse file hlast = (false, w.goTo (hlt.trans_le hlast)) := by
  rw [Window.parse, dif_pos hlt]
  simp only [h.goTo_filePos (hlt.trans_le hlast), List.getElem?_eq_none hend]

theorem parse_read (hlast : last ≤ count) (h : w.Holds file base) (hlt : w.parsedEntryCnt < last)
    (hlen : w.parsedEntryCnt < file.length) :
    ∃ w' : Window α size count, w.parse file hlast = w'.parse file hlast ∧ w'.Holds file base ∧
      w'.parsedEntryCnt = w.parsedEntryCnt + 1 ∧ w'.Settled := by
  have hpos := h.goTo_filePos (hlt.trans_le hlast)
  have he := List.getElem?_eq_getElem hlen
  refine ⟨(w.goTo (hlt.trans_le hlast)).store file[w.parsedEntryCnt], ?_, ?_, rfl, rfl⟩
  · rw [Window.parse, dif_pos hlt]
    simp only [hpos, he]
  · exact (h.goTo _).store hpos (h.block_lt_goTo _) (hlt.trans_le hlast) he

theorem parse (hlast : last ≤ count) (h : w.Holds file base) :
    (w.parse file hlast).2.Holds file base ∧
      (w.parse file hlast).2.parsedEntryCnt = max w.parsedEntryCnt (min last file.length) := by
  induction hn : last - w.parsedEntryCnt generalizing w with
  | zero =>
    rw [parse_end hlast (by omega)]
    exact ⟨h, by simp only; omega⟩
  | succ n ih =>
    by_cases hlen : w.parsedEntryCnt < file.length
    · obtain ⟨w', heq, hw', hparsed, -⟩ := h.parse_read hlast (by omega) hlen
      obtain ⟨hholds, hcnt⟩ := ih hw' (by omega)
      rw [heq]
      exact ⟨hholds, by rw [hcnt, hparsed]; omega⟩
    · have hle := h.parsed_le_length
      have hlt : w.parsedEntryCnt < last := by omega
      rw [h.parse_fails hlast hlt (by omega)]
      exact ⟨h.goTo (hlt.trans_le hlast), by simp only [Window.goTo_parsedEntryCnt]; omega⟩

theorem parse_settled (hlast : last ≤ count) (hlen : last ≤ file.length) (h : w.Holds file base)
    (hs : w.parsedEntryCnt < last ∨ w.Settled) : (w.parse file hlast).2.Settled := by
  induction hn : last - w.parsedEntryCnt generalizing w with
  | zero =>
    rw [parse_end hlast (by omega)]
    exact hs.resolve_left (by omega)
  | succ n ih =>
    obtain ⟨w', heq, hw', hparsed, hsettled⟩ := h.parse_read hlast (by omega) (by omega)
    rw [heq]
    exact ih hw' (.inr hsettled) (by omega)

theorem parseEntryUnit_mod (h : w.Holds file base) (threshold entryCnt : Nat) :
    (w.parseEntryUnit file threshold entryCnt).2.Holds file base ∧
      (w.parseEntryUnit file threshold entryCnt).2.parsedEntryCnt =
        max w.parsedEntryCnt (min (min ((entryCnt + threshold) % 2 ^ 32) count) file.length) :=
  h.parse (Nat.min_le_right ((entryCnt + threshold) % 2 ^ 32) count)

theorem parseEntryUnit (h : w.Holds file base) (hfit : count + threshold ≤ 2 ^ 32) (hi : i < count) :
    (w.parseEntryUnit file threshold i).2.Holds file base ∧
      (w.parseEntryUnit file threshold i).2.parsedEntryCnt =
        max w.parsedEntryCnt (min (min (i + threshold) count) file.length) := by
  have hmod : (i + threshold) % 2 ^ 32 = i + threshold := Nat.mod_eq_of_lt (by omega)
  have hparse := h.parseEntryUnit_mod threshold i
  rwa [hmod] at hparse

theorem parseEntryUnit_settled (h : w.Holds file base) (hfit : count + threshold ≤ 2 ^ 32) (hpos : 0 < threshold)
    (hi : w.parsedEntryCnt ≤ i) (hcount : i < count) (hlen : count ≤ file.length) :
    (w.parseEntryUnit file threshold i).2.Settled := by
  have hmod : (i + threshold) % 2 ^ 32 = i + threshold := Nat.mod_eq_of_lt (by omega)
  exact h.parse_settled _ (by omega) (.inl (by omega))

theorem back (h : w.Holds file base) (hi : i < w.parsedEntryCnt) :
    { w with parsedEntryCnt := i / size * size }.Holds file (i / size * size) where
  base_le := le_rfl
  base_dvd := Nat.dvd_mul_left _ _
  parsed_le := (Nat.div_mul_le_self i size).trans (hi.le.trans h.parsed_le)
  parsed_le_length := (Nat.div_mul_le_self i size).trans (hi.le.trans h.parsed_le_length)
  parsed_le_next := (Nat.div_mul_le_self i size).trans (hi.le.trans h.parsed_le_next)
  place := h.place
  filePos hor := by
    have hle := Nat.div_mul_le_self i size
    have hnext := h.parsed_le_next
    simp only [Nat.mul_mod_left, ne_eq, not_true_eq_false, false_or] at hor
    omega
  entry k hk hk' := absurd hk' (Nat.not_lt.mpr hk)

theorem refill (hfit : count + threshold ≤ 2 ^ 32) (hpos : 0 < threshold) (hi : i < count) (hlen : i < file.length) :
    ∀ {fuel : Nat} {w : Window α size count}, w.Holds file base → i + 1 - w.parsedEntryCnt < fuel →
      ∃ w', Window.refill file threshold i fuel w = some w' ∧ w'.Holds file base ∧ i < w'.parsedEntryCnt ∧
        w'.parsedEntryCnt ≤ max w.parsedEntryCnt (i + threshold) ∧
        (count ≤ file.length → (w.parsedEntryCnt ≤ i ∨ w.Settled) → w'.Settled)
  | 0, _, _, hfuel => absurd hfuel (Nat.not_lt_zero _)
  | fuel + 1, w, h, hfuel => by
    by_cases hle : w.parsedEntryCnt ≤ i
    · obtain ⟨hholds, hcnt⟩ := h.parseEntryUnit hfit (lt_of_le_of_lt hle hi)
      obtain ⟨w', hrefill, hw', hlt, hbound, hsettled⟩ := @refill hfit hpos hi hlen fuel _ hholds (by omega)
      refine ⟨w', by rw [Window.refill, if_pos hle, hrefill], hw', hlt, by omega, fun hfull _ => hsettled hfull ?_⟩
      exact .inr (h.parseEntryUnit_settled hfit hpos le_rfl (by omega) hfull)
    · refine ⟨w, by rw [Window.refill, if_neg hle], h, by omega, by omega, fun _ hs => hs.resolve_left hle⟩

end Window.Holds

/-! ## A complete file -/

/-- Between two requests, when the file is complete. -/
structure Window.Valid (file : List α) (base : Nat) (w : Window α size count) : Prop where
  holds : w.Holds file base
  settled : w.Settled
  base_le : base ≤ w.currBuffNumber * size

theorem Window.valid_new (places : Vector Nat (count / size + 1)) (memory : Vector α size) :
    (Window.new (α := α) places memory).Valid file 0 where
  holds := Window.holds_new places memory
  settled := Window.settled_new places memory
  base_le := Nat.zero_le _

namespace Window

/-- Where the reading that filled the window has begun, after a request for entry `i`. -/
def baseAfter (w : Window α size count) (base i : Nat) : Nat :=
  if w.parsedEntryCnt ≤ i ∨ w.currBuffNumber = i / size then base else i / size * size

theorem Valid.ofSettled (h : w.Holds file base) (hs : w.Settled) (hlt : base < w.parsedEntryCnt) :
    w.Valid file base where
  holds := h
  settled := hs
  base_le := by
    obtain ⟨q, hq⟩ := h.base_dvd
    rw [hs, hq, Nat.mul_comm]
    apply Nat.mul_le_mul_right
    rw [Nat.le_div_iff_mul_le (NeZero.pos size), Nat.mul_comm]
    omega

theorem Valid.entry_of_block (h : w.Valid file base) (hi : i < w.parsedEntryCnt)
    (hblock : w.currBuffNumber = i / size) : file[i]? = some (w.slot i) := by
  have hbase := h.base_le
  have hcurr : w.currBuffNumber = (w.parsedEntryCnt - 1) / size := h.settled
  have hend := Nat.lt_div_mul_add (NeZero.pos size) (a := w.parsedEntryCnt - 1)
  have hstart := Nat.div_mul_le_self i size
  rw [← hblock] at hstart
  rw [← hcurr] at hend
  exact h.holds.entry i (by omega) hi (by omega)

/-- **`CheckAndParseEntry` brings the entry into its slot.** -/
theorem Valid.checkAndParseEntry (h : w.Valid file base) (hcount : count ≤ file.length)
    (hfit : count + threshold ≤ 2 ^ 32) (hpos : 0 < threshold) (hsize : threshold ≤ size) {fuel : Nat}
    (hfuel : size < fuel) (hi : i < count) :
    ∃ w', w.checkAndParseEntry file threshold fuel i = some w' ∧ w'.Valid file (w.baseAfter base i) ∧
      file[i]? = some (w'.slot i) := by
  by_cases hparsed : w.parsedEntryCnt ≤ i
  · obtain ⟨hholds, hcnt⟩ := h.holds.parseEntryUnit hfit hi
    have hsettled := h.holds.parseEntryUnit_settled hfit hpos hparsed hi hcount
    have hbase := h.holds.base_le
    refine ⟨_, if_pos hparsed, ?_, hholds.entry i (by omega) (by omega) (by omega)⟩
    rw [baseAfter, if_pos (.inl hparsed)]
    exact Valid.ofSettled hholds hsettled (by omega)
  · by_cases hblock : w.currBuffNumber = i / size
    · refine ⟨w, by simp [Window.checkAndParseEntry, hparsed, hblock], ?_, h.entry_of_block (by omega) hblock⟩
      rw [baseAfter, if_pos (.inr hblock)]
      exact h
    · have hstart := Nat.div_mul_le_self i size
      have hend := Nat.lt_div_mul_add (NeZero.pos size) (a := i)
      obtain ⟨w', hrefill, hw', hlt, hbound, hsettled⟩ :=
        @Holds.refill _ _ _ _ _ _ _ _ hfit hpos hi (by omega) fuel _ (h.holds.back (i := i) (by omega))
          (by simp only; omega)
      refine ⟨w', by simp [Window.checkAndParseEntry, hparsed, hblock, hrefill], ?_,
        hw'.entry i hstart hlt (by simp only at hbound; omega)⟩
      rw [baseAfter, if_neg (by omega)]
      exact Valid.ofSettled hw' (hsettled hcount (.inl hstart)) (by omega)

end Window

end

/-! ## The two parsing modes -/

/-- `MAX_CACHED_TABLE_ENTRIES_FILE`. -/
abbrev maxCachedTableEntries : Nat := 4096

instance : NeZero maxCachedTableEntries := ⟨by decide⟩

/-- A table of entries of `width` octets that the file has completely; `rest` is what follows it
there. The size of its atom is a 32-bit number. -/
structure Stored (α : Type*) (width : Nat) where
  entries : List α
  rest : List α
  fits : width * entries.length < 2 ^ 32

variable {width : Nat}

namespace Stored

/-- `_entryCount`. -/
abbrev entryCount (t : Stored α width) : Nat := t.entries.length

/-- What can be read from the head of the table on. -/
abbrev file (t : Stored α width) : List α := t.entries ++ t.rest

/-- Entry `i`. -/
def entry [Inhabited α] (t : Stored α width) (i : Nat) : α := t.entries.getD (i % t.entryCount) default

theorem entry_eq [Inhabited α] (t : Stored α width) {i : Nat} (hi : i < t.entryCount) :
    t.file[i]? = some (t.entry i) := by
  simp [file, entry, Nat.mod_eq_of_lt hi, List.getElem?_append_left hi, List.getElem?_eq_getElem hi]

end Stored

/-- The vectors of a table, with all entries or with those of a window. -/
inductive Table (α : Type*) (count : Nat) where
  | whole (entries : List α)
  | window (w : Window α maxCachedTableEntries count)

namespace Table

/-- What the constructor makes of a table. -/
def load (parsingMode : Nat) (t : Stored α width) (places : Vector Nat (t.entryCount / maxCachedTableEntries + 1))
    (memory : Vector α maxCachedTableEntries) : Table α t.entryCount :=
  if parsingMode = 1 ∧ maxCachedTableEntries < t.entryCount then .window (Window.new places memory)
  else .whole t.entries

/-- `CheckAndParseEntry` where the parsing mode is 1. -/
def check {count : Nat} (file : List α) (threshold fuel i : Nat) : Table α count → Option (Table α count)
  | .whole entries => some (.whole entries)
  | .window w => (w.checkAndParseEntry file threshold fuel i).map .window

/-- The slot of entry `i`. -/
def slot [Inhabited α] {count : Nat} (i : Nat) : Table α count → α
  | .whole entries => entries.getD (i % count) default
  | .window w => w.slot i

/-- The table as a store of entries. -/
def store [Inhabited α] {count : Nat} (file : List α) (threshold fuel : Nat) : Store (Table α count) α :=
  ⟨check file threshold fuel, slot⟩

/-- Between two requests to the table `t`. -/
def Valid (t : Stored α width) : Table α t.entryCount → Prop
  | .whole entries => entries = t.entries
  | .window w => ∃ base, w.Valid t.file base

theorem valid_load (t : Stored α width) (parsingMode : Nat)
    (places : Vector Nat (t.entryCount / maxCachedTableEntries + 1)) (memory : Vector α maxCachedTableEntries) :
    Valid t (load parsingMode t places memory) := by
  unfold load
  split
  · exact ⟨0, Window.valid_new places memory⟩
  · rfl

theorem run_whole [Inhabited α] {β : Type*} (t : Stored α width) (threshold fuel : Nat) (p : Probe α β) :
    p.run (store t.file threshold fuel) (.whole t.entries : Table α t.entryCount) =
      some (p.eval t.entry, .whole t.entries) := by
  induction p with
  | done b => rfl
  | check i next ih => exact ih
  | slot i next ih => exact ih _

theorem answers_whole [Inhabited α] {β δ κ : Type*} (t : Stored α width) (threshold fuel : Nat)
    {prepare : κ → Table α t.entryCount → Table α t.entryCount} {handle : δ → κ → Probe α (Option (β × δ))}
    (hprepare : ∀ c, prepare c (.whole t.entries) = .whole t.entries) : ∀ (calls : List κ) (d : δ),
      Probe.answers prepare handle (store t.file threshold fuel) calls d (.whole t.entries) =
        Probe.tableAnswers handle t.entry calls d
  | [], _ => rfl
  | c :: calls, d => by
    rw [Probe.answers, Probe.tableAnswers, hprepare, run_whole, Option.bind_some]
    simp only [answers_whole t threshold fuel hprepare calls]

/-- **In either mode the table serves its entries.** -/
theorem serves [Inhabited α] (t : Stored α width) (threshold : Nat) {fuel : Nat} (hwidth : 2 ≤ width) (hpos : 0 < threshold)
    (hsize : threshold ≤ maxCachedTableEntries) (hfuel : maxCachedTableEntries < fuel) :
    Probe.Serves (store t.file threshold fuel) t.entry (· < t.entryCount) (Valid t) where
  check {s i} hs hi := by
    have hfits := t.fits
    have hle : 2 * t.entries.length ≤ width * t.entries.length := Nat.mul_le_mul_right _ hwidth
    have hfit : t.entryCount + threshold ≤ 2 ^ 32 := by
      simp only [Stored.entryCount, maxCachedTableEntries] at hsize ⊢
      omega
    cases s with
    | whole entries =>
      obtain rfl : entries = t.entries := hs
      exact ⟨.whole t.entries, rfl, rfl, rfl⟩
    | window w =>
      obtain ⟨base, hw⟩ := hs
      obtain ⟨w', hcheck, hw', hentry⟩ :=
        hw.checkAndParseEntry (by simp) hfit hpos hsize hfuel hi
      refine ⟨.window w', ?_, ⟨_, hw'⟩, ?_⟩
      · simp [store, check, hcheck]
      · rw [t.entry_eq hi] at hentry
        exact (Option.some.inj hentry).symm

end Table

end Ftke.TableWindow
