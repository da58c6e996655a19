import Ftke.ChunkOffset
import Ftke.CompositionOffset

/-!
# Ftke.CompositionOffset.OnDemand

Parsing mode 1 against parsing mode 0, for the tables of decoding times, chunk offsets and
composition offsets. The window of the first two holds every entry that a function reads, since it
has just been checked; `resetStateVariables` of the third reads from the first entry on what the
window happens to hold.
-/

namespace Ftke.CompositionOffset

open TimeToSample (Entry Position Positions InTable)
open TableWindow

/-! ## The answers in a parsing mode -/

/-- The answers of the decoding time table. -/
def decodingTimes (parsingMode : Nat) (t : Stored Entry 8)
    (places : Vector Nat (t.entryCount / maxCachedTableEntries + 1)) (memory : Vector Entry maxCachedTableEntries)
    (visual : Bool) (turns fuel : Nat) (calls : List TimeToSample.Call) : Option (List UInt32) :=
  Probe.answers (fun _ table => table) (TimeToSample.handle t.entryCount visual fuel) (Table.store t.file 1024 turns)
    calls (.both .start) (Table.load parsingMode t places memory)

/-- The answers of the chunk offset table. -/
def chunkOffsets (parsingMode : Nat) (t : Stored UInt32 4)
    (places : Vector Nat (t.entryCount / maxCachedTableEntries + 1)) (memory : Vector UInt32 maxCachedTableEntries)
    (turns : Nat) (calls : List ChunkOffset.Call) : Option (List (UInt32 × Option Nat)) :=
  Probe.answers (fun _ table => table)
    (fun _ call => (ChunkOffset.handle t.entryCount call).map fun r => some (r, ()))
    (Table.store t.file 512 turns) calls () (Table.load parsingMode t places memory)

/-- The answers of the composition offset table. -/
def compositionOffsets (parsingMode : Nat) (t : Stored Entry 8)
    (places : Vector Nat (t.entryCount / maxCachedTableEntries + 1)) (memory : Vector Entry maxCachedTableEntries)
    (turns fuel : Nat) (calls : List Call) : Option (List UInt32) :=
  Probe.answers (prepare t.file) (handle t.entryCount fuel) (Table.store t.file threshold turns) calls (.both .start)
    (Table.load parsingMode t places memory)

/-! ## The conditions -/

/-- The condition on a call of the decoding time table, which a table that was read as a whole does
not have. -/
def TimeReady {count : Nat} (entries : Nat → Entry) (c : Positions) : Table Entry count → TimeToSample.Call → Prop
  | .whole _, _ => True
  | .window _, call => InTable entries count c call

/-- Every read in order of the decoding time table has an entry left to read. -/
def ReadsInTable (t : Stored Entry 8) (places : Vector Nat (t.entryCount / maxCachedTableEntries + 1))
    (memory : Vector Entry maxCachedTableEntries) (visual : Bool) (turns fuel : Nat)
    (calls : List TimeToSample.Call) : Prop :=
  Probe.Meets (fun _ table => table) (TimeToSample.handle t.entryCount visual fuel) (Table.store t.file 1024 turns)
    (TimeReady t.entry) calls (.both .start) (Table.load 1 t places memory)

/-- The samples of the first `n` entries. -/
def samplesOf (entries : Nat → Entry) : Nat → UInt32
  | 0 => 0
  | n + 1 => samplesOf entries n + (entries n).sampleCount

/-- How many entries the window has been filled up to when `resetStateVariables` reads it. -/
def filledTo {count : Nat} (w : Window Entry maxCachedTableEntries count) (sampleNum : UInt32) : Nat :=
  if w.parsedEntryCnt = 0 then min ((sampleNum.toNat + threshold) % 2 ^ 32) count else w.parsedEntryCnt

/-- The first entries, up to one by which there are `sampleNum` samples, are in the window. -/
def InWindow {count : Nat} (entries : Nat → Entry) (w : Window Entry maxCachedTableEntries count)
    (sampleNum : UInt32) : Prop :=
  filledTo w sampleNum ≤ maxCachedTableEntries ∧ ∃ n < filledTo w sampleNum, sampleNum ≤ samplesOf entries (n + 1)

/-- The condition on a call of the composition offset table. -/
def Ready {count : Nat} (entries : Nat → Entry) (c : Positions) : Table Entry count → Call → Prop
  | .whole _, _ => True
  | .window _, .getTimeOffsetForSampleNumberPeek sampleNum => c.peek.CanRead entries count sampleNum
  | .window _, .getTimeOffsetForSampleNumberGet sampleNum => c.get.CanRead entries count sampleNum
  | .window w, .resetStateVariables sampleNum => InWindow entries w sampleNum
  | .window _, _ => True

/-- Every call meets its condition. -/
def AllReady (t : Stored Entry 8) (places : Vector Nat (t.entryCount / maxCachedTableEntries + 1))
    (memory : Vector Entry maxCachedTableEntries) (turns fuel : Nat) (calls : List Call) : Prop :=
  Probe.Meets (prepare t.file) (handle t.entryCount fuel) (Table.store t.file threshold turns)
    (Ready t.entry) calls (.both .start) (Table.load 1 t places memory)

/-! ## Reset -/

section

variable {count : Nat} {entries : Nat → Entry} {sampleNum : UInt32}

theorem resetLoop_within {n : Nat} (hn : sampleNum ≤ samplesOf entries (n + 1)) : ∀ {left : Nat} {p : Position},
    p.sampleCount = samplesOf entries p.nextIndex → p.nextIndex ≤ n →
      (resetLoop sampleNum left p).Within entries (· ≤ n)
  | 0, _, _, _ => trivial
  | left + 1, p, hp, hle => by
    have hadd : (p.add (entries p.nextIndex)).sampleCount = samplesOf entries (p.nextIndex + 1) :=
      congrArg (· + (entries p.nextIndex).sampleCount) hp
    refine ⟨hle, ?_⟩
    beta_reduce
    split
    case isTrue => trivial
    case isFalse hnot =>
      rw [hadd] at hnot
      have hne : p.nextIndex ≠ n := fun h => hnot (h ▸ hn)
      exact resetLoop_within hn hadd (by simp only [Position.add]; omega)

variable {base turns : Nat}

theorem prepare_window (t : Stored Entry 8) {w : Window Entry maxCachedTableEntries t.entryCount}
    (hw : w.Valid t.file base) (sampleNum : UInt32) (hfull : filledTo w sampleNum ≤ maxCachedTableEntries) :
    ∃ w', prepare t.file (.resetStateVariables sampleNum) (.window w) = Table.window w' ∧ w'.Valid t.file 0 ∧
      w'.parsedEntryCnt = filledTo w sampleNum := by
  by_cases hparsed : w.parsedEntryCnt = 0
  · have hbase : base = 0 := Nat.le_zero.mp (hparsed ▸ hw.holds.base_le)
    subst hbase
    obtain ⟨hholds, hcnt⟩ := hw.holds.parseEntryUnit_mod threshold sampleNum.toNat
    refine ⟨(w.parseEntryUnit t.file threshold sampleNum.toNat).2, by simp [prepare, hparsed],
      ⟨hholds, ?_, by simp⟩, ?_⟩
    · exact hw.holds.parse_settled _ ((Nat.min_le_right _ _).trans (by simp)) (.inr hw.settled)
    · have hlen : t.entryCount ≤ t.file.length := by simp
      rw [hcnt, filledTo, if_pos hparsed]
      omega
  · have hfilled : filledTo w sampleNum = w.parsedEntryCnt := if_neg hparsed
    have hbase : base = 0 := by
      have hle := hw.base_le
      have hcurr : w.currBuffNumber = (w.parsedEntryCnt - 1) / maxCachedTableEntries := hw.settled
      have hzero : w.currBuffNumber = 0 := by
        rw [hcurr]
        exact Nat.div_eq_of_lt (by omega)
      simpa [hzero] using hle
    subst hbase
    exact ⟨w, by simp [prepare, hparsed], hw, hfilled.symm⟩

theorem reset_run (t : Stored Entry 8) {w : Window Entry maxCachedTableEntries t.entryCount}
    (hw : w.Valid t.file base) (turns fuel : Nat) (c : Positions) {sampleNum : UInt32}
    (h : InWindow t.entry w sampleNum) :
    ∃ s', (handle t.entryCount fuel c (.resetStateVariables sampleNum)).run (Table.store t.file threshold turns)
        (prepare t.file (.resetStateVariables sampleNum) (.window w)) =
          some ((handle t.entryCount fuel c (.resetStateVariables sampleNum)).eval t.entry, s') ∧
      Table.Valid t s' := by
  obtain ⟨hfull, n, hn, hreach⟩ := h
  obtain ⟨w', hprepare, hw', hparsed⟩ := prepare_window t hw sampleNum hfull
  have hslot : ∀ i, i ≤ n → w'.slot i = t.entry i := by
    intro i hi
    have hcount := hw'.holds.parsed_le
    have hentry := hw'.holds.entry i (Nat.zero_le _) (by omega) (by omega)
    rw [t.entry_eq (by omega)] at hentry
    exact (Option.some.inj hentry).symm
  have hwithin : (handle t.entryCount fuel c (.resetStateVariables sampleNum)).Within t.entry (· ≤ n) :=
    Probe.within_map _ (resetLoop_within hreach rfl (Nat.zero_le _))
  exact ⟨.window w', by rw [hprepare, hwithin.run_eq (fun i hi => hslot i hi)], 0, hw'⟩

/-- **One call in parsing mode 1** gives the answer of the table, if it meets its condition. -/
theorem handle_run (t : Stored Entry 8) (hturns : maxCachedTableEntries < turns) (fuel : Nat)
    (c : Positions) (table : Table Entry t.entryCount) (call : Call) (hs : Table.Valid t table)
    (h : Ready t.entry c table call) :
    ∃ s', (handle t.entryCount fuel c call).run (Table.store t.file threshold turns) (prepare t.file call table) =
      some ((handle t.entryCount fuel c call).eval t.entry, s') ∧ Table.Valid t s' := by
  have hserves := Table.serves t threshold (by decide) (by decide) (by decide) hturns
  cases table with
  | whole entries =>
    obtain rfl : entries = t.entries := hs
    have hprepare : prepare t.file call (.whole t.entries : Table Entry t.entryCount) = .whole t.entries := by
      cases call <;> rfl
    exact ⟨.whole t.entries, by rw [hprepare, Table.run_whole], rfl⟩
  | window w =>
    cases call with
    | getSampleCountAt index =>
      exact (Probe.guarded_map _ (TimeToSample.getAt_guarded _ index)).run_start hserves hs
    | getSampleOffsetAt index =>
      exact (Probe.guarded_map _ (TimeToSample.getAt_guarded _ index)).run_start hserves hs
    | getTimeOffsetForSampleNumberPeek sampleNum =>
      exact (Probe.guarded_map _ (Position.read_guarded fuel h)).run_start hserves hs
    | getTimeOffsetForSampleNumberGet sampleNum =>
      exact (Probe.guarded_map _ (Position.read_guarded fuel h)).run_start hserves hs
    | resetStateVariables sampleNum =>
      obtain ⟨base, hw⟩ := hs
      exact reset_run t hw turns fuel c h
    | resetPeekwithGet => exact ⟨.window w, rfl, hs⟩

theorem timeToSample_run (t : Stored Entry 8) (hturns : maxCachedTableEntries < turns) (visual : Bool)
    (fuel : Nat) (c : Positions) (table : Table Entry t.entryCount) (call : TimeToSample.Call)
    (hs : Table.Valid t table) (h : TimeReady t.entry c table call) :
    ∃ s', (TimeToSample.handle t.entryCount visual fuel c call).run (Table.store t.file 1024 turns) table =
      some ((TimeToSample.handle t.entryCount visual fuel c call).eval t.entry, s') ∧ Table.Valid t s' := by
  have hserves := Table.serves t 1024 (by decide) (by decide) (by decide) hturns
  cases table with
  | whole entries =>
    obtain rfl : entries = t.entries := hs
    exact ⟨.whole t.entries, Table.run_whole .., rfl⟩
  | window w => exact (TimeToSample.handle_guarded visual fuel c call h).run_start hserves hs

theorem chunkOffset_run (t : Stored UInt32 4) (hturns : maxCachedTableEntries < turns)
    (table : Table UInt32 t.entryCount) (call : ChunkOffset.Call) (hs : Table.Valid t table) :
    ∃ s',
      ((ChunkOffset.handle t.entryCount call).map fun r => some (r, ())).run (Table.store t.file 512 turns) table =
        some (((ChunkOffset.handle t.entryCount call).map fun r => some (r, ())).eval t.entry, s') ∧
        Table.Valid t s' :=
  (Probe.guarded_map _ (ChunkOffset.handle_guarded call)).run_start
    (Table.serves t 512 (by decide) (by decide) (by decide) hturns) hs

end

/-! ## Both modes -/

theorem load_zero {α : Type*} {width : Nat} (t : Stored α width)
    (places : Vector Nat (t.entryCount / maxCachedTableEntries + 1)) (memory : Vector α maxCachedTableEntries) :
    Table.load 0 t places memory = .whole t.entries := by
  simp [Table.load]

/-- **Mode 1 gives the answers of mode 0**: the decoding time table as long as the reads in order stay
in it, the chunk offset table always, and the composition offset table as long as, besides, every
reset finds the entries it needs in the window. -/
theorem onDemand_answers {turns : Nat} (hturns : maxCachedTableEntries < turns) (fuel : Nat) :
    (∀ (t : Stored Entry 8) places memory visual calls, ReadsInTable t places memory visual turns fuel calls →
      decodingTimes 1 t places memory visual turns fuel calls =
        decodingTimes 0 t places memory visual turns fuel calls) ∧
    (∀ (t : Stored UInt32 4) places memory calls,
      chunkOffsets 1 t places memory turns calls = chunkOffsets 0 t places memory turns calls) ∧
    ∀ (t : Stored Entry 8) places memory calls, AllReady t places memory turns fuel calls →
      compositionOffsets 1 t places memory turns fuel calls =
        compositionOffsets 0 t places memory turns fuel calls := by
  refine ⟨fun t places memory visual calls h => ?_, fun t places memory calls => ?_,
    fun t places memory calls h => ?_⟩
  · rw [decodingTimes, decodingTimes, load_zero, Table.answers_whole t 1024 turns fun _ => rfl]
    exact Probe.answers_eq (timeToSample_run t hturns visual fuel) calls (Table.valid_load t 1 places memory) h
  · rw [chunkOffsets, chunkOffsets, load_zero, Table.answers_whole t 512 turns fun _ => rfl]
    have hstep := fun (_ : Unit) table call hs (_ : True) => chunkOffset_run t hturns table call hs
    exact Probe.answers_eq hstep calls (Table.valid_load t 1 places memory) (Probe.meets_true calls)
  · rw [compositionOffsets, compositionOffsets, load_zero,
      Table.answers_whole t threshold turns fun call => by cases call <;> rfl]
    exact Probe.answers_eq (handle_run t hturns fuel) calls (Table.valid_load t 1 places memory) h

/-! ## A reset that misses an entry -/

theorem reset_first {count : Nat} {store : Store (Table Entry count) Entry} (hcount : 0 < count) (fuel : Nat)
    (c : Positions) {table : Table Entry count} {sampleNum : UInt32}
    (hle : sampleNum ≤ (store.slot 0 table).sampleCount) :
    (handle count fuel c (.resetStateVariables sampleNum)).run store table =
      some (some (0, .both (Position.start.add (store.slot 0 table))), table) := by
  obtain ⟨n, rfl⟩ := Nat.exists_eq_add_of_lt hcount
  simp only [Nat.zero_add, handle, resetLoop, Probe.map, Probe.run, Position.start, Position.add, UInt32.zero_add,
    if_pos hle]

theorem get_first {count : Nat} {store : Store (Table Entry count) Entry} (hcount : 0 < count) (fuel : Nat)
    {c : Positions} (table : Table Entry count) {sampleNum : UInt32} (hlt : sampleNum < c.get.sampleCount) :
    (handle count fuel c (.getTimeOffsetForSampleNumberGet sampleNum)).run store table =
      some (some (c.get.value, c), table) := by
  simp only [handle, Position.read, Nat.ne_of_gt hcount, if_false, if_pos hlt, Probe.map, Probe.run, Option.map_some]

theorem answers_reset {count : Nat} {store : Store (Table Entry count) Entry} {file : List Entry}
    (hcount : 0 < count) (fuel : Nat) {table table' : Table Entry count} {sampleNum num : UInt32} {e : Entry}
    (hprepare : prepare file (.resetStateVariables sampleNum) table = table') (hslot : store.slot 0 table' = e)
    (hle : sampleNum ≤ e.sampleCount) (hlt : num < e.sampleCount) :
    Probe.answers (prepare file) (handle count fuel) store
      [.resetStateVariables sampleNum, .getTimeOffsetForSampleNumberGet num] (.both .start) table =
        some [0, e.value] := by
  subst hslot
  have hadd : (Position.start.add (store.slot 0 table')).sampleCount = (store.slot 0 table').sampleCount := by
    simp [Position.add, Position.start]
  have hread := @get_first _ store hcount fuel (.both (Position.start.add (store.slot 0 table'))) table' num
    (by rw [← hadd] at hlt; exact hlt)
  simp only [Probe.answers, hprepare, reset_first hcount fuel _ hle, Option.bind_some]
  rw [show prepare file (.getTimeOffsetForSampleNumberGet num) table' = table' from by cases table' <;> rfl, hread]
  rfl

/-- Two entries that stand for the first and for the one after the window. -/
@[irreducible] def longEntries : List Entry := ⟨5000, 0⟩ :: List.replicate 4096 ⟨5000, 1⟩

theorem length_longEntries : longEntries.length = 4097 := by
  rw [longEntries, List.length_cons, List.length_replicate]

/-- A table that is one entry longer than the window. -/
def longTable : Stored Entry 8 := ⟨longEntries, [], by rw [length_longEntries]; decide⟩

theorem entryCount_longTable : longTable.entryCount = 4097 := length_longEntries

theorem entry_longTable : longTable.entry 4096 = ⟨5000, 1⟩ := by
  have hmod : 4096 % longTable.entryCount = 4095 + 1 := by rw [entryCount_longTable]
  have hget : longEntries[4095 + 1]? = some ⟨5000, 1⟩ := by
    rw [longEntries, List.getElem?_cons_succ, List.getElem?_replicate, if_pos (by decide)]
  rw [Stored.entry, hmod, List.getD_eq_getElem?_getD]
  change longEntries[4095 + 1]?.getD default = _
  rw [hget]
  rfl

theorem entry_zero_longTable : longTable.entry 0 = ⟨5000, 0⟩ := by
  rw [Stored.entry, Nat.zero_mod]
  change longEntries.getD 0 default = _
  rw [longEntries]
  rfl

/-- With nothing read yet, a reset fills the window up to the entry that takes the slot of the first. -/
theorem prepare_longTable (places : Vector Nat (longTable.entryCount / maxCachedTableEntries + 1))
    (memory : Vector Entry maxCachedTableEntries) :
    Table.slot 0 (prepare longTable.file (.resetStateVariables 3073) (.window (.new places memory))) =
      ⟨5000, 1⟩ := by
  obtain ⟨hholds, hcnt⟩ := (@Window.holds_new _ _ _ _ longTable.file places memory).parseEntryUnit_mod threshold 3073
  have hlen : longTable.file.length = 4097 := by simp [Stored.file, longTable, length_longEntries]
  have hmin : min (min ((3073 + threshold) % 2 ^ 32) longTable.entryCount) longTable.file.length = 4097 := by
    rw [entryCount_longTable, hlen]
    decide
  have hparsed :
      (Window.parseEntryUnit longTable.file threshold (.new places memory) 3073).2.parsedEntryCnt = 4097 :=
    hcnt.trans (by rw [hmin]; rfl)
  have hentry := hholds.entry 4096 (Nat.zero_le _) (by rw [hparsed]; decide) (by rw [hparsed]; decide)
  rw [longTable.entry_eq (by rw [entryCount_longTable]; decide), entry_longTable] at hentry
  exact (Option.some.inj hentry).symm

/-- **The last entry is taken for the first**: a reset, and a read after it. -/
theorem compositionOffsets_reset :
    compositionOffsets 0 longTable (.replicate _ 0) (.replicate _ default) 4097 1
        [.resetStateVariables 3073, .getTimeOffsetForSampleNumberGet 0] = some [0, 0] ∧
      compositionOffsets 1 longTable (.replicate _ 0) (.replicate _ default) 4097 1
        [.resetStateVariables 3073, .getTimeOffsetForSampleNumberGet 0] = some [0, 1] := by
  have hcount : 0 < longTable.entryCount := by rw [entryCount_longTable]; decide
  constructor
  · rw [compositionOffsets, load_zero]
    exact answers_reset (e := ⟨5000, 0⟩) hcount 1 rfl entry_zero_longTable (by decide) (by decide)
  · rw [compositionOffsets, Table.load, if_pos ⟨rfl, by rw [entryCount_longTable]; decide⟩]
    exact answers_reset (e := ⟨5000, 1⟩) hcount 1 rfl (prepare_longTable _ _) (by decide) (by decide)

/-- The two examples of calls to which all tables answer the same. -/
theorem onDemand_answers_longTable :
    decodingTimes 1 longTable (.replicate _ 0) (.replicate _ default) true 4097 1 [.getSampleDeltaAt 4096] =
        decodingTimes 0 longTable (.replicate _ 0) (.replicate _ default) true 4097 1 [.getSampleDeltaAt 4096] ∧
      chunkOffsets 1 ⟨[7, 8], [], by decide⟩ (.replicate _ 0) (.replicate _ 0) 4097 [.getChunkClosestToOffset 8] =
        chunkOffsets 0 ⟨[7, 8], [], by decide⟩ (.replicate _ 0) (.replicate _ 0) 4097 [.getChunkClosestToOffset 8] ∧
      compositionOffsets 1 longTable (.replicate _ 0) (.replicate _ default) 4097 1
          [.getSampleOffsetAt 4096, .getSampleOffsetAt 0] =
        compositionOffsets 0 longTable (.replicate _ 0) (.replicate _ default) 4097 1
          [.getSampleOffsetAt 4096, .getSampleOffsetAt 0] := by
  have htime : ∀ c (table : Table Entry longTable.entryCount),
      TimeReady longTable.entry c table (.getSampleDeltaAt 4096) := fun _ table => by cases table <;> trivial
  have hoffset : ∀ c (table : Table Entry longTable.entryCount) index,
      Ready longTable.entry c table (.getSampleOffsetAt index) := fun _ table _ => by cases table <;> trivial
  obtain ⟨h₁, h₂, h₃⟩ := @onDemand_answers 4097 (by decide) 1
  exact ⟨h₁ _ _ _ _ _ ⟨htime _ _, fun _ _ _ => trivial⟩, h₂ _ _ _ _,
    h₃ _ _ _ _ ⟨hoffset _ _ _, fun _ _ _ => ⟨hoffset _ _ _, fun _ _ _ => trivial⟩⟩⟩

end Ftke.CompositionOffset
