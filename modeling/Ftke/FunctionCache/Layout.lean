import Mathlib.Algebra.Order.BigOperators.Group.List
import Ftke.DoubleList
import Ftke.FunctionCache
import Ftke.Tiling

/-!
# Ftke.FunctionCache.Layout

What is kept by the cache of compiled functions, and where it is not.

* `Layout` — the list of the functions, the tiling of the code buffer, and the code in it;
* `Layout.moveToFront`, `Layout.enter` — kept by a lookup and by a new function;
* `Layout.compactCode` — kept by a compaction that retains no code;
* `tidy_iff` — over whole runs the buffer is tiled exactly if no compaction retains code;
* `compaction_leaves_gap` — one that does.
-/

namespace Ftke.FunctionCache

open DoubleList

variable {State : Type*}

/-! ## Sessions -/

/-- The calls, with the machine code that the code generator emits where it is needed. -/
inductive Call (State : Type*)
  | getFunction (type : FunctionType) (state : State) (code : List UInt8)
  | addFunction (type : FunctionType) (state : State) (code : List UInt8)

/-- A compilation: what was compiled, and the code. -/
structure Compilation (State : Type*) where
  type : FunctionType
  state : State
  code : List UInt8

/-- A cache with the compilations made, and what the last `GetFunction` was asked and returned. -/
structure Session (State : Type*) where
  cache : FunctionCache State
  compiled : List (Compilation State)
  returned : Option (FunctionType × State × Nat)

namespace Session

def new (zero : State) (totalSize : Nat) (share : Nat → Nat) : Session State :=
  ⟨FunctionCache.new zero totalSize share, [], none⟩

/-- The machine code needed for a call, if the function is not in the cache. -/
def compilation (comparisons : Comparisons State) (s : Session State) : Call State → Option (Compilation State)
  | .getFunction type state code =>
    if (s.cache.lookup comparisons type state).isSome then none else some ⟨type, state, code⟩
  | .addFunction type state code => some ⟨type, state, code⟩

/-- A call; `none` where an assertion fails. -/
def step (comparisons : Comparisons State) (s : Session State) (call : Call State) : Option (Session State) :=
  let compiled := s.compiled ++ (s.compilation comparisons call).toList
  match call with
  | .getFunction type state code =>
    (s.cache.getFunction comparisons type state code).map fun r => ⟨r.1, compiled, some (type, state, r.2)⟩
  | .addFunction type state code => (s.cache.compile type state code).map fun r => ⟨r.1, compiled, none⟩

end Session

/-! ## The layout -/

/-- The range of a function in the code buffer. -/
def slotRange (c : FunctionCache State) (i : Nat) : Chunk := ⟨(c.functions i).offset, (c.functions i).size⟩

/-- The ranges of the functions, in the order of their slots. -/
def ranges (c : FunctionCache State) : List Chunk := (List.range c.usedFunctions).map c.slotRange

/-- The code of a compilation stands in the buffer at an offset. -/
def CodeAt (c : FunctionCache State) (offset : Nat) (code : List UInt8) : Prop :=
  ∀ k < code.length, c.code (offset + k) = code.getD k 0

/-- The functions in use are the nodes of the linked list. -/
def Listed (c : FunctionCache State) (l : List Nat) : Prop :=
  IsList (fun i => (c.functions i).next) (fun i => (c.functions i).prev) c.mostRecentlyUsed c.leastRecentlyUsed l ∧
    l.Perm (List.range c.usedFunctions)

/-- A slot holds the code of a compilation. -/
def Holds (compiled : List (Compilation State)) (c : FunctionCache State) (i : Nat) : Prop :=
  ∃ code, ⟨(c.functions i).type, (c.functions i).state, code⟩ ∈ compiled ∧ code.length = (c.functions i).size ∧
    c.CodeAt (c.functions i).offset code

/-- What the operations keep. -/
structure Layout (compiled : List (Compilation State)) (c : FunctionCache State) : Prop where
  listed : ∃ l, c.Listed l
  tiles : Tiles 0 c.ranges c.used
  le_maxFunctions : c.usedFunctions ≤ c.maxFunctions
  holds : ∀ i < c.usedFunctions, Holds compiled c i

/-- The last address returned is that of code compiled for the type asked for and an equal state. -/
def Answered (comparisons : Comparisons State) (s : Session State) : Prop :=
  ∀ type state offset, s.returned = some (type, state, offset) →
    ∃ made ∈ s.compiled, made.type = type ∧ (comparisons.compare type state made.state = true ∨ made.state = state) ∧
      s.cache.CodeAt offset made.code

/-- The functions are the nodes of one list, their ranges tile the used part of the code buffer, and the
last address returned is that of the function asked for. -/
structure Tidy (comparisons : Comparisons State) (s : Session State) : Prop where
  listed : ∃ l, s.cache.Listed l
  packed : Packed 0 s.cache.used s.cache.ranges
  answered : Answered comparisons s

/-- A compaction made by the call would retain no code. -/
def RetainsNoCode (comparisons : Comparisons State) (s : Session State) (call : Call State) : Prop :=
  ∀ made, s.compilation comparisons call = some made → s.cache.Full made.code.length →
    ∀ i ∈ s.cache.retained, (s.cache.functions i).size = 0

variable {c : FunctionCache State} {compiled : List (Compilation State)} {l : List Nat}

@[simp] theorem modify_functions (c : FunctionCache State) (index : Nat) (f : FunctionInfo State → FunctionInfo State)
    (i : Nat) : (c.modify index f).functions i = if i = index then f (c.functions i) else c.functions i := rfl

theorem Listed.mem_iff (h : c.Listed l) (i : Nat) : i ∈ l ↔ i < c.usedFunctions := by
  rw [h.2.mem_iff, List.mem_range]

theorem Listed.length_eq (h : c.Listed l) : l.length = c.usedFunctions := by
  rw [h.2.length_eq, List.length_range]

theorem layout_new (zero : State) (totalSize : Nat) (share : Nat → Nat) :
    Layout [] (new zero totalSize share) where
  listed := ⟨[], isList_nil _ _, List.Perm.refl []⟩
  tiles := rfl
  le_maxFunctions := Nat.zero_le _
  holds i hi := absurd hi (Nat.not_lt_zero i)

/-! ## Lookup -/

/-- The links of the list from a node on. -/
def Chain (c : FunctionCache State) (before : Option Nat) (l : List Nat) : Prop :=
  Segment (fun i => (c.functions i).next) (fun i => (c.functions i).prev) before l none

theorem Chain.next {before : Option Nat} {i : Nat} (h : c.Chain before (i :: l)) : (c.functions i).next = l.head? :=
  h.2.1.trans Option.or_none

theorem find_eq (matching : FunctionInfo State → Bool) : ∀ {l : List Nat} {before : Option Nat} {fuel : Nat},
    c.Chain before l → l.length ≤ fuel →
      c.find matching fuel l.head? = l.find? fun i => matching (c.functions i)
  | [], _, fuel, _, _ => by cases fuel <;> rfl
  | i :: l, _, 0, _, hfuel => absurd hfuel (Nat.not_succ_le_zero _)
  | i :: l, _, fuel + 1, h, hfuel => by
    have hrest : c.Chain (some i) l := h.2.2
    rw [List.head?_cons, find, List.find?_cons, h.next, find_eq matching hrest (Nat.le_of_succ_le_succ hfuel)]
    cases matching (c.functions i) <;> rfl

/-- **The lookup** finds the first function of the list with the type and an equal state. -/
theorem lookup_eq (h : c.Listed l) (hle : c.usedFunctions ≤ c.maxFunctions) (comparisons : Comparisons State)
    (type : FunctionType) (state : State) :
    c.lookup comparisons type state = l.find? fun i =>
      (c.functions i).type == type && comparisons.compare type state (c.functions i).state := by
  rw [lookup, h.1.first_eq]
  exact find_eq _ h.1.links (h.length_eq.trans_le hle)

/-! ## Moving to the front -/

theorem moveToFront_eq (c : FunctionCache State) {function p f : Nat} (hprev : (c.functions function).prev = some p)
    (hfirst : c.mostRecentlyUsed = some f) (hp : p ≠ function) (hf : f ≠ function)
    (hnext : (c.functions function).next ≠ some function) :
    c.moveToFront function =
      { c with
        functions := fun i =>
          { c.functions i with
            next :=
              if i = function then some f
              else if i = p then (c.functions function).next else (c.functions i).next
            prev :=
              if i = function then none
              else if i = f then some function
              else if (c.functions function).next = some i then some p else (c.functions i).prev }
        mostRecentlyUsed := some function
        leastRecentlyUsed := if (c.functions function).next = none then some p else c.leastRecentlyUsed } := by
  rw [moveToFront, hprev]
  cases hn : (c.functions function).next with
  | none =>
    simp only [modify, hfirst, if_true, FunctionCache.mk.injEq, true_and, and_true]
    funext i
    by_cases hfunction : i = function <;> by_cases hif : i = f <;> by_cases hip : i = p <;> simp_all
  | some n =>
    simp only [modify, hfirst, FunctionCache.mk.injEq, true_and, and_true]
    refine ⟨?_, by simp⟩
    funext i
    by_cases hfunction : i = function <;> by_cases hif : i = f <;> by_cases hip : i = p <;> by_cases hin : i = n <;>
      simp_all [@eq_comm _ n]

theorem Listed.moveToFront (h : c.Listed l) {function : Nat} (hmem : function ∈ l) :
    ∃ l', (c.moveToFront function).Listed l' ∧ (c.moveToFront function).code = c.code ∧
      (c.moveToFront function).used = c.used ∧ (c.moveToFront function).usedFunctions = c.usedFunctions ∧
        (c.moveToFront function).maxFunctions = c.maxFunctions ∧
          ∀ i, (c.moveToFront function).slotRange i = c.slotRange i ∧
            ((c.moveToFront function).functions i).type = (c.functions i).type ∧
              ((c.moveToFront function).functions i).state = (c.functions i).state := by
  obtain ⟨hlist, hperm⟩ := h
  obtain ⟨l₁, l₂, rfl⟩ := List.append_of_mem hmem
  have hprev : (c.functions function).prev = l₁.getLast? := hlist.prev_eq
  have hnext : (c.functions function).next = l₂.head? := hlist.next_eq
  have hmiddle : (l₁ ++ function :: l₂).Perm (function :: (l₁ ++ l₂)) := List.perm_middle
  obtain ⟨hnotin, hnodup⟩ := List.nodup_cons.mp (hmiddle.nodup_iff.mp hlist.nodup)
  cases hlast : l₁.getLast? with
  | none =>
    have hsame : c.moveToFront function = c := by rw [FunctionCache.moveToFront, hprev, hlast]
    rw [hsame]
    exact ⟨_, ⟨hlist, hperm⟩, rfl, rfl, rfl, rfl, fun _ => ⟨rfl, rfl, rfl⟩⟩
  | some p =>
    obtain ⟨f, rest, rfl⟩ := List.exists_cons_of_ne_nil fun hnil : l₁ = [] => by simp [hnil] at hlast
    have hfirst : c.mostRecentlyUsed = some f := hlist.first_eq
    have hp : p ≠ function := fun heq =>
      hnotin (heq ▸ List.mem_append_left _ (List.mem_of_getLast? hlast))
    have hf : f ≠ function := fun heq => hnotin (heq ▸ List.mem_append_left _ List.mem_cons_self)
    have hn : (c.functions function).next ≠ some function := fun heq =>
      hnotin (List.mem_append_right _ (List.mem_of_head? (hnext.symm.trans heq)))
    rw [moveToFront_eq c (hprev.trans hlast) hfirst hp hf hn]
    refine ⟨function :: (f :: rest ++ l₂), ⟨?_, hmiddle.symm.trans hperm⟩, rfl, rfl, rfl, rfl, fun _ => ⟨rfl, rfl, rfl⟩⟩
    refine hlist.toFront hlast ?_ ?_ ?_ ?_ ?_ ?_ ?_
    · simp [hfirst]
    · simp [hp]
    · intro b hb hbp
      simp [hb, hbp]
    · simp
    · intro b hb
      have hbf : f = b := Option.some.inj (hfirst.symm.trans hb)
      simp [← hbf, hf]
    · intro b hb
      have hbfunction : b ≠ function := fun heq => hn (heq ▸ hb)
      have hbf : b ≠ f := fun heq =>
        (List.nodup_append.mp hnodup).2.2 f List.mem_cons_self b (List.mem_of_head? (hnext.symm.trans hb)) heq.symm
      simp [hbfunction, hbf, hb]
    · intro b hb hbf hbn
      have hbf' : b ≠ f := fun heq => hbf (heq ▸ hfirst)
      simp [hb, hbf', hbn]

/-- **A lookup** keeps the layout. -/
theorem Layout.moveToFront (h : Layout compiled c) {function : Nat} (hlt : function < c.usedFunctions) :
    Layout compiled (c.moveToFront function) ∧ (c.moveToFront function).code = c.code := by
  obtain ⟨l, hlisted⟩ := h.listed
  obtain ⟨l', hlisted', hcode, hused, hfunctions, hmax, hslots⟩ := hlisted.moveToFront ((hlisted.mem_iff _).mpr hlt)
  refine ⟨⟨⟨l', hlisted'⟩, ?_, ?_, fun i hi => ?_⟩, hcode⟩
  · have hranges : (c.moveToFront function).ranges = c.ranges := by
      rw [ranges, hfunctions]
      exact List.map_congr_left fun i _ => (hslots i).1
    rw [hranges, hused]
    exact h.tiles
  · rw [hfunctions, hmax]
    exact h.le_maxFunctions
  · obtain ⟨made, hmem, hlen, hat⟩ := h.holds i (hfunctions ▸ hi)
    obtain ⟨hrange, htype, hstate⟩ := hslots i
    obtain ⟨hoffset, hsize⟩ := Chunk.mk.inj hrange
    refine ⟨made, by rwa [htype, hstate], hlen.trans hsize.symm, ?_⟩
    rw [hoffset]
    unfold CodeAt
    rw [hcode]
    exact hat

/-! ## Entering a function -/

theorem enter_eq (c : FunctionCache State) (type : FunctionType) (state : State) (size : Nat)
    (hfirst : c.mostRecentlyUsed ≠ some c.usedFunctions) :
    c.enter type state size =
      ({ c with
          functions := fun i =>
            if i = c.usedFunctions then ⟨none, c.mostRecentlyUsed, state, c.used, size, 0, type⟩
            else
              { c.functions i with
                prev := if c.mostRecentlyUsed = some i then some c.usedFunctions else (c.functions i).prev }
          mostRecentlyUsed := some c.usedFunctions
          leastRecentlyUsed := if c.mostRecentlyUsed = none then some c.usedFunctions else c.leastRecentlyUsed
          usedFunctions := c.usedFunctions + 1
          used := c.used + size }, c.used) := by
  rw [enter]
  cases hf : c.mostRecentlyUsed with
  | none =>
    simp only [modify, if_true, FunctionCache.mk.injEq, Prod.mk.injEq, true_and, and_true]
    funext i
    by_cases hi : i = c.usedFunctions <;> simp_all
  | some f =>
    have hne : f ≠ c.usedFunctions := fun heq => hfirst (heq ▸ hf)
    simp only [modify, FunctionCache.mk.injEq, Prod.mk.injEq, true_and, and_true]
    refine ⟨?_, by simp⟩
    funext i
    by_cases hi : i = c.usedFunctions <;> by_cases hif : i = f <;> simp_all [@eq_comm _ f]

/-- A new function changes nothing of the others but a link. -/
structure Entered (c r : FunctionCache State) (type : FunctionType) (state : State) (size : Nat) : Prop where
  code : r.code = c.code
  used : r.used = c.used + size
  usedFunctions : r.usedFunctions = c.usedFunctions + 1
  maxFunctions : r.maxFunctions = c.maxFunctions
  mostRecentlyUsed : r.mostRecentlyUsed = some c.usedFunctions
  slot : r.slotRange c.usedFunctions = ⟨c.used, size⟩
  type : (r.functions c.usedFunctions).type = type
  state : (r.functions c.usedFunctions).state = state
  others : ∀ i, i ≠ c.usedFunctions → r.slotRange i = c.slotRange i ∧
    (r.functions i).type = (c.functions i).type ∧ (r.functions i).state = (c.functions i).state

theorem Listed.enter (h : c.Listed l) (type : FunctionType) (state : State) (size : Nat) :
    ∃ r, c.enter type state size = (r, c.used) ∧ r.Listed (c.usedFunctions :: l) ∧ Entered c r type state size := by
  obtain ⟨hlist, hperm⟩ := h
  have hnotin : c.usedFunctions ∉ l := fun hmem => Nat.lt_irrefl _ ((Listed.mem_iff ⟨hlist, hperm⟩ _).mp hmem)
  have hfirst : c.mostRecentlyUsed ≠ some c.usedFunctions := fun heq =>
    hnotin (List.mem_of_head? (hlist.first_eq.symm.trans heq))
  have hne : ∀ b ∈ l, b ≠ c.usedFunctions := fun b hb heq => hnotin (heq ▸ hb)
  refine ⟨_, enter_eq c type state size hfirst, ⟨hlist.cons hnotin ?_ ?_ ?_ ?_ ?_, ?_⟩, ?_⟩
  · simp
  · simp
  · intro b hb
    have hb' : b ≠ c.usedFunctions := fun heq => hfirst (heq ▸ hb)
    simp [hb, hb']
  · intro b hb
    simp [hne b hb]
  · intro b hb hbf
    simp [hne b hb, hbf]
  · have hsnoc := (List.perm_append_singleton c.usedFunctions (List.range c.usedFunctions)).symm
    rw [List.range_succ]
    exact (hperm.cons _).trans hsnoc
  · exact ⟨rfl, rfl, rfl, rfl, rfl, by simp [slotRange], by simp, by simp, fun i hi => by simp [slotRange, hi]⟩

theorem Layout.fin_le (h : Layout compiled c) {i : Nat} (hi : i < c.usedFunctions) :
    (c.functions i).offset + (c.functions i).size ≤ c.used :=
  ((Packed.of_tiles h.tiles).within (c.slotRange i) (List.mem_map_of_mem (List.mem_range.mpr hi))).2

/-- **A new function** is entered and its code is written. -/
theorem Layout.enter (h : Layout compiled c) (hlt : c.usedFunctions < c.maxFunctions) (type : FunctionType)
    (state : State) (code : List UInt8) :
    ∃ r, c.enter type state code.length = (r, c.used) ∧ Entered c r type state code.length ∧
      Layout (compiled ++ [⟨type, state, code⟩]) (r.write c.used code) ∧ (r.write c.used code).CodeAt c.used code := by
  obtain ⟨l, hlisted⟩ := h.listed
  obtain ⟨r, hr, hlisted', he⟩ := hlisted.enter type state code.length
  have hcode : (r.write c.used code).CodeAt c.used code := by
    intro k hk
    simp only [write]
    rw [if_pos ⟨Nat.le_add_right _ _, Nat.add_lt_add_left hk _⟩, Nat.add_sub_cancel_left]
  refine ⟨r, hr, he, ⟨⟨_, hlisted'⟩, ?_, ?_, fun i hi => ?_⟩, hcode⟩
  · have hold : (List.range c.usedFunctions).map r.slotRange = c.ranges :=
      List.map_congr_left fun i hi => (he.others i (Nat.ne_of_lt (List.mem_range.mp hi))).1
    have hranges : (r.write c.used code).ranges = c.ranges ++ [⟨c.used, code.length⟩] := by
      rw [← hold, ← he.slot, ranges]
      simp only [write, he.usedFunctions, List.range_succ, List.map_append]
      rfl
    rw [hranges]
    simp only [write, he.used]
    exact h.tiles.concat rfl
  · simp only [write, he.usedFunctions, he.maxFunctions]
    exact hlt
  · have hi : i < c.usedFunctions + 1 := he.usedFunctions ▸ hi
    obtain hi | rfl := Nat.lt_succ_iff_lt_or_eq.mp hi
    · obtain ⟨made, hmem, hlen, hat⟩ := h.holds i hi
      obtain ⟨hrange, htype, hstate⟩ := he.others i (Nat.ne_of_lt hi)
      obtain ⟨hoffset, hsize⟩ := Chunk.mk.inj hrange
      have hfin := h.fin_le hi
      refine ⟨made, ?_, ?_, fun k hk => ?_⟩
      · simp only [write, htype, hstate]
        exact List.mem_append_left _ hmem
      · simp only [write, hsize]
        exact hlen
      · have hbelow : ¬ (c.used ≤ (c.functions i).offset + k ∧ (c.functions i).offset + k < c.used + code.length) := by
          omega
        simp only [write, hoffset, if_neg hbelow, he.code]
        exact hat k hk
    · obtain ⟨hoffset, hsize⟩ := Chunk.mk.inj he.slot
      refine ⟨code, ?_, ?_, ?_⟩
      · simp only [write, he.type, he.state]
        exact List.mem_append_right _ (List.mem_singleton_self _)
      · simp only [write, hsize]
      · simp only [write, hoffset]
        exact hcode

/-! ## Compaction -/

/-- The cache with other marks. -/
def setFlags (c : FunctionCache State) (flags : Nat → Nat) : FunctionCache State :=
  { c with functions := fun i => { c.functions i with flags := flags i } }

theorem modify_flags (c : FunctionCache State) (index value : Nat) :
    (c.modify index fun info => { info with flags := value }) =
      c.setFlags fun i => if i = index then value else (c.functions i).flags := by
  simp only [modify, setFlags, FunctionCache.mk.injEq, true_and, and_true]
  funext i
  split <;> rfl

theorem retainedFrom_setFlags (c : FunctionCache State) (flags : Nat → Nat) :
    ∀ (fuel : Nat) (function : Option Nat) (countFunctions countMemory : Nat),
      (c.setFlags flags).retainedFrom fuel function countFunctions countMemory =
        c.retainedFrom fuel function countFunctions countMemory
  | fuel, none, _, _ => by cases fuel <;> rfl
  | 0, some _, _, _ => rfl
  | fuel + 1, some function, countFunctions, countMemory => by
    rw [retainedFrom, retainedFrom, retainedFrom_setFlags c flags fuel]
    rfl

theorem Chain.setFlags {before : Option Nat} (h : c.Chain before l) (flags : Nat → Nat) :
    (c.setFlags flags).Chain before l := h

theorem clearFlags_eq : ∀ {l : List Nat} {before : Option Nat} {fuel : Nat} (c : FunctionCache State),
    c.Chain before l → l.length ≤ fuel →
      c.clearFlags fuel l.head? = c.setFlags fun i => if i ∈ l then 0 else (c.functions i).flags
  | [], _, fuel, c, _, _ => by cases fuel <;> simp [clearFlags, setFlags]
  | i :: l, _, 0, _, _, hfuel => absurd hfuel (Nat.not_succ_le_zero _)
  | i :: l, _, fuel + 1, c, h, hfuel => by
    have hrest : c.Chain (some i) l := h.2.2
    rw [List.head?_cons, clearFlags, h.next, modify_flags,
      clearFlags_eq _ (hrest.setFlags _) (Nat.le_of_succ_le_succ hfuel)]
    simp only [setFlags, FunctionCache.mk.injEq, true_and, and_true, List.mem_cons]
    funext j
    by_cases hj : j = i <;> by_cases hmem : j ∈ l <;> simp [hj, hmem]

theorem markFunctions_eq : ∀ {l : List Nat} {before : Option Nat} {fuel : Nat} (c : FunctionCache State)
    (countFunctions countMemory : Nat),
    c.Chain before l → l.Nodup → l.length ≤ fuel →
      ∃ flags, c.markFunctions fuel l.head? countFunctions countMemory = c.setFlags flags ∧
        (∀ i ∈ l, flags i ≠ 0 ↔ i ∈ c.retainedFrom fuel l.head? countFunctions countMemory) ∧
          ∀ i, i ∉ l → flags i = (c.functions i).flags
  | [], _, fuel, c, _, _, _, _, _ => by
    refine ⟨fun i => (c.functions i).flags, ?_, by simp, fun _ _ => rfl⟩
    cases fuel <;> rfl
  | i :: l, _, 0, _, _, _, _, _, hfuel => absurd hfuel (Nat.not_succ_le_zero _)
  | i :: l, _, fuel + 1, c, countFunctions, countMemory, h, hnodup, hfuel => by
    have hrest : c.Chain (some i) l := h.2.2
    obtain ⟨hnotin, hnodup⟩ := List.nodup_cons.mp hnodup
    rw [List.head?_cons, markFunctions, retainedFrom, h.next]
    split
    · refine ⟨_, clearFlags_eq c h hfuel, fun j hj => ?_, fun j hj => if_neg hj⟩
      simp [hj]
    · obtain ⟨flags, heq, hflags, hothers⟩ := markFunctions_eq _ (countFunctions + 1)
        (countMemory + (c.functions i).size)
        (hrest.setFlags fun j => if j = i then 1 else (c.functions j).flags) hnodup (Nat.le_of_succ_le_succ hfuel)
      rw [retainedFrom_setFlags] at hflags
      refine ⟨flags, by rw [modify_flags, heq]; rfl, fun j hj => ?_, fun j hj => ?_⟩
      · obtain rfl | hj := List.mem_cons.mp hj
        · simp [hothers j hnotin, setFlags]
        · have hne : j ≠ i := fun heq => hnotin (heq ▸ hj)
          rw [hflags j hj, List.mem_cons, or_iff_right hne]
      · have hne : j ≠ i := fun heq => hj (heq ▸ List.mem_cons_self)
        rw [hothers j fun hmem => hj (List.mem_cons_of_mem _ hmem)]
        simp [setFlags, hne]

/-- What a function adds to the code retained. -/
def markedSize (c : FunctionCache State) (i : Nat) : Nat := if (c.functions i).flags ≠ 0 then (c.functions i).size else 0

/-- The loop over the slots has not come to the later ones, and counts the code of the marked ones. -/
structure Compacting (c r : FunctionCache State) (k : Nat) : Prop where
  later : ∀ i, k ≤ i → r.functions i = c.functions i
  used : r.used = ((List.range k).map c.markedSize).sum
  maxFunctions : r.maxFunctions = c.maxFunctions

theorem compacting_foldl (c : FunctionCache State) : ∀ k,
    Compacting c ((List.range k).foldl compactSlot ({ c with used := 0 }, 0)).1 k ∧
      ((List.range k).foldl compactSlot ({ c with used := 0 }, 0)).2 ≤ k
  | 0 => ⟨⟨fun _ _ => rfl, rfl, rfl⟩, Nat.le_refl 0⟩
  | k + 1 => by
    obtain ⟨⟨hlater, hused, hmax⟩, hle⟩ := compacting_foldl c k
    have hk := hlater k (Nat.le_refl k)
    have hsum : ((List.range (k + 1)).map c.markedSize).sum = ((List.range k).map c.markedSize).sum + c.markedSize k := by
      simp [List.range_succ]
    rw [List.range_succ, List.foldl_append, List.foldl_cons, List.foldl_nil, compactSlot]
    generalize (List.range k).foldl compactSlot ({ c with used := 0 }, 0) = acc at *
    simp only [hk]
    split
    · next hflags =>
        refine ⟨⟨fun i hi => ?_, ?_, hmax⟩, Nat.succ_le_succ hle⟩
        · have hne1 : i ≠ acc.2 := by omega
          have hne2 : i ≠ k := by omega
          simp only [modify_functions, if_neg hne1, if_neg hne2]
          exact hlater i (Nat.le_of_succ_le hi)
        · rw [hsum, ← hused, markedSize, if_pos hflags]
          rfl
    · next hflags =>
        refine ⟨⟨fun i hi => hlater i (Nat.le_of_succ_le hi), ?_, hmax⟩, Nat.le_succ_of_le hle⟩
        rw [hsum, ← hused, markedSize, if_neg hflags]
        rfl

/-- What a compaction leaves: no function, and as much of the buffer in use as it retained. -/
structure Emptied (c r : FunctionCache State) : Prop where
  usedFunctions : r.usedFunctions = 0
  mostRecentlyUsed : r.mostRecentlyUsed = none
  leastRecentlyUsed : r.leastRecentlyUsed = none
  maxFunctions : r.maxFunctions = c.maxFunctions
  used_eq_zero_iff : r.used = 0 ↔ ∀ i ∈ c.retained, (c.functions i).size = 0

theorem retainedFrom_subset : ∀ {l : List Nat} {before : Option Nat} {fuel countFunctions countMemory : Nat},
    c.Chain before l → ∀ i ∈ c.retainedFrom fuel l.head? countFunctions countMemory, i ∈ l
  | [], _, fuel, _, _, _, i, hi => by cases fuel <;> simp [retainedFrom] at hi
  | j :: l, _, 0, _, _, _, i, hi => by simp [retainedFrom] at hi
  | j :: l, _, fuel + 1, _, _, h, i, hi => by
    have hrest : c.Chain (some j) l := h.2.2
    rw [List.head?_cons, retainedFrom, h.next] at hi
    split at hi
    · simp at hi
    · obtain rfl | hi := List.mem_cons.mp hi
      · exact List.mem_cons_self
      · exact List.mem_cons_of_mem _ (retainedFrom_subset hrest i hi)

/-- **A compaction** drops every function. -/
theorem Listed.emptied_compactCode (hlisted : c.Listed l) (hle : c.usedFunctions ≤ c.maxFunctions) :
    Emptied c c.compactCode := by
  have hchain : c.Chain none l := hlisted.1.links
  have hfuel : l.length ≤ c.maxFunctions := hlisted.length_eq.trans_le hle
  obtain ⟨flags, hmark, hflags, -⟩ := markFunctions_eq c 0 0 hchain hlisted.1.nodup hfuel
  obtain ⟨hcompacting, -⟩ := compacting_foldl (c.setFlags flags) c.usedFunctions
  rw [compactCode, hlisted.1.first_eq, hmark]
  refine ⟨rfl, rfl, rfl, hcompacting.maxFunctions, ?_⟩
  have hretained : ∀ i, i < c.usedFunctions → (flags i ≠ 0 ↔ i ∈ c.retained) := by
    intro i hi
    rw [retained, hlisted.1.first_eq]
    exact hflags i ((hlisted.mem_iff i).mpr hi)
  have hzero : ((List.range c.usedFunctions).map (c.setFlags flags).markedSize).sum = 0 ↔
      ∀ i < c.usedFunctions, (c.setFlags flags).markedSize i = 0 := by
    simp [List.sum_eq_zero_iff_forall_eq_nat]
  have hmarked : ∀ i, (c.setFlags flags).markedSize i = if flags i ≠ 0 then (c.functions i).size else 0 := fun _ => rfl
  refine (hcompacting.used ▸ hzero).trans ⟨fun hall i hi => ?_, fun hall i hi => ?_⟩
  · have hmem : i ∈ l := by
      rw [retained, hlisted.1.first_eq] at hi
      exact retainedFrom_subset hchain i hi
    have hlt := (hlisted.mem_iff i).mp hmem
    have hsize := hall i hlt
    rwa [hmarked, if_pos ((hretained i hlt).mpr hi)] at hsize
  · rw [hmarked]
    split
    · next hflag => exact hall i ((hretained i hi).mp hflag)
    · rfl

theorem emptied_compactCode (h : Layout compiled c) : Emptied c c.compactCode := by
  obtain ⟨l, hlisted⟩ := h.listed
  exact hlisted.emptied_compactCode h.le_maxFunctions

theorem Emptied.listed {r : FunctionCache State} (h : Emptied c r) : r.Listed [] := by
  constructor
  · rw [h.mostRecentlyUsed, h.leastRecentlyUsed]
    exact isList_nil _ _
  · rw [h.usedFunctions]
    exact List.Perm.refl _

theorem Layout.compactCode (h : Layout compiled c) (hcode : ∀ i ∈ c.retained, (c.functions i).size = 0) :
    Layout compiled c.compactCode := by
  have hempty := emptied_compactCode h
  have hused := hempty.used_eq_zero_iff.mpr hcode
  refine ⟨⟨[], hempty.listed⟩, ?_, ?_, fun i hi => ?_⟩
  · rw [hused, ranges, hempty.usedFunctions]
    rfl
  · rw [hempty.usedFunctions]
    exact Nat.zero_le _
  · rw [hempty.usedFunctions] at hi
    exact absurd hi (Nat.not_lt_zero i)

/-! ## Compiling -/

variable {code : List UInt8} {r : FunctionCache State × Nat} {type : FunctionType}

theorem compile_cases {state : State} (h : c.compile type state code = some r) :
    ∃ c', c' = (if c.Full code.length then c.compactCode else c) ∧ c'.usedFunctions < c'.maxFunctions ∧
      r = ((c'.enter type state code.length).1.write (c'.enter type state code.length).2 code,
        (c'.enter type state code.length).2) := by
  obtain ⟨r', hadd, hr⟩ := Option.map_eq_some_iff.mp h
  rw [addFunction] at hadd
  simp only [Option.ite_none_right_eq_some] at hadd
  obtain ⟨⟨hlt, -⟩, heq⟩ := hadd
  exact ⟨_, rfl, hlt, by rw [← hr, ← Option.some.inj heq]⟩

/-- **A compilation** keeps the layout if it does not move code together. -/
theorem Layout.compile (h : Layout compiled c) {state : State} (hr : c.compile type state code = some r)
    (hcode : c.Full code.length → ∀ i ∈ c.retained, (c.functions i).size = 0) :
    Layout (compiled ++ [⟨type, state, code⟩]) r.1 ∧ r.1.CodeAt r.2 code ∧
      ∃ i, r.1.mostRecentlyUsed = some i ∧ (r.1.functions i).offset = r.2 := by
  obtain ⟨c', hc', hlt, rfl⟩ := compile_cases hr
  have hlayout : Layout compiled c' := by
    rw [hc']
    split
    · next hfull => exact h.compactCode (hcode hfull)
    · exact h
  obtain ⟨r, henter, he, hl, hat⟩ := hlayout.enter hlt type state code
  rw [henter]
  exact ⟨hl, hat, c'.usedFunctions, he.mostRecentlyUsed, (Chunk.mk.inj he.slot).1⟩

theorem not_packed_compile (h : Layout compiled c) {state : State}
    (hr : c.compile type state code = some r) (hfull : c.Full code.length)
    (hpacked : Packed 0 r.1.used r.1.ranges) : ∀ i ∈ c.retained, (c.functions i).size = 0 := by
  obtain ⟨c', hc', -, rfl⟩ := compile_cases hr
  rw [if_pos hfull] at hc'
  have hempty := emptied_compactCode h
  rw [← hc'] at hempty
  obtain ⟨r, henter, -, he⟩ := hempty.listed.enter type state code.length
  refine hempty.used_eq_zero_iff.mp ?_
  have htotal := hpacked.total
  rw [henter] at htotal
  have hranges : (r.write c'.used code).ranges = [⟨c'.used, code.length⟩] := by
    have hone : r.usedFunctions = 1 := by rw [he.usedFunctions, hempty.usedFunctions]
    rw [← he.slot, hempty.usedFunctions, ranges]
    simp only [write, hone]
    rfl
  have hused : (r.write c'.used code).used = c'.used + code.length := he.used
  rw [hranges, hused] at htotal
  simp only [List.map_cons, List.map_nil, List.sum_cons, List.sum_nil] at htotal
  omega

/-! ## Runs -/

variable {comparisons : Comparisons State} {s t : Session State} {call : Call State}

/-- What holds as long as no compaction retains code. -/
structure Sound (comparisons : Comparisons State) (s : Session State) : Prop where
  layout : Layout s.compiled s.cache
  answered : Answered comparisons s

theorem Sound.tidy (h : Sound comparisons s) : Tidy comparisons s :=
  ⟨h.layout.listed, Packed.of_tiles h.layout.tiles, h.answered⟩

theorem step_cases (h : s.step comparisons call = some t) :
    (∃ type state code function, call = .getFunction type state code ∧
      s.cache.lookup comparisons type state = some function ∧
        t = ⟨s.cache.moveToFront function, s.compiled, some (type, state, (s.cache.functions function).offset)⟩) ∨
    ∃ made r, s.compilation comparisons call = some made ∧ s.cache.compile made.type made.state made.code = some r ∧
      t.cache = r.1 ∧ t.compiled = s.compiled ++ [made] ∧
        ∀ type state offset, t.returned = some (type, state, offset) → type = made.type ∧ state = made.state ∧
          offset = r.1.mostRecentlyUsed.elim 0 fun first => (r.1.functions first).offset := by
  cases call with
  | getFunction type state code =>
    rw [Session.step, getFunction] at h
    cases hlookup : s.cache.lookup comparisons type state with
    | some function =>
      refine .inl ⟨type, state, code, function, rfl, hlookup, ?_⟩
      simp only [hlookup, Session.compilation] at h
      simpa using h.symm
    | none =>
      have hmade : s.compilation comparisons (.getFunction type state code) = some ⟨type, state, code⟩ := by
        rw [Session.compilation, hlookup]
        rfl
      simp only [hlookup, hmade] at h
      obtain ⟨r', hr', rfl⟩ := Option.map_eq_some_iff.mp h
      obtain ⟨r, hr, rfl⟩ := Option.map_eq_some_iff.mp hr'
      refine .inr ⟨_, r, hmade, hr, rfl, rfl, fun type' state' offset heq => ?_⟩
      obtain ⟨rfl, rfl, rfl⟩ : type = type' ∧ state = state' ∧ _ = offset := by simpa using heq
      exact ⟨rfl, rfl, rfl⟩
  | addFunction type state code =>
    obtain ⟨r, hr, rfl⟩ := Option.map_eq_some_iff.mp h
    exact .inr ⟨⟨type, state, code⟩, r, rfl, hr, rfl, rfl, fun _ _ _ heq => by simp at heq⟩

/-- **A call** that retains no code keeps the cache sound. -/
theorem Sound.step (h : Sound comparisons s) (hstep : s.step comparisons call = some t)
    (hcode : RetainsNoCode comparisons s call) : Sound comparisons t := by
  obtain ⟨type, state, code, function, rfl, hlookup, rfl⟩ | ⟨made, r, hmade, hr, hcache, hcompiled, hreturned⟩ :=
    step_cases hstep
  · obtain ⟨l, hlisted⟩ := h.layout.listed
    rw [lookup_eq hlisted h.layout.le_maxFunctions] at hlookup
    have hlt := (hlisted.mem_iff function).mp (List.mem_of_find?_eq_some hlookup)
    have hmatch := List.find?_some hlookup
    obtain ⟨hlayout, hsame⟩ := h.layout.moveToFront hlt
    refine ⟨hlayout, fun type' state' offset heq => ?_⟩
    obtain ⟨rfl, rfl, rfl⟩ : type = type' ∧ state = state' ∧ _ = offset := by simpa using heq
    obtain ⟨htype, hequal⟩ : (s.cache.functions function).type = type ∧
        comparisons.compare type state (s.cache.functions function).state = true := by simpa using hmatch
    obtain ⟨code', hmem, -, hat⟩ := h.layout.holds function hlt
    refine ⟨_, hmem, htype, .inl hequal, ?_⟩
    unfold CodeAt
    rw [hsame]
    exact hat
  · obtain ⟨hlayout, hat, first, hfirst, hoffset⟩ := h.layout.compile hr (hcode made hmade)
    refine ⟨by rwa [hcache, hcompiled], fun type state offset heq => ?_⟩
    obtain ⟨rfl, rfl, rfl⟩ := hreturned type state offset heq
    refine ⟨made, hcompiled ▸ List.mem_append_right _ (List.mem_singleton_self _), rfl, .inr rfl, ?_⟩
    rw [hfirst, Option.elim_some, hoffset, hcache]
    exact hat

theorem Sound.retainsNoCode (h : Sound comparisons s) (hstep : s.step comparisons call = some t)
    (htidy : Tidy comparisons t) : RetainsNoCode comparisons s call := by
  intro made hmade hfull
  obtain ⟨type, state, code, function, rfl, hlookup, -⟩ | ⟨made', r, hmade', hr, hcache, -, -⟩ := step_cases hstep
  · rw [Session.compilation, hlookup] at hmade
    contradiction
  · obtain rfl : made = made' := Option.some.inj (hmade.symm.trans hmade')
    have hpacked := htidy.packed
    rw [hcache] at hpacked
    exact not_packed_compile h.layout hr hfull hpacked

/-- **The cache over whole runs**: the functions are the nodes of one list, their ranges tile the code buffer
and every address returned is the right one, exactly if no compaction retains code. -/
theorem tidy_iff (comparisons : Comparisons State) (zero : State) (totalSize : Nat) (share : Nat → Nat)
    (calls : List (Call State)) :
    Always (Session.step comparisons) (Tidy comparisons) (Session.new zero totalSize share) calls ↔
      AtEach (Session.step comparisons) (RetainsNoCode comparisons) (Session.new zero totalSize share) calls :=
  always_iff (fun _ => Sound.tidy) (fun _ _ _ h hstep hcode => h.step hstep hcode)
    (fun _ _ _ h hstep htidy => h.retainsNoCode hstep htidy) calls _
    ⟨layout_new zero totalSize share, fun _ _ _ h => by simp [Session.new] at h⟩

/-- States that are compared as a whole. -/
def wholeStates : Comparisons Nat := ⟨fun a b => a == b, fun a b => a == b, fun a b => a == b⟩

/-- Five functions of four bytes each. -/
def fiveFunctions : List (Call Nat) :=
  [.getFunction .point 1 [10, 11, 12, 13], .getFunction .point 2 [20, 21, 22, 23],
    .getFunction .point 3 [30, 31, 32, 33], .getFunction .point 4 [40, 41, 42, 43],
    .getFunction .point 5 [50, 51, 52, 53]]

/-- A buffer of 1024 bytes, which has four slots, and of which a share of 0.6 is kept: the fifth function
is entered behind the code of two that are dropped. -/
theorem compaction_leaves_gap : ¬ Always (Session.step wholeStates) (Tidy wholeStates)
    (Session.new 0 1024 fun n => n * 6 / 10) fiveFunctions := by
  intro h
  obtain ⟨t, ht, hseen⟩ : ∃ t, fiveFunctions.foldlM (Session.step wholeStates)
      (Session.new 0 1024 fun n => n * 6 / 10) = some t ∧ (t.cache.used, t.cache.ranges) = (12, [⟨8, 4⟩]) :=
    Option.map_eq_some_iff.mp (by decide)
  obtain ⟨hused, hranges⟩ := Prod.mk.inj hseen
  have htotal := (h.last ht).packed.total
  rw [hused, hranges] at htotal
  exact absurd htotal (by decide)

end Ftke.FunctionCache
