import Ftke.FunctionCache.Layout

/-!
# Ftke.FunctionCache.Compaction

A compaction against its purpose, to keep the functions used last. The loop that marks them
marks the longest part of the list that the shares admit; but they are not counted.
-/

namespace Ftke.FunctionCache

variable {State : Type*} {c r : FunctionCache State} {l p : List Nat}

/-! ## What is to be kept -/

/-- The sizes of functions, added up. -/
def totalSize (c : FunctionCache State) (p : List Nat) : Nat := (p.map fun i => (c.functions i).size).sum

/-- Functions that the shares of the buffer and of the slots admit. -/
def Admitted (c : FunctionCache State) (p : List Nat) : Prop :=
  c.totalSize p ≤ c.share c.total ∧ p.length ≤ c.share c.maxFunctions

/-- The longest part of the list of functions, in the order of use, that is admitted. -/
structure LongestPrefix (c : FunctionCache State) (l p : List Nat) : Prop where
  start : p <+: l
  admitted : c.Admitted p
  longest : ∀ q, q <+: l → c.Admitted q → q.length ≤ p.length

/-- A function as the renderer sees it: its type, its state and its code. -/
def content (c : FunctionCache State) (i : Nat) : FunctionType × State × List UInt8 :=
  let function := c.functions i
  (function.type, function.state, (List.range function.size).map fun k => c.code (function.offset + k))

/-- What a compaction is for: the functions used last are kept, with their contents, in the order
of use, and are counted. -/
def Keeps (c r : FunctionCache State) (l : List Nat) : Prop :=
  ∃ p l', c.LongestPrefix l p ∧ r.Listed l' ∧ l'.map r.content = p.map c.content ∧
    r.usedFunctions = p.length ∧ r.used = c.totalSize p

/-! ## What is marked -/

theorem LongestPrefix.length_eq {q : List Nat} (hp : c.LongestPrefix l p) (hq : c.LongestPrefix l q) :
    p.length = q.length :=
  Nat.le_antisymm (hq.longest p hp.start hp.admitted) (hp.longest q hq.start hq.admitted)

/-- The functions in use are the nodes of one list, in the order of use, and have slots. -/
structure Linked (c : FunctionCache State) (l : List Nat) : Prop where
  listed : c.Listed l
  le_maxFunctions : c.usedFunctions ≤ c.maxFunctions

theorem linked_new (zero : State) (totalSize : Nat) (share : Nat → Nat) : (new zero totalSize share).Linked [] :=
  ⟨⟨DoubleList.isList_nil _ _, List.Perm.refl []⟩, Nat.zero_le _⟩

theorem Linked.compactCode (h : c.Linked l) : c.compactCode.Linked [] := by
  have hempty := h.listed.emptied_compactCode h.le_maxFunctions
  exact ⟨hempty.listed, by rw [hempty.usedFunctions]; exact Nat.zero_le _⟩

theorem Linked.compile (h : c.Linked l) {type : FunctionType} {state : State} {code : List UInt8}
    {r : FunctionCache State × Nat} (hr : c.compile type state code = some r) : ∃ l', r.1.Linked l' := by
  obtain ⟨c', hc', hlt, rfl⟩ := compile_cases hr
  obtain ⟨l', h'⟩ : ∃ l', c'.Linked l' := by
    rw [hc']
    split
    · exact ⟨[], h.compactCode⟩
    · exact ⟨l, h⟩
  obtain ⟨r, henter, hlisted, he⟩ := h'.listed.enter type state code.length
  rw [henter]
  refine ⟨c'.usedFunctions :: l', hlisted, ?_⟩
  simp only [write, he.usedFunctions, he.maxFunctions]
  omega

theorem Linked.step {comparisons : Comparisons State} {s t : Session State} {call : Call State}
    (h : s.cache.Linked l) (hstep : s.step comparisons call = some t) : ∃ l', t.cache.Linked l' := by
  obtain ⟨type, state, code, function, rfl, hlookup, rfl⟩ | ⟨made, r, hmade, hr, hcache, -, -⟩ := step_cases hstep
  · rw [lookup_eq h.listed h.le_maxFunctions] at hlookup
    have hmem := List.mem_of_find?_eq_some hlookup
    obtain ⟨l', hlisted, -, -, hfunctions, hmax, -⟩ := h.listed.moveToFront hmem
    exact ⟨l', hlisted, by rw [hfunctions, hmax]; exact h.le_maxFunctions⟩
  · rw [hcache]
    exact h.compile hr

/-- **The list survives every run**, whatever a compaction drops. -/
theorem linked_of_run {comparisons : Comparisons State} {zero : State} {totalSize : Nat} {share : Nat → Nat}
    {calls : List (Call State)} {t : Session State}
    (h : calls.foldlM (Session.step comparisons) (Session.new zero totalSize share) = some t) :
    ∃ l, t.cache.Linked l :=
  (Run.of_foldlM h).invariant (I := fun s => ∃ l, s.cache.Linked l) ⟨[], linked_new zero totalSize share⟩
    fun _ _ _ ⟨_, hl⟩ hstep => hl.step hstep

theorem linked_of_run_two : ∃ t, [.addFunction .point 7 [1], .getFunction .point 7 [1]].foldlM
    (Session.step ⟨(· == ·), (· == ·), (· == ·)⟩) (Session.new (7 : Nat) 512 id) = some t ∧ ∃ l, t.cache.Linked l :=
  Exists.imp (fun _ h => ⟨h, linked_of_run h⟩) (Option.isSome_iff_exists.mp rfl)

end Ftke.FunctionCache
