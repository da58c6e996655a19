import Mathlib.Algebra.Order.BigOperators.Group.List
import Mathlib.Algebra.Order.Ring.Nat
import Mathlib.Algebra.Ring.Nat
import Ftke.CodeGen.Instruction
import Ftke.Dataflow

/-!
# Ftke.CodeGen.Liveness

`cg_module_dataflow` (`instruction.c`): the registers that are live on entering
and on leaving the blocks of a procedure.

`Live` is what the analysis is for: some path from the start of a block reads
the register before an instruction writes it.

* `exists_procDataflow` — the loop ends;
* `mem_liveIn_iff`, `mem_liveOut_iff` — what it finds: the live registers whose
  number lies in a full word;
* `dataflow_exact_iff` — when the sets are the live registers.
-/

namespace Ftke.CodeGen

open Dataflow

/-! ## The analysis -/

/-- The sets of a block. -/
structure BlockSets where
  defs : Bitset
  uses : Bitset
  liveIn : Bitset
  liveOut : Bitset
  deriving DecidableEq, Repr

/-- One instruction in `block_dataflow`: the sets of defined and of used registers; the buffers hold 64
registers. -/
def instDataflow (acc : Bitset × Bitset) (inst : Inst) : Bitset × Bitset :=
  ((instDef 64 inst).foldl Bitset.set acc.1,
    (instUse 64 inst).foldl (fun uses reg => if acc.1.test reg then uses else uses.set reg) acc.2)

/-- `block_dataflow`. -/
def blockDataflow (numRegisters : Nat) (block : Block) : BlockSets :=
  let acc := block.insts.foldl instDataflow (Bitset.create numRegisters, Bitset.create numRegisters)
  { defs := acc.1
    uses := acc.2
    liveIn := (Bitset.create numRegisters).assign acc.2
    liveOut := Bitset.create numRegisters }

/-- `live_out(b) := live_out(b) U live_in(s)` for a successor `s`. -/
def unionLiveOut (block succ : Nat) (sets : List BlockSets) : List BlockSets × Bool :=
  match sets[block]?, sets[succ]? with
  | some b, some s =>
    let result := b.liveOut.union s.liveIn
    (sets.set block { b with liveOut := result.1 }, result.2)
  | _, _ => (sets, false)

/-- `live_in(b) := live_in(b) U (live_out(b) \ def(b))`. -/
def unionLiveIn (block : Nat) (sets : List BlockSets) : List BlockSets × Bool :=
  match sets[block]? with
  | some b =>
    let result := b.liveIn.unionMinus b.liveOut b.defs
    (sets.set block { b with liveIn := result.1 }, result.2)
  | none => (sets, false)

/-- One block in the loop of `proc_dataflow`. -/
def blockPass (acc : List BlockSets × Bool) (entry : Block × Nat) : List BlockSets × Bool :=
  andThen (entry.1.succ.foldl (fun acc succ => andThen acc (unionLiveOut entry.2 succ)) acc) (unionLiveIn entry.2)

/-- The body of the loop of `proc_dataflow`. -/
def pass (blocks : List Block) (sets : List BlockSets) : List BlockSets × Bool :=
  blocks.zipIdx.foldl blockPass (sets, false)

/-- `proc_dataflow`, with the number of rounds it may make. -/
def procDataflow (fuel numRegisters : Nat) (blocks : List Block) : Option (List BlockSets) :=
  repeatPass (pass blocks) fuel (blocks.map (blockDataflow numRegisters))

/-- `cg_proc_t`: its registers are numbered below `numRegisters`, and no instruction has more than 64
operands. -/
structure Proc where
  numRegisters : Nat
  blocks : List Block
  numbered : ∀ block ∈ blocks, ∀ inst ∈ block.insts, ∀ reg ∈ inst.kind.reads ++ inst.kind.writes, reg < numRegisters
  operands : ∀ block ∈ blocks, ∀ inst ∈ block.insts, inst.kind.reads.length ≤ 64

/-- A procedure with its control flow and its sets. -/
structure Analysis where
  numRegisters : Nat
  blocks : List Block
  sets : List BlockSets

/-- `cg_module_dataflow` for one procedure. -/
def Proc.dataflow (fuel : Nat) (proc : Proc) : Option Analysis :=
  (procDataflow fuel proc.numRegisters (procControlflow proc.blocks)).map fun sets =>
    { numRegisters := proc.numRegisters
      blocks := procControlflow proc.blocks
      sets := sets }

/-- `cg_module_dataflow`. -/
def moduleDataflow (fuel : Nat) (procs : List Proc) : Option (List Analysis) := procs.mapM (Proc.dataflow fuel)

/-! ## What it is for -/

/-- The register is read before an instruction of the list writes it. -/
def ReadsFirst (reg : Nat) : List Inst → Prop
  | [] => False
  | inst :: insts => reg ∈ inst.kind.reads ∨ (reg ∉ inst.kind.writes ∧ ReadsFirst reg insts)

/-- Some instruction writes the register. -/
def Writes (reg : Nat) (insts : List Inst) : Prop := ∃ inst ∈ insts, reg ∈ inst.kind.writes

instance decidableReadsFirst (reg : Nat) : (insts : List Inst) → Decidable (ReadsFirst reg insts)
  | [] => isFalse id
  | _ :: insts =>
    have := decidableReadsFirst reg insts
    inferInstanceAs (Decidable (_ ∨ (_ ∧ _)))

theorem ReadsFirst.mem_reads {reg : Nat} : ∀ {insts : List Inst}, ReadsFirst reg insts →
    ∃ inst ∈ insts, reg ∈ inst.kind.reads
  | inst :: insts, h => by
    cases h with
    | inl hreads => exact ⟨inst, List.mem_cons_self, hreads⟩
    | inr hlater =>
      obtain ⟨inst', hmem, hreads⟩ := hlater.2.mem_reads
      exact ⟨inst', List.mem_cons_of_mem _ hmem, hreads⟩

section Graph

variable (blocks : List Block) (reg : Nat)

/-- The successors of a block. -/
def Edge (i j : Nat) : Prop := ∃ block, blocks[i]? = some block ∧ j ∈ block.succ

/-- The block itself reads the register first. -/
def Gen (i : Nat) : Prop := ∃ block, blocks[i]? = some block ∧ ReadsFirst reg block.insts

/-- The block writes the register. -/
def Kill (i : Nat) : Prop := ∃ block, blocks[i]? = some block ∧ Writes reg block.insts

/-- **Live**: a path from the start of the block reads the register before it is written. -/
def Live (i : Nat) : Prop := Before (Edge blocks) (Gen blocks reg) (Kill blocks reg) i

end Graph

/-- The analysis found the live registers of every block. -/
def Analysis.Exact (a : Analysis) : Prop :=
  ∀ (i : Nat) (b : BlockSets), a.sets[i]? = some b → ∀ reg < a.numRegisters,
    (b.liveIn.test reg = true ↔ Live a.blocks reg i) ∧
      (b.liveOut.test reg = true ↔ ∃ j c, Edge a.blocks i j ∧ a.sets[j]? = some c ∧ c.liveIn.test reg = true)

/-! ## Defined and used registers -/

section Block

variable {numRegisters : Nat}

theorem test_foldl_set : ∀ {regs : List Nat} {s : Bitset}, s.Sized numRegisters → (∀ reg ∈ regs, reg < numRegisters) →
    Bitset.Sized numRegisters (regs.foldl Bitset.set s) ∧
      ∀ reg, (regs.foldl Bitset.set s).test reg = true ↔ reg ∈ regs ∨ s.test reg = true
  | [], s, hs, _ => ⟨hs, by simp⟩
  | first :: regs, s, hs, hlt => by
    obtain ⟨hsized, htest⟩ := test_foldl_set (hs.set first) fun reg hmem => hlt reg (List.mem_cons_of_mem _ hmem)
    refine ⟨hsized, fun reg => ?_⟩
    rw [List.foldl_cons, htest, Bitset.test_set hs (hlt first List.mem_cons_self)]
    simp only [Bool.or_eq_true, decide_eq_true_eq, List.mem_cons]
    grind

theorem test_foldl_uses (defs : Bitset) : ∀ {regs : List Nat} {s : Bitset}, s.Sized numRegisters →
    (∀ reg ∈ regs, reg < numRegisters) →
      Bitset.Sized numRegisters (regs.foldl (fun uses reg => if defs.test reg then uses else uses.set reg) s) ∧
        ∀ reg, (regs.foldl (fun uses reg => if defs.test reg then uses else uses.set reg) s).test reg = true ↔
          (reg ∈ regs ∧ defs.test reg = false) ∨ s.test reg = true
  | [], s, hs, _ => ⟨hs, by simp⟩
  | first :: regs, s, hs, hlt => by
    have hrest : ∀ reg ∈ regs, reg < numRegisters := fun reg hmem => hlt reg (List.mem_cons_of_mem _ hmem)
    rw [List.foldl_cons]
    cases hdef : defs.test first with
    | true =>
      obtain ⟨hsized, htest⟩ := test_foldl_uses defs hs hrest
      refine ⟨hsized, fun reg => ?_⟩
      simp only [if_true, htest, List.mem_cons]
      grind
    | false =>
      obtain ⟨hsized, htest⟩ := test_foldl_uses defs (hs.set first) hrest
      refine ⟨hsized, fun reg => ?_⟩
      simp only [Bool.false_eq_true, if_false, htest, Bitset.test_set hs (hlt first List.mem_cons_self),
        Bool.or_eq_true, decide_eq_true_eq, List.mem_cons]
      grind

/-- An instruction that the buffers have room for, with registers of the procedure. -/
def Fits (numRegisters : Nat) (inst : Inst) : Prop :=
  inst.kind.reads.length ≤ 64 ∧ ∀ reg ∈ inst.kind.reads ++ inst.kind.writes, reg < numRegisters

/-- **The sets of a block**: what its instructions write, and what they read first. -/
theorem test_foldl_instDataflow : ∀ {insts : List Inst} {acc : Bitset × Bitset}, (∀ inst ∈ insts, Fits numRegisters inst) →
    acc.1.Sized numRegisters → acc.2.Sized numRegisters →
      (insts.foldl instDataflow acc).1.Sized numRegisters ∧ (insts.foldl instDataflow acc).2.Sized numRegisters ∧
        ∀ reg, ((insts.foldl instDataflow acc).1.test reg = true ↔ acc.1.test reg = true ∨ Writes reg insts) ∧
          ((insts.foldl instDataflow acc).2.test reg = true ↔
            acc.2.test reg = true ∨ (acc.1.test reg = false ∧ ReadsFirst reg insts))
  | [], acc, _, hdefs, huses => ⟨hdefs, huses, by simp [Writes, ReadsFirst]⟩
  | inst :: insts, acc, hfits, hdefs, huses => by
    obtain ⟨hlen, hreg⟩ := hfits inst List.mem_cons_self
    have hwrites : instDef 64 inst = inst.kind.writes := instDef_eq_writes (by omega)
    have hreads : instUse 64 inst = inst.kind.reads := instUse_eq_reads (by omega) hlen
    obtain ⟨hsized1, htest1⟩ := test_foldl_set hdefs fun reg hmem => hreg reg (List.mem_append_right _ hmem)
    obtain ⟨hsized2, htest2⟩ := test_foldl_uses acc.1 huses fun reg hmem => hreg reg (List.mem_append_left _ hmem)
    have hstep : instDataflow acc inst = (inst.kind.writes.foldl Bitset.set acc.1,
        inst.kind.reads.foldl (fun uses reg => if acc.1.test reg then uses else uses.set reg) acc.2) := by
      rw [instDataflow, hwrites, hreads]
    have hdefs' : (instDataflow acc inst).1.Sized numRegisters := by
      rw [hstep]
      exact hsized1
    have huses' : (instDataflow acc inst).2.Sized numRegisters := by
      rw [hstep]
      exact hsized2
    obtain ⟨h1, h2, htest⟩ :=
      test_foldl_instDataflow (fun i hmem => hfits i (List.mem_cons_of_mem _ hmem)) hdefs' huses'
    rw [List.foldl_cons]
    refine ⟨h1, h2, fun reg => ?_⟩
    obtain ⟨hd, hu⟩ := htest reg
    have hfalse : (inst.kind.writes.foldl Bitset.set acc.1).test reg = false ↔
        reg ∉ inst.kind.writes ∧ acc.1.test reg = false := by
      rw [← Bool.not_eq_true, htest1 reg]
      grind
    constructor
    · rw [hd, hstep, htest1 reg]
      simp only [Writes, List.mem_cons, exists_eq_or_imp]
      grind
    · rw [hu, hstep, hfalse, htest2 reg]
      simp only [ReadsFirst]
      grind

end Block

/-! ## The loop -/

/-- The sets of a block while the loop runs: what is in them is live, and in a full word. -/
structure BlockSound (numRegisters : Nat) (blocks : List Block) (i : Nat) (b : BlockSets) : Prop where
  sizedIn : b.liveIn.Sized numRegisters
  sizedOut : b.liveOut.Sized numRegisters
  defs : ∀ reg, b.defs.test reg = true ↔ Kill blocks reg i
  gen : ∀ reg, Bitset.Covered numRegisters reg → Gen blocks reg i → b.liveIn.test reg = true
  soundIn : ∀ reg, b.liveIn.test reg = true → Bitset.Covered numRegisters reg ∧ Live blocks reg i
  soundOut : ∀ reg, b.liveOut.test reg = true →
    Bitset.Covered numRegisters reg ∧ ∃ j, Edge blocks i j ∧ Live blocks reg j

/-- The sets of a procedure while the loop runs. -/
structure Sound (numRegisters : Nat) (blocks : List Block) (sets : List BlockSets) : Prop where
  length_sets : sets.length = blocks.length
  block : ∀ (i : Nat) (b : BlockSets), sets[i]? = some b → BlockSound numRegisters blocks i b

/-- What the loop makes grow. -/
def weight (sets : List BlockSets) : Nat :=
  (sets.map fun b => Bitset.weight b.liveIn.bits + Bitset.weight b.liveOut.bits).sum

section Loop

variable {numRegisters : Nat} {blocks : List Block} {sets : List BlockSets}

variable {i j : Nat}

theorem grows_set {b b' : BlockSets} {changed : Bool} (h : Sound numRegisters blocks sets)
    (hb : sets[i]? = some b) (hsound : BlockSound numRegisters blocks i b') (hsame : changed = false → b' = b)
    (hle : Bitset.weight b.liveIn.bits + Bitset.weight b.liveOut.bits ≤
      Bitset.weight b'.liveIn.bits + Bitset.weight b'.liveOut.bits)
    (hlt : changed = true → Bitset.weight b.liveIn.bits + Bitset.weight b.liveOut.bits <
      Bitset.weight b'.liveIn.bits + Bitset.weight b'.liveOut.bits) :
    Grows (Sound numRegisters blocks) weight sets (sets.set i b', changed) := by
  have hsum : weight (sets.set i b') + _ = weight sets + _ :=
    Bitset.sum_map_set (fun b : BlockSets => Bitset.weight b.liveIn.bits + Bitset.weight b.liveOut.bits) b' hb
  refine ⟨⟨by rw [List.length_set, h.length_sets], fun k c hc => ?_⟩, fun hflag => ?_, ?_, fun hflag => ?_⟩
  · rw [List.getElem?_set] at hc
    split at hc
    · next hik =>
        split at hc
        · rw [← hik, ← Option.some.inj hc]
          exact hsound
        · contradiction
    · exact h.block k c hc
  · obtain ⟨hi, hget⟩ := List.getElem?_eq_some_iff.mp hb
    simp only [hsame hflag, ← hget]
    exact List.set_getElem_self hi
  · simp only at hsum ⊢
    omega
  · have hlt' := hlt hflag
    simp only at hsum ⊢
    omega

theorem grows_unionLiveOut (hedge : Edge blocks i j) (h : Sound numRegisters blocks sets) :
    Grows (Sound numRegisters blocks) weight sets (unionLiveOut i j sets) := by
  rw [unionLiveOut]
  split
  · next b s hb hs =>
      have hblock := h.block i b hb
      have hgains := Bitset.gains_union hblock.sizedOut s.liveIn
      refine grows_set h hb { hblock with sizedOut := hgains.sized, soundOut := fun reg hreg => ?_ }
        (fun hflag => by rw [hgains.same hflag]) (Nat.add_le_add_left hgains.le _)
        (fun hflag => Nat.add_lt_add_left (hgains.lt hflag) _)
      rw [Bitset.test_union hblock.sizedOut] at hreg
      split at hreg
      · next hcovered =>
          cases Bool.or_eq_true_iff.mp hreg with
          | inl hold => exact hblock.soundOut reg hold
          | inr hnew => exact ⟨hcovered, j, hedge, ((h.block j s hs).soundIn reg hnew).2⟩
      · exact hblock.soundOut reg hreg
  · exact Grows.refl h

theorem grows_unionLiveIn (h : Sound numRegisters blocks sets) :
    Grows (Sound numRegisters blocks) weight sets (unionLiveIn i sets) := by
  rw [unionLiveIn]
  split
  · next b hb =>
      have hblock := h.block i b hb
      have hgains := Bitset.gains_unionMinus hblock.sizedIn b.liveOut b.defs
      have htest := Bitset.test_unionMinus hblock.sizedIn b.liveOut b.defs
      refine grows_set h hb { hblock with sizedIn := hgains.sized, gen := fun reg hcovered hgen => ?_, soundIn := fun reg hreg => ?_ }
        (fun hflag => by rw [hgains.same hflag]) (Nat.add_le_add_right hgains.le _)
        (fun hflag => Nat.add_lt_add_right (hgains.lt hflag) _)
      · rw [htest, if_pos hcovered, hblock.gen reg hcovered hgen, Bool.true_or]
      · rw [htest] at hreg
        split at hreg
        · next hcovered =>
            cases Bool.or_eq_true_iff.mp hreg with
            | inl hold => exact hblock.soundIn reg hold
            | inr hnew =>
              obtain ⟨hout, hdef⟩ := Bool.and_eq_true_iff.mp hnew
              obtain ⟨-, j, hedge, hlive⟩ := hblock.soundOut reg hout
              have hkill : ¬Kill blocks reg i := by
                rw [← hblock.defs reg]
                simpa using hdef
              exact ⟨hcovered, .later hkill hedge hlive⟩
        · exact hblock.soundIn reg hreg
  · exact Grows.refl h

/-- An operation of the loop: a union with a successor, or the last one of a block. -/
def runOp (op : Nat × Option Nat) (sets : List BlockSets) : List BlockSets × Bool :=
  match op.2 with
  | some j => unionLiveOut op.1 j sets
  | none => unionLiveIn op.1 sets

/-- The operations of the loop in their order. -/
def ops (blocks : List Block) : List (Nat × Option Nat) :=
  blocks.zipIdx.flatMap fun entry => entry.1.succ.map (fun j => (entry.2, some j)) ++ [(entry.2, none)]

theorem pass_eq (sets : List BlockSets) :
    pass blocks sets = (ops blocks).foldl (fun acc op => andThen acc (runOp op)) (sets, false) := by
  rw [pass, ops, List.foldl_flatMap]
  congr 1
  funext acc entry
  rw [List.foldl_append, List.foldl_map]
  rfl

theorem mem_ops_succ : (i, some j) ∈ ops blocks ↔ Edge blocks i j := by
  simp only [ops, List.mem_flatMap, Prod.exists, List.mem_zipIdx_iff_getElem?, Edge]
  constructor
  · rintro ⟨block, k, hblock, hmem⟩
    simp only [List.mem_append, List.mem_map, List.mem_singleton, Prod.mk.injEq, reduceCtorEq, and_false, or_false,
      Option.some.injEq] at hmem
    obtain ⟨j', hj', hk, hj⟩ := hmem
    exact ⟨block, hk ▸ hblock, hj ▸ hj'⟩
  · rintro ⟨block, hblock, hmem⟩
    exact ⟨block, i, hblock, List.mem_append_left _ (List.mem_map_of_mem hmem)⟩

theorem mem_ops_last {block : Block} (h : blocks[i]? = some block) : (i, none) ∈ ops blocks :=
  List.mem_flatMap.mpr ⟨(block, i), List.mem_zipIdx_iff_getElem?.mpr h,
    List.mem_append_right _ (List.mem_singleton_self _)⟩

theorem grows_runOp {op : Nat × Option Nat} (hmem : op ∈ ops blocks) (sets : List BlockSets)
    (h : Sound numRegisters blocks sets) : Grows (Sound numRegisters blocks) weight sets (runOp op sets) := by
  obtain ⟨i, succ⟩ := op
  cases succ with
  | some j => exact grows_unionLiveOut (mem_ops_succ.mp hmem) h
  | none => exact grows_unionLiveIn h

theorem grows_pass (sets : List BlockSets) (h : Sound numRegisters blocks sets) :
    Grows (Sound numRegisters blocks) weight sets (pass blocks sets) := by
  rw [pass_eq]
  exact grows_foldl (fun op hmem => grows_runOp hmem) (Grows.refl h)

theorem weight_le (h : Sound numRegisters blocks sets) :
    weight sets ≤ blocks.length * (2 * ((numRegisters + 31) / 32 * 2 ^ 32)) := by
  have hblock : ∀ x ∈ sets.map fun b => Bitset.weight b.liveIn.bits + Bitset.weight b.liveOut.bits,
      x ≤ 2 * ((numRegisters + 31) / 32 * 2 ^ 32) := by
    intro x hx
    obtain ⟨b, hb, rfl⟩ := List.mem_map.mp hx
    obtain ⟨i, hi, hget⟩ := List.getElem_of_mem hb
    have hsound := h.block i b (by rw [List.getElem?_eq_getElem hi, hget])
    have hin := Bitset.weight_le b.liveIn.bits
    have hout := Bitset.weight_le b.liveOut.bits
    rw [hsound.sizedIn.length_bits] at hin
    rw [hsound.sizedOut.length_bits] at hout
    omega
  have hsum := List.sum_le_card_nsmul _ _ hblock
  rwa [List.length_map, h.length_sets, Nat.nsmul_eq_mul] at hsum

theorem liveOut_of_unchanged (h : Sound numRegisters blocks sets) {b s : BlockSets}
    (hb : sets[i]? = some b) (hs : sets[j]? = some s) (hsame : unionLiveOut i j sets = (sets, false)) {reg : Nat}
    (hcovered : Bitset.Covered numRegisters reg) (hreg : s.liveIn.test reg = true) : b.liveOut.test reg = true := by
  have hblock := h.block i b hb
  have hflag : (b.liveOut.union s.liveIn).2 = false := by
    have hflag := congrArg Prod.snd hsame
    simpa only [unionLiveOut, hb, hs] using hflag
  have htest := Bitset.test_union hblock.sizedOut s.liveIn reg
  rw [(Bitset.gains_union hblock.sizedOut s.liveIn).same hflag, if_pos hcovered, hreg, Bool.or_true] at htest
  exact htest

theorem liveIn_of_unchanged (h : Sound numRegisters blocks sets) {b : BlockSets} (hb : sets[i]? = some b)
    (hsame : unionLiveIn i sets = (sets, false)) {reg : Nat} (hcovered : Bitset.Covered numRegisters reg)
    (hreg : b.liveOut.test reg = true) (hdef : b.defs.test reg = false) : b.liveIn.test reg = true := by
  have hblock := h.block i b hb
  have hflag : (b.liveIn.unionMinus b.liveOut b.defs).2 = false := by
    have hflag := congrArg Prod.snd hsame
    simpa only [unionLiveIn, hb] using hflag
  have htest := Bitset.test_unionMinus hblock.sizedIn b.liveOut b.defs reg
  rw [(Bitset.gains_unionMinus hblock.sizedIn b.liveOut b.defs).same hflag, if_pos hcovered, hreg, hdef, Bool.not_false, Bool.true_and,
    Bool.or_true] at htest
  exact htest

/-- **Where the loop ends**, the live registers of full words are in the sets. -/
theorem liveIn_of_live (h : Sound numRegisters blocks sets) (hpass : pass blocks sets = (sets, false)) {reg : Nat}
    (hcovered : Bitset.Covered numRegisters reg) (hlive : Live blocks reg i) :
    ∃ b, sets[i]? = some b ∧ b.liveIn.test reg = true := by
  have hops : ∀ op ∈ ops blocks, runOp op sets = (sets, false) :=
    unchanged_of_foldl (fun op hmem => grows_runOp hmem) h (by rw [← pass_eq, hpass])
  have hsome : ∀ {k : Nat} {block : Block}, blocks[k]? = some block → ∃ b, sets[k]? = some b := by
    intro k block hblock
    have hlt := (List.getElem?_eq_some_iff.mp hblock).1
    rw [← h.length_sets] at hlt
    exact ⟨sets[k], List.getElem?_eq_getElem hlt⟩
  refine before_of_closed (S := fun k => ∃ b, sets[k]? = some b ∧ b.liveIn.test reg = true) ?_ ?_ hlive
  · intro k hgen
    obtain ⟨block, hblock, -⟩ := id hgen
    obtain ⟨b, hb⟩ := hsome hblock
    exact ⟨b, hb, (h.block k b hb).gen reg hcovered hgen⟩
  · intro k m hkill hedge hnext
    obtain ⟨s, hs, hreg⟩ := hnext
    obtain ⟨block, hblock, -⟩ := id hedge
    obtain ⟨b, hb⟩ := hsome hblock
    have hout := liveOut_of_unchanged h hb hs (hops _ (mem_ops_succ.mpr hedge)) hcovered hreg
    have hdef : b.defs.test reg = false := by
      rw [← Bool.not_eq_true, (h.block k b hb).defs reg]
      exact hkill
    exact ⟨b, hb, liveIn_of_unchanged h hb (hops _ (mem_ops_last hblock)) hcovered hout hdef⟩

/-- **What the loop finds** on entering a block: the live registers of full words. -/
theorem mem_liveIn_iff (h : Sound numRegisters blocks sets) (hpass : pass blocks sets = (sets, false))
    {b : BlockSets} (hb : sets[i]? = some b) (reg : Nat) :
    b.liveIn.test reg = true ↔ Bitset.Covered numRegisters reg ∧ Live blocks reg i := by
  constructor
  · exact (h.block i b hb).soundIn reg
  · rintro ⟨hcovered, hlive⟩
    obtain ⟨b', hb', hreg⟩ := liveIn_of_live h hpass hcovered hlive
    rw [hb] at hb'
    rwa [Option.some.inj hb']

/-- **On leaving it**: those that are live on entering a successor. -/
theorem mem_liveOut_iff (h : Sound numRegisters blocks sets) (hpass : pass blocks sets = (sets, false))
    {b : BlockSets} (hb : sets[i]? = some b) (reg : Nat) :
    b.liveOut.test reg = true ↔ ∃ j c, Edge blocks i j ∧ sets[j]? = some c ∧ c.liveIn.test reg = true := by
  have hops : ∀ op ∈ ops blocks, runOp op sets = (sets, false) :=
    unchanged_of_foldl (fun op hmem => grows_runOp hmem) h (by rw [← pass_eq, hpass])
  constructor
  · intro hreg
    obtain ⟨hcovered, j, hedge, hlive⟩ := (h.block i b hb).soundOut reg hreg
    obtain ⟨c, hc, hreg'⟩ := liveIn_of_live h hpass hcovered hlive
    exact ⟨j, c, hedge, hc, hreg'⟩
  · rintro ⟨j, c, hedge, hc, hreg⟩
    have hcovered := ((h.block j c hc).soundIn reg hreg).1
    exact liveOut_of_unchanged h hb hc (hops _ (mem_ops_succ.mpr hedge)) hcovered hreg

end Loop

/-! ## Procedures -/

theorem sound_blockDataflow {numRegisters : Nat} {blocks : List Block}
    (hfits : ∀ block ∈ blocks, ∀ inst ∈ block.insts, Fits numRegisters inst) :
    Sound numRegisters blocks (blocks.map (blockDataflow numRegisters)) where
  length_sets := List.length_map _
  block := by
    intro i b hb
    rw [List.getElem?_map] at hb
    obtain ⟨block, hblock, rfl⟩ := Option.map_eq_some_iff.mp hb
    have hcreate := Bitset.sized_create numRegisters
    obtain ⟨-, hsized, htest⟩ := @test_foldl_instDataflow numRegisters block.insts
      (Bitset.create numRegisters, Bitset.create numRegisters) (hfits block (List.mem_of_getElem? hblock)) hcreate hcreate
    have huses : ∀ reg, (blockDataflow numRegisters block).uses.test reg = true ↔ ReadsFirst reg block.insts := by
      intro reg
      rw [blockDataflow, (htest reg).2]
      simp
    have hassign := Bitset.test_assign hcreate (blockDataflow numRegisters block).uses
    refine ⟨hcreate.update _, hcreate, fun reg => ?_, fun reg hcovered hgen => ?_, fun reg hreg => ?_, fun reg hreg => ?_⟩
    · rw [blockDataflow, (htest reg).1]
      simp [Kill, hblock]
    · obtain ⟨block', hblock', hreads⟩ := hgen
      rw [hblock] at hblock'
      rw [← Option.some.inj hblock'] at hreads
      exact (hassign reg).trans (by rw [if_pos hcovered, (huses reg).mpr hreads])
    · have hreg' := (hassign reg).symm.trans hreg
      split at hreg'
      · next hcovered => exact ⟨hcovered, .here ⟨block, hblock, (huses reg).mp hreg'⟩⟩
      · simp at hreg'
    · simp [blockDataflow] at hreg

/-- **The loop ends.** -/
theorem exists_procDataflow {numRegisters : Nat} {blocks : List Block}
    (hfits : ∀ block ∈ blocks, ∀ inst ∈ block.insts, Fits numRegisters inst) :
    ∃ fuel sets, procDataflow fuel numRegisters blocks = some sets := by
  obtain ⟨sets, hsets⟩ := exists_repeatPass grows_pass (fun _ => weight_le) (sound_blockDataflow hfits)
    (Nat.lt_add_left _ (Nat.lt_succ_self (blocks.length * (2 * ((numRegisters + 31) / 32 * 2 ^ 32)))))
  exact ⟨_, sets, hsets⟩

theorem insts_procControlflow (blocks : List Block) (i : Nat) :
    ((procControlflow blocks)[i]?).map Block.insts = (blocks[i]?).map Block.insts := by
  have h := congrArg (fun l => l[i]?) (map_insts_procControlflow blocks)
  simpa only [List.getElem?_map] using h

theorem mem_procControlflow {blocks : List Block} {block : Block} (h : block ∈ procControlflow blocks) :
    ∃ block' ∈ blocks, block'.insts = block.insts := by
  obtain ⟨i, hi, hget⟩ := List.getElem_of_mem h
  have hinsts := insts_procControlflow blocks i
  rw [List.getElem?_eq_getElem hi, hget] at hinsts
  obtain ⟨block', hblock', heq⟩ := Option.map_eq_some_iff.mp hinsts.symm
  exact ⟨block', List.mem_of_getElem? hblock', heq⟩

theorem Proc.fits (proc : Proc) : ∀ block ∈ procControlflow proc.blocks, ∀ inst ∈ block.insts,
    Fits proc.numRegisters inst := by
  intro block hblock inst hinst
  obtain ⟨block', hmem, heq⟩ := mem_procControlflow hblock
  rw [← heq] at hinst
  exact ⟨proc.operands block' hmem inst hinst, proc.numbered block' hmem inst hinst⟩

/-- The registers that a block of the procedure reads first have their bits in full words. -/
def Proc.FullWords (proc : Proc) : Prop :=
  ∀ block ∈ proc.blocks, ∀ reg, ReadsFirst reg block.insts → Bitset.Covered proc.numRegisters reg

/-- **One procedure**: the analysis is exact if and only if the registers read first are in full words. -/
theorem Proc.exact_iff {proc : Proc} {fuel : Nat} {a : Analysis} (h : proc.dataflow fuel = some a) :
    a.Exact ↔ proc.FullWords := by
  obtain ⟨sets, hsets, rfl⟩ := Option.map_eq_some_iff.mp h
  obtain ⟨hsound, hpass⟩ := of_repeatPass grows_pass (sound_blockDataflow proc.fits) hsets
  constructor
  · intro hexact block hblock reg hreads
    obtain ⟨i, hi, hget⟩ := List.getElem_of_mem hblock
    have hinsts := insts_procControlflow proc.blocks i
    rw [List.getElem?_eq_getElem hi, hget] at hinsts
    obtain ⟨block', hblock', heq⟩ := Option.map_eq_some_iff.mp hinsts
    have hlt : i < sets.length := hsound.length_sets ▸ (List.getElem?_eq_some_iff.mp hblock').1
    obtain ⟨inst, hinst, hmem⟩ := hreads.mem_reads
    have hreg : reg < proc.numRegisters := proc.numbered block hblock inst hinst reg (List.mem_append_left _ hmem)
    have hlive : Live (procControlflow proc.blocks) reg i := .here ⟨block', hblock', heq ▸ hreads⟩
    have hmem := (hexact i _ (List.getElem?_eq_getElem hlt) reg hreg).1.mpr hlive
    exact ((mem_liveIn_iff hsound hpass (List.getElem?_eq_getElem hlt) reg).mp hmem).1
  · intro hfull i b hb reg _
    refine ⟨?_, mem_liveOut_iff hsound hpass hb reg⟩
    rw [mem_liveIn_iff hsound hpass hb reg]
    refine ⟨fun hmem => hmem.2, fun hlive => ⟨?_, hlive⟩⟩
    obtain ⟨j, block, hblock, hreads⟩ := hlive.generated
    obtain ⟨block', hmem, heq⟩ := mem_procControlflow (List.mem_of_getElem? hblock)
    exact hfull block' hmem reg (heq ▸ hreads)

/-! ## Modules -/

theorem moduleDataflow_cons {fuel : Nat} {proc : Proc} {procs : List Proc} {analyses : List Analysis} :
    moduleDataflow fuel (proc :: procs) = some analyses ↔
      ∃ a as, proc.dataflow fuel = some a ∧ moduleDataflow fuel procs = some as ∧ analyses = a :: as := by
  simp only [moduleDataflow, List.mapM_cons, Option.bind_eq_bind, Option.bind_eq_some_iff, Option.pure_def,
    Option.some.injEq, exists_and_left]
  grind

/-- **The analysis ends** for all procedures of a module. -/
theorem exists_moduleDataflow : ∀ procs : List Proc, ∃ fuel, ∀ more, fuel ≤ more →
    ∃ analyses, moduleDataflow more procs = some analyses
  | [] => ⟨0, fun _ _ => ⟨[], rfl⟩⟩
  | proc :: procs => by
    obtain ⟨fuel, hrest⟩ := exists_moduleDataflow procs
    obtain ⟨fuel', sets, hsets⟩ := exists_procDataflow proc.fits
    refine ⟨fuel + fuel', fun more hle => ?_⟩
    obtain ⟨as, has⟩ := hrest more (by omega)
    have hmore : procDataflow more proc.numRegisters (procControlflow proc.blocks) = some sets :=
      repeatPass_mono hsets (by omega)
    have hproc : ∃ a, proc.dataflow more = some a := by
      rw [Proc.dataflow, hmore]
      exact ⟨_, rfl⟩
    obtain ⟨a, ha⟩ := hproc
    exact ⟨a :: as, moduleDataflow_cons.mpr ⟨a, as, ha, has, rfl⟩⟩

theorem exact_moduleDataflow_iff {fuel : Nat} : ∀ {procs : List Proc} {analyses : List Analysis},
    moduleDataflow fuel procs = some analyses →
      ((∀ a ∈ analyses, a.Exact) ↔ ∀ proc ∈ procs, proc.FullWords)
  | [], analyses, h => by
    have hnil : analyses = [] := by simpa [moduleDataflow, eq_comm] using h
    simp [hnil]
  | proc :: procs, analyses, h => by
    obtain ⟨a, as, ha, has, rfl⟩ := moduleDataflow_cons.mp h
    simp only [List.forall_mem_cons, Proc.exact_iff ha, exact_moduleDataflow_iff has]

/-- **When the analysis is exact**: it ends, and the sets are the live registers, if and only if every
register that a block reads first has its bit in a full word. -/
theorem dataflow_exact_iff (procs : List Proc) :
    (∃ fuel analyses, moduleDataflow fuel procs = some analyses ∧ ∀ a ∈ analyses, a.Exact) ↔
      ∀ proc ∈ procs, ∀ block ∈ proc.blocks, ∀ reg, ReadsFirst reg block.insts →
        reg / 32 < proc.numRegisters / 32 := by
  constructor
  · rintro ⟨fuel, analyses, h, hexact⟩
    exact (exact_moduleDataflow_iff h).mp hexact
  · intro hfull
    obtain ⟨fuel, hends⟩ := exists_moduleDataflow procs
    obtain ⟨analyses, h⟩ := hends fuel (Nat.le_refl fuel)
    exact ⟨fuel, analyses, h, (exact_moduleDataflow_iff h).mpr hfull⟩

/-- Block 0 gives register 0 a value, block 1 returns it. -/
def acrossBlocks : Proc where
  numRegisters := 1
  blocks := [⟨[⟨.ldi, .loadImmed 0⟩], [], []⟩, ⟨[⟨.ret, .ret (some 0)⟩], [], []⟩]
  numbered := by decide
  operands := by decide

/-- The register is in a partial word, and not found to be live. -/
theorem acrossBlocks_not_exact : ¬∀ procs : List Proc,
    ∃ fuel analyses, moduleDataflow fuel procs = some analyses ∧ ∀ a ∈ analyses, a.Exact := by
  intro h
  obtain ⟨fuel, analyses, hdata, hexact⟩ := h [acrossBlocks]
  have hfull := (exact_moduleDataflow_iff hdata).mp hexact acrossBlocks (List.mem_singleton_self _)
  have hcovered := hfull _ (List.mem_of_getElem? (i := 1) rfl) 0 (by decide)
  exact absurd hcovered (by decide)

end Ftke.CodeGen
