import Mathlib.Data.List.Basic
import Ftke.CodeGen.Bitset

/-!
# Ftke.CodeGen.Instruction

The intermediate code of the code generator (`instruction.h`, `instruction.c`):
instructions with the registers they define and use, blocks of them, and the
control-flow lists of a procedure.

A register is its number `reg_no`, a block its position in the procedure.  The
operands that no register is read from (immediates, shift operators, callees)
are left out.
-/

namespace Ftke.CodeGen

/-- `cg_opcode_t`. -/
inductive Opcode
  | nop
  | add | and | asr | cmp | div
  | lsl | lsr | mod | mul | neg
  | not | or | sub | xor
  | min | max
  | fadd | fcmp | fdiv | fmul | fneg
  | fsub | finv | fsqrt | abs | log2
  | trunc | round | fcnv
  | beq | bge | ble | bgt | blt
  | bne | bra
  | ldb | ldh | ldi | ldw | stb
  | sth | stw
  | call | ret | phi
  deriving DecidableEq, Repr

/-- `cg_inst_t`, by `cg_inst_kind_t`. -/
inductive InstKind
  | unary (destValue : Nat) (destFlags : Option Nat) (source : Nat)
  | binary (destValue : Nat) (destFlags : Option Nat) (source operand : Nat)
  | compare (destFlags source operand : Nat)
  | load (dest base : Nat)
  | store (source base : Nat)
  | loadImmed (dest : Nat)
  | branchLabel (target : Nat)
  | branchCond (target cond : Nat)
  | phi (dest : Nat) (regs : List Nat)
  | call (dest : Option Nat) (args : List Nat)
  | ret (result : Option Nat)
  | armUnaryImmed (destValue : Nat) (destFlags : Option Nat)
  | armUnaryShiftReg (destValue : Nat) (destFlags : Option Nat) (source shift : Nat)
  | armUnaryShiftImmed (destValue : Nat) (destFlags : Option Nat) (source : Nat)
  | armBinaryImmed (destValue : Nat) (destFlags : Option Nat) (source : Nat)
  | armBinaryShiftReg (destValue : Nat) (destFlags : Option Nat) (source operand shift : Nat)
  | armBinaryShiftImmed (destValue : Nat) (destFlags : Option Nat) (source operand : Nat)
  | armCompareImmed (destFlags source : Nat)
  | armCompareShiftReg (destFlags source operand shift : Nat)
  | armCompareShiftImmed (destFlags source operand : Nat)
  | armLoadImmedOffset (dest base : Nat)
  | armLoadRegOffset (dest base offset : Nat)
  | armStoreImmedOffset (source base : Nat)
  | armStoreRegOffset (source base offset : Nat)
  deriving DecidableEq, Repr

/-- An instruction: its opcode and its operands. -/
structure Inst where
  opcode : Opcode
  kind : InstKind
  deriving DecidableEq, Repr

/-! ## Registers defined and used -/

/-- `add_reg`: nothing is stored beyond the limit of the buffer. -/
def addReg (limit : Nat) (dest : List Nat) (reg : Nat) : List Nat :=
  if dest.length ≠ limit then dest ++ [reg] else dest

/-- `add_reg_list`. -/
def addRegList (limit : Nat) (dest regs : List Nat) : List Nat := regs.foldl (addReg limit) dest

/-- A value register and, where there is one, a flags register. -/
def addDest (limit : Nat) (destValue : Nat) (destFlags : Option Nat) : List Nat :=
  match destFlags with
  | some flags => addReg limit (addReg limit [] destValue) flags
  | none => addReg limit [] destValue

/-- `cg_inst_def`. -/
def instDef (limit : Nat) (inst : Inst) : List Nat :=
  match inst.kind with
  | .unary destValue destFlags _ => addDest limit destValue destFlags
  | .armUnaryImmed destValue destFlags => addDest limit destValue destFlags
  | .armUnaryShiftReg destValue destFlags _ _ => addDest limit destValue destFlags
  | .armUnaryShiftImmed destValue destFlags _ => addDest limit destValue destFlags
  | .binary destValue destFlags _ _ => addDest limit destValue destFlags
  | .armBinaryImmed destValue destFlags _ => addDest limit destValue destFlags
  | .armBinaryShiftReg destValue destFlags _ _ _ => addDest limit destValue destFlags
  | .armBinaryShiftImmed destValue destFlags _ _ => addDest limit destValue destFlags
  | .compare destFlags _ _ => addReg limit [] destFlags
  | .armCompareImmed destFlags _ => addReg limit [] destFlags
  | .armCompareShiftReg destFlags _ _ _ => addReg limit [] destFlags
  | .armCompareShiftImmed destFlags _ _ => addReg limit [] destFlags
  | .load dest _ => addReg limit [] dest
  | .armLoadImmedOffset dest _ => addReg limit [] dest
  | .armLoadRegOffset dest _ _ => addReg limit [] dest
  | .store _ _ => []
  | .armStoreImmedOffset _ _ => []
  | .armStoreRegOffset _ _ _ => []
  | .loadImmed dest => addReg limit [] dest
  | .branchLabel _ => []
  | .branchCond _ _ => []
  | .phi dest _ => addReg limit [] dest
  | .call (some dest) _ => addReg limit [] dest
  | .call none _ => []
  | .ret _ => []

/-- `cg_inst_use`. -/
def instUse (limit : Nat) (inst : Inst) : List Nat :=
  match inst.kind with
  | .unary _ _ source => addReg limit [] source
  | .armUnaryImmed _ _ => []
  | .armUnaryShiftReg _ _ source shift => addReg limit (addReg limit [] source) shift
  | .armUnaryShiftImmed _ _ source => addReg limit [] source
  | .binary _ _ source operand => addReg limit (addReg limit [] source) operand
  | .armBinaryImmed _ _ source => addReg limit [] source
  | .armBinaryShiftReg _ _ source operand shift => addReg limit (addReg limit (addReg limit [] source) operand) shift
  | .armBinaryShiftImmed _ _ source operand => addReg limit (addReg limit [] source) operand
  | .compare _ source operand => addReg limit (addReg limit [] source) operand
  | .armCompareImmed _ source => addReg limit [] source
  | .armCompareShiftReg _ source operand shift => addReg limit (addReg limit (addReg limit [] source) operand) shift
  | .armCompareShiftImmed _ source operand => addReg limit (addReg limit [] source) operand
  | .load _ base => addReg limit [] base
  | .armLoadImmedOffset _ base => addReg limit [] base
  | .armLoadRegOffset _ base offset => addReg limit (addReg limit [] base) offset
  | .store source base => addReg limit (addReg limit [] source) base
  | .armStoreImmedOffset source base => addReg limit (addReg limit [] source) base
  | .armStoreRegOffset source base offset => addReg limit (addReg limit (addReg limit [] source) base) offset
  | .loadImmed _ => []
  | .branchLabel _ => []
  | .branchCond _ cond => addReg limit [] cond
  | .phi _ regs => addRegList limit [] regs
  | .call _ args => addRegList limit [] args
  | .ret (some result) => addReg limit [] result
  | .ret none => []

/-! ## Operands -/

/-- The registers whose values an instruction takes. -/
def InstKind.reads : InstKind → List Nat
  | .unary _ _ source => [source]
  | .binary _ _ source operand => [source, operand]
  | .compare _ source operand => [source, operand]
  | .load _ base => [base]
  | .store source base => [source, base]
  | .loadImmed _ => []
  | .branchLabel _ => []
  | .branchCond _ cond => [cond]
  | .phi _ regs => regs
  | .call _ args => args
  | .ret result => result.toList
  | .armUnaryImmed _ _ => []
  | .armUnaryShiftReg _ _ source shift => [source, shift]
  | .armUnaryShiftImmed _ _ source => [source]
  | .armBinaryImmed _ _ source => [source]
  | .armBinaryShiftReg _ _ source operand shift => [source, operand, shift]
  | .armBinaryShiftImmed _ _ source operand => [source, operand]
  | .armCompareImmed _ source => [source]
  | .armCompareShiftReg _ source operand shift => [source, operand, shift]
  | .armCompareShiftImmed _ source operand => [source, operand]
  | .armLoadImmedOffset _ base => [base]
  | .armLoadRegOffset _ base offset => [base, offset]
  | .armStoreImmedOffset source base => [source, base]
  | .armStoreRegOffset source base offset => [source, base, offset]

/-- The registers that an instruction gives a value. -/
def InstKind.writes : InstKind → List Nat
  | .unary destValue destFlags _ => destValue :: destFlags.toList
  | .binary destValue destFlags _ _ => destValue :: destFlags.toList
  | .compare destFlags _ _ => [destFlags]
  | .load dest _ => [dest]
  | .store _ _ => []
  | .loadImmed dest => [dest]
  | .branchLabel _ => []
  | .branchCond _ _ => []
  | .phi dest _ => [dest]
  | .call dest _ => dest.toList
  | .ret _ => []
  | .armUnaryImmed destValue destFlags => destValue :: destFlags.toList
  | .armUnaryShiftReg destValue destFlags _ _ => destValue :: destFlags.toList
  | .armUnaryShiftImmed destValue destFlags _ => destValue :: destFlags.toList
  | .armBinaryImmed destValue destFlags _ => destValue :: destFlags.toList
  | .armBinaryShiftReg destValue destFlags _ _ _ => destValue :: destFlags.toList
  | .armBinaryShiftImmed destValue destFlags _ _ => destValue :: destFlags.toList
  | .armCompareImmed destFlags _ => [destFlags]
  | .armCompareShiftReg destFlags _ _ _ => [destFlags]
  | .armCompareShiftImmed destFlags _ _ => [destFlags]
  | .armLoadImmedOffset dest _ => [dest]
  | .armLoadRegOffset dest _ _ => [dest]
  | .armStoreImmedOffset _ _ => []
  | .armStoreRegOffset _ _ _ => []

theorem addRegList_eq (limit : Nat) : ∀ (regs dest : List Nat), dest.length + regs.length ≤ limit →
    addRegList limit dest regs = dest ++ regs
  | [], dest, _ => by simp [addRegList]
  | reg :: regs, dest, h => by
    rw [List.length_cons] at h
    have hadd : addReg limit dest reg = dest ++ [reg] := if_pos (by omega)
    have ih := addRegList_eq limit regs (dest ++ [reg]) (by simp; omega)
    rw [addRegList] at ih ⊢
    rw [List.foldl_cons, hadd, ih, List.append_assoc]
    rfl

section Buffer

variable {limit : Nat} {inst : Inst}

theorem addReg_one (h : 3 ≤ limit) (a : Nat) : addReg limit [] a = [a] := if_pos (by simp; omega)

theorem addReg_two (h : 3 ≤ limit) (a b : Nat) : addReg limit [a] b = [a, b] := if_pos (by simp; omega)

theorem addReg_three (h : 3 ≤ limit) (a b c : Nat) : addReg limit [a, b] c = [a, b, c] := if_pos (by simp; omega)

theorem instUse_eq_reads (h3 : 3 ≤ limit) (h : inst.kind.reads.length ≤ limit) :
    instUse limit inst = inst.kind.reads := by
  obtain ⟨opcode, kind⟩ := inst
  cases kind with
  | phi dest regs => exact addRegList_eq limit regs [] (by simpa [InstKind.reads] using h)
  | call dest args => exact addRegList_eq limit args [] (by simpa [InstKind.reads] using h)
  | ret result => cases result <;> simp [instUse, InstKind.reads, addReg_one h3]
  | _ => simp [instUse, InstKind.reads, addReg_one h3, addReg_two h3, addReg_three h3]

theorem instDef_eq_writes (h3 : 3 ≤ limit) : instDef limit inst = inst.kind.writes := by
  have hdest : ∀ destValue destFlags, addDest limit destValue destFlags = destValue :: destFlags.toList := by
    intro destValue destFlags
    cases destFlags <;> simp [addDest, addReg_one h3, addReg_two h3]
  obtain ⟨opcode, kind⟩ := inst
  cases kind with
  | call dest args => cases dest <;> simp [instDef, InstKind.writes, addReg_one h3]
  | _ => simp [instDef, InstKind.writes, hdest, addReg_one h3]

end Buffer

/-! ## Control flow -/

/-- `cg_block_t`: the instructions and the lists of neighbours. -/
structure Block where
  insts : List Inst
  pred : List Nat
  succ : List Nat
  deriving DecidableEq, Repr

/-- The target of a branch. -/
def InstKind.target : InstKind → Option Nat
  | .branchLabel target => some target
  | .branchCond target _ => some target
  | _ => none

/-- `add_successor`. -/
def addSuccessor (blocks : List Block) (block succ : Nat) : List Block :=
  blocks.modify block fun b => { b with succ := succ :: b.succ }

/-- `add_predecessor`. -/
def addPredecessor (blocks : List Block) (block pred : Nat) : List Block :=
  blocks.modify block fun b => { b with pred := pred :: b.pred }

/-- An edge of the graph, entered at both ends. -/
def addEdge (blocks : List Block) (block target : Nat) : List Block :=
  addPredecessor (addSuccessor blocks block target) target block

/-- One instruction in `proc_controlflow`: the edge of a branch, and whether it is `cg_op_bra`. -/
def instControlflow (block : Nat) (acc : List Block × Bool) (inst : Inst) : List Block × Bool :=
  match inst.kind.target with
  | some target => (addEdge acc.1 block target, inst.opcode == .bra)
  | none => (acc.1, inst.opcode == .bra)

/-- One block in `proc_controlflow`: its branches, and the next block unless the last instruction is a
jump. -/
def blockControlflow (blocks : List Block) (block : Nat) : List Block :=
  match blocks[block]? with
  | none => blocks
  | some b =>
    let acc := b.insts.foldl (instControlflow block) (blocks, false)
    if !acc.2 && block + 1 < blocks.length then addEdge acc.1 block (block + 1) else acc.1

/-- `proc_controlflow`. -/
def procControlflow (blocks : List Block) : List Block := (List.range blocks.length).foldl blockControlflow blocks

@[simp] theorem map_insts_addEdge (blocks : List Block) (block target : Nat) :
    (addEdge blocks block target).map Block.insts = blocks.map Block.insts := by
  rw [addEdge, addPredecessor, addSuccessor]
  apply List.ext_getElem?
  intro i
  simp only [List.getElem?_map, List.getElem?_modify]
  cases blocks[i]? with
  | none => rfl
  | some b =>
    simp only [Option.map_some, Option.map_eq_map]
    split <;> split <;> rfl

theorem map_insts_blockControlflow (blocks : List Block) (block : Nat) :
    (blockControlflow blocks block).map Block.insts = blocks.map Block.insts := by
  have hfold : ∀ (insts : List Inst) (acc : List Block × Bool),
      (insts.foldl (instControlflow block) acc).1.map Block.insts = acc.1.map Block.insts := by
    intro insts
    induction insts with
    | nil => exact fun _ => rfl
    | cons inst insts ih =>
      intro acc
      rw [List.foldl_cons, ih, instControlflow]
      split
      · exact map_insts_addEdge _ _ _
      · rfl
  rw [blockControlflow]
  split
  · rfl
  · simp only
    split
    · rw [map_insts_addEdge, hfold]
    · rw [hfold]

theorem map_insts_procControlflow (blocks : List Block) :
    (procControlflow blocks).map Block.insts = blocks.map Block.insts := by
  have hfold : ∀ (indices : List Nat) (blocks : List Block),
      (indices.foldl blockControlflow blocks).map Block.insts = blocks.map Block.insts := by
    intro indices
    induction indices with
    | nil => exact fun _ => rfl
    | cons i indices ih => exact fun blocks => (ih _).trans (map_insts_blockControlflow blocks i)
  exact hfold _ _

end Ftke.CodeGen
