import Ftke.CodeGen.Segment
import Ftke.Words

/-!
# Ftke.CodeGen.Emit

Labels, literals and the references to them in the ARM code generator (`emit.c`).

The code segment is a list of words (`cg_segment_emit_u32`), and offsets count words.  Of what
instruction selection emits for a block, the branches, the calls and the calls into the runtime
leave references behind.  A load has twelve bits for the distance to its literal, and the literal
of the frame size changes when the pool is written: `Proc.InReach` is code that gets by with that.
-/

namespace Ftke.CodeGen.Emit

open Segment (blockSize maxBlocks)

/-! ## The generator -/

/-- The labels of a module: those of each procedure and of each of its blocks. -/
inductive Label
  | prologue (proc : Nat)
  | block (proc index : Nat)
  | epilogue (proc : Nat)
  | literalBase (proc : Nat)
  deriving DecidableEq

/-- `cg_reference_type_t`; a load carries the literal and the value that it asked for, which
the fix-up does not read. -/
inductive RefType
  | branch24
  | offset12 (literal : Nat) (wanted : UInt32)

/-- `reference_t`, with the label whose list it is on. -/
structure Reference where
  offset : Nat
  refType : RefType
  target : Label

/-- What a block emits: the definition of its label, a finished instruction, `branch_cond`
(an `ARMCond` is four bits), the branch of `call`, and `call_runtime`. -/
inductive Code
  | label (index : Nat)
  | inst (word : UInt32)
  | branchCond (target : Label) (cond : Fin 16)
  | call (target : Label)
  | callRuntime (target : UInt32)

/-- `cg_proc_t`: what its blocks emit, and its `local_storage` after that. -/
structure Proc where
  blocks : List (List Code)
  localStorage : UInt32

/-- The code of the blocks in order, each behind its label. -/
def Proc.codes (proc : Proc) : List Code :=
  proc.blocks.zipIdx.flatMap fun (block, index) => .label index :: block

/-- `cg_codegen_t`: the segment, the labels defined, the references (the newest first) and
the values of the literals of the procedure. -/
structure Codegen where
  cseg : List UInt32 := []
  labels : Label → Option Nat := fun _ => none
  refs : List Reference := []
  literals : List UInt32 := []

/-- `SAVE_AREA_SIZE`. -/
def saveAreaSize : UInt32 := 40

namespace Codegen

variable (g : Codegen) (p : Nat)

/-- `cg_segment_emit_u32`. -/
def emit (words : List UInt32) : Codegen := { g with cseg := g.cseg ++ words }

end Codegen

/-- A field of an instruction, sign-extended, with a displacement added. -/
def fixField (mask sign displacement instruction : UInt32) : UInt32 :=
  let offset := instruction &&& mask
  let opcode := instruction &&& ~~~mask
  let offset := if offset &&& sign ≠ 0 then offset ||| ~~~mask else offset
  opcode ||| (mask &&& (offset + displacement))

/-- `fix_ref` on the word at `target`. -/
def fixRef (source target : UInt32) (refType : RefType) (instruction : UInt32) : UInt32 :=
  let displacement := source - target
  match refType with
  | .branch24 => fixField 0x00FFFFFF 0x800000 (displacement >>> 2) instruction
  | .offset12 _ _ => fixField 0x00000FFF 0x800 displacement instruction

/-- An offset in bytes; that of a label without a definition is `~0`. -/
def byteOffset : Option Nat → UInt32
  | some offset => UInt32.ofNat (4 * offset)
  | none => 0xFFFFFFFF

def Reference.fix (ref : Reference) (labels : Label → Option Nat) : UInt32 → UInt32 :=
  fixRef (byteOffset (labels ref.target)) (byteOffset (some ref.offset)) ref.refType

/-- `cg_codegen_fix_refs`.  The source goes through them label by label, which is the same:
`fixRefs_perm`. -/
def fixRefs (labels : Label → Option Nat) (refs : List Reference) (cseg : List UInt32) : List UInt32 :=
  refs.foldl (fun cseg ref => cseg.modify ref.offset (ref.fix labels)) cseg

/-- The number of words. -/
def Code.size : Code → Nat
  | .label _ => 0
  | .callRuntime _ => 2
  | _ => 1

def size (codes : List Code) : Nat := (codes.map Code.size).sum

/-- Each load is near enough to its literal, and no target has the value of the frame size when
that one changes; `pool` has the values asked for so far. -/
def InReach (localStorage : UInt32) : List UInt32 → List Code → Prop
  | _, [] => True
  | pool, .callRuntime target :: codes =>
    let pool := pool ++ if target ∈ pool then [] else [target]
    (size codes + pool.idxOf target < 1024 ∧ (target = saveAreaSize → localStorage = 0)) ∧
      InReach localStorage pool codes
  | pool, _ :: codes => InReach localStorage pool codes

def Proc.InReach (proc : Proc) : Prop :=
  size proc.codes < 1023 ∧ Emit.InReach proc.localStorage [saveAreaSize] proc.codes

/-! ## Instruction fields -/

section

variable {mask : UInt32} {k : Nat} (hmask : mask.toNat = 2 ^ k - 1) (w : UInt32)

include hmask

end

/-! ## The fix-up of a segment -/

section

variable {labels : Label → Option Nat} {refs : List Reference} {cseg : List UInt32}

theorem getElem?_fixRefs_of_ne {k : Nat} (h : ∀ ref ∈ refs, ref.offset ≠ k) :
    (fixRefs labels refs cseg)[k]? = cseg[k]? := by
  induction refs generalizing cseg with
  | nil => rfl
  | cons ref refs ih =>
    simp only [List.forall_mem_cons] at h
    rw [fixRefs, List.foldl_cons, ← fixRefs, ih h.2, List.getElem?_modify_ne _ _ h.1]

theorem getElem?_fixRefs (hrefs : refs.Pairwise (·.offset ≠ ·.offset)) {ref : Reference} (href : ref ∈ refs) :
    (fixRefs labels refs cseg)[ref.offset]? = cseg[ref.offset]?.map (ref.fix labels) := by
  induction refs generalizing cseg with
  | nil => simp at href
  | cons first refs ih =>
    obtain ⟨hfirst, hrefs⟩ := List.pairwise_cons.mp hrefs
    rw [fixRefs, List.foldl_cons, ← fixRefs]
    obtain rfl | href := List.mem_cons.mp href
    · rw [getElem?_fixRefs_of_ne fun other h => (hfirst other h).symm, List.getElem?_modify_eq, Option.map_eq_map]
    · rw [ih hrefs href, List.getElem?_modify_ne _ _ (hfirst ref href)]

/-- The references patch words of their own, in any order. -/
theorem fixRefs_perm {refs' : List Reference} (hrefs : refs.Pairwise (·.offset ≠ ·.offset))
    (h : refs.Perm refs') : fixRefs labels refs cseg = fixRefs labels refs' cseg := by
  have hrefs' := h.pairwise hrefs fun h => h.symm
  refine List.ext_getElem? fun k => ?_
  by_cases hk : ∃ ref ∈ refs, ref.offset = k
  · obtain ⟨ref, href, rfl⟩ := hk
    rw [getElem?_fixRefs hrefs href, getElem?_fixRefs hrefs' (h.mem_iff.mp href)]
  · rw [getElem?_fixRefs_of_ne (by grind), getElem?_fixRefs_of_ne (by grind [h.mem_iff])]

end

/-! ## What emission keeps -/

/-- The field of a reference when its instruction is emitted: the offset of the literal, less
the two words that the processor is ahead. -/
def Biased : RefType → UInt32 → Prop
  | .branch24, word => (word &&& 0xFFFFFF).toNat = 0xFFFFFE
  | .offset12 literal _, word => ((word &&& 0xFFF).toNat + 8) % 4096 = 4 * literal % 4096

namespace Codegen

/-- Every label is in the segment, every reference at a word of its own with a biased field. -/
structure Wf (g : Codegen) : Prop where
  labels : ∀ label, ∀ offset ∈ g.labels label, offset ≤ g.cseg.length
  refs : ∀ ref ∈ g.refs, ∃ word ∈ g.cseg[ref.offset]?, Biased ref.refType word
  distinct : g.refs.Pairwise (·.offset ≠ ·.offset)

/-- A word that no reference patches. -/
def Settled (g : Codegen) (k : Nat) (word : UInt32) : Prop :=
  g.cseg[k]? = some word ∧ ∀ ref ∈ g.refs, ref.offset ≠ k

/-- What every piece of emission keeps. -/
structure Keeps (g g' : Codegen) : Prop where
  wf : g.Wf → g'.Wf
  settled {k : Nat} {word : UInt32} : g.Settled k word → g'.Settled k word
  refs : g.refs ⊆ g'.refs

variable {g g' fin : Codegen} {p : Nat}

theorem Keeps.refl (g : Codegen) : g.Keeps g := ⟨id, id, List.Subset.refl _⟩

theorem Keeps.trans (h : g.Keeps g') (h' : g'.Keeps fin) : g.Keeps fin :=
  ⟨fun hg => h'.wf (h.wf hg), fun hk => h'.settled (h.settled hk), List.Subset.trans h.refs h'.refs⟩

theorem Wf.grow (hg : g.Wf) (words : List UInt32) {ref : Reference} (href : ref ∈ g.refs) :
    ∃ word ∈ (g.cseg ++ words)[ref.offset]?, Biased ref.refType word := by
  obtain ⟨word, hword, hbiased⟩ := hg.refs ref href
  exact ⟨word, by grind, hbiased⟩

section

variable (g : Codegen) (p : Nat)

end

section

variable (hwf : fin.Wf) (hlength : 4 * fin.cseg.length ≤ blockSize * maxBlocks)

include hwf

end

end Codegen

open Codegen

end Ftke.CodeGen.Emit
