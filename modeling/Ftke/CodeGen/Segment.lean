import Mathlib.Algebra.Ring.Nat
import Mathlib.Logic.Function.Basic
import Mathlib.Tactic.SplitIfs

/-!
# Ftke.CodeGen.Segment

The segments of the code generator (`segment.c`): blocks of 4096 bytes, allocated when
they are first touched.

`CgSegment.flat` reads the table of blocks as one array.  The operations on items reach the
byte at their offset, but the three block operations copy to and from the start of each
block, so they work on the flat array only from a block border on (`run_flat`).
-/

namespace Ftke.CodeGen.Segment

/-! ## The segment -/

/-- `BLOCK_SIZE`. -/
def blockSize : Nat := 4096

/-- `MAX_BLOCKS`. -/
def maxBlocks : Nat := 512

/-- The memory of a block. -/
abbrev Block := Nat → UInt8

/-- `cg_segment_t`, less its name. -/
structure CgSegment where
  blocks : Nat → Option Block
  currentSize : UInt32

/-- `cg_segment_create`. -/
def create : CgSegment := ⟨fun _ => none, 0⟩

/-- Memory with the bytes `p` copied to `start`. -/
def poke (memory : Nat → UInt8) (start : Nat) (p : List UInt8) : Nat → UInt8 := fun i =>
  if start ≤ i then p.getD (i - start) (memory i) else memory i

/-- `size` bytes of memory from `start` on. -/
def peek (memory : Nat → UInt8) (start size : Nat) : List UInt8 :=
  (List.range size).map fun i => memory (start + i)

/-- The size that `cg_segment_align` rounds up to. -/
def aligned (size alignment : UInt32) : UInt32 := (size + (alignment - 1)) &&& ~~~(alignment - 1)

namespace CgSegment

variable (s : CgSegment)

/-- `cg_segment_align`. -/
def align (alignment : UInt32) : CgSegment := { s with currentSize := aligned s.currentSize alignment }

/-- The memory behind a pointer to a block; a block not yet allocated is all zero. -/
def block (blockIndex : Nat) : Block := (s.blocks blockIndex).getD fun _ => 0

/-- The segment with other memory in a block. -/
def setBlockMemory (blockIndex : Nat) (memory : Block) : CgSegment :=
  { s with blocks := Function.update s.blocks blockIndex (some memory) }

/-- `block_pointer`: the block, allocated if it was not; `none` outside the table. -/
def blockPointer (blockIndex : Nat) : Option (Block × CgSegment) :=
  if blockIndex < maxBlocks then some (s.block blockIndex, s.setBlockMemory blockIndex (s.block blockIndex))
  else none

/-- A write through `data_pointer`; `none` if it leaves the block. -/
def store (offset : Nat) (item : List UInt8) : Option CgSegment := do
  let (memory, s) ← s.blockPointer (offset / blockSize)
  if offset % blockSize + item.length ≤ blockSize then
    some (s.setBlockMemory (offset / blockSize) (poke memory (offset % blockSize) item))
  else none

/-- A read through `data_pointer`. -/
def load (offset size : Nat) : Option (List UInt8 × CgSegment) := do
  let (memory, s) ← s.blockPointer (offset / blockSize)
  if offset % blockSize + size ≤ blockSize then some (peek memory (offset % blockSize) size, s) else none

end CgSegment

/-- What is emitted and set at once.  The signed forms store the same bits. -/
inductive Item
  | u8 (byte : UInt8)
  | u16 (halfWord : UInt16)
  | u32 (word : UInt32)

/-- An item in memory, the low byte first. -/
def Item.bytes : Item → List UInt8
  | .u8 byte => [byte]
  | .u16 halfWord => [halfWord.toUInt8, (halfWord >>> 8).toUInt8]
  | .u32 word => [word.toUInt8, (word >>> 8).toUInt8, (word >>> 16).toUInt8, (word >>> 24).toUInt8]

/-- The size of the types `U8`, `U16` and `U32`. -/
inductive Width
  | u8 | u16 | u32

def Width.size : Width → Nat
  | .u8 => 1
  | .u16 => 2
  | .u32 => 4

theorem Width.size_pos (width : Width) : 0 < width.size := by cases width <;> decide

def Item.width : Item → Width
  | .u8 _ => .u8
  | .u16 _ => .u16
  | .u32 _ => .u32

/-- The bytes of a turn of the block operations: up to the end of the block. -/
def chunkSize (offset size : Nat) : Nat := min size (blockSize - offset % blockSize)

theorem chunkSize_pos (offset : Nat) {size : Nat} (h : size ≠ 0) : 0 < chunkSize offset size := by
  have hmod : offset % blockSize < blockSize := Nat.mod_lt _ (by decide)
  rw [chunkSize]
  omega

namespace CgSegment

/-- Bytes written at the end of the segment, which moves behind them. -/
def append (s : CgSegment) (item : List UInt8) : Option CgSegment :=
  (s.store s.currentSize.toNat item).map fun s =>
    { s with currentSize := s.currentSize + UInt32.ofNat item.length }

/-- `cg_segment_emit_u8`, `cg_segment_emit_u16` and `cg_segment_emit_u32`. -/
def emit (s : CgSegment) : Item → Option CgSegment
  | .u8 byte => s.append (Item.u8 byte).bytes
  | .u16 halfWord => (s.align 2).append (Item.u16 halfWord).bytes
  | .u32 word => (s.align 4).append (Item.u32 word).bytes

/-- `cg_segment_set_u8`, `cg_segment_set_u16` and `cg_segment_set_u32`. -/
def set (s : CgSegment) (offset : Nat) (item : Item) : Option CgSegment := s.store offset item.bytes

/-- `cg_segment_get_u8`, `cg_segment_get_u16` and `cg_segment_get_u32`: the bytes of the item. -/
def get (s : CgSegment) (offset : Nat) (width : Width) : Option (List UInt8 × CgSegment) :=
  s.load offset width.size

/-- `cg_segment_set_block`.  The bytes go to `block->memory`, whatever `block_offset` is. -/
def setBlock (s : CgSegment) (offset : Nat) (p : List UInt8) : Option CgSegment :=
  if p.length = 0 then some s
  else
    let chunk := chunkSize offset p.length
    (s.blockPointer (offset / blockSize)).bind fun (memory, s) =>
      setBlock (s.setBlockMemory (offset / blockSize) (poke memory 0 (p.take chunk))) (offset + chunk) (p.drop chunk)
termination_by p.length
decreasing_by
  rw [List.length_drop]
  exact Nat.sub_lt (Nat.pos_of_ne_zero ‹_›) (chunkSize_pos _ ‹_›)

/-- `cg_segment_emit_block`. -/
def emitBlock (s : CgSegment) (p : List UInt8) : Option CgSegment :=
  if p.length = 0 then some s
  else
    let blockIndex := s.currentSize.toNat / blockSize
    let chunk := chunkSize s.currentSize.toNat p.length
    (s.blockPointer blockIndex).bind fun (memory, s) =>
      let s := s.setBlockMemory blockIndex (poke memory 0 (p.take chunk))
      emitBlock { s with currentSize := s.currentSize + UInt32.ofNat chunk } (p.drop chunk)
termination_by p.length
decreasing_by
  rw [List.length_drop]
  exact Nat.sub_lt (Nat.pos_of_ne_zero ‹_›) (chunkSize_pos _ ‹_›)

/-- `cg_segment_get_block`. -/
def getBlock (s : CgSegment) (offset size : Nat) : Option (List UInt8 × CgSegment) :=
  if size = 0 then some ([], s)
  else
    let chunk := chunkSize offset size
    (s.blockPointer (offset / blockSize)).bind fun (memory, s) =>
      (getBlock s (offset + chunk) (size - chunk)).map fun (p, s) => (peek memory 0 chunk ++ p, s)
termination_by size
decreasing_by
  exact Nat.sub_lt (Nat.pos_of_ne_zero ‹_›) (chunkSize_pos _ ‹_›)

end CgSegment

/-! ## A flat array -/

/-- The bytes of a segment as one array, and its size. -/
structure Flat where
  bytes : Nat → UInt8
  size : UInt32

namespace Flat

def write (f : Flat) (offset : Nat) (p : List UInt8) : Flat := { f with bytes := poke f.bytes offset p }

def align (f : Flat) (alignment : UInt32) : Flat := { f with size := aligned f.size alignment }

/-- The size after an item is the end of the item. -/
def append (f : Flat) (p : List UInt8) : Flat where
  bytes := poke f.bytes f.size.toNat p
  size := f.size + UInt32.ofNat p.length

/-- The segment where an item goes: its size is rounded up to that of the item. -/
def alignFor (f : Flat) : Width → Flat
  | .u8 => f
  | .u16 => f.align 2
  | .u32 => f.align 4

end Flat

/-- The table of blocks read as one array. -/
def CgSegment.flat (s : CgSegment) : Flat where
  bytes offset := s.block (offset / blockSize) (offset % blockSize)
  size := s.currentSize

/-! ## Bytes -/

theorem poke_nil (memory : Nat → UInt8) (start : Nat) : poke memory start [] = memory := by
  funext i
  simp [poke]

theorem poke_append (memory : Nat → UInt8) (start : Nat) (p q : List UInt8) :
    poke (poke memory start p) (start + p.length) q = poke memory start (p ++ q) := by
  funext i
  simp only [poke, List.getD_eq_getElem?_getD]
  by_cases hq : start + p.length ≤ i
  · rw [if_pos hq, if_pos (by omega), if_pos (by omega), List.getElem?_append_right (by omega),
      List.getElem?_eq_none (l := p) (by omega), Nat.sub_sub]
    rfl
  · rw [if_neg hq]
    by_cases hp : start ≤ i
    · rw [if_pos hp, if_pos hp, List.getElem?_append_left (by omega)]
    · rw [if_neg hp, if_neg hp]

theorem peek_add (memory : Nat → UInt8) (start m n : Nat) :
    peek memory start (m + n) = peek memory start m ++ peek memory (start + m) n := by
  simp [peek, List.range_add, Nat.add_assoc]

theorem length_bytes (item : Item) : item.bytes.length = item.width.size := by
  cases item <;> rfl

/-- Rounding up leaves none of the bits below the alignment. -/
theorem aligned_and (size alignment : UInt32) : aligned size alignment &&& (alignment - 1) = 0 := by
  have hnot : ~~~(alignment - 1) &&& (alignment - 1) = 0 := by
    rw [UInt32.and_comm]
    exact UInt32.and_not_self
  rw [aligned, UInt32.and_assoc, hnot, UInt32.and_zero]

theorem aligned_mod (size : UInt32) {alignment : UInt32} {k : Nat} (h : (alignment - 1).toNat = 2 ^ k - 1) :
    (aligned size alignment).toNat % 2 ^ k = 0 := by
  rw [← Nat.and_two_pow_sub_one_eq_mod, ← h, ← UInt32.toNat_and, aligned_and]
  rfl

/-! ## Blocks -/

section

variable {s : CgSegment} {offset size : Nat} {p : List UInt8} {memory : Block}

theorem blockPointer_eq (h : offset < blockSize * maxBlocks) :
    s.blockPointer (offset / blockSize) = some (s.block (offset / blockSize),
      s.setBlockMemory (offset / blockSize) (s.block (offset / blockSize))) :=
  if_pos (Nat.div_lt_of_lt_mul h)

theorem block_setBlockMemory (i j : Nat) :
    (s.setBlockMemory i memory).block j = if j = i then memory else s.block j := by
  simp only [CgSegment.block, CgSegment.setBlockMemory, Function.update_apply]
  split <;> rfl

theorem setBlockMemory_twice (i : Nat) (memory' : Block) :
    (s.setBlockMemory i memory).setBlockMemory i memory' = s.setBlockMemory i memory' := by
  simp [CgSegment.setBlockMemory]

/-- Allocating a block changes no byte. -/
theorem flat_allocate (i : Nat) : (s.setBlockMemory i (s.block i)).flat = s.flat := by
  simp only [CgSegment.flat, block_setBlockMemory]
  grind [CgSegment.setBlockMemory]

theorem byte_eq (o : Nat) : s.flat.bytes o = s.block (o / blockSize) (o % blockSize) := rfl

theorem mul_div_add_mod (o : Nat) : o / blockSize * blockSize + o % blockSize = o := Nat.div_add_mod' o blockSize

/-- **Bytes copied within a block are copied in the flat array.** -/
theorem flat_poke (h : offset % blockSize + p.length ≤ blockSize) :
    (s.setBlockMemory (offset / blockSize) (poke (s.block (offset / blockSize)) (offset % blockSize) p)).flat =
      s.flat.write offset p := by
  have hstart := mul_div_add_mod offset
  have hbytes : ∀ o, (s.setBlockMemory (offset / blockSize)
      (poke (s.block (offset / blockSize)) (offset % blockSize) p)).flat.bytes o = poke s.flat.bytes offset p o := by
    intro o
    have ho := mul_div_add_mod o
    rw [byte_eq, block_setBlockMemory]
    split
    · rename_i hsame
      rw [hsame] at ho
      have hle : offset % blockSize ≤ o % blockSize ↔ offset ≤ o := by omega
      have hsub : o % blockSize - offset % blockSize = o - offset := by omega
      rw [poke, poke, byte_eq, hsub, hsame]
      simp only [hle]
    · rename_i hother
      have houtside : o < offset ∨ offset + p.length ≤ o := by
        by_contra hin
        exact hother (Nat.div_eq_of_lt_le (by omega) (by rw [Nat.succ_mul]; omega))
      rw [← byte_eq, poke]
      split
      · rw [List.getD_eq_getElem?_getD, List.getElem?_eq_none (by omega)]
        rfl
      · rfl
  rw [Flat.write, ← funext hbytes]
  rfl

theorem peek_block (h : offset % blockSize + size ≤ blockSize) :
    peek (s.block (offset / blockSize)) (offset % blockSize) size = peek s.flat.bytes offset size := by
  have hstart := mul_div_add_mod offset
  apply List.map_congr_left
  intro i hi
  have hlt := List.mem_range.mp hi
  have hdiv : (offset + i) / blockSize = offset / blockSize :=
    Nat.div_eq_of_lt_le (by omega) (by rw [Nat.succ_mul]; omega)
  have hsum := mul_div_add_mod (offset + i)
  rw [hdiv] at hsum
  have hmod : (offset + i) % blockSize = offset % blockSize + i := by omega
  rw [byte_eq, hdiv, hmod]

/-! ## The operations -/

theorem store_spec (hblock : offset % blockSize + p.length ≤ blockSize) (h : offset < blockSize * maxBlocks) :
    ∃ s', s.store offset p = some s' ∧ s'.flat = s.flat.write offset p := by
  refine ⟨_, ?_, flat_poke hblock⟩
  simp only [CgSegment.store, blockPointer_eq h, Option.bind_eq_bind, Option.bind_some, if_pos hblock,
    setBlockMemory_twice]

theorem load_spec (hblock : offset % blockSize + size ≤ blockSize) (h : offset < blockSize * maxBlocks) :
    ∃ s', s.load offset size = some (peek s.flat.bytes offset size, s') ∧ s'.flat = s.flat := by
  refine ⟨_, ?_, flat_allocate (offset / blockSize)⟩
  simp only [CgSegment.load, blockPointer_eq h, Option.bind_eq_bind, Option.bind_some, if_pos hblock,
    peek_block hblock]

theorem append_spec (hblock : s.currentSize.toNat % blockSize + p.length ≤ blockSize)
    (h : s.currentSize.toNat < blockSize * maxBlocks) :
    ∃ s', s.append p = some s' ∧ s'.flat = s.flat.append p := by
  obtain ⟨s', hs', hflat⟩ := store_spec hblock h
  have hsize : s'.currentSize = s.currentSize := congrArg Flat.size hflat
  refine ⟨_, by rw [CgSegment.append, hs', Option.map_some], ?_⟩
  rw [hsize]
  exact congrArg (fun f : Flat => { f with size := s.currentSize + UInt32.ofNat p.length }) hflat

/-- A turn of a block operation that starts on a border copies within the block, and the next one
starts on a border if there is any. -/
theorem chunkSize_spec (size : Nat) (hborder : offset % blockSize = 0) :
    chunkSize offset size ≤ blockSize ∧ chunkSize offset size ≤ size ∧
      (size - chunkSize offset size = 0 ∨ (offset + chunkSize offset size) % blockSize = 0) := by
  simp only [chunkSize, blockSize] at *
  omega

theorem flat_poke_border {chunk : Nat} (hborder : offset % blockSize = 0)
    (hchunk : chunk ≤ blockSize) :
    (s.setBlockMemory (offset / blockSize) (poke (s.block (offset / blockSize)) 0 (p.take chunk))).flat =
      s.flat.write offset (p.take chunk) := by
  have h := flat_poke (s := s) (p := p.take chunk)
    (show offset % blockSize + _ ≤ _ by rw [hborder, List.length_take]; omega)
  rwa [hborder] at h

theorem write_write {chunk : Nat} (f : Flat) (hchunk : chunk ≤ p.length) :
    (f.write offset (p.take chunk)).write (offset + chunk) (p.drop chunk) = f.write offset p := by
  have h := poke_append f.bytes offset (p.take chunk) (p.drop chunk)
  rw [List.take_append_drop, List.length_take, Nat.min_eq_left hchunk] at h
  simp only [Flat.write, h]

theorem setBlock_spec (s : CgSegment) (offset : Nat) (p : List UInt8)
    (hborder : p.length = 0 ∨ offset % blockSize = 0) (h : offset + p.length ≤ blockSize * maxBlocks) :
    ∃ s', s.setBlock offset p = some s' ∧ s'.flat = s.flat.write offset p := by
  induction s, offset, p using CgSegment.setBlock.induct with
  | case1 s offset p hp =>
    refine ⟨s, by rw [CgSegment.setBlock, if_pos hp], ?_⟩
    rw [List.length_eq_zero_iff.mp hp, Flat.write, poke_nil]
  | case2 s offset p hp chunk ih =>
    have hborder := hborder.resolve_left hp
    obtain ⟨hchunk, hle, hnext⟩ := chunkSize_spec p.length hborder
    obtain ⟨s', hs', hflat⟩ := ih (s.block (offset / blockSize))
      (s.setBlockMemory (offset / blockSize) (s.block (offset / blockSize)))
      (by rwa [List.length_drop]) (by rw [List.length_drop]; omega)
    rw [setBlockMemory_twice] at hs' hflat
    refine ⟨s', ?_, ?_⟩
    · rw [CgSegment.setBlock, if_neg hp, blockPointer_eq (by omega), Option.bind_some]
      simp only [setBlockMemory_twice]
      exact hs'
    · rw [hflat, flat_poke_border hborder hchunk, write_write s.flat hle]

theorem getBlock_spec (s : CgSegment) (offset size : Nat)
    (hborder : size = 0 ∨ offset % blockSize = 0) (h : offset + size ≤ blockSize * maxBlocks) :
    ∃ s', s.getBlock offset size = some (peek s.flat.bytes offset size, s') ∧ s'.flat = s.flat := by
  induction s, offset, size using CgSegment.getBlock.induct with
  | case1 s offset => exact ⟨s, by rw [CgSegment.getBlock, if_pos rfl]; rfl, rfl⟩
  | case2 s offset size hsize chunk ih =>
    have hborder := hborder.resolve_left hsize
    obtain ⟨hchunk, hle, hnext⟩ := chunkSize_spec size hborder
    obtain ⟨s', hs', hflat⟩ := ih
      (s.setBlockMemory (offset / blockSize) (s.block (offset / blockSize))) hnext (by omega)
    rw [flat_allocate] at hs' hflat
    refine ⟨s', ?_, hflat⟩
    have hpeek := peek_block (s := s) (show offset % blockSize + chunk ≤ blockSize by rw [hborder]; omega)
    have hadd := peek_add s.flat.bytes offset chunk (size - chunk)
    rw [Nat.add_sub_cancel' hle] at hadd
    rw [CgSegment.getBlock, if_neg hsize, blockPointer_eq (by omega), Option.bind_some]
    simp only
    rw [hs', Option.map_some, hadd, ← hpeek, hborder]

theorem append_append {chunk : Nat} (f : Flat) (hchunk : chunk ≤ p.length) (h : f.size.toNat + chunk < 2 ^ 32) :
    (f.append (p.take chunk)).append (p.drop chunk) = f.append p := by
  have hbytes := poke_append f.bytes f.size.toNat (p.take chunk) (p.drop chunk)
  have hlen : (p.take chunk).length = chunk := by rw [List.length_take, Nat.min_eq_left hchunk]
  have hsize : (f.size + UInt32.ofNat chunk).toNat = f.size.toNat + chunk := by
    rw [UInt32.toNat_add, UInt32.toNat_ofNat']
    omega
  rw [List.take_append_drop, hlen] at hbytes
  simp only [Flat.append, hlen, hsize, hbytes, List.length_drop, UInt32.add_assoc, ← UInt32.ofNat_add,
    Nat.add_sub_cancel' hchunk]

theorem emitBlock_spec (s : CgSegment) (p : List UInt8)
    (hborder : p.length = 0 ∨ s.currentSize.toNat % blockSize = 0)
    (h : s.currentSize.toNat + p.length ≤ blockSize * maxBlocks) :
    ∃ s', s.emitBlock p = some s' ∧ s'.flat = s.flat.append p := by
  induction s, p using CgSegment.emitBlock.induct with
  | case1 s p hp =>
    refine ⟨s, by rw [CgSegment.emitBlock, if_pos hp], ?_⟩
    rw [List.length_eq_zero_iff.mp hp, Flat.append, poke_nil]
    simp [CgSegment.flat]
  | case2 s p hp blockIndex chunk ih =>
    have hborder := hborder.resolve_left hp
    obtain ⟨hchunk, hle, hnext⟩ := chunkSize_spec p.length hborder
    have hsum : s.currentSize.toNat + chunk < 2 ^ 32 := by
      have hlimit : blockSize * maxBlocks < 2 ^ 32 := by decide
      exact Nat.lt_of_le_of_lt (Nat.le_trans (Nat.add_le_add_left hle _) h) hlimit
    have hsize : (s.currentSize + UInt32.ofNat chunk).toNat = s.currentSize.toNat + chunk := by
      rw [UInt32.toNat_add, UInt32.toNat_ofNat']
      omega
    obtain ⟨s', hs', hflat⟩ := ih (s.block blockIndex) (s.setBlockMemory blockIndex (s.block blockIndex))
      (by rw [List.length_drop]; exact hsize ▸ hnext)
      (by rw [List.length_drop]; exact hsize ▸ by omega)
    rw [setBlockMemory_twice] at hs' hflat
    refine ⟨s', ?_, ?_⟩
    · rw [CgSegment.emitBlock, if_neg hp]
      simp only
      rw [blockPointer_eq (by omega), Option.bind_some]
      simp only [setBlockMemory_twice]
      exact hs'
    · have hturn := flat_poke_border (s := s) (p := p) hborder hchunk
      have happend : CgSegment.flat { s.setBlockMemory blockIndex (poke (s.block blockIndex) 0 (p.take chunk)) with
          currentSize := s.currentSize + UInt32.ofNat chunk } = s.flat.append (p.take chunk) := by
        rw [Flat.append, List.length_take, Nat.min_eq_left hle]
        exact congrArg (fun f : Flat => { f with size := s.currentSize + UInt32.ofNat chunk }) hturn
      rw [hflat, ← append_append s.flat hle hsum, ← happend]
      rfl

end

/-! ## Runs -/

/-- A call on a segment. -/
inductive Op
  | emit (item : Item)
  | emitBlock (p : List UInt8)
  | align (alignment : UInt32)
  | set (offset : Nat) (item : Item)
  | setBlock (offset : Nat) (p : List UInt8)
  | get (offset : Nat) (width : Width)
  | getBlock (offset size : Nat)

/-- What a call reads, and the segment after it. -/
def CgSegment.exec (s : CgSegment) : Op → Option (List UInt8 × CgSegment)
  | .emit item => (s.emit item).map ([], ·)
  | .emitBlock p => (s.emitBlock p).map ([], ·)
  | .align alignment => some ([], s.align alignment)
  | .set offset item => (s.set offset item).map ([], ·)
  | .setBlock offset p => (s.setBlock offset p).map ([], ·)
  | .get offset width => s.get offset width
  | .getBlock offset size => s.getBlock offset size

/-- The same on a flat array. -/
def Flat.exec (f : Flat) : Op → List UInt8 × Flat
  | .emit item => ([], (f.alignFor item.width).append item.bytes)
  | .emitBlock p => ([], f.append p)
  | .align alignment => ([], f.align alignment)
  | .set offset item => ([], f.write offset item.bytes)
  | .setBlock offset p => ([], f.write offset p)
  | .get offset width => (peek f.bytes offset width.size, f)
  | .getBlock offset size => (peek f.bytes offset size, f)

/-- A call stays within the blocks, and the items that it sets and gets are aligned. -/
def Fits (f : Flat) : Op → Prop
  | .emit item => (f.alignFor item.width).size.toNat + item.width.size ≤ blockSize * maxBlocks
  | .emitBlock p => f.size.toNat + p.length ≤ blockSize * maxBlocks
  | .align _ => True
  | .set offset item =>
    offset % item.width.size = 0 ∧ offset + item.width.size ≤ blockSize * maxBlocks
  | .setBlock offset p => offset + p.length ≤ blockSize * maxBlocks
  | .get offset width => offset % width.size = 0 ∧ offset + width.size ≤ blockSize * maxBlocks
  | .getBlock offset size => offset + size ≤ blockSize * maxBlocks

/-- A block operation moves nothing, or starts on a block border. -/
def OnBorder (f : Flat) : Op → Prop
  | .emitBlock p => p.length = 0 ∨ f.size.toNat % blockSize = 0
  | .setBlock offset p => p.length = 0 ∨ offset % blockSize = 0
  | .getBlock offset size => size = 0 ∨ offset % blockSize = 0
  | _ => True

/-- A flat array before the first call. -/
def Flat.zero : Flat := ⟨fun _ => 0, 0⟩

/-- What the calls of a run read, and the segment after it. -/
def CgSegment.run (s : CgSegment) : List Op → Option (List (List UInt8) × CgSegment)
  | [] => some ([], s)
  | op :: ops => do
    let (out, s) ← s.exec op
    let (outs, s) ← s.run ops
    some (out :: outs, s)

def Flat.run (f : Flat) : List Op → List (List UInt8) × Flat
  | [] => ([], f)
  | op :: ops =>
    let (out, f) := f.exec op
    let (outs, f) := f.run ops
    (out :: outs, f)

/-- Every call of a run meets a condition on it and on the array before it. -/
def Throughout (P : Flat → Op → Prop) (f : Flat) : List Op → Prop
  | [] => True
  | op :: ops => P f op ∧ Throughout P (f.exec op).2 ops

theorem size_in_block {width : Width} {offset : Nat} (h : offset % width.size = 0) :
    offset % blockSize + width.size ≤ blockSize := by
  cases width <;> simp only [Width.size, blockSize] at * <;> omega

theorem alignFor_mod (f : Flat) (width : Width) : (f.alignFor width).size.toNat % width.size = 0 := by
  cases width
  · exact Nat.mod_one _
  · exact aligned_mod (k := 1) f.size rfl
  · exact aligned_mod (k := 2) f.size rfl

theorem emit_spec {s : CgSegment} {item : Item} (h : Fits s.flat (.emit item)) :
    ∃ s', s.emit item = some s' ∧ s'.flat = (s.flat.alignFor item.width).append item.bytes := by
  have hblock := size_in_block (alignFor_mod s.flat item.width)
  have hlen := length_bytes item
  have hpos := item.width.size_pos
  simp only [Fits] at h
  have hlt : (s.flat.alignFor item.width).size.toNat < blockSize * maxBlocks := by omega
  rw [← hlen] at hblock
  cases item
  · exact append_spec hblock hlt
  · exact append_spec (s := s.align 2) hblock hlt
  · exact append_spec (s := s.align 4) hblock hlt

/-- **A call on a block border or on an item does what it does on the flat array.** -/
theorem exec_spec {s : CgSegment} {op : Op} (hfits : Fits s.flat op) (hborder : OnBorder s.flat op) :
    ∃ s', s.exec op = some ((s.flat.exec op).1, s') ∧ s'.flat = (s.flat.exec op).2 := by
  cases op with
  | emit item =>
    obtain ⟨s', hs', hflat⟩ := emit_spec hfits
    exact ⟨s', by rw [CgSegment.exec, hs']; rfl, hflat⟩
  | emitBlock p =>
    obtain ⟨s', hs', hflat⟩ := emitBlock_spec s p hborder hfits
    exact ⟨s', by rw [CgSegment.exec, hs']; rfl, hflat⟩
  | align alignment => exact ⟨_, rfl, rfl⟩
  | set offset item =>
    have hpos := item.width.size_pos
    have hlen := length_bytes item
    simp only [Fits] at hfits
    obtain ⟨s', hs', hflat⟩ := store_spec (s := s) (p := item.bytes)
      (by rw [hlen]; exact size_in_block hfits.1) (by omega)
    exact ⟨s', by rw [CgSegment.exec, CgSegment.set, hs']; rfl, hflat⟩
  | setBlock offset p =>
    obtain ⟨s', hs', hflat⟩ := setBlock_spec s offset p hborder hfits
    exact ⟨s', by rw [CgSegment.exec, hs']; rfl, hflat⟩
  | get offset width =>
    have hpos := width.size_pos
    simp only [Fits] at hfits
    exact load_spec (size_in_block hfits.1) (by omega)
  | getBlock offset size => exact getBlock_spec s offset size hborder hfits

theorem run_spec : ∀ (ops : List Op) (s : CgSegment), Throughout Fits s.flat ops → Throughout OnBorder s.flat ops →
    ∃ s', s.run ops = some ((s.flat.run ops).1, s') ∧ s'.flat = (s.flat.run ops).2
  | [], s, _, _ => ⟨s, rfl, rfl⟩
  | op :: ops, s, ⟨hfits, hfits'⟩, ⟨hborder, hborder'⟩ => by
    obtain ⟨s', hs', hflat⟩ := exec_spec hfits hborder
    rw [← hflat] at hfits' hborder'
    obtain ⟨t, ht, hflat'⟩ := run_spec ops s' hfits' hborder'
    refine ⟨t, ?_, ?_⟩
    · simp only [CgSegment.run, Flat.run, hs', Option.bind_eq_bind, Option.bind_some, ht, ← hflat]
    · rw [hflat', hflat]
      rfl

/-- **A segment is a flat array in every run whose block operations start on block borders.** -/
theorem run_flat (ops : List Op) (hfits : Throughout Fits Flat.zero ops)
    (hborder : Throughout OnBorder Flat.zero ops) :
    ∃ s, create.run ops = some ((Flat.zero.run ops).1, s) ∧ s.flat = (Flat.zero.run ops).2 :=
  run_spec ops create hfits hborder

theorem run_flat_two_items : ∃ s,
    create.run [.emit (.u32 258), .align 4096, .emitBlock [1, 2], .getBlock 4096 2, .get 0 .u16] =
      some ([[], [], [], [1, 2], [2, 1]], s) ∧ s.currentSize = 4098 := by
  obtain ⟨s, hs, hflat⟩ := run_flat
    [.emit (.u32 258), .align 4096, .emitBlock [1, 2], .getBlock 4096 2, .get 0 .u16]
    ⟨by change _ ≤ _; decide, trivial, by change _ ≤ _; decide, by change _ ≤ _; decide,
      by change _ ∧ _; decide, trivial⟩
    ⟨trivial, trivial, .inr (by decide), .inr (by decide), trivial, trivial⟩
  have hout : (Flat.zero.run [.emit (.u32 258), .align 4096, .emitBlock [1, 2], .getBlock 4096 2, .get 0 .u16]).1 =
      [[], [], [], [1, 2], [2, 1]] := by decide
  exact ⟨s, by rw [hs, hout], congrArg Flat.size hflat⟩

theorem setBlock_one (s : CgSegment) {offset : Nat} (h : offset < blockSize * maxBlocks) (b : UInt8) :
    s.setBlock offset [b] =
      some (s.setBlockMemory (offset / blockSize) (poke (s.block (offset / blockSize)) 0 [b])) := by
  have hmod : offset % blockSize < blockSize := Nat.mod_lt _ (by decide)
  have hchunk : chunkSize offset 1 = 1 := by
    rw [chunkSize]
    omega
  rw [CgSegment.setBlock, List.length_singleton, if_neg Nat.one_ne_zero, blockPointer_eq h, Option.bind_some]
  simp only [hchunk, setBlockMemory_twice]
  rw [CgSegment.setBlock]
  rfl

/-- Off a border `cg_segment_set_block` writes to the start of the block. -/
theorem setBlock_misplaced : Throughout Fits Flat.zero [.setBlock 1 [7], .get 1 .u8] ∧
    (create.run [.setBlock 1 [7], .get 1 .u8]).map Prod.fst ≠
      some (Flat.zero.run [.setBlock 1 [7], .get 1 .u8]).1 := by
  refine ⟨⟨by change _ ≤ _; decide, by change _ ∧ _; decide, trivial⟩, ?_⟩
  simp only [CgSegment.run, CgSegment.exec, setBlock_one create (show 1 < blockSize * maxBlocks by decide)]
  decide

end Ftke.CodeGen.Segment
