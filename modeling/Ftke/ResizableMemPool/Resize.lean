import Ftke.ResizableMemPool.Blocks

/-!
# Ftke.ResizableMemPool.Resize

What `trim` and `allocateblock` do to the blocks of a buffer.

* `Cut.trim` — the end of a block in use becomes free;
* `Cut.allocateblock` — a free block comes in use, its end stays free.
-/

namespace Ftke.ResizableMemPool

open VariableSizeMemPool (add32 alignedSize)
open Pool (alignedToFree)

/-! ## Pointers -/

/-- A buffer of the pool, with its header. -/
structure Placed (s : Pool) (b : Nat) : Prop where
  mem : b ∈ s.iMemPoolBufferList
  start_eq : (s.buffers b).iStartAddr = b + s.bufferInfoSize
  end_eq : (s.buffers b).iEndAddr + 1 = b + (s.buffers b).iBufferSize

variable {s s' t : Pool} {b : Nat} {free used l₁ l₂ : List Chunk} {c f : Chunk} {w : List Nat}

theorem Frame.placed (h : Frame s s' b w) (hb : Placed s b) : Placed s' b where
  mem := h.list ▸ hb.mem
  start_eq := by
    have hstart := congrArg MemPoolBufferInfo.iStartAddr h.shell_eq
    rw [h.bufferInfoSize_eq]
    exact hstart.trans hb.start_eq
  end_eq := by
    have hend := congrArg MemPoolBufferInfo.iEndAddr h.shell_eq
    simp only [shell] at hend
    rw [h.bufferSize_eq, hend]
    exact hb.end_eq

/-- **A pointer to a block of the pool is accepted.** -/
theorem Headed.validateblock (h : Headed s b c) (hb : Placed s b) (hstart : b + s.bufferInfoSize ≤ c.ptr)
    (hend : c.ptr + s.blockInfoSize + 1 < b + (s.buffers b).iBufferSize)
      (hfin : c.fin ≤ b + (s.buffers b).iBufferSize) :
    s.validateblock (c.ptr + s.blockInfoSize) = true := by
  have hpos : 0 < s.blockInfoSize := s.layout.blockInfo_pos
  have hpre : (s.blocks c.ptr).iBlockPreFence = prefencePattern := congrArg MemPoolBlockInfo.iBlockPreFence h
  have hpost : (s.blocks c.ptr).iBlockPostFence = postfencePattern := congrArg MemPoolBlockInfo.iBlockPostFence h
  have hparent : (s.blocks c.ptr).iParentBuffer = b := h.parent_eq
  have hin := hb.start_eq
  have hout := hb.end_eq
  simp only [Pool.validateblock, Nat.add_sub_cancel, hpre, hpost, hparent, h.behind_eq, Bool.and_eq_true,
    List.any_eq_true, decide_eq_true_eq, List.contains_iff_mem, and_true]
  refine ⟨⟨⟨⟨⟨b, hb.mem, ?_, ?_⟩, hb.mem⟩, ?_⟩, ?_⟩, ?_⟩ <;> omega

/-! ## Trimming -/

theorem core_writeHeader (s : Pool) (a size parent p : Nat) :
    (s.writeHeader a size parent).core p = if p = a then s.header a size parent else s.core p := by
  by_cases h : p = a
  · rw [if_pos h, h]
    simp [Pool.core, Pool.writeHeader, Pool.modifyBlock, Pool.header]
  · simp [Pool.core, Pool.writeHeader, Pool.modifyBlock, h]

theorem frame_writeHeader (s : Pool) (a size parent b : Nat) : Frame s (s.writeHeader a size parent) b [a] where
  config := rfl
  list := rfl
  blocks p hp := by
    have hne : p ≠ a := by simpa using hp
    simp [Pool.writeHeader, Pool.modifyBlock, hne]
  buffers _ _ := rfl
  shell_eq := rfl

theorem frame_setSize (s : Pool) (a size b : Nat) : Frame s (s.setSize a size) b [a] where
  config := rfl
  list := rfl
  blocks p hp := by
    have hne : p ≠ a := by simpa using hp
    simp [Pool.setSize, Pool.modifyBlock, hne]
  buffers _ _ := rfl
  shell_eq := rfl

theorem Cut.ptr_ne (h : Cut s b free (c :: used)) {p : Nat} (hp : c.ptr ≤ p) (hp' : p < c.fin) :
    ∀ d ∈ free ++ used, d.ptr ≠ p := by
  intro d hd
  have hdisjoint := h.disjoint_used d hd
  have hpos := h.pos (List.perm_middle.mem_iff.mpr (List.mem_cons_of_mem c hd))
  simp only [Chunk.Disjoint, Chunk.fin] at hdisjoint hp'
  omega

theorem Cut.writeHeader (h : Cut s b free (c :: used)) {n : Nat} (hn : n + s.blockInfoSize ≤ c.len)
    (hlarge : s.blockInfoSize ≤ n) :
    Cut (s.writeHeader (c.ptr + (c.len - n)) n b) b free (⟨c.ptr + (c.len - n), n⟩ :: ⟨c.ptr, c.len - n⟩ :: used) ∧
      Headed (s.writeHeader (c.ptr + (c.len - n)) n b) b ⟨c.ptr + (c.len - n), n⟩ := by
  have hpos : 0 < s.blockInfoSize := s.layout.blockInfo_pos
  have hother := h.ptr_ne (Nat.le_add_right c.ptr (c.len - n)) (by simp only [Chunk.fin]; omega)
  have hperm : (free ++ c :: used).Perm (c :: (free ++ used)) := List.perm_middle
  have hperm' : (⟨c.ptr, c.len - n⟩ :: ⟨c.ptr + (c.len - n), n⟩ :: (free ++ used)).Perm
      (free ++ ⟨c.ptr + (c.len - n), n⟩ :: ⟨c.ptr, c.len - n⟩ :: used) :=
    (List.Perm.swap _ _ _).trans (((@List.perm_middle _ (⟨c.ptr, c.len - n⟩ : Chunk) free used).symm.cons _).trans
      List.perm_middle.symm)
  refine ⟨⟨?_, ?_, h.ordered, ?_, ?_, ?_, h.small⟩, ?_⟩
  · refine h.linked.congr rfl (fun p hp => ?_) fun p hp => ?_
    all_goals
      obtain ⟨d, hd, rfl⟩ := List.mem_map.mp hp
      have hne := hother d (List.mem_append_left used hd)
      simp [Pool.nextFree, Pool.prevFree, Pool.writeHeader, Pool.modifyBlock, hne]
  · intro d hd
    refine (h.headed d hd).congr ?_ rfl
    rw [core_writeHeader, if_neg (hother d (List.mem_append_left used hd))]
  · have hcut := (h.packed.perm hperm).cut (Nat.sub_le c.len n)
    rw [Nat.sub_sub_self (by omega)] at hcut
    exact hcut.perm hperm'
  · intro d hd
    simp only [List.mem_append, List.mem_cons] at hd
    rcases hd with hd | rfl | rfl | hd
    · exact h.large d (List.mem_append_left _ hd)
    · exact hlarge
    · change s.blockInfoSize ≤ c.len - n
      omega
    · exact h.large d (by simp [hd])
  · change (s.buffers b).iAllocatedSz = _
    have hallocated := h.allocated
    simp only [List.map_cons, List.sum_cons] at hallocated ⊢
    omega
  · rw [Headed, core_writeHeader, if_pos rfl]
    rfl

/-- A block is in use, with so many bytes of what it was; the other blocks in use are left alone. -/
structure Uses (s t : Pool) (b : Nat) (free used : List Chunk) (c : Chunk) (len : Nat) : Prop where
  cut : ∃ free', Cut t b free' (⟨c.ptr, len⟩ :: used) ∧ Spaced free'
  headed : Headed t b ⟨c.ptr, len⟩
  len_le : len ≤ c.len
  frame : ∃ w, Frame s t b w ∧ ∀ p ∈ w, p ∈ free.map Chunk.ptr ∨ c.ptr ≤ p ∧ p < c.fin

theorem Uses.refl (h : Cut s b free (c :: used)) (hspaced : Spaced free) (hc : Headed s b c) :
    Uses s s b free used c c.len where
  cut := ⟨free, h, hspaced⟩
  headed := hc
  len_le := Nat.le_refl _
  frame := ⟨[], Frame.refl s b [], by simp⟩

/-- **The end of a block in use becomes free.** -/
theorem Cut.shrink (h : Cut s b free (c :: used)) (hspaced : Spaced free) (hc : Headed s b c) {n : Nat}
    (hn : n + s.blockInfoSize ≤ c.len) (hlarge : s.blockInfoSize ≤ n) :
    ∃ t, (s.writeHeader (c.ptr + (c.len - n)) n b).deallocateblock (c.ptr + (c.len - n)) = some (true, t) ∧
      t.sizeAt c.ptr = c.len ∧ Uses s (t.setSize c.ptr (c.len - n)) b free used c (c.len - n) := by
  have hpos : 0 < s.blockInfoSize := s.layout.blockInfo_pos
  obtain ⟨hwritten, hf⟩ := h.writeHeader hn hlarge
  obtain ⟨t, free', ht, hcut, hspaced', hframe⟩ := hwritten.give hspaced hf
  have hwrite := frame_writeHeader s (c.ptr + (c.len - n)) n b b
  have hfree := h.ptr_ne (Nat.le_refl c.ptr) (by simp only [Chunk.fin]; omega)
  have hct : Headed t b c := by
    refine hframe.headed ?_ (hwrite.headed ?_ hc)
    · simp only [List.mem_cons, List.mem_map, not_or, not_exists, not_and]
      refine ⟨by omega, fun d hd => hfree d (List.mem_append_left used hd)⟩
    · simp only [List.mem_singleton]
      omega
  have hset := frame_setSize t c.ptr (c.len - n) b
  have hne := hcut.ptr_ne (Nat.le_refl c.ptr) (by simp only [Chunk.fin]; omega)
  refine ⟨t, ht, hct.size_eq, ⟨free', ?_, hspaced'⟩, ?_, Nat.sub_le _ _,
    c.ptr :: (c.ptr + (c.len - n)) :: free.map Chunk.ptr, ?_, fun p hp => ?_⟩
  · refine hcut.congr rfl rfl fun d hd => hset.blocks d.ptr ?_
    simpa using hne d (List.mem_append_left used hd)
  · rw [Headed, Pool.core_setSize, if_pos rfl, hct]
    rfl
  · refine ((hwrite.mono fun p hp => ?_).trans (hframe.mono fun p hp => ?_)).trans (hset.mono fun p hp => ?_)
    · simp only [List.mem_cons] at hp ⊢
      tauto
    · exact List.mem_cons_of_mem _ hp
    · simp only [List.mem_singleton] at hp
      simp [hp]
  · simp only [List.mem_cons] at hp
    simp only [Chunk.fin]
    rcases hp with rfl | rfl | hp
    · omega
    · omega
    · exact .inl hp

theorem le_alignedToFree (n : Nat) : alignedToFree n ≤ n := by
  rw [alignedToFree, alignedSize]
  split <;> split <;> omega

/-- **`trim`** makes the end of a block in use free, or leaves all as it is. -/
theorem Cut.trim (h : Cut s b free (c :: used)) (hspaced : Spaced free) (hc : Headed s b c) (hb : Placed s b)
    (hend : c.ptr + s.blockInfoSize + 1 < b + (s.buffers b).iBufferSize) (n : Nat) :
    ∃ r t len, s.trim (c.ptr + s.blockInfoSize) n = some (r, t) ∧ c.len ≤ len + alignedToFree n ∧
      (alignedToFree n + s.blockInfoSize ≤ c.len → r ≠ none) ∧ Uses s t b free used c len := by
  have hwithin := h.packed.within c (by simp)
  have hlarge := h.large c (by simp)
  have hsum := h.sum_eq
  have hsmall := h.small
  rw [List.map_cons, List.sum_cons] at hsum
  have hpos : 0 < s.blockInfoSize := s.layout.blockInfo_pos
  have hvalid := hc.validateblock hb hwithin.1 hend hwithin.2
  have hsub : sub32 c.len s.blockInfoSize = c.len - s.blockInfoSize := by
    rw [sub32]
    omega
  by_cases hmuch : c.len - s.blockInfoSize < alignedToFree n
  · refine ⟨none, s, c.len, ?_, Nat.le_add_right _ _, by omega, Uses.refl h hspaced hc⟩
    simp [Pool.trim, hvalid, hc.size_eq, hsub, hmuch]
  · by_cases hfew : alignedToFree n < s.blockInfoSize + minBufferSize
    · refine ⟨some false, s, c.len, ?_, Nat.le_add_right _ _, by simp, Uses.refl h hspaced hc⟩
      simp [Pool.trim, hvalid, hc.size_eq, hsub, hmuch, hfew]
    · obtain ⟨t, ht, hsize, huses⟩ := h.shrink hspaced hc
        (show alignedToFree n + s.blockInfoSize ≤ c.len by omega) (by omega)
      refine ⟨some true, _, _, ?_, by omega, by simp, huses⟩
      have hbehind : s.behind c.ptr - alignedToFree n = c.ptr + (c.len - alignedToFree n) := by
        rw [hc.behind_eq, Chunk.fin]
        omega
      have hsub' : sub32 c.len (alignedToFree n) = c.len - alignedToFree n := by
        rw [sub32]
        omega
      simp [Pool.trim, hvalid, hc.size_eq, hc.parent_eq, hsub, hmuch, hfew, hbehind, ht, hsize, hsub']

/-! ## Allocating -/

theorem Uses.blockInfoSize_eq {len : Nat} (h : Uses s t b free used c len) : t.blockInfoSize = s.blockInfoSize := by
  obtain ⟨w, hframe, -⟩ := h.frame
  exact hframe.blockInfoSize_eq

theorem Uses.of_take {len : Nat} (h : Uses s' t b (l₁ ++ l₂) used c len)
    (hframe : Frame s s' b ((l₁ ++ c :: l₂).map Chunk.ptr)) : Uses s t b (l₁ ++ c :: l₂) used c len where
  cut := h.cut
  headed := h.headed
  len_le := h.len_le
  frame := by
    obtain ⟨w, hw, hwritten⟩ := h.frame
    refine ⟨(l₁ ++ c :: l₂).map Chunk.ptr ++ w, (hframe.mono fun p hp => ?_).trans (hw.mono fun p hp => ?_),
      fun p hp => ?_⟩
    · exact List.mem_append_left w hp
    · exact List.mem_append_right _ hp
    · rcases List.mem_append.mp hp with hp | hp
      · exact .inl hp
      · refine (hwritten p hp).imp_left fun hfree => ?_
        simp only [List.map_append, List.map_cons, List.mem_append, List.mem_cons] at hfree ⊢
        tauto

theorem Cut.allocateblock_take (h : Cut s b (l₁ ++ c :: l₂) used) :
    (s.unlink c.ptr).setAllocated ((s.unlink c.ptr).parentAt c.ptr)
        (add32 ((s.unlink c.ptr).buffers ((s.unlink c.ptr).parentAt c.ptr)).iAllocatedSz
          ((s.unlink c.ptr).sizeAt c.ptr)) =
      (s.unlink c.ptr).setAllocated b (add32 (s.buffers b).iAllocatedSz c.len) := by
  have hc : Headed (s.unlink c.ptr) b c := (h.headed c (by simp)).congr Pool.core_unlink Pool.config_unlink.1
  have hallocated : ((s.unlink c.ptr).buffers b).iAllocatedSz = (s.buffers b).iAllocatedSz := by
    rw [Pool.buffers_unlink]
    split <;> rfl
  rw [hc.parent_eq, hc.size_eq, hallocated]

/-- **`allocateblock`** puts a free block that is large enough in use. -/
theorem Cut.allocateblock (h : Cut s b (l₁ ++ c :: l₂) used) (hspaced : Spaced (l₁ ++ c :: l₂)) (hb : Placed s b)
    {aNumAlignedBytes : Nat} (hpos : 0 < aNumAlignedBytes) (hfit : aNumAlignedBytes + s.blockInfoSize ≤ c.len) :
    ∃ t len, s.allocateblock c.ptr aNumAlignedBytes = some (some (c.ptr + s.blockInfoSize), t) ∧
      aNumAlignedBytes + s.blockInfoSize ≤ len ∧ Uses s t b (l₁ ++ c :: l₂) used c len := by
  obtain ⟨hcut, hc, hframe⟩ := h.take
  have hwithin := h.packed.within c (by simp)
  have hsmall := h.small
  have hsum := h.sum_eq
  have hspaced' : Spaced (l₁ ++ l₂) := hspaced.sublist ((List.sublist_cons_self c l₂).append_left l₁)
  have htake := h.allocateblock_take
  generalize (s.unlink c.ptr).setAllocated b (add32 (s.buffers b).iAllocatedSz c.len) = s' at hcut hc hframe htake
  have hinfo := hframe.blockInfoSize_eq
  have hextra : sub32 (sub32 c.len s.blockInfoSize) aNumAlignedBytes =
    c.len - s.blockInfoSize - aNumAlignedBytes := by
    simp only [List.map_append, List.map_cons, List.sum_append, List.sum_cons] at hsum
    rw [sub32, sub32]
    omega
  have hbuffer := hc.buffer_eq
  rw [hinfo] at hbuffer
  by_cases hlarge : c.len - s.blockInfoSize - aNumAlignedBytes > s.blockInfoSize + minBufferSize
  · have hend : c.ptr + s'.blockInfoSize + 1 < b + (s'.buffers b).iBufferSize := by
      rw [hinfo, hframe.bufferSize_eq]
      simp only [Chunk.fin] at hwithin
      omega
    obtain ⟨r, t, len, htrim, hlenle, hr, huses⟩ :=
      hcut.trim hspaced' hc (hframe.placed hb) hend (c.len - s.blockInfoSize - aNumAlignedBytes)
    have hle := le_alignedToFree (c.len - s.blockInfoSize - aNumAlignedBytes)
    rw [hinfo] at htrim hr
    obtain ⟨r, rfl⟩ := Option.ne_none_iff_exists'.mp (hr (by omega))
    have hpointer := huses.headed.buffer_eq
    rw [huses.blockInfoSize_eq, hinfo] at hpointer
    refine ⟨t, len, ?_, by omega, huses.of_take hframe⟩
    simp only [Pool.allocateblock, if_neg hpos.ne', htake, hc.size_eq, hinfo, hextra, if_pos hlarge, hbuffer, htrim,
      hpointer]
  · refine ⟨s', c.len, ?_, hfit, (Uses.refl hcut hspaced' hc).of_take hframe⟩
    simp only [Pool.allocateblock, if_neg hpos.ne', htake, hc.size_eq, hinfo, hextra, if_neg hlarge, hbuffer]

end Ftke.ResizableMemPool
