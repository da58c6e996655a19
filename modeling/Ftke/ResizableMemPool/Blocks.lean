import Ftke.ResizableMemPool.FreeList
import Ftke.Tiling
import Mathlib.Tactic.Tauto
import Mathlib.Algebra.Order.BigOperators.Group.List

/-!
# Ftke.ResizableMemPool.Blocks

A buffer as its blocks: free ones in the order of the list, and those in use.

* `Cut` — the blocks fill the buffer, the free ones are listed;
* `Cut.take` — a free block comes in use;
* `Cut.give` — a block in use becomes free, merged with its neighbours.
-/

namespace Ftke.ResizableMemPool

open VariableSizeMemPool (add32)

/-! ## Headers -/

/-- The header of a block, but for its links. -/
def Headed (s : Pool) (b : Nat) (c : Chunk) : Prop := s.core c.ptr = s.header c.ptr c.len b

namespace Headed

variable {s s' : Pool} {b : Nat} {c : Chunk}

theorem size_eq (h : Headed s b c) : s.sizeAt c.ptr = c.len := congrArg MemPoolBlockInfo.iBlockSize h

theorem parent_eq (h : Headed s b c) : s.parentAt c.ptr = b := congrArg MemPoolBlockInfo.iParentBuffer h

theorem buffer_eq (h : Headed s b c) : (s.blocks c.ptr).iBlockBuffer = c.ptr + s.blockInfoSize :=
  congrArg MemPoolBlockInfo.iBlockBuffer h

theorem behind_eq (h : Headed s b c) : s.behind c.ptr = c.fin := by
  rw [Pool.behind, h.size_eq]
  rfl

theorem congr (h : Headed s b c) (hcore : s'.core c.ptr = s.core c.ptr) (hconfig : s'.toConfig = s.toConfig) :
    Headed s' b c := by
  have hsize : s'.blockInfoSize = s.blockInfoSize :=
    congrArg (fun config => config.layout.iBlockInfoAlignedSize) hconfig
  rw [Headed, hcore, h, Pool.header, Pool.header, hsize]

end Headed

/-! ## What is written -/

/-- The header of a buffer, but for what the blocks have to do with. -/
def shell (i : MemPoolBufferInfo) : MemPoolBufferInfo :=
  { i with
    iNextFreeBlock := none
    iAllocatedSz := 0 }

/-- Only the headers of some blocks and of a buffer are written. -/
structure Frame (s s' : Pool) (b : Nat) (written : List Nat) : Prop where
  config : s'.toConfig = s.toConfig
  list : s'.iMemPoolBufferList = s.iMemPoolBufferList
  blocks : ∀ p, p ∉ written → s'.blocks p = s.blocks p
  buffers : ∀ q, q ≠ b → s'.buffers q = s.buffers q
  shell_eq : shell (s'.buffers b) = shell (s.buffers b)

namespace Frame

variable {s s' s'' : Pool} {b : Nat} {w w' : List Nat}

theorem refl (s : Pool) (b : Nat) (w : List Nat) : Frame s s b w :=
  ⟨rfl, rfl, fun _ _ => rfl, fun _ _ => rfl, rfl⟩

theorem trans (h : Frame s s' b w) (h' : Frame s' s'' b w) : Frame s s'' b w where
  config := h'.config.trans h.config
  list := h'.list.trans h.list
  blocks p hp := (h'.blocks p hp).trans (h.blocks p hp)
  buffers q hq := (h'.buffers q hq).trans (h.buffers q hq)
  shell_eq := h'.shell_eq.trans h.shell_eq

theorem mono (h : Frame s s' b w) (hw : ∀ p ∈ w, p ∈ w') : Frame s s' b w' :=
  { h with blocks := fun p hp => h.blocks p fun hpw => hp (hw p hpw) }

theorem headed (h : Frame s s' b w) {q : Nat} {c : Chunk} (hc : c.ptr ∉ w)
    (hhead : Headed s q c) : Headed s' q c := by
  refine hhead.congr ?_ h.config
  rw [Pool.core, h.blocks c.ptr hc, Pool.core]

theorem bufferInfoSize_eq (h : Frame s s' b w) : s'.bufferInfoSize = s.bufferInfoSize :=
  congrArg (fun config => config.layout.iBufferInfoAlignedSize) h.config

theorem blockInfoSize_eq (h : Frame s s' b w) : s'.blockInfoSize = s.blockInfoSize :=
  congrArg (fun config => config.layout.iBlockInfoAlignedSize) h.config

theorem bufferSize_eq (h : Frame s s' b w) : (s'.buffers b).iBufferSize = (s.buffers b).iBufferSize := by
  have hsize := congrArg MemPoolBufferInfo.iBufferSize h.shell_eq
  exact hsize

end Frame

theorem blocks_ext {s s' : Pool} {p : Nat} (hcore : s'.core p = s.core p) (hnext : s'.nextFree p = s.nextFree p)
    (hprev : s'.prevFree p = s.prevFree p) : s'.blocks p = s.blocks p := by
  simp only [Pool.core, Pool.nextFree, Pool.prevFree, MemPoolBlockInfo.mk.injEq] at hcore hnext hprev
  cases h : s.blocks p
  cases h' : s'.blocks p
  simp_all

variable {s s' : Pool} {a b : Nat}

theorem frame_unlink {w : List Nat} (hparent : s.parentAt a = b) (ha : a ∈ w)
    (hprev : ∀ p, s.prevFree a = some p → p ∈ w)
    (hnext : ∀ p, s.nextFree a = some p → p ∈ w) : Frame s (s.unlink a) b w where
  config := Pool.config_unlink.1
  list := Pool.config_unlink.2
  blocks p hp := by
    have hne : p ≠ a := fun heq => hp (heq ▸ ha)
    refine blocks_ext Pool.core_unlink ?_ ?_
    · rw [Pool.nextFree_unlink, if_neg hne, if_neg fun heq => hp (hprev p heq)]
    · rw [Pool.prevFree_unlink, if_neg hne, if_neg fun heq => hp (hnext p heq)]
  buffers q hq := by rw [Pool.buffers_unlink, if_neg fun h => hq (h.1.trans hparent)]
  shell_eq := by
    rw [Pool.buffers_unlink]
    split <;> rfl

theorem frame_linkIn {w : List Nat} {left right : Option Nat} (hparent : s.parentAt a = b) (ha : a ∈ w)
    (hleft : ∀ p, left = some p → p ∈ w) (hright : ∀ p, right = some p → p ∈ w) :
    Frame s (s.linkIn a left right) b w where
  config := Pool.config_linkIn.1
  list := Pool.config_linkIn.2
  blocks p hp := by
    have hne : p ≠ a := fun heq => hp (heq ▸ ha)
    refine blocks_ext Pool.core_linkIn ?_ ?_
    · rw [Pool.nextFree_linkIn, if_neg hne, if_neg fun heq => hp (hleft p heq)]
    · rw [Pool.prevFree_linkIn, if_neg hne, if_neg fun heq => hp (hright p heq)]
  buffers q hq := by rw [Pool.buffers_linkIn, if_neg fun h => hq (h.1.trans hparent)]
  shell_eq := by
    rw [Pool.buffers_linkIn]
    split <;> rfl

theorem frame_absorb {w : List Nat} {size : Nat} {next : Option Nat} (b : Nat) (ha : a ∈ w)
    (hnext : ∀ p, next = some p → p ∈ w) : Frame s (s.absorb a size next) b w where
  config := Pool.config_absorb.1
  list := Pool.config_absorb.2
  blocks p hp := by
    have hne : p ≠ a := fun heq => hp (heq ▸ ha)
    refine blocks_ext ?_ ?_ ?_
    · rw [Pool.core_absorb, if_neg hne]
    · rw [Pool.nextFree_absorb, if_neg hne]
    · rw [Pool.prevFree_absorb, if_neg fun heq => hp (hnext p heq)]
  buffers q _ := by rw [Pool.buffers_absorb]
  shell_eq := by rw [Pool.buffers_absorb]

theorem frame_setAllocated (s : Pool) (b n : Nat) (w : List Nat) : Frame s (s.setAllocated b n) b w where
  config := rfl
  list := rfl
  blocks _ _ := rfl
  buffers q hq := by rw [Pool.setAllocated, Pool.buffers_modifyBuffer, if_neg hq]
  shell_eq := by
    rw [Pool.setAllocated, Pool.buffers_modifyBuffer, if_pos rfl]
    rfl

/-! ## Blocks -/

/-- Blocks in the order of their addresses. -/
def Ordered (free : List Chunk) : Prop := free.Pairwise fun c d => c.fin ≤ d.ptr

/-- And no two of them neighbours in memory. -/
def Spaced (free : List Chunk) : Prop := free.Pairwise fun c d => c.fin < d.ptr

theorem Ordered.nodup {l : List Chunk} (h : Ordered l) (hpos : ∀ c ∈ l, 0 < c.len) : (l.map Chunk.ptr).Nodup := by
  refine List.pairwise_map.mpr (h.imp_of_mem fun {c d} hc _ hcd => ?_)
  have hc := hpos c hc
  simp only [Chunk.fin] at hcd
  omega

/-- A buffer is filled by free blocks, in the order of the list, and blocks in use. -/
structure Cut (s : Pool) (b : Nat) (free used : List Chunk) : Prop where
  linked : Linked s b (free.map Chunk.ptr)
  headed : ∀ c ∈ free, Headed s b c
  ordered : Ordered free
  packed : Packed (b + s.bufferInfoSize) (b + (s.buffers b).iBufferSize) (free ++ used)
  large : ∀ c ∈ free ++ used, s.blockInfoSize ≤ c.len
  allocated : (s.buffers b).iAllocatedSz = (used.map Chunk.len).sum
  small : (s.buffers b).iBufferSize < 2 ^ 32

theorem use_perm (l₁ : List Chunk) (c : Chunk) (l₂ used : List Chunk) :
    (l₁ ++ c :: l₂ ++ used).Perm (l₁ ++ l₂ ++ c :: used) :=
  (List.perm_middle.append_right used).trans (@List.perm_middle _ c (l₁ ++ l₂) used).symm

namespace Cut

variable {free used l₁ l₂ m : List Chunk} {c f : Chunk}

theorem pos (h : Cut s b free used) (hc : c ∈ free ++ used) : 0 < c.len :=
  Nat.lt_of_lt_of_le s.layout.blockInfo_pos (h.large c hc)

theorem nodup (h : Cut s b free used) : (free.map Chunk.ptr).Nodup :=
  h.ordered.nodup fun _ hc => h.pos (List.mem_append_left used hc)

theorem sum_eq (h : Cut s b free used) :
    s.bufferInfoSize + ((free.map Chunk.len).sum + (used.map Chunk.len).sum) = (s.buffers b).iBufferSize := by
  have htotal := h.packed.total
  rw [List.map_append, List.sum_append] at htotal
  omega

theorem length_le (h : Cut s b free used) : free.length ≤ (s.buffers b).iBufferSize := by
  have hsum := h.sum_eq
  have hone : ∀ n ∈ free.map Chunk.len, 1 ≤ n := by
    intro n hn
    obtain ⟨c, hc, rfl⟩ := List.mem_map.mp hn
    exact h.pos (List.mem_append_left used hc)
  have hlength := List.length_le_sum_of_one_le _ hone
  rw [List.length_map] at hlength
  omega

theorem congr (h : Cut s b free used) (hconfig : s'.toConfig = s.toConfig) (hbuffer : s'.buffers b = s.buffers b)
    (hblocks : ∀ c ∈ free, s'.blocks c.ptr = s.blocks c.ptr) : Cut s' b free used := by
  have hlayout : s'.layout = s.layout := congrArg Config.layout hconfig
  have hlinks : ∀ p ∈ free.map Chunk.ptr, s'.blocks p = s.blocks p := by
    intro p hp
    obtain ⟨c, hc, rfl⟩ := List.mem_map.mp hp
    exact hblocks c hc
  refine ⟨?_, fun c hc => ?_, h.ordered, ?_, ?_, ?_, ?_⟩
  · refine h.linked.congr (by rw [hbuffer]) (fun p hp => ?_) fun p hp => ?_
    · rw [Pool.nextFree, hlinks p hp, Pool.nextFree]
    · rw [Pool.prevFree, hlinks p hp, Pool.prevFree]
  · refine (h.headed c hc).congr ?_ hconfig
    rw [Pool.core, hblocks c hc, Pool.core]
  · rw [Pool.bufferInfoSize, hlayout, hbuffer]
    exact h.packed
  · rw [Pool.blockInfoSize, hlayout]
    exact h.large
  · rw [hbuffer]
    exact h.allocated
  · rw [hbuffer]
    exact h.small

/-- **A free block comes in use.** -/
theorem take (h : Cut s b (l₁ ++ c :: l₂) used) :
    Cut ((s.unlink c.ptr).setAllocated b (add32 (s.buffers b).iAllocatedSz c.len)) b (l₁ ++ l₂) (c :: used) ∧
      Headed ((s.unlink c.ptr).setAllocated b (add32 (s.buffers b).iAllocatedSz c.len)) b c ∧
      Frame s ((s.unlink c.ptr).setAllocated b (add32 (s.buffers b).iAllocatedSz c.len)) b
        ((l₁ ++ c :: l₂).map Chunk.ptr) := by
  have hc := h.headed c (by simp)
  have hlinked := h.linked
  have hnodup := h.nodup
  rw [List.map_append, List.map_cons] at hlinked hnodup
  have hframe : Frame s (s.unlink c.ptr) b ((l₁ ++ c :: l₂).map Chunk.ptr) := by
    refine frame_unlink hc.parent_eq (List.mem_map_of_mem (by simp)) (fun p hp => ?_) fun p hp => ?_
    · rw [hlinked.prev_eq] at hp
      have hmem := List.mem_of_getLast? hp
      simp only [List.map_append, List.mem_append]
      exact .inl hmem
    · rw [hlinked.next_eq] at hp
      have hmem := List.mem_of_head? hp
      simp only [List.map_append, List.map_cons, List.mem_append, List.mem_cons]
      exact .inr (.inr hmem)
  have hframe' := hframe.trans (frame_setAllocated (s.unlink c.ptr) b (add32 (s.buffers b).iAllocatedSz c.len) _)
  have hhead : ∀ d, Headed s b d →
      Headed ((s.unlink c.ptr).setAllocated b (add32 (s.buffers b).iAllocatedSz c.len)) b d :=
    fun d hd => hd.congr Pool.core_unlink hframe'.config
  have hsum := h.sum_eq
  have hsmall := h.small
  have hsub : List.Sublist (l₁ ++ l₂) (l₁ ++ c :: l₂) := (List.sublist_cons_self c l₂).append_left l₁
  have hperm := use_perm l₁ c l₂ used
  refine ⟨⟨?_, fun d hd => hhead d (h.headed d (hsub.mem hd)), h.ordered.sublist hsub, ?_, ?_, ?_, ?_⟩,
    hhead c hc, hframe'⟩
  · rw [List.map_append]
    refine (hlinked.unlink hnodup hc.parent_eq).congr ?_ (fun _ _ => rfl) fun _ _ => rfl
    simp [Pool.setAllocated]
  · rw [hframe'.bufferInfoSize_eq, hframe'.bufferSize_eq]
    exact h.packed.perm hperm
  · rw [hframe'.blockInfoSize_eq]
    exact fun d hd => h.large d (hperm.mem_iff.mpr hd)
  · simp only [List.map_append, List.map_cons, List.sum_append, List.sum_cons] at hsum
    simp only [Pool.setAllocated, Pool.buffers_modifyBuffer, if_true, h.allocated, List.map_cons, List.sum_cons,
      add32]
    rw [Nat.mod_eq_of_lt (by omega), Nat.add_comm]
  · rw [hframe'.bufferSize_eq]
    exact hsmall

/-- **A block in use becomes free**, in front of the next free block. -/
theorem linkIn (h : Cut s b (l₁ ++ l₂) (f :: used)) (hf : Headed s b f) (hl₁ : ∀ c ∈ l₁, c.fin ≤ f.ptr)
    (hl₂ : ∀ c ∈ l₂, f.fin ≤ c.ptr) :
    Cut ((s.linkIn f.ptr (l₁.map Chunk.ptr).getLast? (l₂.map Chunk.ptr).head?).giveBack f.ptr) b
      (l₁ ++ f :: l₂) used ∧
      Frame s ((s.linkIn f.ptr (l₁.map Chunk.ptr).getLast? (l₂.map Chunk.ptr).head?).giveBack f.ptr) b
        ((l₁ ++ f :: l₂).map Chunk.ptr) := by
  have hperm := use_perm l₁ f l₂ used
  have hframe : Frame s (s.linkIn f.ptr (l₁.map Chunk.ptr).getLast? (l₂.map Chunk.ptr).head?) b
      ((l₁ ++ f :: l₂).map Chunk.ptr) := by
    refine frame_linkIn hf.parent_eq (List.mem_map_of_mem (by simp)) (fun p hp => ?_) fun p hp => ?_
    · have hmem := List.mem_of_getLast? hp
      simp only [List.map_append, List.mem_append]
      exact .inl hmem
    · have hmem := List.mem_of_head? hp
      simp only [List.map_append, List.map_cons, List.mem_append, List.mem_cons]
      exact .inr (.inr hmem)
  have hf' : Headed (s.linkIn f.ptr (l₁.map Chunk.ptr).getLast? (l₂.map Chunk.ptr).head?) b f :=
    hf.congr Pool.core_linkIn hframe.config
  have hlinked := h.linked
  have hsum := h.sum_eq
  have hsmall := h.small
  have hallocated : ((s.linkIn f.ptr (l₁.map Chunk.ptr).getLast? (l₂.map Chunk.ptr).head?).buffers b).iAllocatedSz =
      (s.buffers b).iAllocatedSz := by
    rw [Pool.buffers_linkIn]
    split <;> rfl
  generalize hlinked' : s.linkIn f.ptr (l₁.map Chunk.ptr).getLast? (l₂.map Chunk.ptr).head? = t at *
  have hgive : t.giveBack f.ptr = t.setAllocated b (sub32 (t.buffers b).iAllocatedSz f.len) := by
    rw [Pool.giveBack, hf'.parent_eq, hf'.size_eq]
  rw [hgive]
  have hframe' := hframe.trans (frame_setAllocated t b (sub32 (t.buffers b).iAllocatedSz f.len) _)
  have hordered : Ordered (l₁ ++ f :: l₂) := by
    obtain ⟨hordered₁, hordered₂, hbetween⟩ := List.pairwise_append.mp h.ordered
    refine List.pairwise_append.mpr ⟨hordered₁, List.pairwise_cons.mpr ⟨hl₂, hordered₂⟩, fun c hc d hd => ?_⟩
    rcases List.mem_cons.mp hd with rfl | hd
    · exact hl₁ c hc
    · exact hbetween c hc d hd
  have hlarge : ∀ c ∈ l₁ ++ f :: l₂ ++ used, s.blockInfoSize ≤ c.len := fun c hc => h.large c (hperm.mem_iff.mp hc)
  have hnodup : ((l₁ ++ f :: l₂).map Chunk.ptr).Nodup := hordered.nodup fun c hc =>
    Nat.lt_of_lt_of_le s.layout.blockInfo_pos (hlarge c (List.mem_append_left used hc))
  have hhead : ∀ d, Headed s b d → Headed (t.setAllocated b (sub32 (t.buffers b).iAllocatedSz f.len)) b d := by
    intro d hd
    refine hd.congr ?_ hframe'.config
    rw [← hlinked']
    exact Pool.core_linkIn
  refine ⟨⟨?_, fun d hd => ?_, hordered, ?_, ?_, ?_, ?_⟩, hframe'⟩
  · rw [List.map_append, List.map_cons] at hnodup ⊢
    rw [List.map_append] at hlinked
    have hlist := hlinked.linkIn hnodup hf.parent_eq
    rw [hlinked'] at hlist
    refine hlist.congr ?_ (fun _ _ => rfl) fun _ _ => rfl
    simp [Pool.setAllocated]
  · refine hhead d ?_
    rcases List.mem_append.mp hd with hd | hd
    · exact h.headed d (List.mem_append_left _ hd)
    · rcases List.mem_cons.mp hd with rfl | hd
      · exact hf
      · exact h.headed d (List.mem_append_right _ hd)
  · rw [hframe'.bufferInfoSize_eq, hframe'.bufferSize_eq]
    exact h.packed.perm hperm.symm
  · rw [hframe'.blockInfoSize_eq]
    exact hlarge
  · simp only [List.map_cons, List.sum_cons] at hsum
    simp only [Pool.setAllocated, Pool.buffers_modifyBuffer, if_true, hallocated, h.allocated, List.map_cons,
      List.sum_cons, sub32]
    omega
  · rw [hframe'.bufferSize_eq]
    exact hsmall

/-- **A free block grows** over the free blocks behind it. -/
theorem absorb {e size : Nat} (h : Cut s b (l₁ ++ c :: m ++ l₂) used) (hm : Tiles c.fin m e)
    (hsize : size = c.len + (m.map Chunk.len).sum) :
    Cut (s.absorb c.ptr size (l₂.map Chunk.ptr).head?) b (l₁ ++ ⟨c.ptr, size⟩ :: l₂) used ∧
      Frame s (s.absorb c.ptr size (l₂.map Chunk.ptr).head?) b ((l₁ ++ c :: m ++ l₂).map Chunk.ptr) := by
  have hc := h.headed c (by simp)
  have hnodup := h.nodup
  have hframe : Frame s (s.absorb c.ptr size (l₂.map Chunk.ptr).head?) b ((l₁ ++ c :: m ++ l₂).map Chunk.ptr) := by
    refine frame_absorb b (List.mem_map_of_mem (by simp)) fun p hp => ?_
    rw [List.map_append]
    exact List.mem_append_right _ (List.mem_of_head? hp)
  have hpacked : Packed (b + s.bufferInfoSize) (b + (s.buffers b).iBufferSize)
      (⟨c.ptr, size⟩ :: (l₁ ++ l₂ ++ used)) := by
    have hperm : (l₁ ++ c :: m ++ l₂ ++ used).Perm (c :: m ++ (l₁ ++ l₂ ++ used)) := by
      simpa using @List.perm_append_comm_assoc _ l₁ (c :: m) (l₂ ++ used)
    rw [hsize]
    refine (h.packed.perm hperm).joinAll hm fun d hd => ?_
    exact h.pos (hperm.mem_iff.mpr (List.mem_cons_of_mem c hd))
  have hperm : (⟨c.ptr, size⟩ :: (l₁ ++ l₂ ++ used)).Perm (l₁ ++ ⟨c.ptr, size⟩ :: l₂ ++ used) := by
    simpa using (@List.perm_middle _ (⟨c.ptr, size⟩ : Chunk) l₁ (l₂ ++ used)).symm
  obtain ⟨hfront, hordered₂, hbetween⟩ := List.pairwise_append.mp h.ordered
  obtain ⟨hordered₁, hback, hbetween₁⟩ := List.pairwise_append.mp hfront
  have hpos := h.pos (show c ∈ l₁ ++ c :: m ++ l₂ ++ used by simp)
  have hsub : ∀ d ∈ l₁ ++ l₂ ++ used, d ∈ l₁ ++ c :: m ++ l₂ ++ used := by
    intro d hd
    simp only [List.mem_append, List.mem_cons] at hd ⊢
    tauto
  have hne : ∀ d ∈ l₁ ++ l₂, d.ptr ≠ c.ptr := by
    intro d hd
    have hpos' := h.pos (hsub d (List.mem_append_left used hd))
    rcases List.mem_append.mp hd with hd | hd
    · have hdc := hbetween₁ d hd c (by simp)
      simp only [Chunk.fin] at hdc
      omega
    · have hcd := hbetween c (by simp) d hd
      simp only [Chunk.fin] at hcd
      omega
  refine ⟨⟨?_, fun d hd => ?_, ?_, ?_, ?_, ?_, ?_⟩, hframe⟩
  · simp only [List.map_append, List.map_cons] at hnodup ⊢
    have hlinked := h.linked
    simp only [List.map_append, List.map_cons] at hlinked
    exact hlinked.absorb hnodup size
  · have hother : ∀ d ∈ l₁ ++ l₂, d ∈ l₁ ++ c :: m ++ l₂ →
        Headed (s.absorb c.ptr size (l₂.map Chunk.ptr).head?) b d := by
      intro d hd hmem
      refine (h.headed d hmem).congr ?_ hframe.config
      rw [Pool.core_absorb, if_neg (hne d hd)]
    rcases List.mem_append.mp hd with hd | hd
    · exact hother d (List.mem_append_left _ hd) (by simp [hd])
    · rcases List.mem_cons.mp hd with rfl | hd
      · rw [Headed, Pool.core_absorb, if_pos rfl, hc, Pool.header, Pool.header, hframe.blockInfoSize_eq]
      · exact hother d (List.mem_append_right _ hd) (by simp [hd])
  · refine List.pairwise_append.mpr ⟨hordered₁, List.pairwise_cons.mpr ⟨fun d hd => ?_, hordered₂⟩,
      fun d hd e he => ?_⟩
    · have hdisjoint := (List.pairwise_cons.mp hpacked.disjoint).1 d (by simp [hd])
      have hcd := hbetween c (by simp) d hd
      have hpos' := h.pos (show d ∈ l₁ ++ c :: m ++ l₂ ++ used by simp [hd])
      simp only [Chunk.Disjoint, Chunk.fin] at hdisjoint hcd ⊢
      omega
    · rcases List.mem_cons.mp he with rfl | he
      · exact hbetween₁ d hd c (by simp)
      · exact hbetween d (by simp [hd]) e he
  · rw [hframe.bufferInfoSize_eq, hframe.bufferSize_eq]
    exact hpacked.perm hperm
  · rw [hframe.blockInfoSize_eq]
    intro d hd
    rcases List.mem_cons.mp (hperm.mem_iff.mpr hd) with rfl | hd
    · have hlarge := h.large c (by simp)
      simp only [hsize]
      omega
    · exact h.large d (hsub d hd)
  · rw [Pool.buffers_absorb]
    exact h.allocated
  · rw [hframe.bufferSize_eq]
    exact h.small

end Cut

/-! ## Merging -/

theorem Spaced.insert {l₁ l₂ : List Chunk} {c : Chunk} (h : Spaced (l₁ ++ l₂)) (hl₁ : ∀ d ∈ l₁, d.fin < c.ptr)
    (hl₂ : ∀ d ∈ l₂, c.fin < d.ptr) : Spaced (l₁ ++ c :: l₂) := by
  obtain ⟨h₁, h₂, hbetween⟩ := List.pairwise_append.mp h
  refine List.pairwise_append.mpr ⟨h₁, List.pairwise_cons.mpr ⟨hl₂, h₂⟩, fun d hd e he => ?_⟩
  rcases List.mem_cons.mp he with rfl | he
  · exact hl₁ d hd
  · exact hbetween d hd e he

theorem Spaced.lt_of_last {l : List Chunk} {p : Nat} (h : Spaced l) (hle : ∀ c ∈ l, c.fin ≤ p)
    (hlast : ∀ c, l.getLast? = some c → c.fin ≠ p) : ∀ c ∈ l, c.fin < p := by
  cases l using List.reverseRecOn with
  | nil => simp
  | append_singleton front last =>
    intro c hc
    have hcp := hle c hc
    rcases List.mem_append.mp hc with hc | hc
    · have hgap := (List.pairwise_append.mp h).2.2 c hc last List.mem_cons_self
      have hlastp := hle last (by simp)
      simp only [Chunk.fin] at hgap hlastp ⊢
      omega
    · rw [List.mem_singleton.mp hc] at hcp ⊢
      have hne := hlast last (by simp)
      omega

theorem Spaced.lt_of_head {l : List Chunk} {p : Nat} (h : Spaced l) (hle : ∀ c ∈ l, p ≤ c.ptr)
    (hhead : ∀ c, l.head? = some c → p ≠ c.ptr) : ∀ c ∈ l, p < c.ptr := by
  cases l with
  | nil => simp
  | cons first rest =>
    intro c hc
    have hpc := hle c hc
    rcases List.mem_cons.mp hc with rfl | hc
    · have hne := hhead c rfl
      omega
    · have hgap := (List.pairwise_cons.mp h).1 c hc
      have hpfirst := hle first List.mem_cons_self
      simp only [Chunk.fin] at hgap
      omega

theorem Pool.merge_alone (hprev : s.prevFree a = none) (hnext : s.nextFree a = none) : s.merge a = s := by
  simp [Pool.merge, hprev, hnext]

namespace Cut

variable {free used front l₁ l₂ rest : List Chunk} {f left right : Chunk}

theorem prev_eq (h : Cut s b (l₁ ++ f :: l₂) used) : s.prevFree f.ptr = l₁.getLast?.map Chunk.ptr := by
  have hlinked := h.linked
  rw [List.map_append, List.map_cons] at hlinked
  rw [hlinked.prev_eq, List.getLast?_map]

theorem next_eq (h : Cut s b (l₁ ++ f :: l₂) used) : s.nextFree f.ptr = l₂.head?.map Chunk.ptr := by
  have hlinked := h.linked
  rw [List.map_append, List.map_cons] at hlinked
  rw [hlinked.next_eq, List.head?_map]

theorem add_eq (h : Cut s b free used) {m n : Nat} (hmn : m + n ≤ (free.map Chunk.len).sum) : add32 m n = m + n := by
  have hsum := h.sum_eq
  have hsmall := h.small
  exact Nat.mod_eq_of_lt (by omega)

/-- Whether the free block in front of a block is its neighbour in memory. -/
def LeftAdj (f : Chunk) (l₁ : List Chunk) : Prop := ∃ front left, l₁ = front ++ [left] ∧ left.fin = f.ptr

/-- Whether the one behind it is. -/
def RightAdj (f : Chunk) (l₂ : List Chunk) : Prop := ∃ right rest, l₂ = right :: rest ∧ f.fin = right.ptr

theorem leftadj_iff (h : Cut s b (l₁ ++ f :: l₂) used) :
    ((s.prevFree f.ptr).any fun left => s.behind left = f.ptr) = true ↔ LeftAdj f l₁ := by
  rw [h.prev_eq, Option.any_map, Option.any_eq_true]
  constructor
  · rintro ⟨left, hlast, hadj⟩
    obtain ⟨front, rfl⟩ := List.getLast?_eq_some_iff.mp hlast
    have hleft := h.headed left (by simp)
    exact ⟨front, left, rfl, by simpa [hleft.behind_eq] using hadj⟩
  · rintro ⟨front, left, rfl, hadj⟩
    have hleft := h.headed left (by simp)
    exact ⟨left, by simp, by simpa [hleft.behind_eq] using hadj⟩

theorem rightadj_iff (h : Cut s b (l₁ ++ f :: l₂) used) :
    ((s.nextFree f.ptr).any fun right => s.behind f.ptr = right) = true ↔ RightAdj f l₂ := by
  have hf := h.headed f (by simp)
  rw [h.next_eq, Option.any_map, Option.any_eq_true]
  constructor
  · rintro ⟨right, hhead, hadj⟩
    obtain ⟨rest, rfl⟩ := List.head?_eq_some_iff.mp hhead
    exact ⟨right, rest, rfl, by simpa [hf.behind_eq] using hadj⟩
  · rintro ⟨right, rest, rfl, hadj⟩
    exact ⟨right, rfl, by simpa [hf.behind_eq] using hadj⟩

theorem lt_of_not_leftadj (h : Cut s b (l₁ ++ f :: l₂) used) (hspaced : Spaced (l₁ ++ l₂)) (hleft : ¬LeftAdj f l₁) :
    ∀ c ∈ l₁, c.fin < f.ptr := by
  have hbetween := (List.pairwise_append.mp h.ordered).2.2
  refine Spaced.lt_of_last (List.pairwise_append.mp hspaced).1 (fun c hc => hbetween c hc f List.mem_cons_self) ?_
  intro c hlast hadj
  obtain ⟨front, rfl⟩ := List.getLast?_eq_some_iff.mp hlast
  exact hleft ⟨front, c, rfl, hadj⟩

theorem lt_of_not_rightadj (h : Cut s b (l₁ ++ f :: l₂) used) (hspaced : Spaced (l₁ ++ l₂))
    (hright : ¬RightAdj f l₂) :
    ∀ c ∈ l₂, f.fin < c.ptr := by
  have hback := (List.pairwise_append.mp h.ordered).2.1
  refine Spaced.lt_of_head (List.pairwise_append.mp hspaced).2.1
    (fun c hc => (List.pairwise_cons.mp hback).1 c hc) ?_
  intro c hhead hadj
  obtain ⟨rest, rfl⟩ := List.head?_eq_some_iff.mp hhead
  exact hright ⟨c, rest, rfl, hadj⟩

theorem grown {m : List Chunk} {c : Chunk} {e size : Nat} (h : Cut s b (front ++ c :: m ++ rest) used)
    (hm : Tiles c.fin m e) (hsize : size = c.len + (m.map Chunk.len).sum) (hspaced : Spaced (front ++ rest))
    (hfront : ∀ d ∈ front, d.fin < c.ptr) (hrest : ∀ d ∈ rest, c.ptr + size < d.ptr) :
    ∃ free, Cut (s.absorb c.ptr size (rest.map Chunk.ptr).head?) b free used ∧ Spaced free ∧
      Frame s (s.absorb c.ptr size (rest.map Chunk.ptr).head?) b ((front ++ c :: m ++ rest).map Chunk.ptr) := by
  obtain ⟨hcut, hframe⟩ := h.absorb hm hsize
  exact ⟨_, hcut, hspaced.insert hfront hrest, hframe⟩

/-- **A block that became free is merged** with the free blocks beside it. -/
theorem merge (h : Cut s b (l₁ ++ f :: l₂) used) (hspaced : Spaced (l₁ ++ l₂)) :
    ∃ free, Cut (s.merge f.ptr) b free used ∧ Spaced free ∧
      Frame s (s.merge f.ptr) b ((l₁ ++ f :: l₂).map Chunk.ptr) := by
  have hf := h.headed f (by simp)
  have hprev := h.prev_eq
  have hnext := h.next_eq
  by_cases hleft : LeftAdj f l₁ <;> by_cases hright : RightAdj f l₂
  · have hleftadj := h.leftadj_iff.mpr hleft
    have hrightadj := h.rightadj_iff.mpr hright
    obtain ⟨front, left, rfl, hlf⟩ := hleft
    obtain ⟨right, rest, rfl, hfr⟩ := hright
    have hassoc : front ++ [left] ++ f :: right :: rest = front ++ left :: [f, right] ++ rest := by simp
    rw [hassoc] at h ⊢
    have hnext' := @next_eq s b used (front ++ [left] ++ [f]) rest right (by simpa using h)
    have hsum : left.len + (f.len + right.len) ≤ ((front ++ left :: [f, right] ++ rest).map Chunk.len).sum := by
      simp only [List.map_append, List.map_cons, List.map_nil, List.sum_append, List.sum_cons, List.sum_nil]
      omega
    have hmerge : s.merge f.ptr =
        s.absorb left.ptr (left.len + ([f, right].map Chunk.len).sum) (rest.map Chunk.ptr).head? := by
      rw [Pool.merge, hleftadj, hrightadj, hprev, hnext]
      simp [hf.size_eq, (h.headed left (by simp)).size_eq, (h.headed right (by simp)).size_eq, hnext',
        h.add_eq (Nat.le_trans (Nat.le_add_left _ _) hsum), h.add_eq hsum]
    rw [hmerge]
    refine h.grown ⟨hlf.symm, hfr.symm, rfl⟩ rfl ?_ (fun d hd => ?_) fun d hd => ?_
    · exact hspaced.sublist (by simp)
    · exact (List.pairwise_append.mp (List.pairwise_append.mp hspaced).1).2.2 d hd left (by simp)
    · have hgap := (List.pairwise_cons.mp (List.pairwise_append.mp hspaced).2.1).1 d hd
      simp only [Chunk.fin, List.map_cons, List.map_nil, List.sum_cons, List.sum_nil] at hlf hfr hgap ⊢
      omega
  · have hleftadj := h.leftadj_iff.mpr hleft
    have hrightadj := Bool.eq_false_iff.mpr (mt h.rightadj_iff.mp hright)
    have hbehind := h.lt_of_not_rightadj hspaced hright
    obtain ⟨front, left, rfl, hlf⟩ := hleft
    have hassoc : front ++ [left] ++ f :: l₂ = front ++ left :: [f] ++ l₂ := by simp
    rw [hassoc] at h ⊢
    have hsum : left.len + f.len ≤ ((front ++ left :: [f] ++ l₂).map Chunk.len).sum := by
      simp only [List.map_append, List.map_cons, List.map_nil, List.sum_append, List.sum_cons, List.sum_nil]
      omega
    have hmerge : s.merge f.ptr =
        s.absorb left.ptr (left.len + ([f].map Chunk.len).sum) (l₂.map Chunk.ptr).head? := by
      rw [Pool.merge, hleftadj, hrightadj, hprev]
      simp [hf.size_eq, (h.headed left (by simp)).size_eq, hnext, h.add_eq hsum]
    rw [hmerge]
    refine h.grown ⟨hlf.symm, rfl⟩ rfl ?_ (fun d hd => ?_) fun d hd => ?_
    · exact hspaced.sublist (by simp)
    · exact (List.pairwise_append.mp (List.pairwise_append.mp hspaced).1).2.2 d hd left (by simp)
    · have hgap := hbehind d hd
      simp only [Chunk.fin, List.map_cons, List.map_nil, List.sum_cons, List.sum_nil] at hlf hgap ⊢
      omega
  · have hleftadj := Bool.eq_false_iff.mpr (mt h.leftadj_iff.mp hleft)
    have hrightadj := h.rightadj_iff.mpr hright
    have hbefore := h.lt_of_not_leftadj hspaced hleft
    obtain ⟨right, rest, rfl, hfr⟩ := hright
    have hassoc : l₁ ++ f :: right :: rest = l₁ ++ f :: [right] ++ rest := by simp
    rw [hassoc] at h ⊢
    have hnext' := @next_eq s b used (l₁ ++ [f]) rest right (by simpa using h)
    have hsum : f.len + right.len ≤ ((l₁ ++ f :: [right] ++ rest).map Chunk.len).sum := by
      simp only [List.map_append, List.map_cons, List.map_nil, List.sum_append, List.sum_cons, List.sum_nil]
      omega
    have hmerge : s.merge f.ptr =
        s.absorb f.ptr (f.len + ([right].map Chunk.len).sum) (rest.map Chunk.ptr).head? := by
      rw [Pool.merge, hleftadj, hrightadj, hnext]
      simp [hf.size_eq, (h.headed right (by simp)).size_eq, hnext', h.add_eq hsum]
    rw [hmerge]
    refine h.grown ⟨hfr.symm, rfl⟩ rfl ?_ hbefore fun d hd => ?_
    · exact hspaced.sublist (by simp)
    · have hgap := (List.pairwise_cons.mp (List.pairwise_append.mp hspaced).2.1).1 d hd
      simp only [Chunk.fin, List.map_cons, List.map_nil, List.sum_cons, List.sum_nil] at hfr hgap ⊢
      omega
  · have hmerge : s.merge f.ptr = s := by
      rw [Pool.merge, Bool.eq_false_iff.mpr (mt h.leftadj_iff.mp hleft),
        Bool.eq_false_iff.mpr (mt h.rightadj_iff.mp hright)]
    rw [hmerge]
    exact ⟨_, h, hspaced.insert (h.lt_of_not_leftadj hspaced hleft) (h.lt_of_not_rightadj hspaced hright),
      Frame.refl s b _⟩

theorem exists_split (f : Chunk) : ∀ {free : List Chunk}, Ordered free → (∀ c ∈ free, c.Disjoint f) →
    ∃ l₁ l₂, free = l₁ ++ l₂ ∧ (∀ c ∈ l₁, c.fin ≤ f.ptr) ∧ ∀ c ∈ l₂, f.fin ≤ c.ptr
  | [], _, _ => ⟨[], [], rfl, by simp, by simp⟩
  | c :: free, hordered, hdisjoint => by
    obtain ⟨hc, hordered⟩ := List.pairwise_cons.mp hordered
    rcases hdisjoint c List.mem_cons_self with hcf | hfc
    · obtain ⟨l₁, l₂, rfl, hl₁, hl₂⟩ := exists_split f hordered fun d hd => hdisjoint d (List.mem_cons_of_mem c hd)
      refine ⟨c :: l₁, l₂, rfl, fun d hd => ?_, hl₂⟩
      rcases List.mem_cons.mp hd with rfl | hd
      · exact hcf
      · exact hl₁ d hd
    · refine ⟨[], c :: free, rfl, by simp, fun d hd => ?_⟩
      rcases List.mem_cons.mp hd with rfl | hd
      · exact hfc
      · have hcd := hc d hd
        simp only [Chunk.fin] at hcd ⊢
        exact Nat.le_trans hfc (Nat.le_trans (Nat.le_add_right _ _) hcd)

theorem disjoint_used (h : Cut s b free (f :: used)) : ∀ c ∈ free ++ used, c.Disjoint f := by
  have hperm : (free ++ f :: used).Perm (f :: (free ++ used)) := List.perm_middle
  intro c hc
  exact ((List.pairwise_cons.mp (h.packed.perm hperm).disjoint).1 c hc).symm

/-- **`deallocateblock`** makes a block in use free. -/
theorem give (h : Cut s b free (f :: used)) (hspaced : Spaced free) (hf : Headed s b f) :
    ∃ t free', s.deallocateblock f.ptr = some (true, t) ∧ Cut t b free' used ∧ Spaced free' ∧
      Frame s t b (f.ptr :: free.map Chunk.ptr) := by
  obtain ⟨l₁, l₂, rfl, hl₁, hl₂⟩ :=
    exists_split f h.ordered fun c hc => h.disjoint_used c (List.mem_append_left used hc)
  have hpos := h.pos (show f ∈ l₁ ++ l₂ ++ f :: used by simp)
  have hlinked := h.linked
  rw [List.map_append] at hlinked
  have hsides : s.findSides f.ptr (s.buffers b).iBufferSize none (s.buffers b).iNextFreeBlock =
      some ((l₁.map Chunk.ptr).getLast?, (l₂.map Chunk.ptr).head?) := by
    refine hlinked.findSides (fun p hp => ?_) (fun p hp => ?_) ?_
    · obtain ⟨c, hc, rfl⟩ := List.mem_map.mp hp
      exact Nat.le_trans (Nat.le_add_right _ _) (hl₁ c hc)
    · obtain ⟨c, hc, rfl⟩ := List.mem_map.mp hp
      exact Nat.lt_of_lt_of_le (Nat.lt_add_of_pos_right hpos) (hl₂ c hc)
    · simpa using h.length_le
  have hoverlaps : s.overlaps f.ptr (l₁.map Chunk.ptr).getLast? (l₂.map Chunk.ptr).head? = false := by
    rw [Pool.overlaps, Bool.or_eq_false_iff, List.getLast?_map, List.head?_map, Option.any_map, Option.any_map]
    constructor
    · cases hlast : l₁.getLast? with
      | none => rfl
      | some c =>
        have hc := List.mem_of_getLast? hlast
        simpa [(h.headed c (List.mem_append_left l₂ hc)).behind_eq] using hl₁ c hc
    · cases hhead : l₂.head? with
      | none => rfl
      | some c => simpa [hf.behind_eq] using hl₂ c (List.mem_of_head? hhead)
  obtain ⟨hcut, hframe⟩ := h.linkIn hf hl₁ hl₂
  obtain ⟨free', hmerged, hspaced', hframe'⟩ := hcut.merge hspaced
  refine ⟨_, free', ?_, hmerged, hspaced', (hframe.trans hframe').mono fun p hp => ?_⟩
  · simp only [Pool.deallocateblock, hf.parent_eq, hsides, hoverlaps, Bool.false_eq_true, if_false]
    split
    · next halone =>
        have hprev := hcut.prev_eq
        have hnext := hcut.next_eq
        simp only [List.getLast?_map, List.head?_map, Option.isNone_map, Bool.and_eq_true, Option.isNone_iff_eq_none]
          at halone
        rw [halone.1] at hprev
        rw [halone.2] at hnext
        simp only [List.getLast?_map, List.head?_map, halone.1, halone.2, Option.map_none] at hprev hnext ⊢
        rw [Pool.merge_alone hprev hnext]
    · rfl
  · simp only [List.map_append, List.map_cons, List.mem_append, List.mem_cons] at hp ⊢
    tauto

end Cut

end Ftke.ResizableMemPool
