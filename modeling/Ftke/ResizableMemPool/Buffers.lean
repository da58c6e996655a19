import Ftke.ResizableMemPool.Resize
import Mathlib.Data.List.Perm.Basic
import Mathlib.Logic.Function.Basic

/-!
# Ftke.ResizableMemPool.Buffers

The buffers of a pool, and what a call does to one of them.

* `Inv` — every buffer is filled by its blocks, and the pointers that are out are those of the blocks in use;
* `Inv.deallocate`, `Inv.trim`, `Inv.useBlock` — a block in use is freed, trimmed, and a free one used;
* `Inv.makeRoom`, `Inv.withBuffer` — a buffer is given up, and a new one made.
-/

namespace Ftke.ResizableMemPool

open VariableSizeMemPool (add32 alignedSize)

/-! ## One buffer -/

/-- A buffer of the pool, with its blocks. -/
structure BufferOk (s : Pool) (b : Nat) (free used : List Chunk) : Prop where
  placed : Placed s b
  cut : Cut s b free used
  spaced : Spaced free
  headed : ∀ c ∈ used, Headed s b c
  inside : ∀ c ∈ used, c.ptr + s.blockInfoSize + 1 < b + (s.buffers b).iBufferSize

/-- Only one buffer is written, and headers of its blocks. -/
structure Local (s t : Pool) (b : Nat) : Prop where
  config : t.toConfig = s.toConfig
  list : t.iMemPoolBufferList = s.iMemPoolBufferList
  buffers : ∀ q, q ≠ b → t.buffers q = s.buffers q
  blocks : ∀ p, ¬(b ≤ p ∧ p < b + (s.buffers b).iBufferSize) → t.blocks p = s.blocks p
  size_eq : (t.buffers b).iBufferSize = (s.buffers b).iBufferSize

variable {s t : Pool} {b q n : Nat} {free used used' : List Chunk} {c : Chunk} {w : List Nat} {len : Nat}

theorem Cut.within (h : Cut s b free used) (hc : c ∈ free ++ used) :
    b ≤ c.ptr ∧ c.ptr < c.fin ∧ c.fin ≤ b + (s.buffers b).iBufferSize := by
  have hin := h.packed.within c hc
  have hpos := h.pos hc
  simp only [Chunk.fin] at hin ⊢
  omega

theorem Cut.perm (h : Cut s b free used) (hperm : used.Perm used') : Cut s b free used' where
  linked := h.linked
  headed := h.headed
  ordered := h.ordered
  packed := h.packed.perm (hperm.append_left free)
  large d hd := h.large d ((hperm.append_left free).mem_iff.mpr hd)
  allocated := by rw [h.allocated, (hperm.map Chunk.len).sum_eq]
  small := h.small

theorem BufferOk.perm (h : BufferOk s b free used) (hperm : used.Perm used') : BufferOk s b free used' where
  placed := h.placed
  cut := h.cut.perm hperm
  spaced := h.spaced
  headed d hd := h.headed d (hperm.mem_iff.mpr hd)
  inside d hd := h.inside d (hperm.mem_iff.mpr hd)

theorem BufferOk.congr (h : BufferOk s q free used) (hconfig : t.toConfig = s.toConfig)
    (hmem : q ∈ t.iMemPoolBufferList)
    (hbuffer : t.buffers q = s.buffers q)
    (hblocks : ∀ p, q ≤ p → p < q + (s.buffers q).iBufferSize → t.blocks p = s.blocks p) :
    BufferOk t q free used := by
  have hlayout : t.layout = s.layout := congrArg Config.layout hconfig
  have hheader : ∀ d ∈ free ++ used, t.blocks d.ptr = s.blocks d.ptr := by
    intro d hd
    have hin := h.cut.within hd
    exact hblocks d.ptr hin.1 (by omega)
  refine ⟨⟨hmem, ?_, ?_⟩, ?_, h.spaced, fun d hd => ?_, ?_⟩
  · rw [hbuffer, Pool.bufferInfoSize, hlayout]
    exact h.placed.start_eq
  · rw [hbuffer]
    exact h.placed.end_eq
  · exact h.cut.congr hconfig hbuffer fun d hd => hheader d (List.mem_append_left used hd)
  · refine (h.headed d hd).congr ?_ hconfig
    rw [Pool.core, hheader d (List.mem_append_right free hd), Pool.core]
  · rw [hbuffer, Pool.blockInfoSize, hlayout]
    exact h.inside

theorem Frame.toLocal (h : Frame s t b w)
    (hw : ∀ p ∈ w, b ≤ p ∧ p < b + (s.buffers b).iBufferSize) : Local s t b where
  config := h.config
  list := h.list
  buffers := h.buffers
  blocks p hp := h.blocks p fun hpw => hp (hw p hpw)
  size_eq := h.bufferSize_eq

theorem Local.count (h : Local s t b) (n : Nat) :
    Local s (t.modifyBuffer b fun buffer => { buffer with iNumOutstanding := n }) b where
  config := h.config
  list := h.list
  buffers q hq := by
    rw [Pool.buffers_modifyBuffer, if_neg hq]
    exact h.buffers q hq
  blocks := h.blocks
  size_eq := by
    rw [Pool.buffers_modifyBuffer, if_pos rfl]
    exact h.size_eq

theorem Cut.count (h : Cut s b free used) (n : Nat) :
    Cut (s.modifyBuffer b fun buffer => { buffer with iNumOutstanding := n }) b free used := by
  refine ⟨h.linked.congr ?_ (fun _ _ => rfl) fun _ _ => rfl, h.headed, h.ordered, ?_, h.large, ?_, ?_⟩
  all_goals rw [Pool.buffers_modifyBuffer, if_pos rfl]
  · exact h.packed
  · exact h.allocated
  · exact h.small

theorem Uses.toLocal (h : Uses s t b free used c len)
    (hin : ∀ d ∈ c :: free, b ≤ d.ptr ∧ d.ptr < d.fin ∧ d.fin ≤ b + (s.buffers b).iBufferSize) : Local s t b := by
  obtain ⟨w, hframe, hw⟩ := h.frame
  refine hframe.toLocal fun p hp => ?_
  rcases hw p hp with hfree | hc
  · obtain ⟨d, hd, rfl⟩ := List.mem_map.mp hfree
    have hd := hin d (List.mem_cons_of_mem c hd)
    omega
  · have hcin := hin c List.mem_cons_self
    omega

theorem Uses.rest (h : Uses s t b free used c len) {d : Chunk} (hd : Headed s b d)
    (hdisjoint : ∀ e ∈ c :: free, e.Disjoint d ∧ 0 < e.len) (hpos : 0 < d.len) : Headed t b d := by
  obtain ⟨w, hframe, hw⟩ := h.frame
  refine hframe.headed (fun hmem => ?_) hd
  rcases hw _ hmem with hfree | hc
  · obtain ⟨e, he, heq⟩ := List.mem_map.mp hfree
    have hed := hdisjoint e (List.mem_cons_of_mem c he)
    simp only [Chunk.Disjoint, Chunk.fin] at hed
    omega
  · have hcd := hdisjoint c List.mem_cons_self
    simp only [Chunk.Disjoint, Chunk.fin] at hcd hc
    omega

theorem BufferOk.count (h : BufferOk s b free used) (n : Nat) :
    BufferOk (s.modifyBuffer b fun buffer => { buffer with iNumOutstanding := n }) b free used := by
  refine ⟨⟨h.placed.mem, ?_, ?_⟩, h.cut.count n, h.spaced, h.headed, ?_⟩
  all_goals rw [Pool.buffers_modifyBuffer, if_pos rfl]
  · exact h.placed.start_eq
  · exact h.placed.end_eq
  · exact h.inside

theorem Uses.bufferOk (h : Uses s t b free used c len) (hb : Placed s b) (hheaded : ∀ d ∈ used, Headed t b d)
    (hinside : ∀ d ∈ c :: used, d.ptr + s.blockInfoSize + 1 < b + (s.buffers b).iBufferSize) :
    ∃ free', BufferOk t b free' (⟨c.ptr, len⟩ :: used) := by
  obtain ⟨free', hcut, hspaced⟩ := h.cut
  have hinfo := h.blockInfoSize_eq
  obtain ⟨w, hframe, -⟩ := h.frame
  refine ⟨free', hframe.placed hb, hcut, hspaced, fun d hd => ?_, fun d hd => ?_⟩
  · rcases List.mem_cons.mp hd with rfl | hd
    · exact h.headed
    · exact hheaded d hd
  · rw [hinfo, hframe.bufferSize_eq]
    rcases List.mem_cons.mp hd with rfl | hd
    · exact hinside c List.mem_cons_self
    · exact hinside d (List.mem_cons_of_mem c hd)

/-- **A block in use has become smaller.** -/
theorem BufferOk.resize (h : BufferOk s b free (c :: used)) (huses : Uses s t b free used c len) :
    (∃ free', BufferOk t b free' (⟨c.ptr, len⟩ :: used)) ∧ Local s t b := by
  have hsub : ∀ d ∈ c :: free, d ∈ free ++ c :: used := by
    intro d hd
    simp only [List.mem_cons, List.mem_append] at hd ⊢
    tauto
  have hperm : (free ++ c :: used).Perm (c :: free ++ used) := List.perm_middle
  have hdisjoint := (List.pairwise_append.mp (h.cut.packed.perm hperm).disjoint).2.2
  refine ⟨huses.bufferOk h.placed (fun d hd => ?_) h.inside, huses.toLocal fun d hd => h.cut.within (hsub d hd)⟩
  have hmem := List.mem_cons_of_mem c hd
  exact huses.rest (h.headed d hmem) (fun e he => ⟨hdisjoint e he d hd, h.cut.pos (hsub e he)⟩)
    (h.cut.pos (List.mem_append_right free hmem))

/-- **A free block has come in use.** -/
theorem BufferOk.use (h : BufferOk s b free used) (hc : c ∈ free) (huses : Uses s t b free used c len)
    (hinside : c.ptr + s.blockInfoSize + 1 < b + (s.buffers b).iBufferSize) :
    (∃ free', BufferOk t b free' (⟨c.ptr, len⟩ :: used)) ∧ Local s t b := by
  have hsub : ∀ d ∈ c :: free, d ∈ free := by
    intro d hd
    rcases List.mem_cons.mp hd with rfl | hd
    · exact hc
    · exact hd
  have hdisjoint := (List.pairwise_append.mp h.cut.packed.disjoint).2.2
  refine ⟨huses.bufferOk h.placed (fun d hd => ?_) fun d hd => ?_,
    huses.toLocal fun d hd => h.cut.within (List.mem_append_left used (hsub d hd))⟩
  · refine huses.rest (h.headed d hd) (fun e he => ⟨hdisjoint e (hsub e he) d hd, ?_⟩)
      (h.cut.pos (List.mem_append_right free hd))
    exact h.cut.pos (List.mem_append_left used (hsub e he))
  · rcases List.mem_cons.mp hd with rfl | hd
    · exact hinside
    · exact h.inside d hd

variable {p A newbuffer size : Nat}

theorem parentAt_of_core (h : (t.core p).iParentBuffer = (s.core p).iParentBuffer) :
    t.parentAt p = s.parentAt p := h

theorem parentAt_absorb (s : Pool) (a size p : Nat) (next : Option Nat) :
    (s.absorb a size next).parentAt p = s.parentAt p := by
  refine parentAt_of_core ?_
  rw [Pool.core_absorb]
  by_cases h : p = a
  · rw [if_pos h, h]
  · rw [if_neg h]

theorem parentAt_merge (s : Pool) (a p : Nat) : (s.merge a).parentAt p = s.parentAt p := by
  simp only [Pool.merge]
  split
  all_goals first
    | exact parentAt_absorb ..
    | rfl

theorem parentAt_deallocateblock {a : Nat} {r : Bool} (h : s.deallocateblock a = some (r, t)) (p : Nat) :
    t.parentAt p = s.parentAt p := by
  have hlink : ∀ left right, ((s.linkIn a left right).giveBack a).parentAt p = s.parentAt p :=
    fun _ _ => parentAt_of_core (congrArg MemPoolBlockInfo.iParentBuffer Pool.core_linkIn)
  simp only [Pool.deallocateblock] at h
  split at h
  · contradiction
  · split at h
    · obtain ⟨-, rfl⟩ := Prod.mk.inj (Option.some.inj h)
      rfl
    · obtain ⟨-, rfl⟩ := Prod.mk.inj (Option.some.inj h)
      split
      · exact hlink _ _
      · rw [parentAt_merge]
        exact hlink _ _

/-- **A block in use has become free.** -/
theorem BufferOk.give (h : BufferOk s b free (c :: used)) :
    ∃ t, s.deallocateblock c.ptr = some (true, t) ∧ (∃ free', BufferOk t b free' used) ∧ Local s t b ∧
      shell (t.buffers b) = shell (s.buffers b) ∧ t.parentAt c.ptr = b := by
  have hc := h.headed c List.mem_cons_self
  obtain ⟨t, free', ht, hcut, hspaced, hframe⟩ := h.cut.give h.spaced hc
  have hdisjoint := h.cut.disjoint_used
  have hin := h.cut.within (List.mem_append_right free (List.mem_cons_self (a := c)))
  have hne : ∀ d ∈ used, d.ptr ∉ c.ptr :: free.map Chunk.ptr := by
    intro d hd hmem
    have hd' := List.mem_append_right free (List.mem_cons_of_mem c hd)
    have hpos := h.cut.within hd'
    rcases List.mem_cons.mp hmem with heq | hmem
    · have hdc := hdisjoint d (List.mem_append_right free hd)
      simp only [Chunk.Disjoint] at hdc
      omega
    · obtain ⟨e, he, heq⟩ := List.mem_map.mp hmem
      have hed := (List.pairwise_append.mp h.cut.packed.disjoint).2.2 e he d (List.mem_cons_of_mem c hd)
      have hepos := h.cut.within (List.mem_append_left (c :: used) he)
      simp only [Chunk.Disjoint] at hed
      omega
  have hlocal := hframe.toLocal fun p hp => by
    rcases List.mem_cons.mp hp with rfl | hp
    · omega
    · obtain ⟨e, he, rfl⟩ := List.mem_map.mp hp
      have hein := h.cut.within (List.mem_append_left (c :: used) he)
      omega
  refine ⟨t, ht, ⟨free', hframe.placed h.placed, hcut, hspaced, fun d hd => ?_, fun d hd => ?_⟩, hlocal,
    hframe.shell_eq, (parentAt_deallocateblock ht c.ptr).trans hc.parent_eq⟩
  · exact hframe.headed (hne d hd) (h.headed d (List.mem_cons_of_mem c hd))
  · rw [hframe.blockInfoSize_eq, hframe.bufferSize_eq]
    exact h.inside d (List.mem_cons_of_mem c hd)

/-! ## All buffers -/

/-- The pointers to the blocks in use. -/
def pointers (s : Pool) (used : Nat → List Chunk) : List Nat :=
  s.iMemPoolBufferList.flatMap fun b => (used b).map fun c => c.ptr + s.blockInfoSize

/-- Two buffers have no memory in common. -/
def Separate (s : Pool) (b q : Nat) : Prop :=
  q + (s.buffers q).iBufferSize ≤ b ∨ b + (s.buffers b).iBufferSize ≤ q

/-- **The invariant**: each buffer is filled by its blocks; the pointers that are out are those of the blocks in
use. -/
structure Inv (s : Pool) (live : List Nat) (free used : Nat → List Chunk) : Prop where
  nodup : s.iMemPoolBufferList.Nodup
  separate : ∀ b ∈ s.iMemPoolBufferList, ∀ q ∈ s.iMemPoolBufferList, q ≠ b → Separate s b q
  buffer : ∀ b ∈ s.iMemPoolBufferList, BufferOk s b (free b) (used b)
  outstanding : ∀ b ∈ s.iMemPoolBufferList, (s.buffers b).iNumOutstanding = (used b).length
  live_perm : live.Perm (pointers s used)
  made : s.bufferInfoSize + s.blockInfoSize ≤ s.bufferSizeFor (alignedSize s.iMemPoolBufferSize.toNat)

theorem pointers_perm (h : s.iMemPoolBufferList.Nodup) (hb : b ∈ s.iMemPoolBufferList) (used : Nat → List Chunk)
    (blocks : List Chunk) : (pointers s (Function.update used b blocks)).Perm
      (blocks.map (fun c => c.ptr + s.blockInfoSize) ++
        (s.iMemPoolBufferList.erase b).flatMap fun q => (used q).map fun c => c.ptr + s.blockInfoSize) := by
  have hrest : (s.iMemPoolBufferList.erase b).flatMap
      (fun q => (Function.update used b blocks q).map fun c => c.ptr + s.blockInfoSize) =
      (s.iMemPoolBufferList.erase b).flatMap fun q => (used q).map fun c => c.ptr + s.blockInfoSize := by
    refine List.flatMap_congr fun q hq => ?_
    have hne : q ≠ b := (h.mem_erase_iff.mp hq).1
    rw [Function.update_of_ne hne]
  have hperm := (List.perm_cons_erase hb).flatMap_right
    fun q => (Function.update used b blocks q).map fun c => c.ptr + s.blockInfoSize
  rw [List.flatMap_cons, hrest, Function.update_self] at hperm
  exact hperm

/-- **One buffer has changed.** -/
theorem Inv.update {live live' : List Nat} {free used : Nat → List Chunk} {free' used' : List Chunk}
    (h : Inv s live free used) (hlocal : Local s t b) (hok : BufferOk t b free' used')
    (hcount : (t.buffers b).iNumOutstanding = used'.length)
    (hlive : ∀ rest, live.Perm ((used b).map (fun c => c.ptr + s.blockInfoSize) ++ rest) →
      live'.Perm (used'.map (fun c => c.ptr + s.blockInfoSize) ++ rest)) :
    Inv t live' (Function.update free b free') (Function.update used b used') := by
  have hb : b ∈ s.iMemPoolBufferList := hlocal.list ▸ hok.placed.mem
  have hsize : ∀ q, (t.buffers q).iBufferSize = (s.buffers q).iBufferSize := by
    intro q
    by_cases hq : q = b
    · rw [hq, hlocal.size_eq]
    · rw [hlocal.buffers q hq]
  have hlayout : t.layout = s.layout := congrArg Config.layout hlocal.config
  have hinfo : t.blockInfoSize = s.blockInfoSize := by rw [Pool.blockInfoSize, hlayout, Pool.blockInfoSize]
  refine ⟨hlocal.list ▸ h.nodup, fun p hp q hq hne => ?_, fun q hq => ?_, fun q hq => ?_, ?_, ?_⟩
  · rw [hlocal.list] at hp hq
    rw [Separate, hsize, hsize]
    exact h.separate p hp q hq hne
  · by_cases hqb : q = b
    · rw [hqb, Function.update_self, Function.update_self]
      exact hok
    · rw [Function.update_of_ne hqb, Function.update_of_ne hqb]
      have hq' : q ∈ s.iMemPoolBufferList := hlocal.list ▸ hq
      have hseparate := h.separate b hb q hq' hqb
      refine (h.buffer q hq').congr hlocal.config hq (hlocal.buffers q hqb) fun p hp hp' => hlocal.blocks p ?_
      rw [Separate] at hseparate
      omega
  · by_cases hqb : q = b
    · rw [hqb, Function.update_self]
      exact hcount
    · rw [Function.update_of_ne hqb, hlocal.buffers q hqb]
      exact h.outstanding q (hlocal.list ▸ hq)
  · have hbefore := pointers_perm h.nodup hb used (used b)
    rw [Function.update_eq_self] at hbefore
    have hafter := pointers_perm (s := t) (hlocal.list ▸ h.nodup) hok.placed.mem used used'
    rw [hinfo, hlocal.list] at hafter
    exact (hlive _ (h.live_perm.trans hbefore)).trans hafter.symm
  · have hmade := h.made
    simp only [Pool.bufferInfoSize, Pool.blockInfoSize, Pool.bufferSizeFor, hlocal.config] at hmade ⊢
    exact hmade

/-! ## Giving back and trimming -/

variable {live : List Nat} {frees useds : Nat → List Chunk}

theorem Inv.exists_block (h : Inv s live frees useds) (hp : p ∈ live) :
    ∃ b ∈ s.iMemPoolBufferList, ∃ c ∈ useds b, p = c.ptr + s.blockInfoSize := by
  obtain ⟨b, hb, hmem⟩ := List.mem_flatMap.mp (h.live_perm.mem_iff.mp hp)
  obtain ⟨c, hc, heq⟩ := List.mem_map.mp hmem
  exact ⟨b, hb, c, hc, heq.symm⟩

theorem BufferOk.validateblock (h : BufferOk s b free used) (hc : c ∈ used) :
    s.validateblock (c.ptr + s.blockInfoSize) = true := by
  have hin := h.cut.packed.within c (List.mem_append_right free hc)
  exact (h.headed c hc).validateblock h.placed hin.1 (h.inside c hc) hin.2

theorem BufferOk.length_lt (h : BufferOk s b free used) : used.length < 2 ^ 32 := by
  have hsum := h.cut.sum_eq
  have hsmall := h.cut.small
  have hone : ∀ n ∈ used.map Chunk.len, 1 ≤ n := by
    intro n hn
    obtain ⟨c, hc, rfl⟩ := List.mem_map.mp hn
    exact h.cut.pos (List.mem_append_right free hc)
  have hlength := List.length_le_sum_of_one_le _ hone
  rw [List.length_map] at hlength
  omega

theorem modifyBuffer_count (s : Pool) (b : Nat) (f : Nat → Nat) :
    (s.modifyBuffer b fun buffer => { buffer with iNumOutstanding := f buffer.iNumOutstanding }) =
      s.modifyBuffer b fun buffer => { buffer with iNumOutstanding := f (s.buffers b).iNumOutstanding } := rfl

theorem outstanding_of_shell {i j : MemPoolBufferInfo}
    (h : shell i = shell j) : i.iNumOutstanding = j.iNumOutstanding := by
  have hout := congrArg MemPoolBufferInfo.iNumOutstanding h
  exact hout

/-- **`deallocate`** of a pointer that is out. -/
theorem Inv.deallocate (h : Inv s live frees useds) (hp : p ∈ live) :
    ∃ t, s.deallocate p = some (true, t) ∧ ∃ frees' useds', Inv t (live.erase p) frees' useds' := by
  obtain ⟨b, hb, c, hc, rfl⟩ := h.exists_block hp
  have hperm := List.perm_cons_erase hc
  have hbuffer := (h.buffer b hb).perm hperm
  obtain ⟨t, ht, ⟨free', hok⟩, hlocal, hshell, hparent⟩ := hbuffer.give
  have hlength := (h.buffer b hb).length_lt
  have hout : (t.buffers b).iNumOutstanding = (useds b).length :=
    (outstanding_of_shell hshell).trans (h.outstanding b hb)
  have hcount : sub32 (t.buffers b).iNumOutstanding 1 = ((useds b).erase c).length := by
    have hlen := hperm.length_eq
    rw [List.length_cons] at hlen
    rw [hout, sub32]
    omega
  refine ⟨_, ?_, _, _, h.update (hlocal.count ((useds b).erase c).length) (hok.count _) ?_ fun rest hrest => ?_⟩
  · simp only [Pool.deallocate, (h.buffer b hb).validateblock hc, Bool.not_true, Bool.false_eq_true, if_false,
      Nat.add_sub_cancel, ht, hparent]
    have hmodify := modifyBuffer_count t b fun n => sub32 n 1
    rw [hcount] at hmodify
    rw [hmodify]
  · rw [Pool.buffers_modifyBuffer, if_pos rfl]
  · have hpointers := (hperm.map fun c => c.ptr + s.blockInfoSize).append_right rest
    have herase := (hrest.trans hpointers).erase (c.ptr + s.blockInfoSize)
    simpa using herase

/-- **`trim`** of a pointer that is out. -/
theorem Inv.trim (h : Inv s live frees useds) (hp : p ∈ live) (n : Nat) :
    ∃ r t, s.trim p n = some (r, t) ∧ ∃ frees' useds', Inv t live frees' useds' := by
  obtain ⟨b, hb, c, hc, rfl⟩ := h.exists_block hp
  have hperm := List.perm_cons_erase hc
  have hbuffer := (h.buffer b hb).perm hperm
  obtain ⟨r, t, len, ht, -, -, huses⟩ := hbuffer.cut.trim hbuffer.spaced (hbuffer.headed c List.mem_cons_self)
    hbuffer.placed (hbuffer.inside c List.mem_cons_self) n
  obtain ⟨⟨free', hok⟩, hlocal⟩ := hbuffer.resize huses
  refine ⟨r, t, ht, _, _, h.update hlocal hok ?_ fun rest hrest => ?_⟩
  · obtain ⟨w, hframe, -⟩ := huses.frame
    rw [outstanding_of_shell hframe.shell_eq, h.outstanding b hb, hperm.length_eq]
    rfl
  · have hpointers := (hperm.map fun c => c.ptr + s.blockInfoSize).append_right rest
    exact hrest.trans hpointers

/-! ## Looking for a free block -/

theorem findIn_spec {bs : List Nat} (h : ∀ b ∈ bs, Cut s b (frees b) (useds b)) (k : Nat) :
    s.findIn k bs = some none ∨ ∃ b ∈ bs, ∃ c ∈ frees b, s.findIn k bs = some (some c.ptr) ∧ k ≤ c.len := by
  induction bs with
  | nil => exact .inl rfl
  | cons b bs ih =>
    have hcut := h b List.mem_cons_self
    have hscan := hcut.linked.scanFree k (show ((frees b).map Chunk.ptr).length ≤ (s.buffers b).iBufferSize by
      rw [List.length_map]
      exact hcut.length_le)
    rw [Pool.findIn, hscan]
    cases hfind : ((frees b).map Chunk.ptr).find? fun p => decide (k ≤ s.sizeAt p) with
    | none =>
      rcases ih fun q hq => h q (List.mem_cons_of_mem b hq) with hnone | ⟨q, hq, c, hc, hsome, hle⟩
      · exact .inl hnone
      · exact .inr ⟨q, List.mem_cons_of_mem b hq, c, hc, hsome, hle⟩
    | some p =>
      obtain ⟨c, hc, rfl⟩ := List.mem_map.mp (List.mem_of_find?_eq_some hfind)
      have hsize := List.find?_some hfind
      rw [(hcut.headed c hc).size_eq, decide_eq_true_eq] at hsize
      exact .inr ⟨b, List.mem_cons_self, c, hc, rfl, hsize⟩

theorem Inv.findfreeblock (h : Inv s live frees useds) (k : Nat) :
    s.findfreeblock k = some none ∨
      ∃ b ∈ s.iMemPoolBufferList, ∃ c ∈ frees b, s.findfreeblock k = some (some c.ptr) ∧ k ≤ c.len :=
  findIn_spec (fun b hb => (h.buffer b hb).cut) k

/-! ## Using a block -/

/-- **A free block that is large enough is used.** -/
theorem Inv.useBlock (h : Inv s live frees useds) (hb : b ∈ s.iMemPoolBufferList) (hc : c ∈ frees b)
    (hA : 2 ≤ A) (hfit : A + s.blockInfoSize ≤ c.len) :
    ∃ t free' len, s.useBlock c.ptr A = some (.pointer (c.ptr + s.blockInfoSize), t) ∧ A + s.blockInfoSize ≤ len ∧
      Local s t b ∧ Inv t ((c.ptr + s.blockInfoSize) :: live) (Function.update frees b free')
        (Function.update useds b (⟨c.ptr, len⟩ :: useds b)) := by
  have hbuffer := h.buffer b hb
  have hin := hbuffer.cut.within (List.mem_append_left (useds b) hc)
  obtain ⟨l₁, l₂, hsplit⟩ := List.append_of_mem hc
  have hcut := hbuffer.cut
  have hspaced := hbuffer.spaced
  rw [hsplit] at hcut hspaced
  obtain ⟨t, len, ht, hlen, huses⟩ := hcut.allocateblock hspaced hbuffer.placed (by omega) hfit
  rw [← hsplit] at huses
  obtain ⟨⟨free', hok⟩, hlocal⟩ := hbuffer.use hc huses (by simp only [Chunk.fin] at hin; omega)
  have hparent := huses.headed.parent_eq
  obtain ⟨w, hframe, -⟩ := huses.frame
  have hlength := hbuffer.length_lt
  have hcount : add32 (t.buffers b).iNumOutstanding 1 = (useds b).length + 1 := by
    have hone := hok.length_lt
    rw [List.length_cons] at hone
    rw [outstanding_of_shell hframe.shell_eq, h.outstanding b hb, add32, Nat.mod_eq_of_lt hone]
  have hmodify := modifyBuffer_count t b fun n => add32 n 1
  rw [hcount] at hmodify
  refine ⟨_, free', len, ?_, hlen, hlocal.count ((useds b).length + 1),
    h.update (hlocal.count ((useds b).length + 1)) (hok.count _) ?_ fun rest hrest => ?_⟩
  · simp only [Pool.useBlock, ht, hparent, hmodify]
  · rw [Pool.buffers_modifyBuffer, if_pos rfl]
    rfl
  · exact hrest.cons _

/-! ## New buffers -/

theorem makeRoom_eq {room : Pool} (h : s.makeRoom A = some room) :
    room = s ∨ room =
      { s with iMemPoolBufferList := s.iMemPoolBufferList.eraseP fun b => (s.buffers b).iNumOutstanding = 0 } := by
  simp only [Pool.makeRoom] at h
  split at h
  · contradiction
  · split at h
    · split at h
      · exact .inr (Option.some.inj h).symm
      · contradiction
    · exact .inl (Option.some.inj h).symm

theorem Inv.makeRoom {room : Pool} (h : Inv s live frees useds) (hroom : s.makeRoom A = some room) :
    Inv room live frees useds := by
  rcases makeRoom_eq hroom with rfl | rfl
  · exact h
  · by_cases hany : ∃ b ∈ s.iMemPoolBufferList, decide ((s.buffers b).iNumOutstanding = 0) = true
    · obtain ⟨b, hb, hp⟩ := hany
      obtain ⟨e, l₁, l₂, -, he, hlist, herase⟩ :=
        @List.exists_of_eraseP _ (fun b => decide ((s.buffers b).iNumOutstanding = 0)) _ _ hb hp
      have hempty : useds e = [] := by
        have hcount := h.outstanding e (by rw [hlist]; simp)
        rw [of_decide_eq_true he] at hcount
        exact List.length_eq_zero_iff.mp hcount.symm
      rw [herase]
      have hsub : List.Sublist (l₁ ++ l₂) s.iMemPoolBufferList := by
        rw [hlist]
        exact (List.sublist_cons_self e l₂).append_left l₁
      refine ⟨h.nodup.sublist hsub, fun p hp q hq => h.separate p (hsub.mem hp) q (hsub.mem hq), fun q hq => ?_,
        fun q hq => h.outstanding q (hsub.mem hq), ?_, h.made⟩
      · exact (h.buffer q (hsub.mem hq)).congr rfl hq rfl fun _ _ _ => rfl
      · have hlive := h.live_perm
        simp only [pointers, hlist, List.flatMap_append, List.flatMap_cons, hempty, List.map_nil,
          List.nil_append] at hlive
        rw [pointers, List.flatMap_append]
        exact hlive
    · have hnone : s.iMemPoolBufferList.eraseP
        (fun b => (s.buffers b).iNumOutstanding = 0) = s.iMemPoolBufferList := by
        refine List.eraseP_of_forall_not fun b hb hp => hany ⟨b, hb, hp⟩
      rw [hnone]
      exact h

theorem buffers_withBuffer_of_ne (hq : q ≠ newbuffer) :
    (s.withBuffer newbuffer size).buffers q = s.buffers q := if_neg hq

theorem blocks_withBuffer_of_ne (hp : p ≠ newbuffer + s.bufferInfoSize) :
    (s.withBuffer newbuffer size).blocks p = s.blocks p := if_neg hp

theorem bufferOk_withBuffer (s : Pool) {newbuffer size : Nat} (hlarge : s.bufferInfoSize + s.blockInfoSize ≤ size)
    (hsize : size < 2 ^ 32) : BufferOk (s.withBuffer newbuffer size) newbuffer
      [⟨newbuffer + s.bufferInfoSize, size - s.bufferInfoSize⟩] [] := by
  have hpos : 0 < s.bufferInfoSize := s.layout.bufferInfo_pos
  have hbuffer : (s.withBuffer newbuffer size).buffers newbuffer =
      ⟨newbuffer + s.bufferInfoSize, newbuffer + size - 1, size, 0, some (newbuffer + s.bufferInfoSize), 0⟩ :=
    if_pos rfl
  have hblock : (s.withBuffer newbuffer size).blocks (newbuffer + s.bufferInfoSize) =
      s.header (newbuffer + s.bufferInfoSize) (size - s.bufferInfoSize) newbuffer := if_pos rfl
  refine ⟨⟨List.mem_cons_self, ?_, ?_⟩, ⟨⟨?_, ?_⟩, fun c hc => ?_, List.pairwise_singleton _ _, ?_,
    fun c hc => ?_, ?_, ?_⟩,
    List.pairwise_singleton _ _, by simp, by simp⟩
  · rw [hbuffer]
    rfl
  · rw [hbuffer]
    simp only
    omega
  · rw [hbuffer]
    rfl
  · refine ⟨?_, ?_, trivial⟩
    · rw [Pool.prevFree, hblock]
      rfl
    · rw [Pool.nextFree, hblock]
      rfl
  · rw [List.mem_singleton.mp hc, Headed, Pool.core, hblock]
    rfl
  · rw [hbuffer]
    have hsingle := Packed.single (newbuffer + s.bufferInfoSize) (size - s.bufferInfoSize)
    rw [show newbuffer + s.bufferInfoSize + (size - s.bufferInfoSize) = newbuffer + size by omega] at hsingle
    exact hsingle
  · rw [List.append_nil] at hc
    rw [List.mem_singleton.mp hc]
    change s.blockInfoSize ≤ size - s.bufferInfoSize
    omega
  · rw [hbuffer]
    rfl
  · rw [hbuffer]
    exact hsize

/-- **A new buffer** is added to the others. -/
theorem Inv.withBuffer (h : Inv s live frees useds)
    (hlarge : s.bufferInfoSize + s.blockInfoSize ≤ size) (hsize : size < 2 ^ 32)
    (hfresh : ∀ q ∈ s.iMemPoolBufferList, q + (s.buffers q).iBufferSize ≤ newbuffer ∨ newbuffer + size ≤ q) :
    Inv (s.withBuffer newbuffer size) live
      (Function.update frees newbuffer [⟨newbuffer + s.bufferInfoSize, size - s.bufferInfoSize⟩])
      (Function.update useds newbuffer []) := by
  have hpos : 0 < s.bufferInfoSize := s.layout.bufferInfo_pos
  have hblock : 0 < s.blockInfoSize := s.layout.blockInfo_pos
  have hne : ∀ q ∈ s.iMemPoolBufferList, q ≠ newbuffer := by
    intro q hq heq
    have hsum := (h.buffer q hq).cut.sum_eq
    have hapart := hfresh q hq
    omega
  have hnew : ((s.withBuffer newbuffer size).buffers newbuffer).iBufferSize = size :=
    congrArg MemPoolBufferInfo.iBufferSize (if_pos rfl)
  refine ⟨List.nodup_cons.mpr ⟨fun hmem => hne _ hmem rfl, h.nodup⟩, fun p hp q hq hpq => ?_, fun q hq => ?_,
    fun q hq => ?_, ?_, h.made⟩
  · rcases List.mem_cons.mp hp with rfl | hp <;> rcases List.mem_cons.mp hq with rfl | hq
    · exact absurd rfl hpq
    · rw [Separate, hnew, buffers_withBuffer_of_ne (hne q hq)]
      exact hfresh q hq
    · rw [Separate, hnew, buffers_withBuffer_of_ne (hne p hp)]
      exact (hfresh p hp).symm
    · rw [Separate, buffers_withBuffer_of_ne (hne p hp), buffers_withBuffer_of_ne (hne q hq)]
      exact h.separate p hp q hq hpq
  · rcases List.mem_cons.mp hq with rfl | hq'
    · rw [Function.update_self, Function.update_self]
      exact bufferOk_withBuffer s hlarge hsize
    · rw [Function.update_of_ne (hne q hq'), Function.update_of_ne (hne q hq')]
      have hapart := hfresh q hq'
      refine (h.buffer q hq').congr rfl hq (buffers_withBuffer_of_ne (hne q hq')) fun p hp hp' => ?_
      exact blocks_withBuffer_of_ne (by omega)
  · rcases List.mem_cons.mp hq with rfl | hq'
    · rw [Function.update_self]
      exact congrArg MemPoolBufferInfo.iNumOutstanding (if_pos rfl)
    · rw [Function.update_of_ne (hne q hq'), buffers_withBuffer_of_ne (hne q hq')]
      exact h.outstanding q hq'
  · refine h.live_perm.trans (List.Perm.of_eq ?_)
    change _ = List.flatMap _ (newbuffer :: s.iMemPoolBufferList)
    rw [List.flatMap_cons, Function.update_self, List.map_nil, List.nil_append, pointers]
    refine List.flatMap_congr fun q hq => ?_
    rw [Function.update_of_ne (hne q hq)]
    rfl

end Ftke.ResizableMemPool
