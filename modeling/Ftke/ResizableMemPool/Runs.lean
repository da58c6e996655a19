import Ftke.ResizableMemPool.Buffers

/-!
# Ftke.ResizableMemPool.Runs

Whole runs of the pool: any sequence of calls of `allocate`, `deallocate` and `trim`.

The sizes are added in `uint32`, and a sum that wraps is taken for a small one: a block that is too small is used, or
`trim` leaves after the block was taken out of the list.  `Serves` leaves these requests out.

* `Inv.allocate` — a request that is served gives a block, or leaves the buffers as they are;
* `tiled_of_served` — **the blocks fill their buffers** in every state of a run.
-/

namespace Ftke.ResizableMemPool

open VariableSizeMemPool (add32 alignedSize)

/-! ## Requests -/

/-- The memory for a new buffer is not that of another one. -/
def Fresh (s : Pool) (aNumBytes : UInt32) (newbuffer : Option Nat) : Prop :=
  ∀ b room, newbuffer = some b → s.makeRoom (alignedSize aNumBytes.toNat) = some room →
    ∀ q ∈ room.iMemPoolBufferList, q + (s.buffers q).iBufferSize ≤ b ∨
      b + s.newBufferSize (alignedSize aNumBytes.toNat) ≤ q

/-- **The sizes do not wrap**: that of the block that is looked for when one is found, that of a new buffer when one
is made. -/
def Serves (s : Pool) (aNumBytes : UInt32) (newbuffer : Option Nat) : Prop :=
  let alignednumbytes := alignedSize aNumBytes.toNat
  let needed := add32 alignednumbytes s.blockInfoSize
  0 < alignednumbytes → 0 < needed →
    (s.findfreeblock needed ≠ some none → alignednumbytes + s.blockInfoSize < 2 ^ 32) ∧
      (s.findfreeblock needed = some none → s.makeRoom alignednumbytes ≠ none → newbuffer ≠ none →
        s.bufferInfoSize + s.blockInfoSize + alignednumbytes ≤ s.newBufferSize alignednumbytes)

/-- A buffer is as it was. -/
structure Unchanged (s t : Pool) (b : Nat) : Prop where
  mem : b ∈ s.iMemPoolBufferList
  buffer : t.buffers b = s.buffers b
  blocks : ∀ p, b ≤ p → p < b + (s.buffers b).iBufferSize → t.blocks p = s.blocks p

/-- A buffer is as `addnewmempoolbuffer` makes it. -/
def AsMade (t : Pool) (b : Nat) : Prop :=
  (t.buffers b).iAllocatedSz = 0 ∧ (t.buffers b).iNumOutstanding = 0 ∧
    Linked t b [(t.buffers b).iStartAddr] ∧ t.behind (t.buffers b).iStartAddr = (t.buffers b).iEndAddr + 1

/-- A pointer to so many bytes of a buffer that no other pointer is to. -/
structure Usable (t : Pool) (live : List Nat) (aNumBytes p : Nat) : Prop where
  inside : ∃ b ∈ t.iMemPoolBufferList, (t.buffers b).iStartAddr ≤ p - t.blockInfoSize ∧
    t.behind (p - t.blockInfoSize) ≤ (t.buffers b).iEndAddr + 1
  large : aNumBytes + t.blockInfoSize ≤ t.sizeAt (p - t.blockInfoSize)
  disjoint : ∀ q ∈ live, t.behind (p - t.blockInfoSize) ≤ q - t.blockInfoSize ∨
    t.behind (q - t.blockInfoSize) ≤ p - t.blockInfoSize

/-- What is expected of `allocate`. -/
def Expected (s t : Pool) (live : List Nat) (aNumBytes : Nat) (newbuffer : Option Nat) : Pool.Allocated → Prop
  | .pointer p => Usable t live aNumBytes p
  | _ => ∀ b ∈ t.iMemPoolBufferList, Unchanged s t b ∨ newbuffer = some b ∧ AsMade t b

/-- The pointers that are out after a call of `allocate`. -/
def Pool.Allocated.live (live : List Nat) : Pool.Allocated → List Nat
  | .pointer p => p :: live
  | _ => live

variable {s t : Pool} {live : List Nat} {frees useds : Nat → List Chunk} {b : Nat} {c : Chunk}

theorem unchanged_self : ∀ b ∈ s.iMemPoolBufferList, Unchanged s s b :=
  fun _ hb => ⟨hb, rfl, fun _ _ _ => rfl⟩

theorem Inv.usable {free' : List Chunk} {len n : Nat} (hb : b ∈ t.iMemPoolBufferList)
    (h : Inv t ((c.ptr + t.blockInfoSize) :: live) (Function.update frees b free')
      (Function.update useds b (⟨c.ptr, len⟩ :: useds b)))
    (hlive : live.Perm (pointers t useds)) (hlen : n + t.blockInfoSize ≤ len) :
    Usable t live n (c.ptr + t.blockInfoSize) := by
  have hbuffer := h.buffer b hb
  rw [Function.update_self, Function.update_self] at hbuffer
  have hc := hbuffer.headed ⟨c.ptr, len⟩ List.mem_cons_self
  have hin := hbuffer.cut.packed.within ⟨c.ptr, len⟩ (List.mem_append_right free' List.mem_cons_self)
  have hbehind : t.behind c.ptr = c.ptr + len := hc.behind_eq
  refine ⟨⟨b, hb, ?_, ?_⟩, ?_, fun q hq => ?_⟩
  · rw [Nat.add_sub_cancel, hbuffer.placed.start_eq]
    exact hin.1
  · rw [Nat.add_sub_cancel, hbehind, hbuffer.placed.end_eq]
    exact hin.2
  · rw [Nat.add_sub_cancel]
    exact hlen.trans_eq hc.size_eq.symm
  · obtain ⟨e, he, hmem⟩ := List.mem_flatMap.mp (hlive.mem_iff.mp hq)
    obtain ⟨d, hd, rfl⟩ := List.mem_map.mp hmem
    rw [Nat.add_sub_cancel, Nat.add_sub_cancel, hbehind]
    by_cases heb : e = b
    · rw [heb] at hd
      have hdisjoint := hbuffer.cut.disjoint_used d (List.mem_append_right free' hd)
      rw [(hbuffer.headed d (List.mem_cons_of_mem _ hd)).behind_eq]
      exact hdisjoint.symm
    · have hother := h.buffer e he
      rw [Function.update_of_ne heb, Function.update_of_ne heb] at hother
      have hdin := hother.cut.within (List.mem_append_right (frees e) hd)
      have hcin := hbuffer.cut.within (List.mem_append_right free'
        (@List.mem_cons_self _ (⟨c.ptr, len⟩ : Chunk) (useds b)))
      have hseparate := h.separate b hb e he heb
      rw [(hother.headed d hd).behind_eq]
      simp only [Chunk.fin, Separate] at hdin hcin hseparate ⊢
      omega

/-! ## A call of `allocate` -/

variable {n A newbuffer : Nat}

theorem le_alignedSize (hn : n < 2 ^ 32) (h : 0 < alignedSize n) : n ≤ alignedSize n ∧ 2 ≤ alignedSize n := by
  rw [alignedSize] at *
  split at h <;> simp_all <;> omega

/-- **A free block is used.** -/
theorem Inv.use (h : Inv s live frees useds) (hb : b ∈ s.iMemPoolBufferList) (hc : c ∈ frees b)
    (hn : n < 2 ^ 32)
    (hpos : 0 < alignedSize n) (hfit : alignedSize n + s.blockInfoSize ≤ c.len) :
    ∃ t p, s.useBlock c.ptr (alignedSize n) = some (.pointer p, t) ∧ Usable t live n p ∧
      ∃ frees' useds', Inv t (p :: live) frees' useds' := by
  obtain ⟨hle, htwo⟩ := le_alignedSize hn hpos
  obtain ⟨t, free', len, ht, hlen, hlocal, hinv⟩ := h.useBlock hb hc htwo hfit
  have hlayout : t.layout = s.layout := congrArg Config.layout hlocal.config
  have hinfo : t.blockInfoSize = s.blockInfoSize := by rw [Pool.blockInfoSize, hlayout, Pool.blockInfoSize]
  refine ⟨t, _, ht, ?_, _, _, hinv⟩
  have hlive := h.live_perm
  rw [← hinfo] at hinv hlen ⊢
  refine Inv.usable (hlocal.list ▸ hb) hinv ?_ (Nat.le_trans (Nat.add_le_add_right hle _) hlen)
  rw [pointers, hlocal.list, hinfo]
  exact hlive

variable {room : Pool}

theorem unchanged_makeRoom (h : s.makeRoom A = some room) :
    ∀ b ∈ room.iMemPoolBufferList, Unchanged s room b := by
  rcases makeRoom_eq h with rfl | rfl
  · exact unchanged_self
  · exact fun b hb => ⟨List.mem_of_mem_eraseP hb, rfl, fun _ _ _ => rfl⟩

theorem config_makeRoom (h : s.makeRoom A = some room) :
    room.toConfig = s.toConfig ∧ room.buffers = s.buffers ∧ room.bufferInfoSize = s.bufferInfoSize ∧
      room.blockInfoSize = s.blockInfoSize := by
  rcases makeRoom_eq h with rfl | rfl <;> exact ⟨rfl, rfl, rfl, rfl⟩

theorem asMade_withBuffer (s : Pool) {newbuffer size : Nat} (hlarge : s.bufferInfoSize + s.blockInfoSize ≤ size)
    (hsize : size < 2 ^ 32) : AsMade (s.withBuffer newbuffer size) newbuffer := by
  have hok := @bufferOk_withBuffer s newbuffer size hlarge hsize
  have hstart : ((s.withBuffer newbuffer size).buffers newbuffer).iStartAddr = newbuffer + s.bufferInfoSize :=
    congrArg MemPoolBufferInfo.iStartAddr (if_pos rfl)
  have hhead := hok.cut.headed _ List.mem_cons_self
  refine ⟨hok.cut.allocated, congrArg MemPoolBufferInfo.iNumOutstanding (if_pos rfl), ?_, ?_⟩
  · rw [hstart]
    exact hok.cut.linked
  · have hsum := hok.cut.packed.total
    rw [List.append_nil, List.map_cons, List.map_nil, List.sum_cons, List.sum_nil, Nat.add_zero] at hsum
    rw [hstart, hhead.behind_eq, hok.placed.end_eq]
    exact hsum

theorem newBufferSize_lt (s : Pool) (A : Nat) : s.newBufferSize A < 2 ^ 32 := by
  rw [Pool.newBufferSize]
  split <;> exact Nat.mod_lt _ (by decide)

theorem Inv.newBufferSize_le (h : Inv s live frees useds) {n : UInt32} {b : Nat}
    (hserves : Serves s n (some b)) (hwrap : add32 (alignedSize n.toNat) s.blockInfoSize ≠ 0)
    (hnone : s.findfreeblock (add32 (alignedSize n.toNat) s.blockInfoSize) = some none)
    (hroom : s.makeRoom (alignedSize n.toNat) = some room) :
    s.bufferInfoSize + s.blockInfoSize + alignedSize n.toNat ≤ s.newBufferSize (alignedSize n.toNat) := by
  by_cases hpos : 0 < alignedSize n.toNat
  · exact (hserves hpos (Nat.pos_of_ne_zero hwrap)).2 hnone (by simp [hroom]) (by simp)
  · have hmade := h.made
    rw [show alignedSize n.toNat = 0 by omega, Pool.newBufferSize, if_neg (Nat.not_lt_zero _)]
    exact hmade

/-- **The block of a new buffer is used.** -/
theorem Inv.useNew (h : Inv s live frees useds) {n : UInt32}
    (hfresh : Fresh s n (some newbuffer)) (hroom : s.makeRoom (alignedSize n.toNat) = some room)
    (hlarge : s.bufferInfoSize + s.blockInfoSize + alignedSize n.toNat ≤ s.newBufferSize (alignedSize n.toNat)) :
    ∃ r t, (room.withBuffer newbuffer (s.newBufferSize (alignedSize n.toNat))).useBlock
      (newbuffer + room.bufferInfoSize)
        (alignedSize n.toNat) = some (r, t) ∧ Expected s t live n.toNat (some newbuffer) r ∧
      ∃ frees' useds', Inv t (r.live live) frees' useds' := by
  have hsize := newBufferSize_lt s (alignedSize n.toNat)
  obtain ⟨-, hbuffers, hbufferInfo, hblockInfo⟩ := config_makeRoom hroom
  rw [← hbufferInfo, ← hblockInfo] at hlarge
  have hheaders := Nat.le_trans (Nat.le_add_right _ _) hlarge
  have hnew := (h.makeRoom hroom).withBuffer hheaders hsize fun q hq => by
    rw [hbuffers]
    exact hfresh newbuffer room rfl hroom q hq
  by_cases hpos : 0 < alignedSize n.toNat
  · have hfit : alignedSize n.toNat + room.blockInfoSize ≤
        s.newBufferSize (alignedSize n.toNat) - room.bufferInfoSize := by omega
    obtain ⟨t, p, ht, husable, hinv⟩ := hnew.use
      (c := ⟨newbuffer + room.bufferInfoSize, s.newBufferSize (alignedSize n.toNat) - room.bufferInfoSize⟩)
      List.mem_cons_self (by
        rw [Function.update_self]
        exact List.mem_singleton_self _) n.toNat_lt hpos hfit
    exact ⟨.pointer p, t, ht, husable, hinv⟩
  · have halign : alignedSize n.toNat = 0 := by omega
    refine ⟨.leave, _, by simp [Pool.useBlock, Pool.allocateblock, halign], fun b hb => ?_, _, _, hnew⟩
    rcases List.mem_cons.mp hb with rfl | hb
    · exact .inr ⟨rfl, asMade_withBuffer room hheaders hsize⟩
    · have hold := unchanged_makeRoom hroom b hb
      have hapart := hfresh newbuffer room rfl hroom b hb
      have hsum := (h.buffer b hold.mem).cut.sum_eq
      have hbufferPos : 0 < s.bufferInfoSize := s.layout.bufferInfo_pos
      have hblockPos : 0 < s.blockInfoSize := s.layout.blockInfo_pos
      refine .inl ⟨hold.mem, ?_, fun p hp hp' => ?_⟩
      · rw [buffers_withBuffer_of_ne (by omega)]
        exact hold.buffer
      · rw [blocks_withBuffer_of_ne (by omega)]
        exact hold.blocks p hp hp'

/-- **A request that is served** gives a block that can be used, or leaves the buffers as they are. -/
theorem Inv.allocate (h : Inv s live frees useds) {n : UInt32} {newbuffer : Option Nat}
    (hfresh : Fresh s n newbuffer)
    (hserves : Serves s n newbuffer) :
    ∃ r t, s.allocate n newbuffer = some (r, t) ∧ Expected s t live n.toNat newbuffer r ∧
      ∃ frees' useds', Inv t (r.live live) frees' useds' := by
  have hn : n.toNat < 2 ^ 32 := n.toNat_lt
  have hinfo : 0 < s.blockInfoSize ∧ s.blockInfoSize < 4096 := ⟨s.layout.blockInfo_pos, s.layout.blockInfo_lt⟩
  by_cases hzero : n = 0
  · exact ⟨.leave, s, if_pos hzero, fun b hb => .inl (unchanged_self b hb), frees, useds, h⟩
  by_cases hwrap : add32 (alignedSize n.toNat) s.blockInfoSize = 0
  · refine ⟨.leave, s, ?_, fun b hb => .inl (unchanged_self b hb), frees, useds, h⟩
    simp only [Pool.allocate, if_neg hzero, if_pos hwrap]
  rcases h.findfreeblock (add32 (alignedSize n.toNat) s.blockInfoSize) with hnone | ⟨b, hb, c, hc, hsome, hle⟩
  · cases hroom : s.makeRoom (alignedSize n.toNat) with
    | none =>
      refine ⟨_, s, by simp only [Pool.allocate, if_neg hzero, if_neg hwrap, hnone, hroom]; rfl, ?_, frees,
        useds, ?_⟩
      · split <;> exact fun b hb => .inl (unchanged_self b hb)
      · split <;> exact h
    | some room =>
      have hunchanged := unchanged_makeRoom hroom
      cases newbuffer with
      | none =>
        refine ⟨.leave, room, ?_, fun b hb => .inl (hunchanged b hb), frees, useds, h.makeRoom hroom⟩
        simp only [Pool.allocate, if_neg hzero, if_neg hwrap, hnone, hroom]
      | some newbuffer =>
        have hlarge := h.newBufferSize_le hserves hwrap hnone hroom
        obtain ⟨r, t, ht, hexpected, hinv⟩ := h.useNew hfresh hroom hlarge
        obtain ⟨-, -, hbufferInfo, hblockInfo⟩ := config_makeRoom hroom
        rw [← hbufferInfo, ← hblockInfo] at hlarge
        have hadded : room.addnewmempoolbuffer newbuffer (s.newBufferSize (alignedSize n.toNat)) =
            some (room.withBuffer newbuffer (s.newBufferSize (alignedSize n.toNat))) :=
          if_neg (Nat.not_lt.mpr (Nat.le_trans (Nat.le_add_right _ _) hlarge))
        refine ⟨r, t, ?_, hexpected, hinv⟩
        simp only [Pool.allocate, if_neg hzero, if_neg hwrap, hnone, hroom, hadded]
        exact ht
  · by_cases hpos : 0 < alignedSize n.toNat
    · have hsize := (hserves hpos (Nat.pos_of_ne_zero hwrap)).1 (by rw [hsome]; simp)
      have hneeded : add32 (alignedSize n.toNat) s.blockInfoSize = alignedSize n.toNat + s.blockInfoSize :=
        Nat.mod_eq_of_lt hsize
      obtain ⟨t, p, ht, husable, hinv⟩ := h.use hb hc hn hpos (hneeded ▸ hle)
      refine ⟨.pointer p, t, ?_, husable, hinv⟩
      simp only [Pool.allocate, if_neg hzero, if_neg hwrap, hsome, ht]
    · have halign : alignedSize n.toNat = 0 := by omega
      refine ⟨.leave, s, ?_, fun b hb => .inl (unchanged_self b hb), frees, useds, h⟩
      simp only [Pool.allocate, if_neg hzero, if_neg hwrap, hsome]
      simp [Pool.useBlock, Pool.allocateblock, halign]

/-! ## Runs -/

/-- A pool and the pointers that are out. -/
structure Session where
  pool : Pool
  live : List Nat

/-- The calls. -/
inductive Call
  | allocate (aNumBytes : UInt32) (newbuffer : Option Nat)
  | deallocate (aPtr : Nat)
  | trim (aPtr : Nat) (aBytesToFree : UInt32)

/-- A call, whether it leaves or not. -/
def step (x : Session) : Call → Option Session
  | .allocate aNumBytes newbuffer => (x.pool.allocate aNumBytes newbuffer).map fun r => ⟨r.2, r.1.live x.live⟩
  | .deallocate aPtr => (x.pool.deallocate aPtr).map fun r => ⟨r.2, if r.1 then x.live.erase aPtr else x.live⟩
  | .trim aPtr aBytesToFree => (x.pool.trim aPtr aBytesToFree.toNat).map fun r => ⟨r.2, x.live⟩

/-- What the callers, and the allocator of buffers, are trusted with. -/
def Valid (x : Session) : Call → Prop
  | .allocate aNumBytes newbuffer => Fresh x.pool aNumBytes newbuffer
  | .deallocate aPtr => aPtr ∈ x.live
  | .trim aPtr _ => aPtr ∈ x.live

/-- The calls that are served. -/
def Served (x : Session) : Call → Prop
  | .allocate aNumBytes newbuffer => Serves x.pool aNumBytes newbuffer
  | _ => True

/-- The invariant of a session. -/
def SessionOk (x : Session) : Prop := ∃ frees useds, Inv x.pool x.live frees useds

/-- **A call that is valid and served** comes to an end and keeps the invariant. -/
theorem step_ok {x : Session} (h : SessionOk x) {call : Call} (hvalid : Valid x call) (hserved : Served x call) :
    ∃ y, step x call = some y ∧ SessionOk y := by
  obtain ⟨frees, useds, hinv⟩ := h
  cases call with
  | allocate aNumBytes newbuffer =>
    obtain ⟨r, t, ht, -, hinv'⟩ := hinv.allocate hvalid hserved
    exact ⟨⟨t, r.live x.live⟩, by rw [step, ht]; rfl, hinv'⟩
  | deallocate aPtr =>
    obtain ⟨t, ht, hinv'⟩ := hinv.deallocate hvalid
    exact ⟨⟨t, x.live.erase aPtr⟩, by rw [step, ht]; rfl, hinv'⟩
  | trim aPtr aBytesToFree =>
    obtain ⟨r, t, ht, hinv'⟩ := hinv.trim hvalid aBytesToFree.toNat
    exact ⟨⟨t, x.live⟩, by rw [step, ht]; rfl, hinv'⟩

theorem construct_ok {config : Config} {s : Pool} (h : construct config newbuffer = some s) :
    SessionOk ⟨s, []⟩ := by
  simp only [construct, Pool.addnewmempoolbuffer] at h
  split at h
  · contradiction
  · next hsize =>
      have hmade := Nat.not_lt.mp hsize
      rw [← Option.some.inj h]
      have hempty : Inv (⟨config, [], fun _ => ⟨0, 0, 0, 0, none, 0⟩,
        fun _ => ⟨0, none, none, 0, 0, 0, 0⟩⟩ : Pool) []
          (fun _ => []) (fun _ => []) := ⟨List.nodup_nil, by simp, by simp, by simp, List.Perm.refl _, hmade⟩
      exact ⟨_, _, hempty.withBuffer hmade (Nat.mod_lt _ (by decide)) (by simp)⟩

/-- The states that calls lead to. -/
def Reachable (config : Config) (newbuffer : Nat) (x : Session) : Prop :=
  ∃ s calls, construct config newbuffer = some s ∧ Run (guarded Valid (stepOf step)) ⟨s, []⟩ calls x

/-- The states that calls lead to, if all of them are served. -/
def Reached (config : Config) (newbuffer : Nat) (x : Session) : Prop :=
  ∃ s calls, construct config newbuffer = some s ∧
    Run (guarded (fun x call => Valid x call ∧ Served x call) (stepOf step)) ⟨s, []⟩ calls x

theorem Reached.ok {config : Config} {x : Session} (h : Reached config newbuffer x) : SessionOk x := by
  obtain ⟨s, calls, hs, hrun⟩ := h
  refine hrun.invariant (construct_ok hs) fun y call z hy hstep => ?_
  obtain ⟨⟨hvalid, hserved⟩, hyz⟩ := hstep
  obtain ⟨z', hz', hok⟩ := step_ok hy hvalid hserved
  have hz : z = z' := Option.some.inj (hyz.symm.trans hz')
  exact hz ▸ hok

/-! ## The blocks of a buffer -/

/-- **Free and allocated blocks fill a buffer.** -/
structure BlocksOf (s : Pool) (b : Nat) (free allocated : List Chunk) : Prop where
  tiles : ∃ blocks, blocks.Perm (free ++ allocated) ∧
    Tiles (s.buffers b).iStartAddr blocks ((s.buffers b).iEndAddr + 1)
  headers : ∀ c ∈ free ++ allocated, s.sizeAt c.ptr = c.len ∧ s.parentAt c.ptr = b
  list : Linked s b (free.map Chunk.ptr)
  sorted : (free.map Chunk.ptr).Pairwise (· < ·)
  apart : free.Pairwise Chunk.Apart
  allocatedSz : (s.buffers b).iAllocatedSz = (allocated.map Chunk.len).sum
  outstanding : (s.buffers b).iNumOutstanding = allocated.length

/-- The blocks fill the buffers; those that are allocated are those that pointers are out to. -/
def Tiled (x : Session) : Prop :=
  ∃ free allocated : Nat → List Chunk, (∀ b ∈ x.pool.iMemPoolBufferList, BlocksOf x.pool b (free b) (allocated b)) ∧
    x.live.Perm (pointers x.pool allocated)

theorem BufferOk.blocksOf {s : Pool} {b : Nat} {free used : List Chunk} (h : BufferOk s b free used)
    (hcount : (s.buffers b).iNumOutstanding = used.length) : BlocksOf s b free used where
  tiles := by
    rw [h.placed.start_eq, h.placed.end_eq]
    exact h.cut.packed.tiles
  headers c hc := by
    have hhead : Headed s b c := by
      rcases List.mem_append.mp hc with hc | hc
      · exact h.cut.headed c hc
      · exact h.headed c hc
    exact ⟨hhead.size_eq, hhead.parent_eq⟩
  list := h.cut.linked
  sorted := by
    refine List.pairwise_map.mpr (h.spaced.imp fun {c d} hcd => ?_)
    simp only [Chunk.fin] at hcd
    omega
  apart := h.spaced.imp fun {c d} hcd => by
    simp only [Chunk.Apart, Chunk.fin] at hcd ⊢
    omega
  allocatedSz := h.cut.allocated
  outstanding := hcount

theorem SessionOk.tiled {x : Session} (h : SessionOk x) : Tiled x := by
  obtain ⟨frees, useds, hinv⟩ := h
  exact ⟨frees, useds, fun b hb => (hinv.buffer b hb).blocksOf (hinv.outstanding b hb), hinv.live_perm⟩

/-- **The blocks fill the buffers** in every state that served calls lead to, and no call fails to come to an end. -/
theorem tiled_of_served {config : Config} {newbuffer : Nat} {x : Session} (h : Reached config newbuffer x) :
    Tiled x ∧ ∀ call, Valid x call → Served x call → ∃ y, step x call = some y ∧ Tiled y := by
  refine ⟨h.ok.tiled, fun call hvalid hserved => ?_⟩
  obtain ⟨y, hy, hok⟩ := step_ok h.ok hvalid hserved
  exact ⟨y, hy, hok.tiled⟩

/-! ## A request near the largest number -/

/-- A pool of one buffer for a hundred bytes. -/
def tight : Config where
  layout := ⟨32, 32, by decide, by decide, by decide, by decide, by decide⟩
  iMemPoolBufferSize := 100
  iMemPoolBufferNumLimit := 1
  iExpectedNumBlocksPerBuffer := 0
  iMaxNewMemPoolBufferSz := 0
  iEnableNullPtrReturn := true

/-- A pool with a block in use. -/
theorem tiled_of_one : ∃ s y, construct tight 4096 = some s ∧ step ⟨s, []⟩ (.allocate 16 none) = some y ∧
    y.live = [4160] ∧ Tiled y := by
  have hused : ((construct tight 4096).bind fun s => (step ⟨s, []⟩ (.allocate 16 none)).map fun y =>
      (y.live, s.blockInfoSize, s.findfreeblock 48)) = some ([4160], 32, some (some 4128)) := by decide
  obtain ⟨s, hs, hstep⟩ := Option.bind_eq_some_iff.mp hused
  obtain ⟨y, hy, heq⟩ := Option.map_eq_some_iff.mp hstep
  obtain ⟨hlive, hinfo, hfind⟩ : y.live = [4160] ∧ s.blockInfoSize = 32 ∧ s.findfreeblock 48 = some (some 4128) := by
    simpa using heq
  have hvalid : Valid ⟨s, []⟩ (.allocate 16 none) := fun b room hb => absurd hb (by simp)
  have haligned : alignedSize 16 = 16 := by decide
  have hneeded : add32 16 32 = 48 := by decide
  have hserved : Served ⟨s, []⟩ (.allocate 16 none) := by
    simp [Served, Serves, haligned, hinfo, hneeded, hfind]
  have hreached : Reached tight 4096 y :=
    ⟨s, [.allocate 16 none], hs, Run.snoc (l := []) (Run.nil _) ⟨⟨hvalid, hserved⟩, hy⟩⟩
  exact ⟨s, y, hs, hy, hlive, (tiled_of_served hreached).1⟩

/-- The only block of the pool is neither free nor allocated. -/
theorem block_lost : ¬∀ (config : Config) (newbuffer : Nat) (x : Session),
    Reachable config newbuffer x → Tiled x := by
  intro hall
  have hlost : ((construct tight 4096).bind fun s => (step ⟨s, []⟩ (.allocate 0xFFFFFFF0 none)).map fun y =>
      (y.live, y.pool.iMemPoolBufferList, (y.pool.buffers 4096).iAllocatedSz)) = some ([], [4096], 424) := by decide
  obtain ⟨s, hs, hstep⟩ := Option.bind_eq_some_iff.mp hlost
  obtain ⟨y, hy, heq⟩ := Option.map_eq_some_iff.mp hstep
  obtain ⟨hlive, hlist, hallocated⟩ : y.live = [] ∧ y.pool.iMemPoolBufferList = [4096] ∧
      (y.pool.buffers 4096).iAllocatedSz = 424 := by simpa using heq
  have hvalid : Valid ⟨s, []⟩ (.allocate 0xFFFFFFF0 none) := fun b room hb => absurd hb (by simp)
  obtain ⟨free, allocated, hblocks, hperm⟩ :=
    hall tight 4096 y ⟨s, [.allocate 0xFFFFFFF0 none], hs, Run.snoc (l := []) (Run.nil _) ⟨hvalid, hy⟩⟩
  have hof := (hblocks 4096 (by rw [hlist]; exact List.mem_cons_self)).allocatedSz
  have hnone : allocated 4096 = [] := by
    rw [hlive] at hperm
    have hpointers := List.nil_perm.mp hperm
    simpa [pointers, hlist] using hpointers
  rw [hallocated, hnone] at hof
  contradiction

end Ftke.ResizableMemPool
