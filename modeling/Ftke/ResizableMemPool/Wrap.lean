import Ftke.ResizableMemPool.Runs

/-!
# Ftke.ResizableMemPool.Wrap

Requests whose sizes wrap: the block that is used for them is too small, or it is lost.

* `Cut.allocateblock_small` — a block that is too small is taken out of the list all the same;
* `allocate_iff` — **exactly the requests that are served** get what is expected.
-/

namespace Ftke.ResizableMemPool

open VariableSizeMemPool (add32 alignedSize)
open Pool (alignedToFree)

variable {s t : Pool} {b : Nat} {free used l₁ l₂ : List Chunk} {c : Chunk} {live : List Nat}
  {frees useds : Nat → List Chunk}

theorem trim_eq_self (s : Pool) {p n : Nat}
    (h : sub32 (s.sizeAt (p - s.blockInfoSize)) s.blockInfoSize < alignedToFree n ∨
    alignedToFree n < s.blockInfoSize + minBufferSize) : ∃ r, s.trim p n = some (r, s) := by
  simp only [Pool.trim]
  split
  · exact ⟨none, rfl⟩
  · split
    · exact ⟨none, rfl⟩
    · rename_i hfits
      rcases h with hmuch | hfew
      · exact absurd hmuch hfits
      · exact ⟨some false, if_pos hfew⟩

theorem dvd_alignedSize (n : Nat) : 8 ∣ alignedSize n := by
  rw [alignedSize]
  split <;> omega

theorem alignedToFree_ge (n : Nat) (h : n < 2 ^ 32) : alignedToFree n = 0 ∨ n ≤ alignedToFree n + 7 := by
  rw [alignedToFree, alignedSize]
  split <;> split <;> omega

/-- **A block that is too small** is taken out of the list all the same. -/
theorem Cut.allocateblock_small (h : Cut s b (l₁ ++ c :: l₂) used) {A : Nat} (hpos : 0 < A) (hA : A < 2 ^ 32)
    (hdvd : 8 ∣ A)
    (hsmall : c.len < A + s.blockInfoSize) :
    ∃ r t, s.allocateblock c.ptr A = some (r, t) ∧ (∀ p, r = some p → p = c.ptr + s.blockInfoSize) ∧
      Cut t b (l₁ ++ l₂) (c :: used) ∧ Headed t b c ∧ Frame s t b ((l₁ ++ c :: l₂).map Chunk.ptr) := by
  obtain ⟨hcut, hc, hframe⟩ := h.take
  have hlarge := h.large c (by simp)
  have hlimit := h.small
  have hsum := h.sum_eq
  have htake := h.allocateblock_take
  generalize (s.unlink c.ptr).setAllocated b (add32 (s.buffers b).iAllocatedSz c.len) = t at hcut hc hframe htake
  have hinfo := hframe.blockInfoSize_eq
  have hbuffer := hc.buffer_eq
  rw [hinfo] at hbuffer
  simp only [List.map_append, List.map_cons, List.sum_append, List.sum_cons] at hsum
  have hblockPos : 0 < s.blockInfoSize := s.layout.blockInfo_pos
  have hextra : sub32 (sub32 c.len s.blockInfoSize) A = c.len - s.blockInfoSize + (2 ^ 32 - A) := by
    rw [sub32, sub32]
    omega
  have hkeep := alignedToFree_ge (c.len - s.blockInfoSize + (2 ^ 32 - A)) (by omega)
  obtain ⟨r, hr⟩ := @trim_eq_self t (c.ptr + s.blockInfoSize) (c.len - s.blockInfoSize + (2 ^ 32 - A)) (by
    rw [hinfo, Nat.add_sub_cancel, hc.size_eq, sub32]
    omega)
  by_cases htrim : c.len - s.blockInfoSize + (2 ^ 32 - A) > s.blockInfoSize + minBufferSize
  · cases r with
    | none =>
      refine ⟨none, t, ?_, by simp, hcut, hc, hframe⟩
      simp only [Pool.allocateblock, if_neg hpos.ne', htake, hc.size_eq, hinfo, hextra, if_pos htrim, hbuffer, hr]
    | some r =>
      refine ⟨some (c.ptr + s.blockInfoSize), t, ?_, by simp, hcut, hc, hframe⟩
      simp only [Pool.allocateblock, if_neg hpos.ne', htake, hc.size_eq, hinfo, hextra, if_pos htrim, hbuffer, hr]
  · refine ⟨some (c.ptr + s.blockInfoSize), t, ?_, by simp, hcut, hc, hframe⟩
    simp only [Pool.allocateblock, if_neg hpos.ne', htake, hc.size_eq, hinfo, hextra, if_neg htrim, hbuffer]

/-- **It is lost, or too small.** -/
theorem Cut.useBlock_small {s₀ : Pool} (h : Cut s b (l₁ ++ c :: l₂) used) (hb : b ∈ s.iMemPoolBufferList) {A n : Nat}
    (hpos : 0 < A) (hA : A < 2 ^ 32) (hdvd : 8 ∣ A) (hsmall : c.len < A + s.blockInfoSize)
    (hn : c.len < n + s.blockInfoSize) {newbuffer : Option Nat} {r : Pool.Allocated}
    (hchanged : b ∈ s₀.iMemPoolBufferList → (s₀.buffers b).iNumOutstanding = (s.buffers b).iNumOutstanding →
      (s₀.buffers b).iAllocatedSz < c.len + (used.map Chunk.len).sum)
    (ht : s.useBlock c.ptr A = some (r, t)) : ¬Expected s₀ t live n newbuffer r := by
  obtain ⟨r', t', ht', hpointer, hcut, hc, hframe⟩ := h.allocateblock_small hpos hA hdvd hsmall
  have hlen := h.pos (show c ∈ l₁ ++ c :: l₂ ++ used by simp)
  have hallocated := hcut.allocated
  rw [List.map_cons, List.sum_cons] at hallocated
  rw [Pool.useBlock, ht'] at ht
  cases r' with
  | none =>
    obtain ⟨rfl, rfl⟩ := Prod.mk.inj (Option.some.inj ht)
    intro hexpected
    rcases hexpected b (hframe.list ▸ hb) with hsame | ⟨-, hmade⟩
    · have hlt := hchanged hsame.mem (by rw [← hsame.buffer, outstanding_of_shell hframe.shell_eq])
      rw [← hsame.buffer] at hlt
      omega
    · have hzero := hmade.1
      omega
  | some p =>
    have hp := hpointer p rfl
    obtain ⟨rfl, rfl⟩ := Prod.mk.inj (Option.some.inj ht)
    intro hexpected
    have hbytes := hexpected.large
    have hinfo : (t'.modifyBuffer (t'.parentAt c.ptr)
        fun buffer => { buffer with iNumOutstanding := add32 buffer.iNumOutstanding 1 }).blockInfoSize =
        s.blockInfoSize := hframe.blockInfoSize_eq
    have hsize := hc.size_eq
    rw [hinfo, hp, Nat.add_sub_cancel] at hbytes
    exact absurd (hbytes.trans_eq hsize) (by omega)

theorem alignedSize_le (n : Nat) : alignedSize n ≤ n + 7 := by
  rw [alignedSize]
  split <;> omega

theorem dvd_newBufferSize (s : Pool) {A : Nat} (hA : 8 ∣ A) : 8 ∣ s.newBufferSize A := by
  have hbuffer : 8 ∣ s.bufferInfoSize := s.layout.bufferInfo_dvd
  have hblock : 8 ∣ s.blockInfoSize := s.layout.blockInfo_dvd
  have hfor : ∀ bytes, 8 ∣ bytes → 8 ∣ s.bufferSizeFor bytes := by
    intro bytes hbytes
    have hblocks : ∀ k : Nat, 8 ∣ k * s.blockInfoSize := fun k => Dvd.dvd.mul_left hblock k
    have hall := hblocks (if s.iExpectedNumBlocksPerBuffer > 0 then s.iExpectedNumBlocksPerBuffer.toNat
      else defaultNumBlockPerBuffer)
    simp only [Pool.bufferSizeFor, add32]
    omega
  rw [Pool.newBufferSize]
  split
  · exact hfor A hA
  · exact hfor _ (dvd_alignedSize _)

/-- What is expected of a request in a state. -/
def Right (x : Session) (aNumBytes : UInt32) (newbuffer : Option Nat) : Prop :=
  ∃ r t, x.pool.allocate aNumBytes newbuffer = some (r, t) ∧
    Expected x.pool t x.live aNumBytes.toNat newbuffer r

theorem Inv.serves_of_expected (h : Inv s live frees useds) {n : UInt32} {newbuffer : Option Nat}
    {r : Pool.Allocated}
    (ht : s.allocate n newbuffer = some (r, t)) (hexpected : Expected s t live n.toNat newbuffer r) :
    Serves s n newbuffer := by
  intro hpos hneeded
  have hn : n.toNat < 2 ^ 32 := n.toNat_lt
  have hzero : n ≠ 0 := by
    rintro rfl
    exact absurd hpos (by decide)
  have hdvd : 8 ∣ alignedSize n.toNat := dvd_alignedSize n.toNat
  have hblock : 8 ∣ s.blockInfoSize := s.layout.blockInfo_dvd
  have hA : alignedSize n.toNat < 2 ^ 32 := by
    rw [alignedSize]
    split <;> omega
  have hle : alignedSize n.toNat ≤ n.toNat + 7 := alignedSize_le n.toNat
  rw [Pool.allocate, if_neg hzero, if_neg hneeded.ne'] at ht
  generalize alignedSize n.toNat = A at *
  constructor
  · intro hfound
    by_contra hwrap
    rcases h.findfreeblock (add32 A s.blockInfoSize) with hnone | ⟨b, hb, c, hc, hsome, -⟩
    · exact hfound hnone
    · have hcut := (h.buffer b hb).cut
      have hin := hcut.within (List.mem_append_left (useds b) hc)
      have hsum := hcut.sum_eq
      have hsmall := hcut.small
      obtain ⟨l₁, l₂, hsplit⟩ := List.append_of_mem hc
      rw [hsplit] at hcut hsum
      simp only [List.map_append, List.map_cons, List.sum_append, List.sum_cons] at hsum
      have hmod : 0 < (A + s.blockInfoSize) % 2 ^ 32 := hneeded
      rw [hsome] at ht
      refine hcut.useBlock_small hb hpos hA hdvd (by omega) (by omega) (fun _ _ => ?_) ht hexpected
      have hallocated := hcut.allocated
      have hlen := hcut.pos (show c ∈ l₁ ++ c :: l₂ ++ useds b by simp)
      omega
  · intro hnone hroom hnew
    by_contra hshort
    obtain ⟨room, hroom⟩ := Option.ne_none_iff_exists'.mp hroom
    obtain ⟨newbuffer, rfl⟩ := Option.ne_none_iff_exists'.mp hnew
    have hsize := newBufferSize_lt s A
    have hsizeDvd := dvd_newBufferSize s hdvd
    have hbuffer : 8 ∣ s.bufferInfoSize := s.layout.bufferInfo_dvd
    obtain ⟨-, -, hbufferInfo, hblockInfo⟩ := config_makeRoom hroom
    simp only [hnone, hroom] at ht
    by_cases hheaders : s.newBufferSize A < room.bufferInfoSize + room.blockInfoSize
    · rw [Pool.addnewmempoolbuffer, if_pos hheaders] at ht
      contradiction
    · rw [Pool.addnewmempoolbuffer, if_neg hheaders] at ht
      have hok := @bufferOk_withBuffer room newbuffer (s.newBufferSize A) (Nat.not_lt.mp hheaders) hsize
      have hinfo : (room.withBuffer newbuffer (s.newBufferSize A)).blockInfoSize = s.blockInfoSize := hblockInfo
      have hcut : Cut (room.withBuffer newbuffer (s.newBufferSize A)) newbuffer
          ([] ++ ⟨newbuffer + room.bufferInfoSize, s.newBufferSize A - room.bufferInfoSize⟩ :: []) [] := hok.cut
      refine hcut.useBlock_small List.mem_cons_self hpos hA hdvd ?_ ?_ (fun hmem hcount => ?_) ht hexpected
      · rw [hinfo]
        simp only
        omega
      · rw [hinfo]
        simp only
        omega
      · have hout := (h.outstanding newbuffer hmem).symm.trans hcount
        have hnone : useds newbuffer = [] :=
          List.length_eq_zero_iff.mp (hout.trans (congrArg MemPoolBufferInfo.iNumOutstanding (if_pos rfl)))
        have hallocated := (h.buffer newbuffer hmem).cut.allocated
        rw [hnone] at hallocated
        have hlen := hok.cut.pos (List.mem_cons_self)
        exact Nat.lt_of_le_of_lt hallocated.le hlen

/-- **Exactly the requests that are served** get what is expected. -/
theorem allocate_iff {config : Config} {newbuffer : Nat} {x : Session} (h : Reached config newbuffer x)
    {aNumBytes : UInt32} {memory : Option Nat} (hfresh : Fresh x.pool aNumBytes memory) :
    Right x aNumBytes memory ↔ Serves x.pool aNumBytes memory := by
  obtain ⟨frees, useds, hinv⟩ := h.ok
  constructor
  · rintro ⟨r, t, ht, hexpected⟩
    exact hinv.serves_of_expected ht hexpected
  · intro hserves
    obtain ⟨r, t, ht, hexpected, -⟩ := hinv.allocate hfresh hserves
    exact ⟨r, t, ht, hexpected⟩

/-- A request that is served. -/
theorem right_of_small : ∃ s, construct tight 4096 = some s ∧ Right ⟨s, []⟩ 16 none := by
  have hfound : ((construct tight 4096).map fun s => (s.blockInfoSize, s.findfreeblock 48)) =
      some (32, some (some 4128)) := by
    decide
  obtain ⟨s, hs, heq⟩ := Option.map_eq_some_iff.mp hfound
  obtain ⟨hinfo, hfind⟩ := Prod.mk.inj heq
  have hreached : Reached tight 4096 ⟨s, []⟩ := ⟨s, [], hs, Run.nil _⟩
  have hfresh : Fresh s 16 none := fun b room hb => absurd hb (by simp)
  have haligned : alignedSize 16 = 16 := by decide
  have hneeded : add32 16 32 = 48 := by decide
  refine ⟨s, hs, (allocate_iff hreached hfresh).mpr ?_⟩
  simp [Serves, haligned, hinfo, hneeded, hfind]

/-- A request near the largest number takes the block and leaves. -/
theorem near_max_not_right : ¬∀ (config : Config) (newbuffer : Nat) (x : Session), Reachable config newbuffer x →
    ∀ (aNumBytes : UInt32) (memory : Option Nat), 0 < aNumBytes → Fresh x.pool aNumBytes memory →
      Right x aNumBytes memory := by
  intro hall
  have hfound : ((construct tight 4096).map fun s => (s.blockInfoSize, s.findfreeblock 16)) =
      some (32, some (some 4128)) := by
    decide
  obtain ⟨s, hs, heq⟩ := Option.map_eq_some_iff.mp hfound
  obtain ⟨hinfo, hfind⟩ := Prod.mk.inj heq
  obtain ⟨r, t, ht, hexpected⟩ := hall tight 4096 ⟨s, []⟩ ⟨s, [], hs, Run.nil _⟩ 0xFFFFFFF0 none (by decide)
    fun b room hb => absurd hb (by simp)
  obtain ⟨frees, useds, hinv⟩ := construct_ok hs
  have hserves := hinv.serves_of_expected ht hexpected
  have haligned : alignedSize (0xFFFFFFF0 : UInt32).toNat = 0xFFFFFFF0 := by decide
  have hneeded : add32 0xFFFFFFF0 32 = 16 := by decide
  simp only [Serves, haligned, hinfo, hneeded, hfind] at hserves
  exact absurd ((hserves (by decide) (by decide)).1 (by simp)) (by decide)

end Ftke.ResizableMemPool
