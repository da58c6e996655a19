import Ftke.VariableSizeMemPool
import Mathlib.Data.List.Perm.Basic
import Mathlib.Data.List.Forall2

/-!
# Ftke.VariableSizeMemPool.Runs

Whole runs of the pool: free and used chunks tile it.

`Ok` is the condition on a call: it leaves out a request whose alignment wraps, a vector
that has to grow and cannot, and the tails of used chunks.  `Packed` is kept by what happens
to a chunk (`getFreeMemChunk_spec`, `reclaim_used`, `reclaim_empty`), so `inv_handle` is
an assembly of its rules.
-/

namespace Ftke.VariableSizeMemPool

/-! ## Allocation -/

variable {n aver i p : Nat}

theorem le_alignedSize (h : n + 7 < 2 ^ 32) : n ≤ alignedSize n := by
  rw [alignedSize]
  split <;> omega

theorem getFreeMemChunk_spec : ∀ {free : List Chunk} {c : Chunk} {rest : List Chunk},
    getFreeMemChunk n aver free = some (c, rest) → ∃ f others, free.Perm (f :: others) ∧ n ≤ f.len ∧
      ((n < f.len ∧ c = ⟨f.ptr, n⟩ ∧ rest.Perm (⟨f.ptr + n, f.len - n⟩ :: others)) ∨
        (c = f ∧ rest.Perm others))
  | [], _, _, h => by
    rw [getFreeMemChunk] at h
    contradiction
  | d :: free, c, rest, h => by
    rw [getFreeMemChunk] at h
    by_cases hsmall : d.len < n
    · rw [if_pos hsmall] at h
      obtain ⟨r, hr, hcr⟩ := Option.map_eq_some_iff.mp h
      obtain ⟨rfl, rfl⟩ := Prod.mk.inj hcr
      obtain ⟨f, others, hperm, hle, hcases⟩ := getFreeMemChunk_spec hr
      have hswap : (d :: free).Perm (f :: d :: others) := (hperm.cons d).trans (List.Perm.swap f d others)
      refine ⟨f, d :: others, hswap, hle, ?_⟩
      rcases hcases with ⟨hlt, hc, hrest⟩ | ⟨hc, hrest⟩
      · exact .inl ⟨hlt, hc, (hrest.cons d).trans (List.Perm.swap _ d others)⟩
      · exact .inr ⟨hc, hrest.cons d⟩
    · rw [if_neg hsmall] at h
      refine ⟨d, free, List.Perm.refl _, Nat.not_lt.mp hsmall, ?_⟩
      by_cases hcut : d.len - n > aver
      · rw [if_pos hcut] at h
        obtain ⟨rfl, rfl⟩ := Prod.mk.inj (Option.some.inj h)
        exact .inl ⟨by omega, rfl, List.Perm.refl _⟩
      · rw [if_neg hcut] at h
        obtain ⟨rfl, rfl⟩ := Prod.mk.inj (Option.some.inj h)
        exact .inr ⟨rfl, List.Perm.refl _⟩

theorem getFreeMemChunk_eq_none : ∀ {free : List Chunk}, (∀ f ∈ free, f.len < n) →
    getFreeMemChunk n aver free = none
  | [], _ => rfl
  | d :: free, h => by
    rw [getFreeMemChunk, if_pos (h d List.mem_cons_self),
      getFreeMemChunk_eq_none fun f hf => h f (List.mem_cons_of_mem _ hf)]
    rfl

theorem apart_cut {a b n : Nat} {f : Chunk} {others used : List Chunk} (h : Packed a b (f :: others ++ used))
    (hapart : (f :: others).Pairwise Chunk.Apart) (hpos : 0 < n) (hn : n < f.len) :
    ((⟨f.ptr + n, f.len - n⟩ : Chunk) :: others).Pairwise Chunk.Apart := by
  obtain ⟨hf, hothers⟩ := List.pairwise_cons.mp hapart
  refine List.pairwise_cons.mpr ⟨fun g hg => ?_, hothers⟩
  have hfg := hf g hg
  have hdis := (List.pairwise_cons.mp h.disjoint).1 g (List.mem_append_left _ hg)
  simp only [Chunk.Apart, Chunk.Disjoint, Chunk.fin] at hfg hdis ⊢
  omega

/-! ## Searching -/

/-- What an index found says: the chunk there is one that is searched; without one there is no
such chunk. -/
def Found (P : Chunk → Prop) (l : List Chunk) : Option Nat → Prop
  | none => ∀ f ∈ l, ¬P f
  | some i => ∃ f, l[i]? = some f ∧ P f

theorem Found.some_append {P : Chunk → Prop} {l m : List Chunk} (h : Found P l (some i)) :
    Found P (l ++ m) (some i) := by
  obtain ⟨f, hf, hP⟩ := h
  have hi : i < l.length := (List.getElem?_eq_some_iff.mp hf).1
  exact ⟨f, by rwa [List.getElem?_append_left hi], hP⟩

theorem Found.step {P : Chunk → Prop} [DecidablePred P] {l : List Chunk} {c : Chunk} {found : Option Nat}
    (h : Found P l found) : Found P (l ++ [c]) (if P c then some l.length else found) := by
  by_cases hP : P c
  · rw [if_pos hP]
    exact ⟨c, by simp, hP⟩
  · rw [if_neg hP]
    cases found with
    | some i => exact h.some_append
    | none =>
      intro f hf
      rcases List.mem_append.mp hf with hf | hf
      · exact h f hf
      · rwa [List.mem_singleton.mp hf]

theorem search_found {c : Chunk} : ∀ (free l : List Chunk) (found : Option Nat × Option Nat),
    Found (fun f => c.ptr = f.fin) l found.1 → Found (fun f => c.fin = f.ptr) l found.2 →
    Found (fun f => c.ptr = f.fin) (l ++ free) (searchSegmentContinuity c l.length free found).1 ∧
      Found (fun f => c.fin = f.ptr) (l ++ free) (searchSegmentContinuity c l.length free found).2
  | [], l, _, hleft, hright => by
    rw [List.append_nil, searchSegmentContinuity]
    exact ⟨hleft, hright⟩
  | d :: free, l, found, hleft, hright => by
    have hleft := hleft.step (c := d)
    have hright := hright.step (c := d)
    have hlen : l.length + 1 = (l ++ [d]).length := by simp
    have happend : l ++ d :: free = (l ++ [d]) ++ free := by simp
    rw [searchSegmentContinuity, happend, hlen]
    generalize (if c.ptr = d.fin then some l.length else found.1) = i at hleft ⊢
    generalize (if c.fin = d.ptr then some l.length else found.2) = j at hright ⊢
    by_cases hboth : (i.isSome && j.isSome) = true
    · rw [if_pos hboth]
      rw [Bool.and_eq_true, Option.isSome_iff_exists, Option.isSome_iff_exists] at hboth
      obtain ⟨⟨i, rfl⟩, j, rfl⟩ := hboth
      exact ⟨hleft.some_append, hright.some_append⟩
    · rw [if_neg hboth]
      exact search_found free (l ++ [d]) _ hleft hright

theorem reclaim_eq (c : Chunk) (room : Bool) (free : List Chunk) :
    reclaim c room free = doMerge c room free (searchSegmentContinuity c 0 free (none, none)) := by
  cases free with
  | nil => cases room <;> rfl
  | cons d free => rfl

theorem modify_perm {l : List Chunk} {f : Chunk} (h : l[i]? = some f) (g : Chunk → Chunk) :
    l.Perm (f :: l.eraseIdx i) ∧ (l.modify i g).Perm (g f :: l.eraseIdx i) := by
  obtain ⟨hi, hf⟩ := List.getElem?_eq_some_iff.mp h
  constructor
  · have hperm := List.getElem_cons_eraseIdx_perm hi
    rw [hf] at hperm
    exact hperm.symm
  · have hset : l.modify i g = l.set i (g f) := by
      rw [List.modify_eq_set_getElem?, h]
      rfl
    rw [hset]
    exact List.set_perm_cons_eraseIdx hi (g f)

theorem modify_eraseIdx_perm {l : List Chunk} {i j : Nat} {f h : Chunk} (hf : l[i]? = some f)
    (hh : l[j]? = some h) (hij : i ≠ j) (g : Chunk → Chunk) : ∃ others,
      l.Perm (f :: h :: others) ∧ ((l.modify i g).eraseIdx j).Perm (g f :: others) := by
  obtain ⟨hperm, hmodify⟩ := modify_perm hf g
  have hmem : h ∈ l.eraseIdx i := List.mem_eraseIdx_iff_getElem?.mpr ⟨j, fun heq => hij heq.symm, hh⟩
  have hothers := List.perm_cons_erase hmem
  have hj : (l.modify i g)[j]? = some h := by rw [List.getElem?_modify_ne g l hij, hh]
  have herase := (modify_perm hj id).1
  refine ⟨(l.eraseIdx i).erase h, hperm.trans (hothers.cons f), ?_⟩
  have hboth : (h :: (l.modify i g).eraseIdx j).Perm (h :: g f :: (l.eraseIdx i).erase h) :=
    herase.symm.trans (hmodify.trans ((hothers.cons (g f)).trans (List.Perm.swap h (g f) _)))
  exact hboth.cons_inv

/-! ## Reclaiming -/

theorem add32_of_lt {a b : Nat} (h : a + b < 2 ^ 32) : add32 a b = a + b := Nat.mod_eq_of_lt h

theorem len_lt {a b : Nat} {l : List Chunk} {c : Chunk} (h : Packed a b l) (hb : b < a + 2 ^ 32) (hc : c ∈ l) :
    c.len < 2 ^ 32 := by
  have hin := h.within c hc
  simp only [Chunk.fin] at hin
  omega

section reclaim

variable {a b : Nat} {c : Chunk} {free used : List Chunk} {room : Bool}

theorem pairwise_append_singleton (hapart : free.Pairwise Chunk.Apart) (h : ∀ f ∈ free, Chunk.Apart f c) :
    (free ++ [c]).Pairwise Chunk.Apart :=
  List.pairwise_append.mpr ⟨hapart, List.pairwise_singleton _ _, fun f hf d hd => by
    rw [List.mem_singleton.mp hd]
    exact h f hf⟩

theorem reclaim_left (h : Packed a b (c :: free ++ used)) (hb : b < a + 2 ^ 32) (hapart : free.Pairwise Chunk.Apart)
    (hused : ∀ d ∈ used, 0 < d.len) {i : Nat} {f : Chunk} (hi : free[i]? = some f) (hleft : c.ptr = f.fin)
    (hright : ∀ g ∈ free, c.fin ≠ g.ptr) :
    Packed a b ((free.modify i fun d => { d with len := add32 d.len c.len }) ++ used) ∧
      (free.modify i fun d => { d with len := add32 d.len c.len }).Pairwise Chunk.Apart := by
  obtain ⟨hperm, hmodify⟩ := modify_perm hi fun d => { d with len := add32 d.len c.len }
  obtain ⟨hf, hothers⟩ := List.pairwise_cons.mp ((hperm.pairwise_iff fun hcd => hcd.symm).mp hapart)
  have hswap : (c :: free ++ used).Perm (f :: c :: (free.eraseIdx i ++ used)) :=
    (((hperm.append_right used).cons c).trans (List.Perm.swap f c _))
  have hjoin := (h.perm hswap).join hleft.symm fun d hd hlen heq => by
    rcases List.mem_append.mp hd with hd | hd
    · exact (hf d hd).1 heq.symm
    · have hpos := hused d hd
      omega
  have hlen : add32 f.len c.len = f.len + c.len := add32_of_lt (len_lt hjoin hb List.mem_cons_self)
  simp only [hlen] at hmodify ⊢
  constructor
  · exact hjoin.perm (hmodify.append_right used).symm
  · refine (hmodify.pairwise_iff fun hcd => hcd.symm).mpr (List.pairwise_cons.mpr ⟨fun g hg => ?_, hothers⟩)
    have hfg := hf g hg
    have hcg := hright g (hperm.mem_iff.mpr (List.mem_cons_of_mem _ hg))
    simp only [Chunk.Apart, Chunk.fin] at hfg hcg hleft ⊢
    omega

theorem reclaim_right (h : Packed a b (c :: free ++ used)) (hb : b < a + 2 ^ 32) (hapart : free.Pairwise Chunk.Apart)
    (hused : ∀ d ∈ used, 0 < d.len) {i : Nat} {f : Chunk} (hi : free[i]? = some f) (hright : c.fin = f.ptr)
    (hleft : ∀ g ∈ free, c.ptr ≠ g.fin) :
    Packed a b ((free.modify i fun d => ⟨c.ptr, add32 d.len c.len⟩) ++ used) ∧
      (free.modify i fun d => ⟨c.ptr, add32 d.len c.len⟩).Pairwise Chunk.Apart := by
  obtain ⟨hperm, hmodify⟩ := modify_perm hi fun d => ⟨c.ptr, add32 d.len c.len⟩
  obtain ⟨hf, hothers⟩ := List.pairwise_cons.mp ((hperm.pairwise_iff fun hcd => hcd.symm).mp hapart)
  have hcons : (c :: free ++ used).Perm (c :: f :: (free.eraseIdx i ++ used)) := (hperm.append_right used).cons c
  have hjoin := (h.perm hcons).join hright fun d hd hlen heq => by
    rcases List.mem_append.mp hd with hd | hd
    · have hfd := (hf d hd).2
      simp only [Chunk.fin] at hfd heq hright
      omega
    · have hpos := hused d hd
      omega
  have hlen : add32 f.len c.len = c.len + f.len := by
    have hlt := len_lt hjoin hb List.mem_cons_self
    simp only at hlt
    rw [add32_of_lt (by omega), Nat.add_comm]
  simp only [hlen] at hmodify
  constructor
  · exact hjoin.perm (hmodify.append_right used).symm
  · refine (hmodify.pairwise_iff fun hcd => hcd.symm).mpr (List.pairwise_cons.mpr ⟨fun g hg => ?_, hothers⟩)
    have hfg := hf g hg
    have hcg := hleft g (hperm.mem_iff.mpr (List.mem_cons_of_mem _ hg))
    simp only [Chunk.Apart, Chunk.fin] at hfg hcg hright ⊢
    omega

theorem reclaim_both (h : Packed a b (c :: free ++ used)) (hb : b < a + 2 ^ 32) (hapart : free.Pairwise Chunk.Apart)
    (hused : ∀ d ∈ used, 0 < d.len) (hc : 0 < c.len) {i j : Nat} {f g : Chunk} (hi : free[i]? = some f)
    (hj : free[j]? = some g) (hleft : c.ptr = f.fin) (hright : c.fin = g.ptr) :
    Packed a b (((free.modify i fun d => { d with len := add32 d.len (add32 c.len g.len) }).eraseIdx j) ++ used) ∧
      ((free.modify i fun d => { d with len := add32 d.len (add32 c.len g.len) }).eraseIdx j).Pairwise
        Chunk.Apart := by
  have hij : i ≠ j := fun heq => by
    rw [heq, hj] at hi
    rw [← Option.some.inj hi] at hleft
    simp only [Chunk.fin] at hleft hright
    omega
  obtain ⟨others, hperm, herase⟩ := modify_eraseIdx_perm hi hj hij fun d =>
    { d with len := add32 d.len (add32 c.len g.len) }
  obtain ⟨hf, hrest⟩ := List.pairwise_cons.mp ((hperm.pairwise_iff fun hcd => hcd.symm).mp hapart)
  obtain ⟨hg, hothers⟩ := List.pairwise_cons.mp hrest
  have hswap : (c :: free ++ used).Perm (f :: c :: (g :: others ++ used)) :=
    (((hperm.append_right used).cons c).trans (List.Perm.swap f c _))
  have hjoin := (h.perm hswap).join hleft.symm fun d hd hlen heq => by
    rcases List.mem_append.mp hd with hd | hd
    · exact (hf d hd).1 heq.symm
    · have hpos := hused d hd
      omega
  have hmiddle : (⟨f.ptr, f.len + c.len⟩ : Chunk).fin = g.ptr := by
    simp only [Chunk.fin] at hleft hright ⊢
    omega
  have hjoin := hjoin.join hmiddle fun d hd hlen heq => by
    rcases List.mem_append.mp hd with hd | hd
    · have hgd := (hg d hd).2
      simp only [Chunk.fin] at hgd heq hmiddle
      omega
    · have hpos := hused d hd
      omega
  have hlen : add32 f.len (add32 c.len g.len) = f.len + c.len + g.len := by
    have hlt := len_lt hjoin hb List.mem_cons_self
    simp only at hlt
    rw [add32_of_lt (show c.len + g.len < 2 ^ 32 from by omega), add32_of_lt (by omega), Nat.add_assoc]
  simp only [hlen] at herase
  constructor
  · exact hjoin.perm (herase.append_right used).symm
  · refine (herase.pairwise_iff fun hcd => hcd.symm).mpr (List.pairwise_cons.mpr ⟨fun d hd => ?_, hothers⟩)
    have hfd := hf d (List.mem_cons_of_mem _ hd)
    have hgd := hg d hd
    simp only [Chunk.Apart, Chunk.fin] at hfd hgd hmiddle ⊢
    omega

/-- A chunk has a free one before or behind it. -/
def HasNeighbour (c : Chunk) (free : List Chunk) : Prop := ∃ f ∈ free, c.ptr = f.fin ∨ c.fin = f.ptr

/-- **A chunk is reclaimed**: what was packed with it among the used ones is packed with
it among the free ones. -/
theorem reclaim_used (h : Packed a b (c :: free ++ used)) (hb : b < a + 2 ^ 32)
    (hapart : free.Pairwise Chunk.Apart) (hused : ∀ d ∈ used, 0 < d.len) (hc : 0 < c.len)
    (hroom : room = true ∨ HasNeighbour c free) :
    (reclaim c room free).1 = true ∧ Packed a b ((reclaim c room free).2 ++ used) ∧
      (reclaim c room free).2.Pairwise Chunk.Apart := by
  obtain ⟨hleft, hright⟩ := search_found (c := c) free [] (none, none)
    (fun f hf => absurd hf List.not_mem_nil) (fun f hf => absurd hf List.not_mem_nil)
  rw [List.nil_append, List.length_nil] at hleft hright
  rw [reclaim_eq]
  generalize searchSegmentContinuity c 0 free (none, none) = r at hleft hright
  rcases r with ⟨_ | i, _ | j⟩
  · have hroom : room = true := by
      refine hroom.resolve_right fun hneighbour => ?_
      obtain ⟨f, hf, hor⟩ := hneighbour
      exact hor.elim (hleft f hf) (hright f hf)
    rw [doMerge, if_pos hroom]
    refine ⟨rfl, h.perm ?_, pairwise_append_singleton hapart fun f hf => ⟨?_, ?_⟩⟩
    · rw [List.append_assoc, List.cons_append]
      exact List.perm_middle.symm
    · exact fun heq => hleft f hf heq.symm
    · exact hright f hf
  · obtain ⟨f, hf, hright⟩ := hright
    exact ⟨rfl, reclaim_right h hb hapart hused hf hright hleft⟩
  · obtain ⟨f, hf, hleft⟩ := hleft
    exact ⟨rfl, reclaim_left h hb hapart hused hf hleft hright⟩
  · obtain ⟨f, hf, hleft⟩ := hleft
    obtain ⟨g, hg, hright⟩ := hright
    have hget : free.getD j ⟨0, 0⟩ = g := by rw [List.getD_eq_getElem?_getD, hg, Option.getD_some]
    rw [doMerge, hget]
    exact ⟨rfl, reclaim_both h hb hapart hused hc hf hg hleft hright⟩

theorem reclaim_empty (h : Packed a b (free ++ used)) (hb : b < a + 2 ^ 32)
    (hapart : free.Pairwise Chunk.Apart) {u : Chunk} (hu : u ∈ used) (hpos : 0 < u.len) :
    Packed a b ((reclaim ⟨u.fin, 0⟩ room free).2 ++ used) ∧
      (reclaim ⟨u.fin, 0⟩ room free).2.Pairwise Chunk.Apart := by
  obtain ⟨hleft, hright⟩ := search_found (c := ⟨u.fin, 0⟩) free [] (none, none)
    (fun f hf => absurd hf List.not_mem_nil) (fun f hf => absurd hf List.not_mem_nil)
  rw [List.nil_append, List.length_nil] at hleft hright
  rw [reclaim_eq]
  have hmerged (f : Chunk) (hf : f ∈ free) (hleft : u.fin = f.fin) : f.len = 0 ∧ f.ptr = u.fin := by
    have hdis := (List.pairwise_append.mp h.disjoint).2.2 f hf u hu
    simp only [Chunk.Disjoint, Chunk.fin] at hdis hleft ⊢
    omega
  generalize searchSegmentContinuity ⟨u.fin, 0⟩ 0 free (none, none) = r at hleft hright
  rcases r with ⟨_ | i, _ | j⟩
  · rw [doMerge]
    split
    · refine ⟨?_, pairwise_append_singleton hapart fun f hf => ⟨?_, ?_⟩⟩
      · have hadd := h.add_empty (List.mem_append_right free hu)
        rw [List.append_assoc, List.cons_append]
        exact hadd.perm List.perm_middle.symm
      · exact fun heq => hleft f hf heq.symm
      · exact hright f hf
    · exact ⟨h, hapart⟩
  · obtain ⟨f, hf, hright⟩ := hright
    obtain ⟨hperm, hmodify⟩ := modify_perm hf fun d => (⟨u.fin, add32 d.len 0⟩ : Chunk)
    have hfu : u.fin = f.ptr := hright
    have hlt := len_lt h hb (List.mem_append_left used (List.mem_of_getElem? hf))
    have hsame : (⟨u.fin, add32 f.len 0⟩ : Chunk) = f := by
      rw [add32_of_lt (by omega), hfu, Nat.add_zero]
    rw [hsame] at hmodify
    have hback := hperm.trans hmodify.symm
    rw [doMerge]
    exact ⟨h.perm (hback.append_right used), (hback.pairwise_iff fun hcd => hcd.symm).mp hapart⟩
  · obtain ⟨f, hf, hleft⟩ := hleft
    have hmem := List.mem_of_getElem? hf
    exact absurd (hmerged f hmem hleft).2.symm (hright f hmem)
  · obtain ⟨f, hf, hleft⟩ := hleft
    obtain ⟨g, hg, hright⟩ := hright
    obtain ⟨hlen, hptr⟩ := hmerged f (List.mem_of_getElem? hf) hleft
    have hgu : u.fin = g.ptr := hright
    have hij : i = j := by
      by_contra hne
      obtain ⟨others, hperm, -⟩ := modify_eraseIdx_perm hf hg hne id
      have hfg := (List.pairwise_cons.mp ((hperm.pairwise_iff fun hcd => hcd.symm).mp hapart)).1 g List.mem_cons_self
      exact hfg.1 (hleft.symm.trans hgu)
    obtain ⟨hperm, hmodify⟩ := modify_perm hf fun d =>
      { d with len := add32 d.len (add32 0 (free.getD j ⟨0, 0⟩).len) }
    have hget := List.getElem?_modify_eq (fun d : Chunk =>
      { d with len := add32 d.len (add32 0 (free.getD j ⟨0, 0⟩).len) }) i free
    rw [hf, Option.map_eq_map, Option.map_some] at hget
    have herase := ((modify_perm hget id).1.symm.trans hmodify).cons_inv
    have hdrop := (h.perm (hperm.append_right used)).drop_empty hlen
    have hothers := (List.pairwise_cons.mp ((hperm.pairwise_iff fun hcd => hcd.symm).mp hapart)).2
    rw [doMerge, ← hij]
    rw [← hij] at herase
    exact ⟨hdrop.perm (herase.append_right used).symm, (herase.pairwise_iff fun hcd => hcd.symm).mpr hothers⟩

end reclaim

/-! ## The invariant -/

/-- A used chunk and the request that it has been given for. -/
def Serves (c : Chunk) (request : Nat × Nat) : Prop := c.ptr = request.1 ∧ request.2 ≤ c.len ∧ 0 < c.len

structure Inv (s : Session) : Prop where
  packed : Packed s.pool.iMemPool (s.pool.iMemPool + s.pool.iMaxPoolSize)
    (s.pool.iFreeMemChunkList ++ s.pool.iUsedMemChunkList)
  apart : s.pool.iFreeMemChunkList.Pairwise Chunk.Apart
  some_chunk : s.pool.iFreeMemChunkList ++ s.pool.iUsedMemChunkList ≠ []
  size : s.pool.iMaxPoolSize < 2 ^ 32
  serves : List.Forall₂ Serves s.pool.iUsedMemChunkList s.live

theorem alignedSize_lt (h : n < 2 ^ 32) : alignedSize n < 2 ^ 32 := by
  rw [alignedSize]
  split
  · exact Nat.mod_lt _ (by decide)
  · exact h

theorem inv_new (iMemPool : Nat) (maxPoolSize : UInt32) : Inv (newSession iMemPool maxPoolSize) where
  packed := Packed.single _ _
  apart := List.pairwise_singleton _ _
  some_chunk := List.cons_ne_nil _ _
  size := alignedSize_lt maxPoolSize.toNat_lt
  serves := .nil

variable {s : Session}

theorem serves_pos : ∀ {used : List Chunk} {live : List (Nat × Nat)}, List.Forall₂ Serves used live →
    ∀ c ∈ used, 0 < c.len
  | _, _, .nil, c, hc => absurd hc List.not_mem_nil
  | d :: used, request :: live, .cons hd hrest, c, hc => by
    rcases List.mem_cons.mp hc with rfl | hc
    · exact hd.2.2
    · exact serves_pos hrest c hc

/-! ## Calls -/

/-- A call that leads to no defect. -/
def Ok (s : Session) : Event → Prop
  | .allocate n _ room => s.pool.iFreeMemChunkList = [] ∨ (n.toNat + 7 < 2 ^ 32 ∧
      (room = true ∨ ∀ f ∈ s.pool.iFreeMemChunkList, f.len < alignedSize n.toNat))
  | .deallocate p room => room = true ∨ ∃ c ∈ s.pool.iUsedMemChunkList, c.ptr = p ∧
      HasNeighbour c s.pool.iFreeMemChunkList
  | .reclaimUnusedPortion aPtr aBytesToFree room => aBytesToFree = 0 ∨
      (room = false ∧ ¬HasNeighbour ⟨aPtr, aBytesToFree.toNat⟩ s.pool.iFreeMemChunkList)

instance (c : Chunk) (free : List Chunk) : Decidable (HasNeighbour c free) := by
  unfold HasNeighbour
  infer_instance

instance (s : Session) : ∀ event, Decidable (Ok s event)
  | .allocate _ _ _ | .deallocate _ _ | .reclaimUnusedPortion _ _ _ => by
    unfold Ok
    infer_instance

theorem inv_allocate (h : Inv s) {n : UInt32} {room : Bool} (hn : 0 < n)
    (hok : Ok s (.allocate n aver room)) : Inv (handle s (.allocate n aver room)) := by
  have hnothing (hnone : allocate n aver room s.pool = (none, s.pool)) :
      Inv (handle s (.allocate n aver room)) := by
    rw [handle, hnone]
    simpa using h
  by_cases hsane : (!allocateSanityCheck (alignedSize n.toNat) s.pool) = true
  · exact hnothing (by rw [allocate, if_pos hsane])
  · have hsome : s.pool.iFreeMemChunkList ≠ [] := fun hnil => by
      rw [allocateSanityCheck, hnil] at hsane
      simp at hsane
    obtain ⟨hwrap, hroom⟩ := hok.resolve_left hsome
    have hpos : 0 < n.toNat := UInt32.lt_iff_toNat_lt.mp hn
    have hle := le_alignedSize hwrap
    cases hget : getFreeMemChunk (alignedSize n.toNat) aver s.pool.iFreeMemChunkList with
    | none => exact hnothing (by rw [allocate, if_neg hsane, hget])
    | some r =>
      have hroom : room = true := hroom.resolve_right fun hsmall => by
        rw [getFreeMemChunk_eq_none hsmall] at hget
        contradiction
      obtain ⟨c, rest⟩ := r
      obtain ⟨f, others, hperm, hfit, hcases⟩ := getFreeMemChunk_spec hget
      have hpacked := h.packed.perm (hperm.append_right _)
      have hapart := (hperm.pairwise_iff fun hcd => hcd.symm).mp h.apart
      have hhandle : handle s (.allocate n aver room) = ⟨{ s.pool with
          iFreeMemChunkList := rest
          iUsedMemChunkList := s.pool.iUsedMemChunkList ++ [c] }, s.live ++ [(c.ptr, n.toNat)]⟩ := by
        rw [handle, allocate, if_neg hsane, hget, hroom]
        rfl
      have hback : (c :: (rest ++ s.pool.iUsedMemChunkList)).Perm
          (rest ++ (s.pool.iUsedMemChunkList ++ [c])) := by
        rw [← List.append_assoc]
        exact (List.perm_append_singleton c _).symm
      rw [hhandle]
      rcases hcases with ⟨hlt, hc, hrest⟩ | ⟨hc, hrest⟩
      · have hcut := hpacked.cut hfit
        rw [← hc] at hcut
        refine ⟨hcut.perm (((hrest.symm.append_right _).cons c).trans hback), ?_, by simp, h.size, ?_⟩
        · exact (hrest.pairwise_iff fun hcd => hcd.symm).mpr (apart_cut hpacked hapart (by omega) hlt)
        · refine List.rel_append h.serves (.cons ⟨rfl, ?_, ?_⟩ .nil)
          · rw [hc]
            exact hle
          · rw [hc]
            simp only
            omega
      · rw [← hc] at hpacked hapart hfit
        refine ⟨hpacked.perm (((hrest.symm.append_right _).cons c).trans hback), ?_, by simp, h.size, ?_⟩
        · exact (hrest.pairwise_iff fun hcd => hcd.symm).mpr (List.pairwise_cons.mp hapart).2
        · exact List.rel_append h.serves (.cons ⟨rfl, by simp only; omega, by omega⟩ .nil)

theorem serves_eraseP : ∀ {used : List Chunk} {live : List (Nat × Nat)}, List.Forall₂ Serves used live →
    (∃ request ∈ live, request.1 = p) → ∃ c, used.find? (fun c => c.ptr = p) = some c ∧ 0 < c.len ∧ c.ptr = p ∧
      used.Perm (c :: used.eraseP fun c => c.ptr = p) ∧
      List.Forall₂ Serves (used.eraseP fun c => c.ptr = p) (live.eraseP fun request => request.1 = p)
  | _, _, .nil, hp => by
    obtain ⟨request, hmem, -⟩ := hp
    exact absurd hmem List.not_mem_nil
  | c :: used, request :: live, .cons hc hrest, hp => by
    have hiff : c.ptr = p ↔ request.1 = p := by rw [hc.1]
    by_cases hhead : c.ptr = p
    · have hrequest := hiff.mp hhead
      refine ⟨c, by simp [hhead], hc.2.2, hhead, ?_, ?_⟩
      · rw [List.eraseP_cons_of_pos (by simpa using hhead)]
      · rw [List.eraseP_cons_of_pos (by simpa using hhead), List.eraseP_cons_of_pos (by simpa using hrequest)]
        exact hrest
    · have hrequest := mt hiff.mpr hhead
      obtain ⟨other, hmem, hother⟩ := hp
      have htail : ∃ request ∈ live, request.1 = p := by
        rcases List.mem_cons.mp hmem with heq | hmem
        · rw [heq] at hother
          exact absurd hother hrequest
        · exact ⟨other, hmem, hother⟩
      obtain ⟨d, hfind, hpos, hptr, hperm, hserves⟩ := serves_eraseP hrest htail
      refine ⟨d, by simpa [hhead] using hfind, hpos, hptr, ?_, ?_⟩
      · rw [List.eraseP_cons_of_neg (by simpa using hhead)]
        exact (hperm.cons c).trans (List.Perm.swap d c _)
      · rw [List.eraseP_cons_of_neg (by simpa using hhead), List.eraseP_cons_of_neg (by simpa using hrequest)]
        exact .cons hc hserves

theorem inv_deallocate (h : Inv s) {room : Bool} (hp : ∃ request ∈ s.live, request.1 = p)
    (hok : Ok s (.deallocate p room)) : Inv (handle s (.deallocate p room)) := by
  obtain ⟨c, hfind, hpos, hptr, hperm, hserves⟩ := serves_eraseP h.serves hp
  have hmem := List.mem_of_find?_eq_some hfind
  have hin := h.packed.within c (List.mem_append_right _ hmem)
  simp only [Chunk.fin] at hin
  have hnonempty : s.pool.iUsedMemChunkList ≠ [] := List.ne_nil_of_mem hmem
  have hsane : deallocateSanityCheck p s.pool = true := by
    simp only [deallocateSanityCheck, Bool.and_eq_true, decide_eq_true_eq, Bool.not_eq_true', List.isEmpty_eq_false_iff]
    exact ⟨⟨by omega, by omega⟩, hnonempty⟩
  have hroom : room = true ∨ HasNeighbour c s.pool.iFreeMemChunkList := by
    refine hok.imp_right fun hchunk => ?_
    obtain ⟨d, hd, hdp, hneighbour⟩ := hchunk
    have hdc : d = c := by
      by_contra hne
      have hdis := (List.pairwise_append.mp h.packed.disjoint).2.1.forall hd hmem hne
      have hdpos := serves_pos h.serves d hd
      simp only [Chunk.Disjoint, Chunk.fin] at hdis
      omega
    rwa [← hdc]
  have hcons : (s.pool.iFreeMemChunkList ++ s.pool.iUsedMemChunkList).Perm (c :: s.pool.iFreeMemChunkList ++
      s.pool.iUsedMemChunkList.eraseP fun c => c.ptr = p) := (hperm.append_left _).trans List.perm_middle
  obtain ⟨hdone, hpacked, hapart⟩ := reclaim_used (h.packed.perm hcons) (by have hsize := h.size; omega) h.apart
    (serves_pos hserves) hpos hroom
  have hhandle : handle s (.deallocate p room) = ⟨{ s.pool with
      iFreeMemChunkList := (reclaim c room s.pool.iFreeMemChunkList).2
      iUsedMemChunkList := s.pool.iUsedMemChunkList.eraseP fun c => c.ptr = p },
      s.live.eraseP fun request => request.1 = p⟩ := by
    rw [handle, deallocate, hsane, hfind]
    rfl
  rw [hhandle]
  refine ⟨hpacked, hapart, fun hnil => ?_, h.size, hserves⟩
  have htotal := hpacked.total
  simp only at hnil
  rw [hnil] at htotal
  simp only [List.map_nil, List.sum_nil] at htotal
  omega

theorem inv_reclaimUnusedPortion (h : Inv s) {aPtr : Nat} {aBytesToFree : UInt32} {room : Bool}
    (hvalid : Valid s (.reclaimUnusedPortion aPtr aBytesToFree room))
    (hok : Ok s (.reclaimUnusedPortion aPtr aBytesToFree room)) :
    Inv (handle s (.reclaimUnusedPortion aPtr aBytesToFree room)) := by
  obtain ⟨request, -, u, hu, -, hle, hfin⟩ := hvalid
  rw [handle, reclaimUnusedPortion]
  by_cases hsane : (!deallocateSanityCheck aPtr s.pool) = true
  · rw [if_pos hsane]
    exact h
  · rw [if_neg hsane]
    have hused : s.pool.iUsedMemChunkList ≠ [] := List.ne_nil_of_mem hu
    rcases hok with hzero | ⟨hroom, hneighbour⟩
    · rw [hzero] at hfin ⊢
      have haPtr : aPtr = u.fin := hfin
      obtain ⟨hpacked, hapart⟩ := reclaim_empty h.packed (by have hsize := h.size; omega) h.apart hu
        (serves_pos h.serves u hu)
      rw [haPtr]
      exact ⟨hpacked, hapart, by simp [hused], h.size, h.serves⟩
    · obtain ⟨hleft, hright⟩ := search_found (c := ⟨aPtr, aBytesToFree.toNat⟩) s.pool.iFreeMemChunkList []
        (none, none) (fun f hf => absurd hf List.not_mem_nil) (fun f hf => absurd hf List.not_mem_nil)
      rw [List.nil_append, List.length_nil] at hleft hright
      have hsame : (reclaim ⟨aPtr, aBytesToFree.toNat⟩ room s.pool.iFreeMemChunkList).2 =
          s.pool.iFreeMemChunkList := by
        rw [reclaim_eq, hroom]
        generalize searchSegmentContinuity _ 0 s.pool.iFreeMemChunkList (none, none) = r at hleft hright
        rcases r with ⟨_ | i, _ | j⟩
        · rfl
        · obtain ⟨f, hf, hright⟩ := hright
          exact absurd ⟨f, List.mem_of_getElem? hf, .inr hright⟩ hneighbour
        · obtain ⟨f, hf, hleft⟩ := hleft
          exact absurd ⟨f, List.mem_of_getElem? hf, .inl hleft⟩ hneighbour
        · obtain ⟨f, hf, hleft⟩ := hleft
          exact absurd ⟨f, List.mem_of_getElem? hf, .inl hleft⟩ hneighbour
      simp only [hsame]
      exact h

/-- **One call keeps the invariant.** -/
theorem inv_handle (h : Inv s) {event : Event} (hvalid : Valid s event) (hok : Ok s event) :
    Inv (handle s event) := by
  cases event with
  | allocate n aver room => exact inv_allocate h hvalid hok
  | deallocate p room => exact inv_deallocate h hvalid hok
  | reclaimUnusedPortion aPtr aBytesToFree room => exact inv_reclaimUnusedPortion h hvalid hok

/-! ## The pool is tiled -/

/-- The chunks tile the pool, the free ones are apart, each request has as many bytes as asked for,
the two sizes add up, and without a request there is one free chunk. -/
structure Good (s : Session) : Prop where
  disjoint : (s.pool.iFreeMemChunkList ++ s.pool.iUsedMemChunkList).Pairwise Chunk.Disjoint
  tiles : ∃ chunks, chunks.Perm (s.pool.iFreeMemChunkList ++ s.pool.iUsedMemChunkList) ∧
    Tiles s.pool.iMemPool chunks (s.pool.iMemPool + s.pool.iMaxPoolSize)
  apart : s.pool.iFreeMemChunkList.Pairwise Chunk.Apart
  served : List.Forall₂ Serves s.pool.iUsedMemChunkList s.live
  total : getTotalAvailableSize s.pool + getCurrMemoryUsage s.pool = s.pool.iMaxPoolSize
  whole : s.live = [] → s.pool.iUsedMemChunkList = [] ∧
    s.pool.iFreeMemChunkList = [⟨s.pool.iMemPool, s.pool.iMaxPoolSize⟩]

theorem foldl_add32 : ∀ {l : List Nat} {n : Nat}, n + l.sum < 2 ^ 32 → l.foldl add32 n = n + l.sum
  | [], n, _ => rfl
  | x :: l, n, h => by
    rw [List.sum_cons] at h ⊢
    rw [List.foldl_cons, add32_of_lt (by omega), foldl_add32 (by omega), Nat.add_assoc]

theorem good_of_inv (h : Inv s) : Good s where
  disjoint := h.packed.disjoint
  tiles := h.packed.tiles
  apart := h.apart
  served := h.serves
  total := by
    have htotal := h.packed.total
    have hsize := h.size
    rw [List.map_append, List.sum_append] at htotal
    rw [getTotalAvailableSize, getCurrMemoryUsage, foldl_add32 (by omega), foldl_add32 (by omega)]
    omega
  whole hnil := by
    have hserves := h.serves
    rw [hnil] at hserves
    have hused := List.forall₂_nil_right_iff.mp hserves
    have hpacked := h.packed
    have hsome := h.some_chunk
    rw [hused, List.append_nil] at hpacked hsome
    have hsingle := hpacked.eq_single h.apart hsome
    rw [Nat.add_sub_cancel_left] at hsingle
    exact ⟨hused, hsingle⟩

/-- **Free and used chunks tile the pool** in every run whose calls lead to no defect,
whatever the average that decides about the cuts. -/
theorem tiled_of_run {iMemPool : Nat} {maxPoolSize : UInt32} {events : List Event} {s : Session}
    (hrun : Run (guarded (fun s event => Valid s event ∧ Ok s event) (stepOf step))
      (newSession iMemPool maxPoolSize) events s) : Good s :=
  good_of_inv (hrun.invariant (inv_new iMemPool maxPoolSize) fun a event b ha hstep => by
    have hb : handle a event = b := Option.some.inj hstep.2
    rw [← hb]
    exact inv_handle ha hstep.1.1 hstep.1.2)

/-- Two chunks are cut off and given back, with an empty tail between. -/
def giveBack : List Event :=
  [.allocate 20 0 true, .allocate 10 0 true, .deallocate 8 true, .reclaimUnusedPortion 48 0 true,
    .deallocate 32 false]

theorem tiled_of_run_giveBack : ∃ s, Run (guarded (fun s event => Valid s event ∧ Ok s event) (stepOf step))
    (newSession 8 64) giveBack s ∧ Good s := by
  have hsome : (giveBack.foldlM (fun s event => if Valid s event ∧ Ok s event then step s event else none)
      (newSession 8 64)).isSome := by decide
  obtain ⟨s, hs⟩ := Option.isSome_iff_exists.mp hsome
  have hrun := Run.of_foldlM_guarded hs
  exact ⟨s, hrun, tiled_of_run hrun⟩

/-- The tail of a used chunk is reclaimed, and is in both lists. -/
def tail : List Event := [.allocate 24 0 true, .reclaimUnusedPortion 24 8 true]

theorem tail_overlaps : ¬∀ (iMemPool : Nat) (maxPoolSize : UInt32) (events : List Event) (s : Session),
    Run (guarded Valid (stepOf step)) (newSession iMemPool maxPoolSize) events s → Good s := by
  intro h
  have htotal : (tail.foldlM (fun s event => if Valid s event then step s event else none)
      (newSession 8 64)).map (fun s => (getTotalAvailableSize s.pool + getCurrMemoryUsage s.pool,
        s.pool.iMaxPoolSize)) = some (72, 64) := by decide
  obtain ⟨s, hs, hsizes⟩ := Option.map_eq_some_iff.mp htotal
  obtain ⟨husage, hpool⟩ := Prod.mk.inj hsizes
  have hgood := (h 8 64 tail s (Run.of_foldlM_guarded hs)).total
  rw [husage, hpool] at hgood
  exact absurd hgood (by decide)

end Ftke.VariableSizeMemPool
