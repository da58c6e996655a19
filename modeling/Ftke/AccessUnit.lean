import Mathlib.Algebra.Ring.Nat
import Mathlib.Algebra.BigOperators.Group.List.Basic
import Ftke.Words

/-!
# Ftke.AccessUnit

The position in an access unit (`access_unit_impl.cpp`).

The media data of an access unit lies in fragments, and a position in it is the index of
a fragment and an offset into it.  `seek` moves it by a number of bytes, in the terms of
the media data as a whole.  A fragment is left only for a byte behind its end, so that
the first byte of the next one is never reached; the end of the unit leaves the index
behind the last fragment, and going back stops in the fragment it starts from.
`seek_iff` says exactly when the position comes out right.
-/

namespace Ftke

/-- `BufferFragment`: an address and a `uint32` length. -/
structure AccessUnit.BufferFragment where
  ptr : Int
  len : Nat
  len_lt : len < 2 ^ 32

/-- `AccessUnitImplementation`: its fragments, the first of them reserved, and what the
array holds behind them. -/
structure AccessUnit where
  fragments : List AccessUnit.BufferFragment
  num_reserved_fragments : Nat
  reserved_le : num_reserved_fragments ≤ fragments.length
  slot : AccessUnit.BufferFragment

/-- The position, as `seek` is handed it and leaves it. -/
structure AccessUnit.Position where
  idx : Nat
  offset : Int
  ptr : Int
  boundaryReached : Bool
  deriving DecidableEq

namespace AccessUnit

/-- The `int32` of a number. -/
def int32 (x : Int) : Int := x.bmod (2 ^ 32)

theorem int32_eq (x : Int) : int32 x = (x + 2 ^ 31) % 2 ^ 32 - 2 ^ 31 := Words.bmod_word x

/-- `oscl_abs`. -/
def oscl_abs (aVal : Int) : Int := int32 (if aVal < 0 then -aVal else aVal)

/-! ## The code -/

/-- `GetNumMediaFrags`. -/
def getNumMediaFrags (u : AccessUnit) : Nat := u.fragments.length - u.num_reserved_fragments

/-- `GetMediaFragment`: it refuses an index beyond that of the slot behind the fragments. -/
def getMediaFragment (u : AccessUnit) (idx : Nat) : Option BufferFragment :=
  let tmp := idx + u.num_reserved_fragments
  if u.fragments.length < tmp then none else (u.fragments ++ [u.slot])[tmp]?

/-- The loop of the forward seek, with `n` fragments left from `idx` on, and what follows
it at the end of the media data. -/
def seekOn (u : AccessUnit) : Nat → Position → Int → Bool × Position
  | 0, p, _ =>
    match u.getMediaFragment p.idx with
    | none => (false, p)
    | some frag =>
      (true, { p with offset := frag.len, ptr := frag.ptr + frag.len - 1, boundaryReached := true })
  | n + 1, p, remain =>
    match u.getMediaFragment p.idx with
    | none => (false, p)
    | some frag =>
      if remain ≤ int32 frag.len then
        (true, { p with offset := remain, ptr := frag.ptr + remain })
      else u.seekOn n { p with idx := p.idx + 1 } (int32 (remain - frag.len))

/-- The branch of `seek` for `delta_in_bytes > 0`. -/
def seekForward (u : AccessUnit) (p : Position) (first_frag_size delta_in_bytes : Int) : Bool × Position :=
  match u.getMediaFragment p.idx with
  | none => (false, p)
  | some frag =>
    if delta_in_bytes ≤ first_frag_size then
      let offset := int32 (p.offset + delta_in_bytes)
      (true, { p with offset := offset, ptr := frag.ptr + offset })
    else
      u.seekOn (u.getNumMediaFrags - (p.idx + 1)) { p with idx := p.idx + 1 } (delta_in_bytes - first_frag_size)

/-- The branch of `seek` for the other deltas.  Both of its branches return: the loop over
the fragments before that stands behind them is never run. -/
def seekBackward (u : AccessUnit) (p : Position) (delta_in_bytes : Int) : Bool × Position :=
  if oscl_abs delta_in_bytes ≤ p.offset then
    let offset := p.offset + delta_in_bytes
    match u.getMediaFragment p.idx with
    | none => (false, { p with offset := offset })
    | some frag => (true, { p with offset := offset, ptr := frag.ptr + offset })
  else (true, { p with boundaryReached := true })

/-- `seek`, which also says whether it succeeded. -/
def seek (u : AccessUnit) (p : Position) (delta_in_bytes : Int) : Bool × Position :=
  let frag := u.fragments.getD (p.idx + u.num_reserved_fragments) u.slot
  let first_frag_size := int32 (frag.len - p.offset)
  let p := { p with boundaryReached := false }
  if first_frag_size < 0 then (false, p)
  else if 0 < delta_in_bytes then u.seekForward p first_frag_size delta_in_bytes
  else u.seekBackward p delta_in_bytes

/-! ## The media data -/

/-- The fragments behind the reserved ones. -/
def media (u : AccessUnit) : List BufferFragment := u.fragments.drop u.num_reserved_fragments

/-- The bytes of the media data before fragment `k`. -/
def start (u : AccessUnit) (k : Nat) : Nat := ((u.media.take k).map BufferFragment.len).sum

/-- The bytes of the media data. -/
def total (u : AccessUnit) : Nat := (u.media.map BufferFragment.len).sum

/-- The linear position. -/
def linear (u : AccessUnit) (p : Position) : Int := u.start p.idx + p.offset

/-- The address of the first byte of the media data. -/
def firstByte (u : AccessUnit) : Option Int := (u.media.find? (0 < ·.len)).map (·.ptr)

/-- The address of the last byte of the media data. -/
def lastByte (u : AccessUnit) : Option Int :=
  (u.media.reverse.find? (0 < ·.len)).map fun f => f.ptr + f.len - 1

/-- The position names byte `q` of the media data. -/
def Names (u : AccessUnit) (p : Position) (q : Int) : Prop :=
  ∃ f, u.media[p.idx]? = some f ∧ 0 ≤ p.offset ∧ p.offset < f.len ∧ p.ptr = f.ptr + p.offset ∧ u.linear p = q

/-- A position that `seek` may start from: in an existing fragment, up to its end. -/
def Valid (u : AccessUnit) (p : Position) : Prop :=
  ∃ f, u.media[p.idx]? = some f ∧ 0 ≤ p.offset ∧ p.offset ≤ f.len ∧ p.offset < 2 ^ 31 ∧ p.ptr = f.ptr + p.offset

/-- **What `seek` is for**: the byte `delta` further on, or the end of the media data that
lies on the way to it. -/
def Sought (u : AccessUnit) (p : Position) (delta : Int) (r : Bool × Position) : Prop :=
  if 0 ≤ u.linear p + delta ∧ u.linear p + delta < u.total then
    r.1 = true ∧ u.Names r.2 (u.linear p + delta)
  else
    r.1 = true ∧ r.2.boundaryReached = true ∧ r.2.idx < u.media.length ∧
      (if 0 < delta then u.lastByte else u.firstByte) = some r.2.ptr

/-- Byte `q` is reached going forward from `p`: it lies inside a fragment, not at its start,
and its offset, or the length of a fragment gone on to, is that of an `int`. -/
def Inside (u : AccessUnit) (p : Position) (q : Int) : Prop :=
  ∃ k f, u.media[k]? = some f ∧ u.start k < q ∧ q < u.start k + f.len ∧
    if k = p.idx then q - u.start k < 2 ^ 31 else f.len < 2 ^ 31

/-- **When `seek` is right.** -/
def Reachable (u : AccessUnit) (p : Position) (delta : Int) : Prop :=
  ∃ f, u.media[p.idx]? = some f ∧ f.len - p.offset < 2 ^ 31 ∧
    if 0 < delta then u.Inside p (u.linear p + delta)
    else if delta = -2 ^ 31 then False
    else if -delta ≤ p.offset then p.offset + delta < f.len
    else u.linear p + delta < 0 ∧ u.firstByte = some p.ptr

/-! ## Fragments and bytes -/

theorem media_getElem? (u : AccessUnit) (k : Nat) : u.media[k]? = u.fragments[k + u.num_reserved_fragments]? := by
  rw [media, List.getElem?_drop, Nat.add_comm]

theorem getNumMediaFrags_eq (u : AccessUnit) : u.getNumMediaFrags = u.media.length := by
  rw [getNumMediaFrags, media, List.length_drop]

variable {f : BufferFragment} {u : AccessUnit}

theorem getMediaFragment_of_media {k : Nat} (h : u.media[k]? = some f) :
    u.getMediaFragment k = some f := by
  rw [media_getElem?] at h
  have hlt := (List.getElem?_eq_some_iff.mp h).1
  rw [getMediaFragment, if_neg (by omega), List.getElem?_append_left hlt, h]

theorem start_succ {k : Nat} (h : u.media[k]? = some f) :
    u.start (k + 1) = u.start k + f.len := by
  simp only [start, List.take_add_one, h, Option.toList_some, List.map_append, List.sum_append, List.map_cons,
    List.map_nil, List.sum_cons, List.sum_nil, Nat.add_zero]

theorem start_mono (u : AccessUnit) {j k : Nat} (h : j ≤ k) : u.start j ≤ u.start k := by
  induction k, h using Nat.le_induction with
  | base => exact Nat.le_refl _
  | succ k _ ih =>
    cases hk : u.media[k]? with
    | none =>
      have hlen := List.getElem?_eq_none_iff.mp hk
      have hend : u.start (k + 1) = u.start k := by
        rw [start, start, List.take_of_length_le hlen, List.take_of_length_le (by omega)]
      rw [hend]
      exact ih
    | some f => rw [start_succ hk]; omega

theorem start_length (u : AccessUnit) : u.start u.media.length = u.total := by
  rw [start, List.take_length, total]

theorem start_add_le {k : Nat} (h : u.media[k]? = some f) :
    u.start k + f.len ≤ u.total := by
  rw [← start_succ h, ← start_length]
  exact u.start_mono (List.getElem?_eq_some_iff.mp h).1

variable {p : Position}

theorem seek_of_valid (h : u.media[p.idx]? = some f) (delta : Int) :
    u.seek p delta =
      if int32 (f.len - p.offset) < 0 then (false, { p with boundaryReached := false })
      else if 0 < delta then u.seekForward { p with boundaryReached := false } (int32 (f.len - p.offset)) delta
      else u.seekBackward { p with boundaryReached := false } delta := by
  rw [media_getElem?] at h
  have hget : u.fragments.getD (p.idx + u.num_reserved_fragments) u.slot = f := by
    rw [List.getD_eq_getElem?_getD, h, Option.getD_some]
  rw [seek, hget]

/-! ## Going forward -/

theorem seekOn_idx_le (u : AccessUnit) (n : Nat) (p : Position) (remain : Int) :
    p.idx ≤ (u.seekOn n p remain).2.idx := by
  induction n generalizing p remain with
  | zero => simp only [seekOn]; split <;> simp
  | succ n ih =>
    simp only [seekOn]
    split
    · exact Nat.le_refl _
    · split
      · exact Nat.le_refl _
      · exact Nat.le_of_succ_le (ih { p with idx := p.idx + 1 } _)

theorem seekOn_boundary (n : Nat) (remain : Int)
    (hn : n + p.idx = u.media.length) (hp : p.boundaryReached = false)
    (hb : (u.seekOn n p remain).2.boundaryReached = true) : u.media.length ≤ (u.seekOn n p remain).2.idx := by
  induction n generalizing p remain with
  | zero =>
    have := u.seekOn_idx_le 0 p remain
    omega
  | succ n ih =>
    have hmedia : u.media[p.idx]? = some (u.media[p.idx]) := List.getElem?_eq_getElem (by omega)
    simp only [seekOn, getMediaFragment_of_media hmedia] at hb ⊢
    split at hb
    · simp [hp] at hb
    · rename_i hfar
      rw [if_neg hfar]
      exact ih _ (by simp only []; omega) hp hb

theorem Names.start_le {q : Int} (h : u.Names p q) : u.start p.idx ≤ q := by
  obtain ⟨f, -, h0, -, -, hq⟩ := h
  rw [linear] at hq
  omega

/-- **The loop of the forward seek** finds a byte that lies inside a fragment, behind its
first byte, and no other. -/
theorem seekOn_names (n : Nat) {remain : Int}
    (hn : n + p.idx = u.media.length) (hpos : 0 < remain) (hlt : remain < 2 ^ 31) :
    (u.seekOn n p remain).1 = true ∧ u.Names (u.seekOn n p remain).2 (u.start p.idx + remain) ↔
      ∃ k f, u.media[k]? = some f ∧ u.start k < u.start p.idx + remain ∧
        u.start p.idx + remain < u.start k + f.len ∧ p.idx ≤ k ∧ f.len < 2 ^ 31 := by
  induction n generalizing p remain with
  | zero =>
    constructor
    · rintro ⟨-, f, hf, -⟩
      have := u.seekOn_idx_le 0 p remain
      have := (List.getElem?_eq_some_iff.mp hf).1
      omega
    · rintro ⟨k, f, hf, -, -, hk, -⟩
      have := (List.getElem?_eq_some_iff.mp hf).1
      omega
  | succ n ih =>
    obtain ⟨f, hf⟩ : ∃ f, u.media[p.idx]? = some f := ⟨_, List.getElem?_eq_getElem (by omega)⟩
    have hsucc := start_succ hf
    have hflt := f.len_lt
    simp only [seekOn, getMediaFragment_of_media hf]
    by_cases hfound : remain ≤ int32 f.len
    · rw [if_pos hfound]
      rw [int32_eq] at hfound
      constructor
      · rintro ⟨-, g, hg, -, hin, -, -⟩
        obtain rfl : f = g := Option.some.inj (hf.symm.trans hg)
        exact ⟨p.idx, f, hf, by omega, by simp only [] at hin; omega, Nat.le_refl _, by omega⟩
      · rintro ⟨k, g, hg, hlo, hhi, hk, -⟩
        obtain rfl : k = p.idx := by
          by_contra hne
          have := u.start_mono (show p.idx + 1 ≤ k by omega)
          omega
        obtain rfl : f = g := Option.some.inj (hf.symm.trans hg)
        exact ⟨rfl, f, hf, by simp only []; omega, by simp only []; omega, rfl, rfl⟩
    · rw [if_neg hfound]
      rw [int32_eq] at hfound
      by_cases hbig : f.len < 2 ^ 31
      · have hrem : int32 (remain - f.len) = remain - f.len := by rw [int32_eq]; omega
        have hq : (u.start p.idx : Int) + remain = u.start (p.idx + 1) + (remain - f.len) := by omega
        rw [hrem, hq]
        rw [ih (p := { p with idx := p.idx + 1 }) (by simp only []; omega) (by omega) (by omega)]
        constructor
        · rintro ⟨k, g, hg, hlo, hhi, hk, hlen⟩
          exact ⟨k, g, hg, hlo, hhi, Nat.le_of_succ_le hk, hlen⟩
        · rintro ⟨k, g, hg, hlo, hhi, hk, hlen⟩
          refine ⟨k, g, hg, hlo, hhi, Nat.lt_of_le_of_ne hk ?_, hlen⟩
          rintro rfl
          obtain rfl : f = g := Option.some.inj (hf.symm.trans hg)
          omega
      · -- a length that is negative as an `int32`: the fragment is passed over
        constructor
        · rintro ⟨-, hnames⟩
          have := hnames.start_le
          have := u.start_mono (u.seekOn_idx_le n { p with idx := p.idx + 1 } (int32 (remain - f.len)))
          simp only [] at *
          omega
        · rintro ⟨k, g, hg, hlo, hhi, hk, hlen⟩
          exfalso
          rcases Nat.lt_or_eq_of_le hk with hlt' | rfl
          · have := u.start_mono (show p.idx + 1 ≤ k from hlt')
            omega
          · obtain rfl : f = g := Option.some.inj (hf.symm.trans hg)
            omega

variable {delta : Int}

/-- **The forward branch** of a valid position. -/
theorem seekForward_names
    (hf : u.media[p.idx]? = some f) (h0 : 0 ≤ p.offset) (hoff : p.offset ≤ f.len) (hint : p.offset < 2 ^ 31)
    (hfirst : f.len - p.offset < 2 ^ 31) (hpos : 0 < delta) (hlt : delta < 2 ^ 31) :
    ((u.seekForward p (f.len - p.offset) delta).1 = true ∧
        u.Names (u.seekForward p (f.len - p.offset) delta).2 (u.linear p + delta)) ↔
      u.Inside p (u.linear p + delta) := by
  have hidx := (List.getElem?_eq_some_iff.mp hf).1
  have hsucc := start_succ hf
  simp only [seekForward, getMediaFragment_of_media hf]
  by_cases hhere : delta ≤ f.len - p.offset
  · rw [if_pos hhere]
    constructor
    · rintro ⟨-, g, hg, h0', hin, -, hq⟩
      obtain rfl : f = g := Option.some.inj (hf.symm.trans hg)
      simp only [linear, int32_eq] at h0' hin hq ⊢
      exact ⟨p.idx, f, hf, by omega, by omega, by rw [if_pos rfl]; omega⟩
    · rintro ⟨k, g, hg, hlo, hhi, hlen⟩
      simp only [linear] at hlo hhi hlen ⊢
      obtain rfl : k = p.idx := by
        rcases Nat.lt_trichotomy k p.idx with hk | hk | hk
        · have := u.start_mono (show k + 1 ≤ p.idx from hk)
          rw [start_succ hg] at this
          omega
        · exact hk
        · have := u.start_mono (show p.idx + 1 ≤ k from hk)
          omega
      obtain rfl : f = g := Option.some.inj (hf.symm.trans hg)
      rw [if_pos rfl] at hlen
      have hoffset : int32 (p.offset + delta) = p.offset + delta := by rw [int32_eq]; omega
      rw [hoffset]
      exact ⟨trivial, f, hf, by simp only []; omega, by simp only []; omega, rfl, by simp only [linear]; omega⟩
  · rw [if_neg hhere, getNumMediaFrags_eq]
    have hq : u.linear p + delta = u.start (p.idx + 1) + (delta - (f.len - p.offset)) := by
      simp only [linear]
      omega
    rw [hq, seekOn_names _ (by simp only []; omega) (by omega) (by omega)]
    constructor
    · rintro ⟨k, g, hg, hlo, hhi, hk, hlen⟩
      exact ⟨k, g, hg, hlo, hhi, by rw [if_neg (by simp only [] at hk; omega)]; exact hlen⟩
    · rintro ⟨k, g, hg, hlo, hhi, hlen⟩
      have hk : p.idx + 1 ≤ k := by
        by_contra hk
        have := u.start_mono (show k + 1 ≤ p.idx + 1 by omega)
        rw [start_succ hg] at this
        omega
      rw [if_neg (by omega)] at hlen
      exact ⟨k, g, hg, hlo, hhi, hk, hlen⟩

theorem seekForward_boundary {first delta : Int}
    (hf : u.media[p.idx]? = some f) (hp : p.boundaryReached = false)
    (hb : (u.seekForward p first delta).2.boundaryReached = true) :
    u.media.length ≤ (u.seekForward p first delta).2.idx := by
  have hidx := (List.getElem?_eq_some_iff.mp hf).1
  simp only [seekForward, getMediaFragment_of_media hf] at hb ⊢
  split at hb
  · simp [hp] at hb
  · rename_i hfar
    rw [if_neg hfar]
    refine seekOn_boundary _ _ ?_ hp hb
    rw [getNumMediaFrags_eq]
    simp only []
    omega

/-! ## `seek` -/

theorem oscl_abs_eq {a : Int} (hlo : -2 ^ 31 < a) (hneg : a ≤ 0) : oscl_abs a = -a := by
  rw [oscl_abs, int32_eq]
  split <;> omega

theorem sought_inside {r : Bool × Position} (h0 : 0 ≤ u.linear p + delta) (h : u.linear p + delta < u.total) :
    u.Sought p delta r ↔ r.1 = true ∧ u.Names r.2 (u.linear p + delta) := by
  rw [Sought, if_pos ⟨h0, h⟩]

theorem sought_outside {r : Bool × Position} (h : ¬ (0 ≤ u.linear p + delta ∧ u.linear p + delta < u.total)) :
    u.Sought p delta r ↔ r.1 = true ∧ r.2.boundaryReached = true ∧ r.2.idx < u.media.length ∧
      (if 0 < delta then u.lastByte else u.firstByte) = some r.2.ptr := by
  rw [Sought, if_neg h]

theorem seekForward_sought
    (hf : u.media[p.idx]? = some f) (h0 : 0 ≤ p.offset) (hoff : p.offset ≤ f.len) (hint : p.offset < 2 ^ 31)
    (hfirst : f.len - p.offset < 2 ^ 31) (hb : p.boundaryReached = false) (hpos : 0 < delta) (hlt : delta < 2 ^ 31) :
    u.Sought p delta (u.seekForward p (f.len - p.offset) delta) ↔ u.Inside p (u.linear p + delta) := by
  have hlinear : 0 ≤ u.linear p + delta := by rw [linear]; omega
  by_cases hin : u.linear p + delta < u.total
  · rw [sought_inside hlinear hin]
    exact seekForward_names hf h0 hoff hint hfirst hpos hlt
  · rw [sought_outside (fun h => hin h.2)]
    constructor
    · rintro ⟨-, hbound, hidx, -⟩
      exact absurd hidx (Nat.not_lt.mpr (seekForward_boundary hf hb hbound))
    · rintro ⟨k, g, hg, -, hhi, -⟩
      have := start_add_le hg
      omega

theorem seekBackward_sought_of_le
    (hf : u.media[p.idx]? = some f) (hb : p.boundaryReached = false) (hneg : delta ≤ 0) (hlo : -2 ^ 31 < delta)
    (hback : -delta ≤ p.offset) : u.Sought p delta (u.seekBackward p delta) ↔ p.offset + delta < f.len := by
  have hle := start_add_le hf
  simp only [seekBackward, oscl_abs_eq hlo hneg, if_pos hback, getMediaFragment_of_media hf]
  by_cases hin : u.linear p + delta < u.total
  · rw [sought_inside (by rw [linear]; omega) hin]
    constructor
    · rintro ⟨-, g, hg, -, hlt, -⟩
      obtain rfl : f = g := Option.some.inj (hf.symm.trans hg)
      exact hlt
    · intro hlt
      exact ⟨rfl, f, hf, by simp only []; omega, hlt, rfl, by simp only [linear]; omega⟩
  · rw [sought_outside (fun h => hin h.2)]
    simp only [hb, Bool.false_eq_true, false_and, and_false, false_iff]
    rw [linear] at hin
    omega

theorem seekBackward_sought_of_lt (hf : u.media[p.idx]? = some f) (h0 : 0 ≤ p.offset) (hneg : delta ≤ 0)
    (hlo : -2 ^ 31 < delta) (hback : p.offset < -delta) :
    u.Sought p delta (u.seekBackward p delta) ↔ u.linear p + delta < 0 ∧ u.firstByte = some p.ptr := by
  have hle := start_add_le hf
  have hidx := (List.getElem?_eq_some_iff.mp hf).1
  simp only [seekBackward, oscl_abs_eq hlo hneg, if_neg (Int.not_le.mpr hback)]
  by_cases hin : 0 ≤ u.linear p + delta
  · rw [sought_inside hin (by rw [linear]; omega)]
    constructor
    · rintro ⟨-, g, -, -, -, -, hq⟩
      simp only [linear] at hq
      omega
    · rintro ⟨hout, -⟩
      omega
  · rw [sought_outside (fun h => hin h.1), if_neg (by omega)]
    constructor
    · rintro ⟨-, -, -, hbyte⟩
      exact ⟨by omega, hbyte⟩
    · rintro ⟨-, hbyte⟩
      exact ⟨rfl, rfl, hidx, hbyte⟩

theorem seekBackward_least
    (hf : u.media[p.idx]? = some f) (h0 : 0 ≤ p.offset) (hint : p.offset < 2 ^ 31) (hb : p.boundaryReached = false) :
    ¬ u.Sought p (-2 ^ 31) (u.seekBackward p (-2 ^ 31)) := by
  have habs : oscl_abs (-2 ^ 31) = -2 ^ 31 := by decide
  simp only [seekBackward, habs, if_pos (show (-2 ^ 31 : Int) ≤ p.offset by omega), getMediaFragment_of_media hf]
  intro h
  simp only [Sought] at h
  split at h
  · obtain ⟨-, g, -, hnonneg, -⟩ := h
    simp only [] at hnonneg
    omega
  · simp [hb] at h

/-- **`seek` is right exactly where the condition says so**: forward, for a byte inside a
fragment and not its first one; backward, for a byte of the same fragment, or where the
position already is that of the first byte. -/
theorem seek_iff {u : AccessUnit} {p : Position} {delta : Int} (hp : u.Valid p)
    (hlo : -2 ^ 31 ≤ delta) (hhi : delta < 2 ^ 31) :
    u.Sought p delta (u.seek p delta) ↔ u.Reachable p delta := by
  obtain ⟨f, hf, h0, hoff, hint, hptr⟩ := hp
  have hcond : u.Reachable p delta ↔ f.len - p.offset < 2 ^ 31 ∧
      if 0 < delta then u.Inside p (u.linear p + delta)
      else if delta = -2 ^ 31 then False
      else if -delta ≤ p.offset then p.offset + delta < f.len
      else u.linear p + delta < 0 ∧ u.firstByte = some p.ptr := by
    simp only [Reachable, hf, Option.some.injEq, exists_eq_left']
  have hflt := f.len_lt
  rw [seek_of_valid hf, hcond]
  by_cases hfirst : f.len - p.offset < 2 ^ 31
  · have hview : int32 (f.len - p.offset) = f.len - p.offset := by rw [int32_eq]; omega
    rw [hview, if_neg (by omega), and_iff_right hfirst]
    by_cases hpos : 0 < delta
    · rw [if_pos hpos, if_pos hpos]
      exact seekForward_sought (p := { p with boundaryReached := false }) hf h0 hoff hint hfirst rfl hpos hhi
    · rw [if_neg hpos, if_neg hpos]
      by_cases hleast : delta = -2 ^ 31
      · rw [if_pos hleast, iff_false, hleast]
        exact seekBackward_least (p := { p with boundaryReached := false }) hf h0 hint rfl
      · rw [if_neg hleast]
        split
        · exact seekBackward_sought_of_le (p := { p with boundaryReached := false }) hf rfl (by omega) (by omega)
            (by assumption)
        · exact seekBackward_sought_of_lt (p := { p with boundaryReached := false }) hf h0 (by omega) (by omega)
            (by simp only []; omega)
  · -- the distance to the end of the fragment is negative as an `int32`
    have hview : int32 (f.len - p.offset) < 0 := by rw [int32_eq]; omega
    rw [if_pos hview]
    simp only [Sought, hfirst, false_and, iff_false]
    split <;> simp

/-- Two fragments of four bytes, behind an empty one for the codec info. -/
def twoFragments : AccessUnit where
  fragments := [⟨0, 0, by decide⟩, ⟨1000, 4, by decide⟩, ⟨2000, 4, by decide⟩]
  num_reserved_fragments := 1
  reserved_le := by decide
  slot := ⟨0, 0, by decide⟩

/-- The first byte of the media data. -/
def firstPosition : Position := ⟨0, 0, 1000, false⟩

theorem valid_firstPosition : twoFragments.Valid firstPosition :=
  ⟨_, rfl, by decide, by decide, by decide, by decide⟩

/-- Five bytes on: the second byte of the second fragment. -/
theorem seek_fiveBytes : twoFragments.Sought firstPosition 5 (twoFragments.seek firstPosition 5) :=
  (seek_iff valid_firstPosition (by decide) (by decide)).mpr
    ⟨_, rfl, by decide, 1, _, rfl, by decide, by decide, by decide⟩

/-- Four bytes on: not the first byte of the second fragment, but the end of the first. -/
theorem seek_to_fragmentEnd :
    twoFragments.Valid firstPosition ∧
      twoFragments.seek firstPosition 4 = (true, ⟨0, 4, 1004, false⟩) ∧
      ¬ twoFragments.Sought firstPosition 4 (twoFragments.seek firstPosition 4) := by
  have hseek : twoFragments.seek firstPosition 4 = (true, ⟨0, 4, 1004, false⟩) := by decide
  refine ⟨valid_firstPosition, hseek, ?_⟩
  rw [hseek, sought_inside (by decide) (by decide)]
  rintro ⟨-, f, hf, -, hlt, -⟩
  obtain rfl : (⟨1000, 4, by decide⟩ : BufferFragment) = f := Option.some.inj hf
  exact absurd hlt (by decide)

end AccessUnit

end Ftke
