import Ftke.Ring
import Ftke.Run

/-!
# Ftke.Queue

`Oscl_Queue` (`oscl_queue.h`, `oscl_queue.cpp`): a FIFO queue in a ring buffer
that grows on demand.

The counters are 32-bit, so increments and the growth arithmetic wrap
(`wrap32`).  The element memory is the list `elems` of slots, `none` being raw
memory; a null pointer is the empty list.  `allocate` gives the number of slots
that fit in `n * sizeof_T` bytes *after* that product has wrapped, and an
access outside the memory, or a copy from a raw slot, is undefined behaviour:
the routine answers `none`.
-/

namespace Ftke.Queue

variable {α : Type*}

/-- Truncation to `uint32`. -/
def wrap32 (n : Nat) : Nat := n % 2 ^ 32

/-- The fields of `Oscl_Queue_Base`. -/
structure OsclQueue (α : Type*) where
  numelems : Nat
  bufsize : Nat
  elems : List (Option α)
  ifront : Nat
  irear : Nat
  sizeofT : Nat

/-- `pOpaqueType->allocate(n * sizeof_T)`: raw slots. -/
def allocate (sizeofT n : Nat) : List (Option α) :=
  List.replicate (wrap32 (n * sizeofT) / sizeofT) none

namespace OsclQueue

/-- `construct(aType)`, for the default constructor; it does not set `ifront`
and `irear`. -/
def construct (sizeofT : Nat) (ifront irear : UInt32) : OsclQueue α :=
  ⟨0, 0, [], ifront.toNat, irear.toNat, sizeofT⟩

/-- `construct(aType, n)`, with pre-allocation; it does not set `ifront` and
`irear` either. -/
def constructN (sizeofT n : Nat) (ifront irear : UInt32) : OsclQueue α :=
  ⟨0, n, allocate sizeofT n, ifront.toNat, irear.toNat, sizeofT⟩

/-- What is stored at an index: `none` for raw memory and outside it. -/
def slot (q : OsclQueue α) (k : Nat) : Option α := q.elems[k]?.join

/-- `front`. -/
def front (q : OsclQueue α) : Option α := q.slot q.ifront

/-- `back`. -/
def back (q : OsclQueue α) : Option α := q.slot q.irear

/-- `++index; if (index >= bufsize) index = 0`, in 32 bits. -/
def advance (q : OsclQueue α) (index : Nat) : Nat :=
  if q.bufsize ≤ wrap32 (index + 1) then 0 else wrap32 (index + 1)

/-- `pop` on a non-empty queue. -/
def pop (q : OsclQueue α) : Option (OsclQueue α) :=
  if q.ifront < q.elems.length then
    some { q with
      elems := q.elems.set q.ifront none
      ifront := q.advance q.ifront
      numelems := q.numelems - 1 }
  else none

/-- The loop of `reserve`: move the elements to the front of `newElems` by
`front` and `pop`, one for each of the `numelems` turns. -/
def transfer : Nat → OsclQueue α → List (Option α) → Nat → Option (OsclQueue α × List (Option α) × Nat)
  | 0, q, newElems, i => some (q, newElems, i)
  | turns + 1, q, newElems, i =>
    match q.front with
    | none => none
    | some x =>
      if i < newElems.length then
        q.pop.bind fun q' => transfer turns q' (newElems.set i (some x)) (i + 1)
      else none

/-- `reserve`. -/
def reserve (q : OsclQueue α) (n : Nat) : Option (OsclQueue α) :=
  if n > q.bufsize then
    (transfer q.numelems q (allocate q.sizeofT n) 0).map fun (q', newElems, i) =>
      { q' with
        elems := newElems
        bufsize := n
        numelems := i
        ifront := 0
        irear := if i > 0 then 0 + i - 1 else n - 1 }
  else some q

/-- `new_bufsize`: 1.25 times the size, but at least 4 more. -/
def growth (q : OsclQueue α) : Nat := q.bufsize + (if q.bufsize > 16 then q.bufsize / 4 else 4)

/-- The part of `push` after the growth check. -/
def pushSlot (q : OsclQueue α) (x : α) : Option (OsclQueue α) :=
  let irear := q.advance q.irear
  if irear < q.elems.length then
    some { q with
      irear := irear
      elems := q.elems.set irear (some x)
      numelems := wrap32 (q.numelems + 1) }
  else none

/-- `push`. -/
def push (q : OsclQueue α) (x : α) : Option (OsclQueue α) :=
  if q.numelems = q.bufsize then (q.reserve (wrap32 q.growth)).bind (·.pushSlot x)
  else q.pushSlot x

/-- The loop of `clear`, one `pop` for each of the `numelems` turns. -/
def clearLoop : Nat → OsclQueue α → Option (OsclQueue α)
  | 0, q => some q
  | turns + 1, q => q.pop.bind (clearLoop turns)

/-- `clear`. -/
def clear (q : OsclQueue α) : Option (OsclQueue α) := clearLoop q.numelems q

end OsclQueue

open OsclQueue

/-! ## The ring behind the fields -/

/-- The queue holds `xs`, oldest first, from position `p` of its ring on. -/
structure Holds (q : OsclQueue α) (p : Nat) (xs : List α) : Prop where
  count : q.numelems = xs.length
  fits : xs.length ≤ q.bufsize
  room : q.bufsize ≤ q.elems.length
  bound : q.bufsize < 2 ^ 32
  front : xs ≠ [] → q.ifront = p % q.bufsize
  rear : xs ≠ [] → q.irear = (p + xs.length - 1) % q.bufsize
  slots : ∀ i x, xs[i]? = some x → q.slot ((p + i) % q.bufsize) = some x

/-- On an empty queue with a buffer, `ifront` is the slot the next push fills. -/
def Settled (q : OsclQueue α) : Prop := q.ifront < q.bufsize ∧ q.advance q.irear = q.ifront

instance (q : OsclQueue α) : Decidable (Settled q) := inferInstanceAs (Decidable (_ ∧ _))

variable {k p sizeofT n : Nat} {q : OsclQueue α}

theorem advance_eq_next (hb : q.bufsize < 2 ^ 32) (hk : k < q.bufsize) :
    q.advance k = Ring.next q.bufsize k := by
  unfold advance Ring.next wrap32
  rw [Nat.mod_eq_of_lt (by omega)]

theorem advance_lt (q : OsclQueue α) (k : Nat) (hb : 0 < q.bufsize) : q.advance k < q.bufsize := by
  unfold advance
  split <;> omega

theorem slot_set (v : Option α) (hk : k < q.elems.length) (j : Nat) :
    ({ q with elems := q.elems.set k v } : OsclQueue α).slot j = if j = k then v else q.slot j := by
  unfold slot
  by_cases hj : j = k
  · subst hj
    simp [hk]
  · rw [if_neg hj, List.getElem?_set_ne (Ne.symm hj)]

variable {xs : List α}

theorem Holds.bufsize_pos (h : Holds q p xs) (hne : xs ≠ []) : 0 < q.bufsize := by
  have := h.fits
  have := List.length_pos_iff.mpr hne
  omega

theorem Holds.advance_rear (h : Holds q p xs)
    (hne : xs ≠ []) : q.advance q.irear = (p + xs.length) % q.bufsize := by
  have hpos := h.bufsize_pos hne
  have hlen := List.length_pos_iff.mpr hne
  rw [h.rear hne, advance_eq_next h.bound (Nat.mod_lt _ hpos), Ring.next_mod _ hpos]
  congr 1
  omega

/-! ## The operations on the ring -/

theorem Holds.pop {x : α} (h : Holds q p (x :: xs)) :
    ∃ q', q.pop = some q' ∧ Holds q' (p + 1) xs ∧ (xs = [] → Settled q') ∧
      q'.bufsize = q.bufsize ∧ q'.sizeofT = q.sizeofT := by
  have hpos := h.bufsize_pos (List.cons_ne_nil x xs)
  have hfront := h.front (List.cons_ne_nil x xs)
  have hlt : q.ifront < q.bufsize := by rw [hfront]; exact Nat.mod_lt _ hpos
  have hroom := h.room
  have hadv : q.advance q.ifront = (p + 1) % q.bufsize := by
    rw [advance_eq_next h.bound hlt, hfront, Ring.next_mod _ hpos]
  have hfits := h.fits
  have hcount := h.count
  rw [List.length_cons] at hfits hcount
  refine ⟨_, if_pos (by omega), ?_, ?_, rfl, rfl⟩
  · constructor
    · show q.numelems - 1 = xs.length
      omega
    · show xs.length ≤ q.bufsize
      omega
    · show q.bufsize ≤ (q.elems.set q.ifront none).length
      rw [List.length_set]
      exact hroom
    · exact h.bound
    · intro _
      exact hadv
    · intro hne
      have hr := h.rear (List.cons_ne_nil x xs)
      show q.irear = (p + 1 + xs.length - 1) % q.bufsize
      rw [hr, List.length_cons]
      congr 1
      omega
    · intro i y hi
      have hil : i < xs.length := (List.getElem?_eq_some_iff.mp hi).1
      have hslot := h.slots (i + 1) y (by simpa using hi)
      have hne : (p + 1 + i) % q.bufsize ≠ q.ifront := by
        intro he
        rw [hfront] at he
        have := Ring.mod_inj (by omega) (by omega) he
        omega
      have hset := slot_set (q := q) none (show q.ifront < q.elems.length by omega)
        ((p + 1 + i) % q.bufsize)
      rw [if_neg hne] at hset
      refine hset.trans ?_
      rw [← hslot]
      congr 2
      omega
  · rintro rfl
    refine ⟨?_, ?_⟩
    · show q.advance q.ifront < q.bufsize
      exact advance_lt q _ hpos
    · have hr := h.advance_rear (List.cons_ne_nil x [])
      exact hr.trans hadv.symm

theorem Holds.pushSlot (h : Holds q p xs) (hlt : xs.length < q.bufsize) (hfront : q.ifront = p % q.bufsize)
    (hnext : q.advance q.irear = (p + xs.length) % q.bufsize) (x : α) :
    ∃ q', q.pushSlot x = some q' ∧ Holds q' p (xs ++ [x]) ∧ q'.sizeofT = q.sizeofT := by
  have hpos : 0 < q.bufsize := by omega
  have hroom := h.room
  have hin : q.advance q.irear < q.elems.length := by
    have := advance_lt q q.irear hpos
    omega
  refine ⟨_, if_pos hin, ?_, rfl⟩
  have hbound := h.bound
  constructor
  · show wrap32 (q.numelems + 1) = (xs ++ [x]).length
    rw [List.length_append, List.length_singleton, ← h.count]
    refine Nat.mod_eq_of_lt ?_
    have := h.count
    omega
  · show (xs ++ [x]).length ≤ q.bufsize
    rw [List.length_append, List.length_singleton]
    exact hlt
  · show q.bufsize ≤ (q.elems.set _ _).length
    rw [List.length_set]
    exact hroom
  · exact hbound
  · intro _
    exact hfront
  · intro _
    show q.advance q.irear = (p + (xs ++ [x]).length - 1) % q.bufsize
    rw [List.length_append, List.length_singleton, hnext]
    rfl
  · intro i y hi
    have hset := slot_set (q := q) (some x) hin ((p + i) % q.bufsize)
    refine hset.trans ?_
    by_cases hix : i = xs.length
    · subst hix
      rw [if_pos hnext.symm]
      simpa using hi
    · have hil : i < xs.length := by
        have := (List.getElem?_eq_some_iff.mp hi).1
        rw [List.length_append, List.length_singleton] at this
        omega
      rw [if_neg]
      · refine h.slots i y ?_
        rwa [List.getElem?_append_left hil] at hi
      · intro he
        rw [hnext] at he
        have := Ring.mod_inj (by omega) (by omega) he
        omega

theorem Holds.transfer : ∀ (xs : List α) {q : OsclQueue α} {p : Nat} (newElems : List (Option α))
    (ys : List α), Holds q p xs → ys.length + xs.length ≤ newElems.length →
    (∀ (i : Nat) (x : α), ys[i]? = some x → newElems[i]? = some (some x)) →
    ∃ q' new', OsclQueue.transfer xs.length q newElems ys.length =
        some (q', new', (ys ++ xs).length) ∧ new'.length = newElems.length ∧
      (∀ (i : Nat) (x : α), (ys ++ xs)[i]? = some x → new'[i]? = some (some x)) ∧
      q'.sizeofT = q.sizeofT
  | [], q, p, newElems, ys, _, _, hys => by
    refine ⟨q, newElems, by simp [OsclQueue.transfer], rfl, ?_, rfl⟩
    simpa using hys
  | x :: xs, q, p, newElems, ys, h, hlen, hys => by
    have hf : q.front = some x := by
      have h0 := h.slots 0 x rfl
      rwa [Nat.add_zero, ← h.front (List.cons_ne_nil x xs)] at h0
    obtain ⟨q₁, hpop, h₁, -, -, hs₁⟩ := h.pop
    rw [List.length_cons] at hlen
    have hys' : ∀ (i : Nat) (y : α), (ys ++ [x])[i]? = some y → (newElems.set ys.length (some x))[i]? = some (some y) := by
      intro i y hi
      by_cases hiy : i = ys.length
      · subst hiy
        have hxy : x = y := by simpa using hi
        rw [List.getElem?_set_self (by omega), hxy]
      · have hil : i < ys.length := by
          have := (List.getElem?_eq_some_iff.mp hi).1
          rw [List.length_append, List.length_singleton] at this
          omega
        rw [List.getElem?_set_ne (Ne.symm hiy)]
        exact hys i y (by rwa [List.getElem?_append_left hil] at hi)
    obtain ⟨q', new', heq, hl, hnew, hs⟩ := Holds.transfer xs (newElems.set ys.length (some x))
      (ys ++ [x]) h₁ (by simp only [List.length_append, List.length_singleton, List.length_set]; omega) hys'
    refine ⟨q', new', ?_, by rw [hl, List.length_set], ?_, hs.trans hs₁⟩
    · simp only [List.length_cons, OsclQueue.transfer, hf, if_pos (show ys.length < newElems.length by omega),
        hpop, Option.bind_some]
      simpa using heq
    · simpa using hnew

theorem length_allocate (hs : 0 < sizeofT) (hn : n * sizeofT < 2 ^ 32) :
    (allocate sizeofT n : List (Option α)).length = n := by
  unfold allocate wrap32
  rw [List.length_replicate, Nat.mod_eq_of_lt hn, Nat.mul_div_cancel _ hs]

theorem Holds.reserve (h : Holds q p xs) (hs : 0 < q.sizeofT) (hn : n > q.bufsize → n * q.sizeofT < 2 ^ 32) :
    ∃ q' p', q.reserve n = some q' ∧ Holds q' p' xs ∧ q'.sizeofT = q.sizeofT ∧
      (n > q.bufsize → q'.bufsize = n ∧ (xs = [] → Settled q')) ∧ (¬ n > q.bufsize → q' = q) := by
  unfold OsclQueue.reserve
  split
  · next hgt =>
      have hbytes := hn hgt
      have hn32 : n < 2 ^ 32 := Nat.lt_of_le_of_lt (Nat.le_mul_of_pos_right n hs) hbytes
      have hlen := length_allocate (α := α) hs hbytes
      have hfits := h.fits
      obtain ⟨q', new', heq, hl, hnew, hsz⟩ := Holds.transfer xs (allocate q.sizeofT n) [] h
        (by rw [hlen, List.length_nil]; omega) (by simp)
      rw [List.nil_append] at heq hnew
      rw [h.count, show (0 : Nat) = ([] : List α).length from rfl, heq, Option.map_some]
      refine ⟨_, 0, rfl, ?_, hsz, fun _ => ⟨rfl, ?_⟩, fun hne => absurd hgt hne⟩
      · constructor
        · rfl
        · show xs.length ≤ n
          omega
        · show n ≤ new'.length
          omega
        · exact hn32
        · intro _
          exact (Nat.zero_mod n).symm
        · intro hne
          have hpos := List.length_pos_iff.mpr hne
          show (if xs.length > 0 then 0 + xs.length - 1 else n - 1) = (0 + xs.length - 1) % n
          rw [if_pos hpos, Nat.mod_eq_of_lt (by omega)]
        · intro i x hi
          have hil : i < xs.length := (List.getElem?_eq_some_iff.mp hi).1
          show new'[(0 + i) % n]?.join = some x
          rw [Nat.zero_add, Nat.mod_eq_of_lt (by omega), hnew i x hi]
          rfl
      · rintro rfl
        refine ⟨show 0 < n by omega, ?_⟩
        show (if n ≤ wrap32 (n - 1 + 1) then 0 else wrap32 (n - 1 + 1)) = 0
        rw [if_pos]
        unfold wrap32
        rw [Nat.mod_eq_of_lt (by omega)]
        omega
  · next hgt => exact ⟨q, p, rfl, h, rfl, fun hc => absurd hc hgt, fun _ => rfl⟩

theorem Holds.clear : ∀ (xs : List α) {q : OsclQueue α} {p : Nat}, Holds q p xs →
    ∃ q' p', clearLoop xs.length q = some q' ∧ Holds q' p' [] ∧ q'.sizeofT = q.sizeofT ∧
      (xs ≠ [] → Settled q') ∧ (xs = [] → q' = q)
  | [], q, p, h => ⟨q, p, rfl, h, rfl, fun hne => absurd rfl hne, fun _ => rfl⟩
  | x :: xs, q, p, h => by
    obtain ⟨q₁, hpop, h₁, hset, -, hs₁⟩ := h.pop
    obtain ⟨q', p', hc, h', hs', hne', heq'⟩ := Holds.clear xs h₁
    refine ⟨q', p', ?_, h', hs'.trans hs₁, fun _ => ?_, fun he => absurd he (List.cons_ne_nil x xs)⟩
    · simp only [List.length_cons, clearLoop, hpop, Option.bind_some]
      exact hc
    · by_cases hxs : xs = []
      · rw [heq' hxs]
        exact hset hxs
      · exact hne' hxs

/-- `push` puts the element behind the others, provided an empty queue with a
buffer is settled and a growth can be counted in bytes. -/
theorem Holds.push (h : Holds q p xs)
    (hs : 0 < q.sizeofT) (x : α) (hset : xs = [] → q.bufsize ≠ 0 → Settled q)
    (hgrow : q.numelems = q.bufsize → q.growth * q.sizeofT < 2 ^ 32) :
    ∃ q' p', q.push x = some q' ∧ Holds q' p' (xs ++ [x]) ∧ q'.sizeofT = q.sizeofT := by
  -- the write after growth, from a ring whose emptiness is settled
  have hwrite : ∀ {q₁ : OsclQueue α} {p₁ : Nat}, Holds q₁ p₁ xs → xs.length < q₁.bufsize →
      (xs = [] → Settled q₁) → ∃ q' p', q₁.pushSlot x = some q' ∧ Holds q' p' (xs ++ [x]) ∧
        q'.sizeofT = q₁.sizeofT := by
    intro q₁ p₁ h₁ hlt hset₁
    by_cases hxs : xs = []
    · obtain ⟨hf, hadv⟩ := hset₁ hxs
      have h₁' : Holds q₁ q₁.ifront xs :=
        { h₁ with
          front := fun hne => absurd hxs hne
          rear := fun hne => absurd hxs hne
          slots := fun i y hi => by simp [hxs] at hi }
      have hmod : q₁.ifront = q₁.ifront % q₁.bufsize := (Nat.mod_eq_of_lt hf).symm
      obtain ⟨q', hq'⟩ := h₁'.pushSlot hlt hmod (by rw [hadv, hxs]; exact hmod) x
      exact ⟨q', _, hq'⟩
    · obtain ⟨q', hq'⟩ := h₁.pushSlot hlt (h₁.front hxs) (h₁.advance_rear hxs) x
      exact ⟨q', _, hq'⟩
  unfold OsclQueue.push
  split
  · next hfull =>
      have hbytes := hgrow hfull
      have hg32 : q.growth < 2 ^ 32 := Nat.lt_of_le_of_lt (Nat.le_mul_of_pos_right _ hs) hbytes
      have hgt : q.growth > q.bufsize := by
        unfold growth
        split <;> omega
      have hw : wrap32 q.growth = q.growth := Nat.mod_eq_of_lt hg32
      rw [hw]
      obtain ⟨q₁, p₁, hr, h₁, hsz, hg, -⟩ := h.reserve hs (n := q.growth) fun _ => hbytes
      obtain ⟨hb, hset₁⟩ := hg hgt
      have hfits := h.fits
      rw [hr, Option.bind_some]
      obtain ⟨q', p', hq', hh', hsz'⟩ := hwrite h₁ (by omega) hset₁
      exact ⟨q', p', hq', hh', hsz'.trans hsz⟩
  · next hfull =>
      have hc := h.count
      have hfits := h.fits
      refine hwrite h (by omega) fun hxs => hset hxs ?_
      rw [hxs, List.length_nil] at hc
      omega

/-! ## Runs -/

/-- The operations of the queue. -/
inductive Op (α : Type*)
  | push (x : α)
  | pop
  | reserve (n : UInt32)
  | clear

/-- The queue, everything pushed so far, and how much of it has been popped. -/
structure Session (α : Type*) where
  q : OsclQueue α
  pushed : List α
  popped : Nat

namespace Session

/-- One operation; `pop` is not called on an empty queue. -/
def step (s : Session α) : Op α → Option (Session α)
  | .push x => (s.q.push x).map fun q => ⟨q, s.pushed ++ [x], s.popped⟩
  | .pop => if s.q.numelems = 0 then none else s.q.pop.map fun q => ⟨q, s.pushed, s.popped + 1⟩
  | .reserve n => (s.q.reserve n.toNat).map fun q => ⟨q, s.pushed, s.popped⟩
  | .clear => s.q.clear.map fun q => ⟨q, s.pushed, s.pushed.length⟩

/-- A new queue: constructed empty, or with memory for `n` elements whose bytes
can be counted in 32 bits; the index fields hold anything. -/
inductive Start (sizeofT : Nat) : Session α → Prop
  | empty (ifront irear : UInt32) : Start sizeofT ⟨construct sizeofT ifront irear, [], 0⟩
  | preallocated (n : Nat) (ifront irear : UInt32) (hn : n * sizeofT < 2 ^ 32) :
      Start sizeofT ⟨constructN sizeofT n ifront irear, [], 0⟩

/-- The steps that go right: a push on an empty queue with a buffer finds the
indices settled, and new memory can be counted in 32-bit bytes. -/
def Meets (s : Session α) : Op α → Prop
  | .push _ => (s.q.numelems = 0 → s.q.bufsize ≠ 0 → Settled s.q) ∧
      (s.q.numelems = s.q.bufsize → s.q.growth * s.q.sizeofT < 2 ^ 32)
  | .reserve n => n.toNat > s.q.bufsize → n.toNat * s.q.sizeofT < 2 ^ 32
  | .pop | .clear => True

instance (s : Session α) : (op : Op α) → Decidable (s.Meets op)
  | .push _ => inferInstanceAs (Decidable (_ ∧ _))
  | .reserve _ => inferInstanceAs (Decidable (_ → _))
  | .pop | .clear => inferInstanceAs (Decidable True)

/-- What a FIFO queue promises in a state. -/
structure Fifo (s : Session α) : Prop where
  popped_le : s.popped ≤ s.pushed.length
  size : s.q.numelems = s.pushed.length - s.popped
  front : s.q.numelems ≠ 0 → s.q.front = s.pushed[s.popped]?
  back : s.q.numelems ≠ 0 → s.q.back = s.pushed.getLast?
  inside : s.q.numelems ≠ 0 → s.q.ifront < s.q.bufsize ∧ s.q.irear < s.q.bufsize
  defined : ∀ op, s.Meets op → (op = .pop → s.q.numelems ≠ 0) → (s.step op).isSome

/-- The invariant of the runs: the ring holds what has not been popped. -/
structure Inv (s : Session α) : Prop where
  popped_le : s.popped ≤ s.pushed.length
  sizeof_pos : 0 < s.q.sizeofT
  ring : ∃ p, Holds s.q p (s.pushed.drop s.popped)

theorem inv_start {sizeofT : Nat} (hs : 0 < sizeofT) {s : Session α} (h : Start sizeofT s) : s.Inv := by
  cases h with
  | empty ifront irear =>
    exact ⟨Nat.le_refl 0, hs, 0, ⟨rfl, Nat.le_refl 0, Nat.zero_le _, Nat.two_pow_pos 32,
      fun h => absurd rfl h, fun h => absurd rfl h, fun i x hi => by simp at hi⟩⟩
  | preallocated n ifront irear hn =>
    have hlen := length_allocate (α := α) hs hn
    have hn32 : n < 2 ^ 32 := Nat.lt_of_le_of_lt (Nat.le_mul_of_pos_right n hs) hn
    exact ⟨Nat.le_refl 0, hs, 0, ⟨rfl, Nat.zero_le _, hlen.ge, hn32,
      fun h => absurd rfl h, fun h => absurd rfl h, fun i x hi => by simp at hi⟩⟩

/-- An empty queue with a buffer is settled. -/
def Ready (s : Session α) : Prop := s.q.numelems = 0 → s.q.bufsize ≠ 0 → Settled s.q

/-- **One operation** from a state of the invariant: if it meets its condition
it is defined and keeps the invariant, and it does not unsettle the queue. -/
theorem Inv.step {s : Session α} (h : s.Inv) {op : Op α} (hm : s.Meets op)
    (hpop : op = .pop → s.q.numelems ≠ 0) :
    ∃ t, s.step op = some t ∧ t.Inv ∧ (s.Ready → t.Ready) := by
  obtain ⟨hle, hs, p, hr⟩ := h
  have hcount := hr.count
  rw [List.length_drop] at hcount
  cases op with
  | push x =>
    have hset : s.pushed.drop s.popped = [] → s.q.bufsize ≠ 0 → Settled s.q := by
      intro he
      refine hm.1 ?_
      rw [hr.count, he]
      rfl
    obtain ⟨q', p', hq, hh, hsz⟩ := hr.push hs x hset hm.2
    refine ⟨⟨q', s.pushed ++ [x], s.popped⟩, by simp only [Session.step, hq, Option.map_some],
      ⟨?_, ?_, p', ?_⟩, fun _ h0 => ?_⟩
    · show s.popped ≤ (s.pushed ++ [x]).length
      rw [List.length_append]
      omega
    · show 0 < q'.sizeofT
      omega
    · show Holds q' p' ((s.pushed ++ [x]).drop s.popped)
      rw [List.drop_append_of_le_length hle]
      exact hh
    · have hc := hh.count
      rw [List.length_append, List.length_singleton] at hc
      have h0' : q'.numelems = 0 := h0
      omega
  | pop =>
    have hne := hpop rfl
    have hlt : s.popped < s.pushed.length := by omega
    have hdrop : s.pushed.drop s.popped = s.pushed[s.popped] :: s.pushed.drop (s.popped + 1) :=
      List.drop_eq_getElem_cons hlt
    rw [hdrop] at hr
    obtain ⟨q', hq, hh, hset, -, hsz⟩ := hr.pop
    refine ⟨⟨q', s.pushed, s.popped + 1⟩,
      by simp only [Session.step, if_neg hne, hq, Option.map_some], ⟨hlt, ?_, p + 1, hh⟩,
      fun _ h0 _ => hset ?_⟩
    · show 0 < q'.sizeofT
      omega
    · exact List.length_eq_zero_iff.mp (hh.count.symm.trans h0)
  | reserve n =>
    obtain ⟨q', p', hq, hh, hsz, hgrow, hsame⟩ := hr.reserve hs (n := n.toNat) hm
    refine ⟨⟨q', s.pushed, s.popped⟩, by simp only [Session.step, hq, Option.map_some],
      ⟨hle, ?_, p', hh⟩, fun hready h0 hb => ?_⟩
    · show 0 < q'.sizeofT
      omega
    · by_cases hgt : n.toNat > s.q.bufsize
      · exact (hgrow hgt).2 (List.length_eq_zero_iff.mp (hh.count.symm.trans h0))
      · obtain rfl := hsame hgt
        exact hready h0 hb
  | clear =>
    obtain ⟨q', p', hq, hh, hsz, hset, hsame⟩ := Holds.clear _ hr
    rw [← hr.count] at hq
    refine ⟨⟨q', s.pushed, s.pushed.length⟩,
      by simp only [Session.step, OsclQueue.clear, hq, Option.map_some],
      ⟨Nat.le_refl _, ?_, p', ?_⟩, fun hready h0 hb => ?_⟩
    · show 0 < q'.sizeofT
      omega
    · show Holds q' p' (s.pushed.drop s.pushed.length)
      rw [List.drop_length]
      exact hh
    · by_cases hxs : s.pushed.drop s.popped = []
      · obtain rfl := hsame hxs
        exact hready h0 hb
      · exact hset hxs

theorem Inv.fifo {s : Session α} (h : s.Inv) : s.Fifo := by
  obtain ⟨hle, hs, p, hr⟩ := h
  have hcount := hr.count
  have hne : s.q.numelems ≠ 0 → s.pushed.drop s.popped ≠ [] := by
    intro h0 he
    rw [hr.count, he] at h0
    exact h0 rfl
  have hfront : ∀ h0 : s.q.numelems ≠ 0, s.q.ifront < s.q.bufsize := fun h0 => by
    rw [hr.front (hne h0)]
    exact Nat.mod_lt _ (hr.bufsize_pos (hne h0))
  have hrear : ∀ h0 : s.q.numelems ≠ 0, s.q.irear < s.q.bufsize := fun h0 => by
    rw [hr.rear (hne h0)]
    exact Nat.mod_lt _ (hr.bufsize_pos (hne h0))
  rw [List.length_drop] at hcount
  refine ⟨hle, hcount, fun h0 => ?_, fun h0 => ?_, fun h0 => ⟨hfront h0, hrear h0⟩, ?_⟩
  · have hx : (s.pushed.drop s.popped)[0]? = some s.pushed[s.popped] := by
      rw [List.getElem?_drop, Nat.add_zero]
      exact List.getElem?_eq_getElem _
    have hslot := hr.slots 0 _ hx
    rw [Nat.add_zero, ← hr.front (hne h0)] at hslot
    rw [OsclQueue.front, hslot]
    exact (List.getElem?_eq_getElem _).symm
  · have hlast : s.pushed.getLast? = (s.pushed.drop s.popped)[(s.pushed.drop s.popped).length - 1]? := by
      rw [← List.getLast?_eq_getElem?, List.getLast?_drop, if_neg]
      omega
    have hpos := List.length_pos_iff.mpr (hne h0)
    rw [hlast, List.getElem?_eq_getElem (by omega), OsclQueue.back, hr.rear (hne h0),
      Nat.add_sub_assoc hpos]
    exact hr.slots _ _ (List.getElem?_eq_getElem _)
  · intro op hm hpop
    obtain ⟨t, ht, -, -⟩ := Inv.step ⟨hle, hs, p, hr⟩ hm hpop
    rw [ht]
    rfl

theorem numelems_ne_zero_of_step {s t : Session α} {op : Op α} (h : s.step op = some t) :
    op = .pop → s.q.numelems ≠ 0 := by
  rintro rfl h0
  simp [step, h0] at h

end Session

open Session

/-- **The queue over whole runs**: from either constructor, whatever the fields
it does not set hold, in every run whose steps meet their condition every state
reached is a FIFO queue. -/
theorem fifo_of_run (sizeofT : Nat) (hs : 0 < sizeofT) (start : Session α)
    (hstart : Start sizeofT start) (ops : List (Op α)) (s : Session α)
    (h : Run (guarded Meets (stepOf Session.step)) start ops s) : s.Fifo := by
  refine Inv.fifo (h.invariant (inv_start hs hstart) ?_)
  rintro a op b ha ⟨hm, hab⟩
  obtain ⟨t, ht, hinv, -⟩ := ha.step hm (numelems_ne_zero_of_step hab)
  obtain rfl : t = b := Option.some.inj (ht.symm.trans hab)
  exact hinv

/-- A queue with memory for two elements whose indices happen to be settled,
through a growth with a wrapped ring. -/
theorem fifo_of_run_grow : ∃ s : Session Nat, s.Fifo ∧ s.q.bufsize = 6 ∧ s.q.front = some 8 := by
  refine ⟨_, fifo_of_run 4 (by decide) ⟨constructN 4 2 1 0, [], 0⟩ (.preallocated 2 1 0 (by decide))
    [.push 7, .push 8, .pop, .push 9, .push 10] _ (Run.of_foldlM_guarded rfl), by decide, by decide⟩

/-- **Pre-allocation loses the first element**: with memory for four elements
and both index fields 0, the pushed 7 goes to slot 1 while `front` reads slot 0. -/
theorem preallocated_not_fifo :
    ¬ ∀ (start : Session Nat) (ops : List (Op Nat)) (s : Session Nat), Start 4 start →
      Run (stepOf Session.step) start ops s → s.Fifo := by
  intro h
  have hrun := Run.of_foldlM (f := Session.step (α := Nat)) (l := [.push 7])
    (s := ⟨constructN 4 4 0 0, [], 0⟩) rfl
  have hf := (h _ _ _ (.preallocated 4 0 0 (by decide)) hrun).front
  exact absurd (hf (by decide)) (by decide)

/-! ## The constructors compared -/

/-- The steps whose new memory can be counted in 32-bit bytes. -/
def Sized (s : Session α) : Op α → Prop
  | .push _ => s.q.numelems = s.q.bufsize → s.q.growth * s.q.sizeofT < 2 ^ 32
  | .reserve n => n.toNat > s.q.bufsize → n.toNat * s.q.sizeofT < 2 ^ 32
  | .pop | .clear => True

theorem fifo_of_ready (hs : 0 < sizeofT) {start : Session α}
    (hstart : Start sizeofT start) (hready : start.Ready) {ops : List (Op α)} {s : Session α}
    (h : Run (guarded Sized (stepOf Session.step)) start ops s) : s.Fifo := by
  have hinv : s.Inv ∧ s.Ready := by
    refine h.invariant (I := fun t => t.Inv ∧ t.Ready) ⟨inv_start hs hstart, hready⟩ ?_
    rintro a op b ⟨ha, hra⟩ ⟨hsz, hab⟩
    have hm : a.Meets op := by
      cases op with
      | push x => exact ⟨hra, hsz⟩
      | pop => trivial
      | reserve n => exact hsz
      | clear => trivial
    obtain ⟨t, ht, hinv, hrt⟩ := ha.step hm (numelems_ne_zero_of_step hab)
    obtain rfl : t = b := Option.some.inj (ht.symm.trans hab)
    exact ⟨hinv, hrt hra⟩
  exact hinv.1.fifo

/-- **The default constructor is safe**: its queue is FIFO in every run that can
count its memory. -/
theorem fifo_of_construct (hs : 0 < sizeofT) (ifront irear : UInt32) {ops : List (Op α)} {s : Session α}
    (h : Run (guarded Sized (stepOf Session.step)) ⟨construct sizeofT ifront irear, [], 0⟩ ops s) :
    s.Fifo :=
  fifo_of_ready hs (.empty ifront irear) (fun _ hb => absurd rfl hb) h

theorem push_constructN (hs : 0 < sizeofT) (hn : n * sizeofT < 2 ^ 32)
    (hpos : 0 < n) (ifront irear : UInt32) (x : α) :
    (constructN sizeofT n ifront irear).push x =
      some { (constructN sizeofT n ifront irear : OsclQueue α) with
        irear := (constructN sizeofT n ifront irear : OsclQueue α).advance irear.toNat
        elems := (allocate sizeofT n).set
          ((constructN sizeofT n ifront irear : OsclQueue α).advance irear.toNat) (some x)
        numelems := 1 } := by
  have hlen := length_allocate (α := α) hs hn
  have hadv : (constructN sizeofT n ifront irear : OsclQueue α).advance irear.toNat < n :=
    advance_lt _ _ hpos
  have hne : ¬ (0 : Nat) = n := by omega
  simp only [constructN] at hadv
  simp only [OsclQueue.push, constructN, if_neg hne, OsclQueue.pushSlot, hlen, if_pos hadv]
  rfl

/-- **The pre-allocating constructor is safe exactly when its index fields happen
to be settled**: otherwise the first push is already lost. -/
theorem fifo_of_constructN_iff (hs : 0 < sizeofT) (hn : n * sizeofT < 2 ^ 32)
    (hpos : 0 < n) (ifront irear : UInt32) (x : α) :
    (∀ (ops : List (Op α)) (s : Session α),
      Run (guarded Sized (stepOf Session.step)) ⟨constructN sizeofT n ifront irear, [], 0⟩ ops s →
        s.Fifo) ↔ Settled (constructN sizeofT n ifront irear : OsclQueue α) := by
  constructor
  · intro h
    have hlen := length_allocate (α := α) hs hn
    have hadv : (constructN sizeofT n ifront irear : OsclQueue α).advance irear.toNat < n :=
      advance_lt _ _ hpos
    have hpush := congrArg (Option.map fun q => (⟨q, [] ++ [x], 0⟩ : Session α))
      (push_constructN hs hn hpos ifront irear x)
    have hf := h [.push x] _ (.snoc (l := []) (.nil _) ⟨fun h0 => absurd h0 (by
      show ¬ (0 : Nat) = n
      omega), hpush⟩)
    refine ⟨(hf.inside Nat.one_ne_zero).1, ?_⟩
    -- `front` would otherwise read a slot that is still raw
    by_contra hne
    have hfront := hf.front Nat.one_ne_zero
    have hraw : ∀ k : Nat, ((allocate sizeofT n : List (Option α))[k]?).join = none := by
      intro k
      unfold allocate
      rw [List.getElem?_replicate]
      split <;> rfl
    have hset := slot_set (q := constructN sizeofT n ifront irear) (some x)
      (show _ < (allocate sizeofT n : List (Option α)).length by rw [hlen]; exact hadv) ifront.toNat
    have hother : ifront.toNat ≠
        (constructN sizeofT n ifront irear : OsclQueue α).advance irear.toNat := fun he => hne he.symm
    rw [if_neg hother] at hset
    exact absurd (hfront.symm.trans (hset.trans (hraw ifront.toNat))) (by simp)
  · intro hset ops s h
    exact fifo_of_ready hs (.preallocated n ifront irear hn) (fun _ _ => hset) h

theorem fifo_of_constructN_iff_four : (∀ (ops : List (Op Nat)) (s : Session Nat),
    Run (guarded Sized (stepOf Session.step)) ⟨constructN 4 4 0 3, [], 0⟩ ops s → s.Fifo) ↔
      Settled (constructN 4 4 0 3 : OsclQueue Nat) :=
  fifo_of_constructN_iff (by decide) (by decide) (by decide) 0 3 0

end Ftke.Queue
