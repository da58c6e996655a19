import Mathlib.Algebra.Ring.Nat
import Mathlib.Data.List.Basic

/-!
# Ftke.Memory

What a routine has written into a buffer of its caller: a partial map from
offsets to values, `none` where nothing was written.  Whether a write went
outside the buffer can then be read off the map, whatever its size is.
-/

namespace Ftke

variable {α : Type*}

/-- The offsets written so far, each with the value last written. -/
abbrev Buffer (α : Type*) := Nat → Option α

namespace Buffer

/-- Nothing written. -/
def empty : Buffer α := fun _ => none

/-- `buf[k] = v`. -/
def store (buf : Buffer α) (k : Nat) (v : α) : Buffer α := fun i => if i = k then some v else buf i

/-- `memcpy(buf + k, vs, length vs)`. -/
def memcpy (buf : Buffer α) (k : Nat) (vs : List α) : Buffer α := fun i =>
  if k ≤ i ∧ i < k + vs.length then vs[i - k]? else buf i

/-- `memset(buf, v, n)`. -/
def memset (buf : Buffer α) (v : α) (n : Nat) : Buffer α := fun i => if i < n then some v else buf i

/-- Something was written at or beyond `n`. -/
def Overrun (buf : Buffer α) (n : Nat) : Prop := ∃ i, n ≤ i ∧ buf i ≠ none

variable {i k : Nat}

theorem store_ne_none (buf : Buffer α) (k : Nat) (v : α) (h : buf i ≠ none) :
    buf.store k v i ≠ none := by
  unfold store
  split
  · exact Option.some_ne_none v
  · exact h

theorem store_self (buf : Buffer α) (k : Nat) (v : α) : buf.store k v k = some v := if_pos rfl

theorem memcpy_nil (buf : Buffer α) (k : Nat) : buf.memcpy k [] = buf :=
  funext fun i => if_neg (by rw [List.length_nil]; omega)

theorem memcpy_inside (buf : Buffer α) {vs : List α} (hi : i < vs.length) :
    buf.memcpy k vs (k + i) = some vs[i] := by
  unfold memcpy
  rw [if_pos ⟨Nat.le_add_right k i, Nat.add_lt_add_left hi k⟩, Nat.add_sub_cancel_left,
    List.getElem?_eq_getElem hi]

theorem memcpy_outside (buf : Buffer α) {vs : List α}
    (h : i < k ∨ k + vs.length ≤ i) : buf.memcpy k vs i = buf i :=
  if_neg (by omega)

theorem memcpy_ne_none (buf : Buffer α) (k : Nat) (vs : List α) (h : buf i ≠ none) :
    buf.memcpy k vs i ≠ none := by
  unfold memcpy
  split
  · next hi =>
    rw [List.getElem?_eq_getElem (by omega)]
    exact Option.some_ne_none _
  · exact h

theorem store_memcpy (buf : Buffer α) (k : Nat) (v : α) (vs : List α) :
    (buf.store k v).memcpy (k + 1) vs = buf.memcpy k (v :: vs) := by
  funext i
  simp only [memcpy, store, List.length_cons]
  by_cases hk : i = k
  · subst hk
    rw [if_neg (by omega), if_pos rfl, if_pos (by omega), Nat.sub_self]
    rfl
  · rw [if_neg hk]
    by_cases hi : k + 1 ≤ i ∧ i < k + 1 + vs.length
    · rw [if_pos hi, if_pos (by omega), show i - k = i - (k + 1) + 1 by omega,
        List.getElem?_cons_succ]
    · rw [if_neg hi, if_neg (by omega)]

theorem memcpy_memcpy (buf : Buffer α) (k : Nat) (us vs : List α) :
    (buf.memcpy k us).memcpy (k + us.length) vs = buf.memcpy k (us ++ vs) := by
  induction us generalizing buf k with
  | nil => rw [memcpy_nil, List.nil_append, List.length_nil, Nat.add_zero]
  | cons u us ih =>
    rw [← store_memcpy, List.cons_append, ← store_memcpy, ← ih, List.length_cons,
      Nat.add_assoc k 1, Nat.add_comm 1]

theorem not_overrun_iff {buf : Buffer α} {n : Nat} : ¬ buf.Overrun n ↔ ∀ i, n ≤ i → buf i = none :=
  ⟨fun h i hi => Decidable.byContradiction fun hne => h ⟨i, hi, hne⟩, fun h ⟨i, hi, hne⟩ => hne (h i hi)⟩

end Buffer

end Ftke
