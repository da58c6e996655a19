import Ftke.Ring
import Mathlib.Algebra.BigOperators.Group.List.Basic
import Mathlib.Data.List.ReduceOption

/-!
# Ftke.Slots

Lists of slots, some of them empty: what is counted over the full ones when a slot changes (`total_set`), and the
first full one of a walk around them (`exists_first`).
-/

namespace Ftke.Slots

variable {β : Type*}

/-! ## Counting -/

/-- The sum of `f` over the full slots. -/
def total (f : β → Nat) (vec : List (Option β)) : Nat := (vec.reduceOption.map f).sum

@[simp] theorem total_nil (f : β → Nat) : total f [] = 0 := rfl

@[simp] theorem total_none (f : β → Nat) (vec : List (Option β)) : total f (none :: vec) = total f vec := rfl

@[simp] theorem total_some (f : β → Nat) (x : β) (vec : List (Option β)) :
    total f (some x :: vec) = f x + total f vec := by
  simp [total]

theorem total_cons (f : β → Nat) (slot : Option β) (vec : List (Option β)) :
    total f (slot :: vec) = slot.elim 0 f + total f vec := by
  cases slot <;> simp

@[simp] theorem total_replicate (f : β → Nat) (n : Nat) : total f (List.replicate n none) = 0 := by
  simp [total, List.reduceOption_replicate_none]

theorem total_one (vec : List (Option β)) : total (fun _ => 1) vec = vec.reduceOption.length := by
  simp [total]

/-- **A slot changes**: the sum loses what was in it, and gains what is. -/
theorem total_set (f : β → Nat) (new : Option β) : ∀ {vec : List (Option β)} {k : Nat} {old : Option β},
    vec[k]? = some old → total f (vec.set k new) + old.elim 0 f = total f vec + new.elim 0 f
  | [], k, old, h => by simp at h
  | slot :: vec, 0, old, h => by
    obtain rfl : slot = old := by simpa using h
    rw [List.set_cons_zero, total_cons, total_cons]
    omega
  | slot :: vec, k + 1, old, h => by
    have hrest := total_set f new (show vec[k]? = some old by simpa using h)
    rw [List.set_cons_succ, total_cons, total_cons]
    omega

variable {vec : List (Option β)}

theorem reduceOption_eq_nil (h : ∀ k : Nat, k < vec.length → vec[k]? = some none) :
    vec.reduceOption = [] := by
  rw [List.reduceOption_eq_nil_iff]
  refine ⟨vec.length, List.ext_getElem? fun (k : Nat) => ?_⟩
  rw [List.getElem?_replicate]
  split
  · next hk => exact h k hk
  · next hk => exact List.getElem?_eq_none (by omega)

theorem mem_reduceOption {x : β} :
    x ∈ vec.reduceOption ↔ ∃ k : Nat, vec[k]? = some (some x) := by
  rw [List.reduceOption_mem_iff, List.mem_iff_getElem?]

/-! ## Walking around -/

/-- **The first full slot**: from any position a walk around the slots comes to one, if there is one. -/
theorem exists_first {n : Nat} (hlength : vec.length = n) (q : Nat) {k : Nat} {x : β}
    (h : vec[k]? = some (some x)) :
    ∃ d < n, ∃ y, vec[(q + d) % n]? = some (some y) ∧ ∀ i < d, vec[(q + i) % n]? = some none := by
  have hk : k < n := hlength ▸ (List.getElem?_eq_some_iff.mp h).1
  obtain ⟨d, hd, hslot⟩ := Ring.exists_add_mod q hk
  -- the least distance to a full slot
  induction d using Nat.strong_induction_on generalizing k x with
  | _ d ih =>
    by_cases hfree : ∀ i < d, vec[(q + i) % n]? = some none
    · exact ⟨d, hd, x, hslot ▸ h, hfree⟩
    · obtain ⟨i, hi⟩ := Classical.not_forall.mp hfree
      obtain ⟨hid, hfull⟩ := Classical.not_imp.mp hi
      have hlt : (q + i) % n < vec.length := hlength ▸ Nat.mod_lt _ (by omega)
      obtain ⟨slot, hslot'⟩ : ∃ slot, vec[(q + i) % n]? = some slot := ⟨_, List.getElem?_eq_getElem hlt⟩
      cases slot with
      | none => exact absurd hslot' hfull
      | some y => exact ih i hid hslot' (by omega) (by omega) rfl

end Ftke.Slots
