import Mathlib.Data.List.Basic

/-!
# Ftke.Overwrite

Copies into a buffer: `overwrite memory offset data` is the buffer with the elements from an
offset on replaced.

* `overwrite_overwrite` — a copy behind a copy is one copy;
* `flatten_modify_overwrite` — a copy into one of several fragments is a copy into them all.
-/

namespace Ftke

variable {α : Type*} {memory data : List α} {offset : Nat}

/-- The elements from an offset on are replaced. -/
def overwrite (memory : List α) (offset : Nat) (data : List α) : List α :=
  memory.take offset ++ data ++ memory.drop (offset + data.length)

theorem length_overwrite (h : offset + data.length ≤ memory.length) :
    (overwrite memory offset data).length = memory.length := by
  simp only [overwrite, List.length_append, List.length_take, List.length_drop]
  omega

theorem take_overwrite (h : offset ≤ memory.length) :
    (overwrite memory offset data).take (offset + data.length) = memory.take offset ++ data := by
  have hlen : (memory.take offset ++ data).length = offset + data.length := by
    rw [List.length_append, List.length_take, Nat.min_eq_left h]
  rw [overwrite, ← hlen, List.take_left]

theorem drop_overwrite (h : offset ≤ memory.length) (n : Nat) :
    (overwrite memory offset data).drop (offset + data.length + n) =
      memory.drop (offset + data.length + n) := by
  have hlen : (memory.take offset ++ data).length = offset + data.length := by
    rw [List.length_append, List.length_take, Nat.min_eq_left h]
  rw [overwrite, ← hlen, List.drop_append, List.drop_drop]
  simp

theorem overwrite_overwrite (h : offset ≤ memory.length) (more : List α) :
    overwrite (overwrite memory offset data) (offset + data.length) more = overwrite memory offset (data ++ more) := by
  have hdrop : (overwrite memory offset data).drop (offset + data.length + more.length) = _ :=
    drop_overwrite h more.length
  rw [overwrite, take_overwrite h, hdrop, overwrite]
  simp only [List.append_assoc, List.length_append, Nat.add_assoc]

theorem append_overwrite (front : List α) :
    front ++ overwrite memory offset data = overwrite (front ++ memory) (front.length + offset) data := by
  rw [overwrite, overwrite, Nat.add_assoc, List.take_length_add_append, List.drop_length_add_append]
  simp only [List.append_assoc]

theorem overwrite_append (back : List α) (h : offset + data.length ≤ memory.length) :
    overwrite memory offset data ++ back = overwrite (memory ++ back) offset data := by
  rw [overwrite, overwrite, List.take_append_of_le_length (by omega), List.drop_append_of_le_length h]
  simp only [List.append_assoc]

/-- **A copy into a fragment** is a copy into the fragments together. -/
theorem flatten_modify_overwrite : ∀ {fragments : List (List α)} {index : Nat},
    index < fragments.length → offset + data.length ≤ (fragments.getD index []).length →
      (fragments.modify index fun fragment => overwrite fragment offset data).flatten =
        overwrite fragments.flatten ((fragments.take index).flatten.length + offset) data
  | [], index, hlt, _ => absurd hlt (Nat.not_lt_zero index)
  | fragment :: fragments, 0, _, hfit => by
    rw [List.modify_zero_cons, List.flatten_cons, List.flatten_cons, List.take_zero, List.flatten_nil,
      List.length_nil, Nat.zero_add]
    exact overwrite_append fragments.flatten hfit
  | fragment :: fragments, index + 1, hlt, hfit => by
    have hlt : index < fragments.length := Nat.lt_of_succ_lt_succ hlt
    have ih := flatten_modify_overwrite hlt hfit
    rw [List.modify_succ_cons, List.flatten_cons, ih, List.flatten_cons, List.take_succ_cons, List.flatten_cons,
      List.length_append, Nat.add_assoc]
    exact append_overwrite fragment

end Ftke
