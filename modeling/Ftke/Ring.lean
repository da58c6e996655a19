import Mathlib.Data.Nat.ModEq

/-!
# Ftke.Ring

Index arithmetic of circular buffers: unbounded positions `q`, kept in slot
`q % n`.  Two positions less than `n` apart never share a slot, and stepping
an index with a wrap at `n` is stepping the position.
-/

namespace Ftke.Ring

theorem mod_inj {n p q : Nat} (hpq : p < q + n) (hqp : q < p + n) (h : p % n = q % n) : p = q := by
  rcases Nat.le_total p q with hle | hle
  · have hd : n ∣ q - p := (Nat.modEq_iff_dvd' hle).mp h
    have h0 : q - p = 0 := Nat.eq_zero_of_dvd_of_lt hd (by omega)
    omega
  · have hd : n ∣ p - q := (Nat.modEq_iff_dvd' hle).mp h.symm
    have h0 : p - q = 0 := Nat.eq_zero_of_dvd_of_lt hd (by omega)
    omega

theorem exists_add_mod {n j : Nat} (q : Nat) (hj : j < n) : ∃ d < n, (q + d) % n = j := by
  have hlt := Nat.mod_lt q (Nat.zero_lt_of_lt hj)
  have hq := Nat.div_add_mod q n
  refine ⟨(j + (n - q % n)) % n, Nat.mod_lt _ (Nat.zero_lt_of_lt hj), ?_⟩
  rw [Nat.add_mod_mod, show q + (j + (n - q % n)) = j + n + n * (q / n) by omega,
    Nat.add_mul_mod_self_left, Nat.add_mod_right, Nat.mod_eq_of_lt hj]

/-- Stepping an index with a wrap at `n`. -/
def next (n i : Nat) : Nat := if n ≤ i + 1 then 0 else i + 1

theorem next_mod {n : Nat} (q : Nat) (hn : 0 < n) : next n (q % n) = (q + 1) % n := by
  have hlt := Nat.mod_lt q hn
  have hstep : (q + 1) % n = (q % n + 1) % n := (Nat.mod_add_mod q n 1).symm
  rw [hstep]
  unfold next
  split
  · next hge =>
      have he : q % n + 1 = n := by omega
      rw [he, Nat.mod_self]
  · next hge => exact (Nat.mod_eq_of_lt (by omega)).symm

end Ftke.Ring
