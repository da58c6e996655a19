import Mathlib.Data.List.Nodup
import Mathlib.Data.List.Perm.Basic

/-!
# Ftke.Links

Objects that carry a link naming the queue they are in, beside the queues'
own vectors: what makes the two agree, and the three ways an operation may
change them together.

`isIn a` is the queue the link of `a` names, `vec q` what the queue `q` holds.
-/

namespace Ftke

variable {ι κ : Type*}

/-- The links and the vectors agree, and no vector holds an object twice. -/
structure Linked (isIn : ι → Option κ) (vec : κ → List ι) : Prop where
  nodup : ∀ q, (vec q).Nodup
  mem_iff : ∀ q a, isIn a = some q ↔ a ∈ vec q

namespace Linked

variable {isIn isIn' : ι → Option κ} {vec vec' : κ → List ι} {a : ι} {q r : κ}

theorem not_mem (h : Linked isIn vec) (ha : isIn a = none) (q : κ) : a ∉ vec q := by
  intro hmem
  have hq := (h.mem_iff q a).mpr hmem
  rw [ha] at hq
  contradiction

theorem eq_of_mem (h : Linked isIn vec) (hq : a ∈ vec q) (hr : a ∈ vec r) : q = r := by
  have h1 := (h.mem_iff q a).mpr hq
  rw [(h.mem_iff r a).mpr hr] at h1
  exact (Option.some.inj h1).symm

theorem enter (h : Linked isIn vec) (ha : isIn a = none) (hin : isIn' a = some q)
    (hother : ∀ b, b ≠ a → isIn' b = isIn b) (hq : (vec' q).Perm (a :: vec q))
    (hvec : ∀ r, r ≠ q → vec' r = vec r) : Linked isIn' vec' where
  nodup r := by
    by_cases hr : r = q
    · rw [hr, hq.nodup_iff]
      exact List.nodup_cons.mpr ⟨h.not_mem ha q, h.nodup q⟩
    · rw [hvec r hr]
      exact h.nodup r
  mem_iff r b := by
    by_cases hb : b = a
    · subst hb
      rw [hin]
      by_cases hr : r = q
      · subst hr
        simp [hq.mem_iff]
      · rw [hvec r hr]
        have hne : ¬ some q = some r := fun heq => hr (Option.some.inj heq).symm
        simp [hne, h.not_mem ha r]
    · rw [hother b hb, h.mem_iff]
      by_cases hr : r = q
      · rw [hr, hq.mem_iff]
        simp [hb]
      · rw [hvec r hr]

theorem leave (h : Linked isIn vec) (hin : isIn' a = none)
    (hother : ∀ b, b ≠ a → isIn' b = isIn b) (hq : (vec q).Perm (a :: vec' q))
    (hvec : ∀ r, r ≠ q → vec' r = vec r) : Linked isIn' vec' := by
  have hnodup : (a :: vec' q).Nodup := hq.nodup_iff.mp (h.nodup q)
  have ha : a ∈ vec q := hq.mem_iff.mpr List.mem_cons_self
  refine ⟨fun r => ?_, fun r b => ?_⟩
  · by_cases hr : r = q
    · rw [hr]
      exact (List.nodup_cons.mp hnodup).2
    · rw [hvec r hr]
      exact h.nodup r
  · by_cases hb : b = a
    · subst hb
      have hnot : b ∉ vec' r := by
        by_cases hr : r = q
        · rw [hr]
          exact (List.nodup_cons.mp hnodup).1
        · rw [hvec r hr]
          exact fun hmem => hr (h.eq_of_mem hmem ha)
      simp [hin, hnot]
    · rw [hother b hb, h.mem_iff]
      by_cases hr : r = q
      · rw [hr, hq.mem_iff]
        simp [hb]
      · rw [hvec r hr]

theorem congr (h : Linked isIn vec) (hin : ∀ b, isIn' b = isIn b) (hvec : ∀ r, vec' r = vec r) :
    Linked isIn' vec' :=
  ⟨fun r => by rw [hvec]; exact h.nodup r, fun r b => by rw [hin, hvec]; exact h.mem_iff r b⟩

end Linked

end Ftke
