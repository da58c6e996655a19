import Mathlib.Data.List.Basic

/-!
# Ftke.Dataflow

Backward may-analysis on a graph, and loops that repeat a pass until it
reports no change.

`Before p n` says that the fact `p` is needed on entry to `n`: some path from
`n` generates it before any node of the path kills it.  A family of sets that
holds what the nodes generate and is closed under the edges contains all such
facts (`before_of_closed`); nothing else needs to be in it.

`repeatPass` runs a pass as long as it reports a change.  If every change makes
a bounded measure grow, the loop ends (`exists_repeatPass`), and it ends in a
state that the pass leaves unchanged (`of_repeatPass`).
-/

namespace Ftke.Dataflow

/-! ## Facts needed on entry to a node -/

section Graph

variable {ν : Type*} (edge : ν → ν → Prop) (gen kill : ν → Prop)

/-- A path from the node generates the fact before it kills it. -/
inductive Before : ν → Prop
  | here {n : ν} : gen n → Before n
  | later {n m : ν} : ¬kill n → edge n m → Before m → Before n

variable {edge gen kill}

/-- **Least solution**: a set of nodes that holds the generating ones and is closed under the edges
contains every node where the fact is needed. -/
theorem before_of_closed {S : ν → Prop} (hgen : ∀ n, gen n → S n)
    (hedge : ∀ n m, ¬kill n → edge n m → S m → S n) {n : ν} (h : Before edge gen kill n) : S n := by
  induction h with
  | here hg => exact hgen _ hg
  | later hk he _ ih => exact hedge _ _ hk he ih

theorem Before.generated {n : ν} (h : Before edge gen kill n) : ∃ m, gen m :=
  before_of_closed (S := fun _ => ∃ m, gen m) (fun n hg => ⟨n, hg⟩) (fun _ _ _ _ hS => hS) h

end Graph

/-! ## Passes with a change flag -/

section Passes

variable {σ ι : Type*}

/-- One more operation of a pass: the state it leaves, and whether anything has changed so far. -/
def andThen (acc : σ × Bool) (op : σ → σ × Bool) : σ × Bool :=
  ((op acc.1).1, acc.2 || (op acc.1).2)

/-- The loop: the pass is repeated while it reports a change. -/
def repeatPass (pass : σ → σ × Bool) : Nat → σ → Option σ
  | 0, _ => none
  | fuel + 1, s => if (pass s).2 then repeatPass pass fuel (pass s).1 else some (pass s).1

/-- What a step that keeps `I` does: without a change it leaves the state, with one the measure grows. -/
structure Grows (I : σ → Prop) (measure : σ → Nat) (s : σ) (r : σ × Bool) : Prop where
  keeps : I r.1
  same : r.2 = false → r.1 = s
  le : measure s ≤ measure r.1
  lt : r.2 = true → measure s < measure r.1

variable {I : σ → Prop} {measure : σ → Nat} {pass : σ → σ × Bool} {run : ι → σ → σ × Bool}

theorem Grows.refl {s : σ} (h : I s) : Grows I measure s (s, false) :=
  ⟨h, fun _ => rfl, Nat.le_refl _, fun hc => Bool.noConfusion hc⟩

theorem Grows.andThen {s : σ} {acc : σ × Bool} {op : σ → σ × Bool} (h : Grows I measure s acc)
    (hop : Grows I measure acc.1 (op acc.1)) : Grows I measure s (andThen acc op) where
  keeps := hop.keeps
  same := by
    intro hsame
    obtain ⟨h1, h2⟩ := Bool.or_eq_false_iff.mp hsame
    exact (hop.same h2).trans (h.same h1)
  le := Nat.le_trans h.le hop.le
  lt := by
    intro hchanged
    cases Bool.or_eq_true_iff.mp hchanged with
    | inl h1 => exact Nat.lt_of_lt_of_le (h.lt h1) hop.le
    | inr h2 => exact Nat.lt_of_le_of_lt h.le (hop.lt h2)

theorem grows_foldl : ∀ {ops : List ι} {s : σ} {acc : σ × Bool},
    (∀ op ∈ ops, ∀ s, I s → Grows I measure s (run op s)) → Grows I measure s acc →
      Grows I measure s (ops.foldl (fun acc op => andThen acc (run op)) acc)
  | [], _, _, _, h => h
  | op :: ops, _, _, hop, h => by
    rw [List.foldl_cons]
    have hrest : ∀ op' ∈ ops, ∀ s, I s → Grows I measure s (run op' s) :=
      fun op' hmem => hop op' (List.mem_cons_of_mem _ hmem)
    exact grows_foldl hrest (h.andThen (hop op List.mem_cons_self _ h.keeps))

theorem flag_of_foldl : ∀ (ops : List ι) {acc : σ × Bool},
    (ops.foldl (fun acc op => andThen acc (run op)) acc).2 = false → acc.2 = false
  | [], _, h => h
  | _ :: ops, _, h => (Bool.or_eq_false_iff.mp (flag_of_foldl ops h)).1

/-- **A pass without a change**: none of its operations changes the state. -/
theorem unchanged_of_foldl : ∀ {ops : List ι} {s : σ},
    (∀ op ∈ ops, ∀ s, I s → Grows I measure s (run op s)) → I s →
      (ops.foldl (fun acc op => andThen acc (run op)) (s, false)).2 = false → ∀ op ∈ ops, run op s = (s, false)
  | [], _, _, _, _ => by simp
  | op :: ops, s, hop, hs, h => by
    have hgrows := hop op List.mem_cons_self s hs
    rw [List.foldl_cons] at h
    have hflag : (false || (run op s).2) = false := flag_of_foldl ops h
    have hfirst : (run op s).2 = false := by simpa using hflag
    have hsame : run op s = (s, false) := Prod.ext (hgrows.same hfirst) hfirst
    have hacc : andThen (s, false) (run op) = (s, false) := by
      rw [andThen, hsame]
      rfl
    rw [hacc] at h
    intro op' hmem
    cases List.mem_cons.mp hmem with
    | inl heq => rw [heq, hsame]
    | inr hmem => exact unchanged_of_foldl (fun op' hmem => hop op' (List.mem_cons_of_mem _ hmem)) hs h op' hmem

/-- **The loop ends**: each change makes the measure grow, and it is bounded. -/
theorem exists_repeatPass {bound : Nat} (hpass : ∀ s, I s → Grows I measure s (pass s))
    (hbound : ∀ s, I s → measure s ≤ bound) :
    ∀ {fuel : Nat} {s : σ}, I s → bound < measure s + fuel → ∃ t, repeatPass pass fuel s = some t
  | 0, s, hs, hfuel => absurd (hbound s hs) (by omega)
  | fuel + 1, s, hs, hfuel => by
    rw [repeatPass]
    by_cases hchanged : (pass s).2 = true
    · have hlt := (hpass s hs).lt hchanged
      rw [if_pos hchanged]
      exact exists_repeatPass hpass hbound (hpass s hs).keeps (by omega)
    · rw [if_neg hchanged]
      exact ⟨_, rfl⟩

/-- **Where the loop ends** the pass reports no change. -/
theorem of_repeatPass (hpass : ∀ s, I s → Grows I measure s (pass s)) :
    ∀ {fuel : Nat} {s t : σ}, I s → repeatPass pass fuel s = some t → I t ∧ pass t = (t, false)
  | 0, _, _, _, h => by simp [repeatPass] at h
  | fuel + 1, s, t, hs, h => by
    rw [repeatPass] at h
    split at h
    · exact of_repeatPass hpass (hpass s hs).keeps h
    · next hchanged =>
        have hflag : (pass s).2 = false := by simpa using hchanged
        have hsame := (hpass s hs).same hflag
        have hst : s = t := hsame.symm.trans (Option.some.inj h)
        rw [← hst]
        exact ⟨hs, Prod.ext hsame hflag⟩

theorem repeatPass_mono : ∀ {fuel more : Nat} {s t : σ}, repeatPass pass fuel s = some t → fuel ≤ more →
    repeatPass pass more s = some t
  | 0, _, _, _, h, _ => by simp [repeatPass] at h
  | fuel + 1, 0, _, _, _, hle => absurd hle (by omega)
  | fuel + 1, more + 1, s, t, h, hle => by
    rw [repeatPass] at h ⊢
    split at h
    · next hchanged =>
        rw [if_pos hchanged]
        exact repeatPass_mono h (by omega)
    · next hchanged =>
        rw [if_neg hchanged]
        exact h

end Passes

end Ftke.Dataflow
