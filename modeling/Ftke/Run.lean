import Mathlib.Data.List.Basic

/-!
# Ftke.Run

Finite runs of a labelled transition system: what every claim about "any
sequence of operations" ranges over.

A step relation is read as `step s i t` — from state `s` the input `i` may
lead to `t`.  `Run step s is t` is a finite run over the inputs `is`, and
`Run.invariant` is the one induction over runs: a property of the start that
every step keeps holds of every state reached.  A step *function* into
`Option` is the deterministic case; `Run.of_foldlM` turns an evaluation of it
into a run.
-/

namespace Ftke

variable {σ ι : Type*}

/-- `Run step s is t`: from `s` the inputs `is`, in this order, lead to `t`. -/
inductive Run (step : σ → ι → σ → Prop) : σ → List ι → σ → Prop
  | nil (s : σ) : Run step s [] s
  | snoc {s t u : σ} {l : List ι} {i : ι} :
      Run step s l t → step t i u → Run step s (l ++ [i]) u

/-- The step relation of a partial step function. -/
def stepOf (f : σ → ι → Option σ) (s : σ) (i : ι) (t : σ) : Prop := f s i = some t

/-- The steps of `step` taken only where `ok` allows them. -/
def guarded (ok : σ → ι → Prop) (step : σ → ι → σ → Prop) (s : σ) (i : ι) (t : σ) : Prop :=
  ok s i ∧ step s i t

namespace Run

variable {step : σ → ι → σ → Prop}

/-- **Invariant rule**: what holds at the start and is kept by every step
holds of every state reached. -/
theorem invariant {I : σ → Prop} {s t : σ} {is : List ι} (h : Run step s is t) (h0 : I s)
    (hstep : ∀ a i b, I a → step a i b → I b) : I t := by
  induction h with
  | nil => exact h0
  | snoc _ hs ih => exact hstep _ _ _ ih hs

theorem mono {step' : σ → ι → σ → Prop} (hsub : ∀ a i b, step a i b → step' a i b)
    {s t : σ} {is : List ι} (h : Run step s is t) : Run step' s is t := by
  induction h with
  | nil => exact nil s
  | snoc _ hs ih => exact snoc ih (hsub _ _ _ hs)

theorem guarded_of_forall {P : ι → Prop} {s t : σ} {is : List ι} (h : Run step s is t)
    (hP : ∀ i ∈ is, P i) : Run (guarded (fun _ i => P i) step) s is t := by
  induction h with
  | nil => exact nil s
  | snoc _ hs ih =>
    refine snoc (ih fun i hi => hP i (List.mem_append_left _ hi)) ⟨?_, hs⟩
    exact hP _ (List.mem_append_right _ (List.mem_singleton_self _))

theorem cons {s t u : σ} {i : ι} {is : List ι} (hs : step s i t) (h : Run step t is u) :
    Run step s (i :: is) u := by
  induction h with
  | nil => exact snoc (l := []) (nil s) hs
  | snoc _ hs' ih => exact snoc ih hs'

theorem of_foldlM {f : σ → ι → Option σ} {t : σ} :
    ∀ {l : List ι} {s : σ}, l.foldlM f s = some t → Run (stepOf f) s l t
  | [], s, h => by
    have hst : s = t := by simpa using h
    rw [← hst]
    exact nil s
  | i :: l, s, h => by
    cases hf : f s i with
    | none => simp [hf] at h
    | some s' =>
      have htail : l.foldlM f s' = some t := by simpa [hf] using h
      exact cons hf (of_foldlM htail)

theorem of_foldlM_guarded {f : σ → ι → Option σ} {ok : σ → ι → Prop}
    [∀ s i, Decidable (ok s i)] {s t : σ} {l : List ι}
    (h : l.foldlM (fun s i => if ok s i then f s i else none) s = some t) :
    Run (guarded ok (stepOf f)) s l t := by
  refine (of_foldlM h).mono fun a i b hab => ?_
  simp only [stepOf] at hab
  split at hab
  · next hok => exact ⟨hok, hab⟩
  · contradiction

end Run

/-! ## Runs of a partial step function, state by state -/

variable (f : σ → ι → Option σ)

/-- `P` holds of every state that the inputs lead through. -/
def Always (P : σ → Prop) : σ → List ι → Prop
  | s, [] => P s
  | s, i :: l => P s ∧ ∀ t, f s i = some t → Always P t l

/-- `C` holds before every step that is made. -/
def AtEach (C : σ → ι → Prop) : σ → List ι → Prop
  | _, [] => True
  | s, i :: l => ∀ t, f s i = some t → C s i ∧ AtEach C t l

variable {f}

variable {P I : σ → Prop}

theorem Always.last : ∀ {l : List ι} {s t : σ}, Always f P s l → l.foldlM f s = some t → P t
  | [], s, t, h, ht => by
    have hst : s = t := by simpa using ht
    exact hst ▸ h
  | i :: l, s, t, h, ht => by
    cases hf : f s i with
    | none => simp [hf] at ht
    | some u => exact (h.2 u hf).last (by simpa [hf] using ht)

/-- **When a property is kept**: if, from the states of an invariant, a step
keeps the property exactly under its condition, and then the invariant too, the
property holds throughout a run if and only if the condition holds at each step. -/
theorem always_iff {C : σ → ι → Prop} (hP : ∀ s, I s → P s)
    (hkeep : ∀ s i t, I s → f s i = some t → C s i → I t)
    (honly : ∀ s i t, I s → f s i = some t → P t → C s i) :
    ∀ (l : List ι) (s : σ), I s → (Always f P s l ↔ AtEach f C s l)
  | [], s, hI => iff_of_true (hP s hI) trivial
  | i :: l, s, hI => by
    constructor
    · rintro ⟨-, hall⟩ t ht
      have hrest := hall t ht
      have hPt : P t := by
        cases l with
        | nil => exact hrest
        | cons j l => exact hrest.1
      have hC := honly s i t hI ht hPt
      exact ⟨hC, (always_iff hP hkeep honly l t (hkeep s i t hI ht hC)).mp hrest⟩
    · intro hall
      refine ⟨hP s hI, fun t ht => ?_⟩
      obtain ⟨hC, hrest⟩ := hall t ht
      exact (always_iff hP hkeep honly l t (hkeep s i t hI ht hC)).mpr hrest

/-- **When a property of the states and one of the steps are kept**: if, from the states of
an invariant, a step has both exactly under its condition, and then keeps the invariant. -/
theorem always_atEach_iff {Q C : σ → ι → Prop} (hP : ∀ s, I s → P s)
    (hkeep : ∀ s i t, I s → f s i = some t → C s i → I t ∧ Q s i)
    (honly : ∀ s i t, I s → f s i = some t → P t → Q s i → C s i) :
    ∀ (l : List ι) (s : σ), I s → (Always f P s l ∧ AtEach f Q s l ↔ AtEach f C s l)
  | [], s, hI => iff_of_true ⟨hP s hI, trivial⟩ trivial
  | i :: l, s, hI => by
    constructor
    · rintro ⟨⟨-, hall⟩, hsteps⟩ t ht
      have hrest := hall t ht
      obtain ⟨hQ, hlater⟩ := hsteps t ht
      have hPt : P t := by
        cases l with
        | nil => exact hrest
        | cons j l => exact hrest.1
      have hC := honly s i t hI ht hPt hQ
      exact ⟨hC, (always_atEach_iff hP hkeep honly l t (hkeep s i t hI ht hC).1).mp ⟨hrest, hlater⟩⟩
    · intro hall
      have htail (t : σ) (ht : f s i = some t) : Q s i ∧ Always f P t l ∧ AtEach f Q t l := by
        obtain ⟨hC, hrest⟩ := hall t ht
        obtain ⟨hIt, hQ⟩ := hkeep s i t hI ht hC
        exact ⟨hQ, (always_atEach_iff hP hkeep honly l t hIt).mpr hrest⟩
      exact ⟨⟨hP s hI, fun t ht => (htail t ht).2.1⟩, fun t ht => ⟨(htail t ht).1, (htail t ht).2.2⟩⟩

/-- **What holds of each step**: if, from the states of an invariant, a step under its condition has a property and
keeps the invariant, each step of a run whose steps meet the condition has the property. -/
theorem atEach_of_invariant {C P : σ → ι → Prop}
    (hstep : ∀ s i t, I s → f s i = some t → C s i → P s i ∧ I t) :
    ∀ (l : List ι) (s : σ), I s → AtEach f C s l → AtEach f P s l
  | [], _, _, _ => trivial
  | i :: l, s, hI, hall => by
    intro t ht
    obtain ⟨hC, hrest⟩ := hall t ht
    obtain ⟨hP, hIt⟩ := hstep s i t hI ht hC
    exact ⟨hP, atEach_of_invariant hstep l t hIt hrest⟩

end Ftke
