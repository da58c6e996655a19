import Mathlib.Logic.Basic

/-!
# Ftke.Probe

Computations over a table that is looked at entry by entry. A store may have to fill a slot before
it is read, so there are two requests: `check i` fills the slot of entry `i`, and `slot i` reads it.

`eval` answers from the table itself, `run` from a store. A computation that only reads the entry it
has checked last gets the same answers from both (`Guarded.run_eq`).
-/

namespace Ftke

/-- A computation that ends in a `β`, with what it does next given by the answers it gets. -/
inductive Probe (α β : Type*) where
  | done (b : β)
  | check (i : Nat) (next : Probe α β)
  | slot (i : Nat) (next : α → Probe α β)

/-- A store of entries. Filling a slot need not come to an end. -/
structure Store (σ α : Type*) where
  check : Nat → σ → Option σ
  slot : Nat → σ → α

namespace Probe

variable {α β γ σ : Type*} {entries : Nat → α} {store : Store σ α} {Valid : σ → Prop} {within : Nat → Prop}

/-- The result where every slot holds its entry. -/
def eval (entries : Nat → α) : Probe α β → β
  | done b => b
  | check _ next => next.eval entries
  | slot i next => (next (entries i)).eval entries

/-- The result over a store, and what becomes of the store. -/
def run (store : Store σ α) : Probe α β → σ → Option (β × σ)
  | done b, s => some (b, s)
  | check i next, s => (store.check i s).bind (next.run store)
  | slot i next, s => (next (store.slot i s)).run store s

/-- Every result that some answers lead to satisfies `P`. -/
def All (P : β → Prop) : Probe α β → Prop
  | done b => P b
  | check _ next => next.All P
  | slot _ next => ∀ a, (next a).All P

/-- What is done with the result. -/
def map (f : β → γ) : Probe α β → Probe α γ
  | done b => done (f b)
  | check i next => check i (next.map f)
  | slot i next => slot i fun a => (next a).map f

/-- With the answers of the table, only entries within it are checked, and only the entry checked
last is read. -/
def Guarded (entries : Nat → α) (within : Nat → Prop) (last : Option Nat) : Probe α β → Prop
  | done _ => True
  | check i next => within i ∧ next.Guarded entries within (some i)
  | slot i next => last = some i ∧ (next (entries i)).Guarded entries within last

/-- The same, and the result satisfies `Q`. -/
def Yields (entries : Nat → α) (within : Nat → Prop) (Q : β → Prop) (last : Option Nat) : Probe α β → Prop
  | done b => Q b
  | check i next => within i ∧ next.Yields entries within Q (some i)
  | slot i next => last = some i ∧ (next (entries i)).Yields entries within Q last

/-- Nothing is checked, and with the answers of the table only slots that are `ready` are read. -/
def Within (entries : Nat → α) (ready : Nat → Prop) : Probe α β → Prop
  | done _ => True
  | check _ _ => False
  | slot i next => ready i ∧ (next (entries i)).Within entries ready

/-! ## A store that serves a table -/

/-- From a valid state the store fills the slot of every entry of the table with that entry. -/
structure Serves (store : Store σ α) (entries : Nat → α) (within : Nat → Prop) (Valid : σ → Prop) : Prop where
  check : ∀ {s i}, Valid s → within i → ∃ s', store.check i s = some s' ∧ Valid s' ∧ store.slot i s' = entries i

@[simp] theorem eval_map (f : β → γ) (p : Probe α β) : (p.map f).eval entries = f (p.eval entries) := by
  induction p with
  | done b => rfl
  | check i next ih => exact ih
  | slot i next ih => exact ih (entries i)

variable {last : Option Nat} {p : Probe α β}

theorem guarded_map (f : β → γ) (h : p.Guarded entries within last) :
    (p.map f).Guarded entries within last := by
  induction p generalizing last with
  | done b => trivial
  | check i next ih => exact ⟨h.1, ih h.2⟩
  | slot i next ih => exact ⟨h.1, ih (entries i) h.2⟩

theorem Yields.guarded {Q : β → Prop} (h : p.Yields entries within Q last) :
    p.Guarded entries within last := by
  induction p generalizing last with
  | done b => trivial
  | check i next ih => exact ⟨h.1, ih h.2⟩
  | slot i next ih => exact ⟨h.1, ih (entries i) h.2⟩

theorem Yields.eval {Q : β → Prop} (h : p.Yields entries within Q last) :
    Q (p.eval entries) := by
  induction p generalizing last with
  | done b => exact h
  | check i next ih => exact ih h.2
  | slot i next ih => exact ih (entries i) h.2

theorem Yields.mono {Q R : β → Prop} (hQR : ∀ b, Q b → R b)
    (h : p.Yields entries within Q last) : p.Yields entries within R last := by
  induction p generalizing last with
  | done b => exact hQR b h
  | check i next ih => exact ⟨h.1, ih h.2⟩
  | slot i next ih => exact ⟨h.1, ih (entries i) h.2⟩

theorem yields_map {Q : γ → Prop} (f : β → γ)
    (h : p.Yields entries within (fun b => Q (f b)) last) : (p.map f).Yields entries within Q last := by
  induction p generalizing last with
  | done b => exact h
  | check i next ih => exact ⟨h.1, ih h.2⟩
  | slot i next ih => exact ⟨h.1, ih (entries i) h.2⟩

theorem within_map {ready : Nat → Prop} (f : β → γ) (h : p.Within entries ready) :
    (p.map f).Within entries ready := by
  induction p with
  | done b => trivial
  | check i next ih => exact h.elim
  | slot i next ih => exact ⟨h.1, ih (entries i) h.2⟩

theorem Within.run_eq {ready : Nat → Prop} {s : σ} (hslot : ∀ i, ready i → store.slot i s = entries i)
    (h : p.Within entries ready) : p.run store s = some (p.eval entries, s) := by
  induction p with
  | done b => rfl
  | check i next ih => exact h.elim
  | slot i next ih =>
    simp only [run, Probe.eval, hslot i h.1]
    exact ih (entries i) h.2

/-- **A guarded computation gets the entries of the table** from a store that serves it, and leaves
the store valid. -/
theorem Guarded.run_eq (hserves : Serves store entries within Valid)
    (h : p.Guarded entries within last) {s : σ} (hs : Valid s)
    (hlast : ∀ i, last = some i → store.slot i s = entries i) :
    ∃ s', p.run store s = some (p.eval entries, s') ∧ Valid s' := by
  induction p generalizing last s with
  | done b => exact ⟨s, rfl, hs⟩
  | check i next ih =>
    obtain ⟨s₁, hcheck, hs₁, hslot⟩ := hserves.check hs h.1
    obtain ⟨s', hrun, hs'⟩ := ih h.2 hs₁ fun j hj => by
      obtain rfl := Option.some.inj hj
      exact hslot
    exact ⟨s', by simp only [run, hcheck, Option.bind_some, hrun, eval], hs'⟩
  | slot i next ih =>
    have hread := hlast i h.1
    obtain ⟨s', hrun, hs'⟩ := ih (entries i) h.2 hs hlast
    exact ⟨s', by simp only [run, hread, hrun, eval], hs'⟩

theorem Guarded.run_start (hserves : Serves store entries within Valid)
    (h : p.Guarded entries within none) {s : σ} (hs : Valid s) :
    ∃ s', p.run store s = some (p.eval entries, s') ∧ Valid s' :=
  h.run_eq hserves hs fun _ hi => absurd hi (by simp)

theorem Yields.run_start (hserves : Serves store entries within Valid) {Q : β → Prop}
    (h : p.Yields entries within Q none) {s : σ} (hs : Valid s) :
    ∃ b s', p.run store s = some (b, s') ∧ Q b ∧ Valid s' := by
  obtain ⟨s', hrun, hs'⟩ := h.guarded.run_start hserves hs
  exact ⟨p.eval entries, s', hrun, h.eval, hs'⟩

/-! ## A client -/

section Client

variable {δ κ : Type*} (prepare : κ → σ → σ) (handle : δ → κ → Probe α (Option (β × δ)))

/-- The answers of a client that keeps a state of its own between its calls; each call may do
something to the store first. -/
def answers (store : Store σ α) : List κ → δ → σ → Option (List β)
  | [], _, _ => some []
  | c :: calls, d, s =>
    ((handle d c).run store (prepare c s)).bind fun result =>
      result.1.bind fun r => (answers store calls r.2 result.2).map (r.1 :: ·)

/-- The answers of the table itself. -/
def tableAnswers (entries : Nat → α) : List κ → δ → Option (List β)
  | [], _ => some []
  | c :: calls, d => ((handle d c).eval entries).bind fun r => (tableAnswers entries calls r.2).map (r.1 :: ·)

/-- Every call meets its condition on the state before it. -/
def Meets (store : Store σ α) (cond : δ → σ → κ → Prop) : List κ → δ → σ → Prop
  | [], _, _ => True
  | c :: calls, d, s =>
    cond d s c ∧ ∀ r s', (handle d c).run store (prepare c s) = some (some r, s') → Meets store cond calls r.2 s'

variable {prepare handle}

theorem meets_true : ∀ (calls : List κ) {d : δ} {s : σ},
    Meets prepare handle store (fun _ _ _ => True) calls d s
  | [], _, _ => trivial
  | _ :: calls, _, _ => ⟨trivial, fun _ _ _ => meets_true calls⟩

/-- **A client gets the answers of the table** when every call that meets its condition does. -/
theorem answers_eq {cond : δ → σ → κ → Prop}
    (hstep : ∀ d s c, Valid s → cond d s c →
      ∃ s', (handle d c).run store (prepare c s) = some ((handle d c).eval entries, s') ∧ Valid s') :
    ∀ (calls : List κ) {d : δ} {s : σ}, Valid s → Meets prepare handle store cond calls d s →
      answers prepare handle store calls d s = tableAnswers handle entries calls d
  | [], _, _, _, _ => rfl
  | c :: calls, d, s, hs, hmeets => by
    obtain ⟨s', hrun, hs'⟩ := hstep d s c hs hmeets.1
    rw [answers, tableAnswers, hrun, Option.bind_some]
    cases hr : (handle d c).eval entries with
    | none => rfl
    | some r =>
      have hnext := hmeets.2 r s' (hr ▸ hrun)
      simp only [Option.bind_some, answers_eq hstep calls hs' hnext]

theorem answers_map {cond : δ → σ → κ → Prop} {Inv : δ → Prop} {answer : κ → β}
    (hstep : ∀ d s c, Inv d → Valid s → cond d s c →
      ∃ d' s', (handle d c).run store (prepare c s) = some (some (answer c, d'), s') ∧ Inv d' ∧ Valid s') :
    ∀ (calls : List κ) {d : δ} {s : σ}, Inv d → Valid s → Meets prepare handle store cond calls d s →
      answers prepare handle store calls d s = some (calls.map answer)
  | [], _, _, _, _, _ => rfl
  | c :: calls, d, s, hd, hs, hmeets => by
    obtain ⟨d', s', hrun, hd', hs'⟩ := hstep d s c hd hs hmeets.1
    have hnext := hmeets.2 (answer c, d') s' hrun
    rw [answers, hrun]
    simp only [Option.bind_some, answers_map hstep calls hd' hs' hnext, Option.map_some, List.map_cons]

end Client

end Probe

end Ftke
