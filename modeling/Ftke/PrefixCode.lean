import Mathlib.Data.List.Basic
import Mathlib.Data.List.Infix

/-!
# Ftke.PrefixCode

Strings made of characters, each of several symbols, of which none begins with another.

* `PrefixCode` — at most one character starts a string;
* `Made` — the strings that are sequences of characters;
* `exists_longest`, `IsLongest.unique` — the characters with which a string begins;
* `IsLongest.made_iff`, `IsLongest.le` — they are the longest such beginning.
-/

namespace Ftke

variable {α : Type*} {P : List α → Prop}

/-- No character is empty, and at most one starts a string. -/
structure PrefixCode (P : List α → Prop) : Prop where
  nonempty : ∀ {c}, P c → c ≠ []
  unique : ∀ {c c' bs}, P c → P c' → c <+: bs → c' <+: bs → c = c'

/-- A sequence of characters. -/
def Made (P : List α → Prop) (bs : List α) : Prop := ∃ chars : List (List α), (∀ c ∈ chars, P c) ∧ chars.flatten = bs

/-- The characters with which a string begins, up to what is not a character. -/
structure IsLongest (P : List α → Prop) (bs : List α) (chars : List (List α)) (rest : List α) : Prop where
  eq : bs = chars.flatten ++ rest
  chars : ∀ c ∈ chars, P c
  stops : ∀ c, P c → ¬c <+: rest

namespace PrefixCode

theorem length_pos (hP : PrefixCode P) {c : List α} (h : P c) : 0 < c.length :=
  List.length_pos_of_ne_nil (hP.nonempty h)

theorem of_length {length : α → Nat} (h : ∀ c, P c → ∃ a t, c = a :: t ∧ c.length = length a) : PrefixCode P where
  nonempty hc := by
    obtain ⟨a, t, rfl, -⟩ := h _ hc
    exact List.cons_ne_nil a t
  unique {c c' bs} hc hc' hsub hsub' := by
    obtain ⟨a, t, rfl, hlen⟩ := h c hc
    obtain ⟨a', t', rfl, hlen'⟩ := h c' hc'
    obtain ⟨r, hr⟩ := hsub
    obtain ⟨r', hr'⟩ := hsub'
    have hsame : a :: t ++ r = a' :: t' ++ r' := hr.trans hr'.symm
    have hhead : a = a' := by simpa using congrArg List.head? hsame
    rw [← hhead] at hlen'
    exact (List.append_inj hsame (hlen.trans hlen'.symm)).1

theorem exists_longest (hP : PrefixCode P) (bs : List α) : ∃ chars rest, IsLongest P bs chars rest := by
  induction hn : bs.length using Nat.strongRecOn generalizing bs with
  | _ n ih =>
    by_cases hchar : ∃ c, P c ∧ c <+: bs
    · obtain ⟨c, hc, r, rfl⟩ := hchar
      have hpos := hP.length_pos hc
      obtain ⟨chars, rest, heq, hall, hstops⟩ := ih r.length (by rw [← hn, List.length_append]; omega) r rfl
      refine ⟨c :: chars, rest, ?_, ?_, hstops⟩
      · rw [List.flatten_cons, List.append_assoc, ← heq]
      · intro d hd
        obtain rfl | hd := List.mem_cons.mp hd
        · exact hc
        · exact hall d hd
    · exact ⟨[], bs, rfl, by simp, fun c hc hsub => hchar ⟨c, hc, hsub⟩⟩

end PrefixCode

namespace IsLongest

theorem initial (hP : PrefixCode P) : ∀ {chars' chars : List (List α)} {bs rest : List α},
    IsLongest P bs chars rest → (∀ c ∈ chars', P c) → chars'.flatten <+: bs → chars' <+: chars
  | [], _, _, _, _, _, _ => List.nil_prefix
  | c :: chars', chars, bs, rest, h, hall, hsub => by
    have hc := hall c List.mem_cons_self
    rw [List.flatten_cons] at hsub
    have hfirst : c <+: bs := (List.prefix_append c _).trans hsub
    cases chars with
    | nil =>
      rw [h.eq, List.flatten_nil, List.nil_append] at hfirst
      exact absurd hfirst (h.stops c hc)
    | cons d chars =>
      have hd := h.chars d List.mem_cons_self
      have heq := h.eq
      rw [List.flatten_cons, List.append_assoc] at heq
      obtain rfl : c = d := hP.unique hc hd hfirst ⟨_, heq.symm⟩
      have hrest : chars'.flatten <+: chars.flatten ++ rest := by
        rw [heq] at hsub
        exact (List.prefix_append_right_inj c).mp hsub
      have htail : IsLongest P (chars.flatten ++ rest) chars rest :=
        ⟨rfl, fun e he => h.chars e (List.mem_cons_of_mem c he), h.stops⟩
      exact (List.prefix_cons_inj c).mpr (htail.initial hP (fun e he => hall e (List.mem_cons_of_mem c he)) hrest)

theorem le (hP : PrefixCode P) {bs rest : List α} {chars chars' : List (List α)} (h : IsLongest P bs chars rest)
    (hall : ∀ c ∈ chars', P c) (hsub : chars'.flatten <+: bs) : chars'.length ≤ chars.length :=
  (h.initial hP hall hsub).length_le

variable {bs rest rest' : List α}

theorem unique (hP : PrefixCode P) {chars chars' : List (List α)}
    (h : IsLongest P bs chars rest) (h' : IsLongest P bs chars' rest') : chars = chars' ∧ rest = rest' := by
  have hsub := h'.initial hP h.chars ⟨rest, h.eq.symm⟩
  have hsub' := h.initial hP h'.chars ⟨rest', h'.eq.symm⟩
  obtain rfl : chars = chars' := hsub.eq_of_length (Nat.le_antisymm hsub.length_le hsub'.length_le)
  exact ⟨rfl, List.append_cancel_left (h.eq.symm.trans h'.eq)⟩

theorem made_iff (hP : PrefixCode P) {chars : List (List α)} (h : IsLongest P bs chars rest) :
    Made P bs ↔ rest = [] := by
  constructor
  · rintro ⟨chars', hall, rfl⟩
    have hmade : IsLongest P chars'.flatten chars' [] := by
      refine ⟨(List.append_nil _).symm, hall, fun c hc hsub => hP.nonempty hc (List.prefix_nil.mp hsub)⟩
    exact (h.unique hP hmade).2
  · rintro rfl
    exact ⟨chars, h.chars, by rw [h.eq, List.append_nil]⟩

/-- With more characters, of which the first are some, what follows them is taken up where these stop. -/
theorem append {Q : List α → Prop} {chars more : List (List α)}
    (h : IsLongest P bs chars rest) (h' : IsLongest Q rest more rest') (hsub : ∀ c, P c → Q c) :
    IsLongest Q bs (chars ++ more) rest' where
  eq := by rw [h.eq, h'.eq, List.flatten_append, List.append_assoc]
  chars c hc := by
    obtain hc | hc := List.mem_append.mp hc
    · exact hsub c (h.chars c hc)
    · exact h'.chars c hc
  stops := h'.stops

end IsLongest

end Ftke
