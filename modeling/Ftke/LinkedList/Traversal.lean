import Ftke.LinkedList.Cursor
import Ftke.Run

/-!
# Ftke.LinkedList.Traversal

A traversal of the list while it changes.

An element that is in the list at `get_first`, and is neither removed nor moved, stays on
its side of the iterator until `get_next` delivers it, and is passed from then on
(`Tracks`).  Where `get_next` returns 0 nothing is ahead, so that it has been delivered,
once (`deliveredOnce_of_run`).
-/

namespace Ftke.LinkedList

variable {ι α : Type*}

/-- An element stays on its side of the iterator. -/
def Stays (c c' : Cursor ι) (x : ι) : Prop := (x ∈ c.passed → x ∈ c'.passed) ∧ (x ∈ c.ahead → x ∈ c'.ahead)

theorem stays_refl (c : Cursor ι) (x : ι) : Stays c c x := ⟨id, id⟩

theorem stays_addLast (c : Cursor ι) (a x : ι) : Stays c (c.addLast a) x :=
  ⟨id, List.mem_append_left _⟩

theorem stays_addFirst (c : Cursor ι) (a x : ι) : Stays c (c.addFirst a) x := by
  rw [Cursor.addFirst]
  split
  · next hnil => exact ⟨by simp [hnil], List.mem_cons_of_mem a⟩
  · exact ⟨List.mem_cons_of_mem a, id⟩

theorem Stays.trans {c c' c'' : Cursor ι} {x : ι} (h : Stays c c' x) (h' : Stays c' c'' x) : Stays c c'' x :=
  ⟨h'.1 ∘ h.1, h'.2 ∘ h.2⟩

/-- The links lead from the head through the elements, of which the tail is the last and
`num_elements` the number. -/
def Describes (s : LinkedList ι α) : Prop :=
  ∃ l, SingleList.Segment s.next s.head l none ∧ l.Nodup ∧ s.tail = l.getLast? ∧ s.num_elements = l.length

theorem Represents.describes {s : LinkedList ι α} {c : Cursor ι} (h : s.Represents c) : s.Describes :=
  ⟨c.all, h.chain, h.nodup, h.tail, h.num⟩

variable [DecidableEq ι]

theorem stays_remove (c : Cursor ι) {a x : ι} (h : x ≠ a) : Stays c (c.remove a) x :=
  ⟨(List.mem_erase_of_ne h).mpr, (List.mem_erase_of_ne h).mpr⟩

/-! ## Runs -/

/-- `allocate` returns no element that is still in the list. -/
def Allowed (s : LinkedList ι α) : Op ι α → Prop
  | .addElement (some ptr) _ => ptr ∉ s.elements
  | .addToFront (some ptr) _ => ptr ∉ s.elements
  | _ => True

instance (s : LinkedList ι α) (op : Op ι α) : Decidable (s.Allowed op) := by
  unfold Allowed
  split <;> infer_instance

/-- The element that an operation removes, or moves from where it is. -/
def touched (s : LinkedList ι α) : Op ι α → Option ι
  | .removeData test => s.elements.find? fun a => test (s.data a)
  | .removeIndex index => if index < 0 then none else s.elements[index.toNat]?
  | .moveToEnd test => (s.elements.find? fun a => test (s.data a)).filter fun a => s.tail ≠ some a
  | .moveToFront test => (s.elements.find? fun a => test (s.data a)).filter fun a => s.head ≠ some a
  | _ => none

/-- An operation of a traversal, which does not start anew and leaves `x` where it is. -/
def Keeps (x : ι) (s : LinkedList ι α) (op : Op ι α) : Prop :=
  s.Allowed op ∧ s.touched op ≠ some x ∧
    match op with
    | .getFirst => False
    | _ => True

instance (x : ι) (s : LinkedList ι α) (op : Op ι α) : Decidable (s.Keeps x op) := by
  unfold Keeps
  cases op <;> infer_instance

/-- The list, and what it has delivered. -/
abbrev Logged (ι α : Type*) := LinkedList ι α × List (ι × α)

/-- An operation, with what it delivers. -/
def step (r : Logged ι α) (op : Op ι α) : Option (Logged ι α) :=
  (r.1.apply op).map fun t => (t.1, r.2 ++ t.2.toList)

/-! ## One operation -/

/-- What an operation does with an element that it leaves where it is: it stays on its side,
or the first one ahead is delivered and passed. -/
def Leaves (s : LinkedList ι α) (c : Cursor ι) (r : LinkedList ι α × Option (ι × α)) (c' : Cursor ι) (x : ι) :
    Prop :=
  r.1.data x = s.data x ∧
    ((r.2 = none ∧ Stays c c' x) ∨
      ∃ a l, c.ahead = a :: l ∧ r.2 = some (a, s.data a) ∧ c' = ⟨c.passed ++ [a], l⟩)

/-- **One operation**: it comes back, and the list is that of the elements it leaves; one that
it leaves where it is stays on its side, or is the one delivered. -/
theorem Represents.apply {s : LinkedList ι α} {c : Cursor ι} (h : s.Represents c) {op : Op ι α}
    (hop : s.Allowed op) :
    ∃ r c', s.apply op = some r ∧ r.1.Represents c' ∧ ∀ x ∈ c.all, s.Keeps x op → Leaves s c r c' x := by
  cases op with
  | getFirst =>
    rcases h.getFirst with ⟨hget, -⟩ | ⟨a, l, hall, hget, hrep⟩
    · exact ⟨_, c, rfl, by rw [hget]; exact h, fun x _ hkeep => hkeep.2.2.elim⟩
    · exact ⟨_, _, rfl, by rw [hget]; exact hrep, fun x _ hkeep => hkeep.2.2.elim⟩
  | getNext =>
    rcases h.getNext with ⟨hget, -⟩ | ⟨a, l, hahead, hget, hrep⟩
    · exact ⟨(s, none), c, by simp [LinkedList.apply, hget, delivered], h, fun x _ _ =>
        ⟨rfl, Or.inl ⟨rfl, stays_refl c x⟩⟩⟩
    · exact ⟨_, _, by rw [LinkedList.apply, hget]; rfl, hrep, fun x _ _ =>
        ⟨rfl, Or.inr ⟨a, l, hahead, rfl, rfl⟩⟩⟩
  | addElement ptr new_element =>
    cases ptr with
    | none => exact ⟨_, c, rfl, h, fun x _ _ => ⟨rfl, Or.inl ⟨rfl, stays_refl c x⟩⟩⟩
    | some ptr =>
      have hfresh : ptr ∉ c.all := h.elements ▸ hop
      refine ⟨_, _, rfl, h.addElement hfresh new_element, fun x hx _ =>
        ⟨?_, Or.inl ⟨rfl, stays_addLast c ptr x⟩⟩⟩
      have hne : x ≠ ptr := ne_of_mem_of_not_mem hx hfresh
      simp only [LinkedList.addElement]
      cases s.tail <;> exact Function.update_of_ne hne _ _
  | addToFront ptr new_element =>
    cases ptr with
    | none => exact ⟨_, c, rfl, h, fun x _ _ => ⟨rfl, Or.inl ⟨rfl, stays_refl c x⟩⟩⟩
    | some ptr =>
      have hfresh : ptr ∉ c.all := h.elements ▸ hop
      refine ⟨_, _, rfl, h.addToFront hfresh new_element, fun x hx _ =>
        ⟨?_, Or.inl ⟨rfl, stays_addFirst c ptr x⟩⟩⟩
      have hne : x ≠ ptr := ne_of_mem_of_not_mem hx hfresh
      simp only [LinkedList.addToFront]
      cases s.head <;> exact Function.update_of_ne hne _ _
  | removeData test =>
    rcases h.removeData test with ⟨-, hrem⟩ | ⟨a, t, hfind, hrem, hdata, hrep⟩
    · exact ⟨(s, none), c, by simp [LinkedList.apply, hrem], h, fun x _ _ => ⟨rfl, Or.inl ⟨rfl, stays_refl c x⟩⟩⟩
    · refine ⟨(t, none), _, by simp [LinkedList.apply, hrem], hrep, fun x _ hkeep =>
        ⟨congrFun hdata x, Or.inl ⟨rfl, stays_remove c ?_⟩⟩⟩
      rintro rfl
      exact hkeep.2.1 (by rw [touched, h.elements, hfind])
  | removeIndex index =>
    rcases h.removeIndex index with ⟨-, hrem⟩ | ⟨a, t, h0, hget, hrem, hdata, hrep⟩
    · exact ⟨(s, none), c, by simp [LinkedList.apply, hrem], h, fun x _ _ => ⟨rfl, Or.inl ⟨rfl, stays_refl c x⟩⟩⟩
    · refine ⟨(t, none), _, by simp [LinkedList.apply, hrem], hrep, fun x _ hkeep =>
        ⟨congrFun hdata x, Or.inl ⟨rfl, stays_remove c ?_⟩⟩⟩
      rintro rfl
      exact hkeep.2.1 (by rw [touched, if_neg (by omega), h.elements, hget])
  | moveToEnd test =>
    rcases h.moveToEnd test with ⟨-, hmove⟩ | ⟨a, hfind, ⟨-, hmove⟩ | ⟨htail, t, hmove, hdata, hrep⟩⟩
    · exact ⟨(s, none), c, by simp [LinkedList.apply, hmove], h, fun x _ _ => ⟨rfl, Or.inl ⟨rfl, stays_refl c x⟩⟩⟩
    · exact ⟨(s, none), c, by simp [LinkedList.apply, hmove], h, fun x _ _ => ⟨rfl, Or.inl ⟨rfl, stays_refl c x⟩⟩⟩
    · refine ⟨(t, none), _, by simp [LinkedList.apply, hmove], hrep, fun x _ hkeep =>
        ⟨congrFun hdata x, Or.inl ⟨rfl, (stays_remove c ?_).trans (stays_addLast _ a x)⟩⟩⟩
      rintro rfl
      exact hkeep.2.1 (by simp [touched, h.elements, hfind, htail])
  | moveToFront test =>
    rcases h.moveToFront test with ⟨-, hmove⟩ | ⟨a, hfind, ⟨-, hmove⟩ | ⟨hhead, t, hmove, hdata, hrep⟩⟩
    · exact ⟨(s, none), c, by simp [LinkedList.apply, hmove], h, fun x _ _ => ⟨rfl, Or.inl ⟨rfl, stays_refl c x⟩⟩⟩
    · exact ⟨(s, none), c, by simp [LinkedList.apply, hmove], h, fun x _ _ => ⟨rfl, Or.inl ⟨rfl, stays_refl c x⟩⟩⟩
    · refine ⟨(t, none), _, by simp [LinkedList.apply, hmove], hrep, fun x _ hkeep =>
        ⟨congrFun hdata x, Or.inl ⟨rfl, (stays_remove c ?_).trans (stays_addFirst _ a x)⟩⟩⟩
      rintro rfl
      exact hkeep.2.1 (by simp [touched, h.elements, hfind, hhead])

/-! ## A traversal -/

/-- What has been delivered of an element. -/
def deliveries (x : ι) (log : List (ι × α)) : List (ι × α) := log.filter (·.1 = x)

/-- The element `x` with the data `d`, while a traversal goes on: it is delivered, once, when
it is passed. -/
def Tracks (x : ι) (d : α) (r : Logged ι α) : Prop :=
  ∃ c, r.1.Represents c ∧ r.1.data x = d ∧
    ((x ∈ c.passed ∧ deliveries x r.2 = [(x, d)]) ∨ (x ∈ c.ahead ∧ deliveries x r.2 = []))

theorem Tracks.step {x : ι} {d : α} {r r' : Logged ι α} {op : Op ι α} (h : Tracks x d r) (hkeep : r.1.Keeps x op)
    (hstep : step r op = some r') : Tracks x d r' := by
  obtain ⟨c, hrep, hdata, hside⟩ := h
  obtain ⟨t, c', happly, hrep', hleaves⟩ := hrep.apply hkeep.1
  have hx : x ∈ c.all := by
    rw [Cursor.all, List.mem_append]
    exact hside.imp And.left And.left
  obtain ⟨hdata', hout⟩ := hleaves x hx hkeep
  rw [LinkedList.step, happly, Option.map_some, Option.some.injEq] at hstep
  subst hstep
  refine ⟨c', hrep', hdata'.trans hdata, ?_⟩
  rcases hout with ⟨hnone, hpassed, hahead⟩ | ⟨a, l, hl, hsome, rfl⟩
  · rw [hnone, Option.toList_none, List.append_nil]
    exact hside.imp (And.imp_left hpassed) (And.imp_left hahead)
  · have hlog : deliveries x (r.2 ++ t.2.toList) = deliveries x r.2 ++ if a = x then [(x, d)] else [] := by
      rw [hsome, deliveries, List.filter_append, deliveries, Option.toList_some, List.filter_singleton]
      by_cases hax : a = x
      · subst hax
        simp [hdata]
      · simp [hax]
    have hnodup := hrep.nodup
    rw [Cursor.all, hl] at hnodup
    simp only [hlog]
    rcases hside with ⟨hp, hd⟩ | ⟨ha, hd⟩
    · have hne : a ≠ x := by grind
      rw [hd, if_neg hne, List.append_nil]
      exact Or.inl ⟨List.mem_append_left _ hp, rfl⟩
    · rw [hl] at ha
      by_cases hax : a = x
      · rw [hd, if_pos hax, List.nil_append]
        exact Or.inl ⟨by simp [hax], rfl⟩
      · rw [hd, if_neg hax, List.append_nil]
        exact Or.inr ⟨List.mem_of_ne_of_mem (Ne.symm hax) ha, rfl⟩

theorem represents_of_run {memory s : LinkedList ι α} {log : List (ι × α)} {ops : List (Op ι α)}
    (hrun : Run (guarded (fun r op => r.1.Allowed op) (stepOf step)) (memory.construct, []) ops (s, log)) :
    ∃ c, s.Represents c := by
  refine hrun.invariant (I := fun r => ∃ c, r.1.Represents c) ⟨_, Represents.construct memory⟩ ?_
  rintro r op r' ⟨c, hrep⟩ ⟨hallowed, hstep⟩
  obtain ⟨t, c', happly, hrep', -⟩ := hrep.apply hallowed
  rw [stepOf, step, happly, Option.map_some, Option.some.injEq] at hstep
  subst hstep
  exact ⟨c', hrep'⟩

/-- `get_first` starts a traversal: its element is passed and delivered, the others are ahead. -/
theorem Represents.tracks_first {s s₁ : LinkedList ι α} {c : Cursor ι} {first : ι × α} (h : s.Represents c) {x : ι}
    (hx : x ∈ c.all) (hfirst : s.apply .getFirst = some (s₁, some first)) : Tracks x (s.data x) (s₁, [first]) := by
  rcases h.getFirst with ⟨hget, -⟩ | ⟨a, l, hall, hget, hrep⟩
  · simp [LinkedList.apply, hget, delivered] at hfirst
  · simp only [LinkedList.apply, hget, delivered, Option.map_some, Option.some.injEq, Prod.mk.injEq] at hfirst
    obtain ⟨rfl, rfl⟩ := hfirst
    refine ⟨_, hrep, rfl, ?_⟩
    have hnodup := h.nodup
    rw [hall] at hx hnodup
    by_cases hax : a = x
    · subst hax
      exact Or.inl ⟨List.mem_singleton_self _, by simp [deliveries]⟩
    · exact Or.inr ⟨List.mem_of_ne_of_mem (Ne.symm hax) hx, by simp [deliveries, hax]⟩

/-- **Every element that stays is delivered once**: in every run from a new list, head, tail
and count describe the list, and every operation comes back; and a traversal that starts in a
state of it delivers, before `get_next` returns 0, each element that stays where it is
exactly once. -/
theorem deliveredOnce_of_run {memory s : LinkedList ι α} {log : List (ι × α)} {ops : List (Op ι α)}
    (hrun : Run (guarded (fun r op => r.1.Allowed op) (stepOf step)) (memory.construct, []) ops (s, log)) :
    s.Describes ∧ (∀ op, s.Allowed op → (s.apply op).isSome) ∧
      ∀ x ∈ s.elements, ∀ s₁ first, s.apply .getFirst = some (s₁, some first) →
        ∀ ops' t log', Run (guarded (fun r op => r.1.Keeps x op) (stepOf step)) (s₁, [first]) ops' (t, log') →
          (t.apply .getNext).map Prod.snd = some none → deliveries x log' = [(x, s.data x)] := by
  obtain ⟨c, hrep⟩ := represents_of_run hrun
  refine ⟨hrep.describes, fun op hop => ?_, fun x hx s₁ first hfirst ops' t log' htraversal hend => ?_⟩
  · obtain ⟨r, -, happly, -⟩ := hrep.apply hop
    rw [happly, Option.isSome_some]
  · have htracks : Tracks x (s.data x) (t, log') :=
      htraversal.invariant (hrep.tracks_first (hrep.elements ▸ hx) hfirst)
        fun r op r' h hstep => h.step hstep.1 hstep.2
    obtain ⟨c', hrep', -, hside⟩ := htracks
    rcases hrep'.getNext with ⟨-, hahead⟩ | ⟨a, l, -, hget, -⟩
    · rcases hside with ⟨-, hlog⟩ | ⟨hx', -⟩
      · exact hlog
      · rw [hahead] at hx'
        exact absurd hx' List.not_mem_nil
    · simp [LinkedList.apply, hget, delivered] at hend

/-- Memory before the list is made. -/
def blank : LinkedList Nat Nat := ⟨none, none, none, 0, fun _ => none, fun _ => 0⟩

/-- Three elements are added. -/
def additions : List (Op Nat Nat) := [.addElement (some 1) 10, .addElement (some 2) 20, .addElement (some 3) 30]

/-- The list of them. -/
def threeElements : LinkedList Nat Nat := ((additions.foldlM step (blank.construct, [])).map Prod.fst).getD blank

/-- The first one is removed while the iterator stands at it, its memory is used for a new
first one, and the last one is moved to the front, behind the iterator. -/
def changes : List (Op Nat Nat) :=
  [.removeIndex 0, .addToFront (some 1) 40, .getNext, .getNext, .moveToFront (· == 30)]

/-- The second element is delivered once. -/
theorem deliveredOnce_second :
    ∃ t log, Run (guarded (fun r op => r.1.Keeps 2 op) (stepOf step)) (threeElements.getFirst.1, [(1, 10)]) changes
        (t, log) ∧ (t.apply .getNext).map Prod.snd = some none ∧ deliveries 2 log = [(2, 20)] := by
  have hmade : Run (guarded (fun r op => r.1.Allowed op) (stepOf step)) (blank.construct, []) additions
      (threeElements, []) := Run.of_foldlM_guarded rfl
  have htraversal : Run (guarded (fun r op => r.1.Keeps 2 op) (stepOf step))
      (threeElements.getFirst.1, [(1, 10)]) changes _ := Run.of_foldlM_guarded rfl
  exact ⟨_, _, htraversal, rfl,
    (deliveredOnce_of_run hmade).2.2 2 (by decide) _ _ rfl _ _ _ htraversal rfl⟩

end Ftke.LinkedList
