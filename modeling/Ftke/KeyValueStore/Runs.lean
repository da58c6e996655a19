import Ftke.KeyValueStore.Lookup

/-!
# Ftke.KeyValueStore.Runs

Whole runs of the store against the multimap of what has been added.

`Ok` is the condition on a call: it leaves out the calls that lead to one of the
defects (an empty key, a further value behind an empty one, a key that is in the overflow
area while its own slot is free, a full overflow area, a vector that moves under
pointers, a new key whose value finds no memory, and a removal from the overflow area).
`inv_handle` is the step lemma.
-/

namespace Ftke.KeyValueStore

/-! ## The invariant -/

/-- The number of values in the slots of a list. -/
def total (keys : Nat → Wrapper) (slots : List Nat) : Nat :=
  (slots.map fun i => 1 + (keys i).iNext.length).sum

theorem length_le_total (keys : Nat → Wrapper) (slots : List Nat) : slots.length ≤ total keys slots := by
  rw [total]
  induction slots with
  | nil => exact Nat.le_refl _
  | cons i slots ih =>
    rw [List.map_cons, List.sum_cons, List.length_cons]
    omega

structure Inv (s : Session) : Prop extends Table s.store where
  blocks : ∀ i, ∀ link ∈ (s.store.iFieldKeys i).iNext, link.block = s.store.block
  noValue : ∀ i, ¬Occupied s.store i → s.store.iFieldVals i = []
  slots_nodup : s.store.iFieldKeyTableIndexVector.Nodup
  mem_slots : ∀ i, i ∈ s.store.iFieldKeyTableIndexVector ↔ Occupied s.store i
  present : ∀ i, Occupied s.store i → s.added (fold (s.store.iFieldKeys i).iStr) =
    s.store.iFieldVals i :: (s.store.iFieldKeys i).iNext.map Linked.str
  absent : ∀ k, (∀ i, Occupied s.store i → fold (s.store.iFieldKeys i).iStr ≠ k) → s.added k = []
  count : s.store.iTotalNumberOfKeyValuePairs =
    UInt32.ofNat (total s.store.iFieldKeys s.store.iFieldKeyTableIndexVector)

theorem inv_new : Inv newSession := by
  have hfree : ∀ i, ¬Occupied create i := fun i h => h rfl
  refine ⟨⟨fun _ _ => rfl, fun i h => absurd h (hfree i), fun i hi => absurd hi (Nat.not_lt_zero i), by decide,
    fun i j h => absurd h (hfree i)⟩, fun i link hlink => ?_, fun _ _ => rfl, List.nodup_nil, fun i => ?_,
    fun i h => absurd h (hfree i), fun _ _ => rfl, rfl⟩
  · exact absurd hlink List.not_mem_nil
  · exact iff_of_false List.not_mem_nil (hfree i)

variable {j n : Nat}

theorem sum_update {f g : Nat → Nat} (hfg : ∀ i, i ≠ j → f i = g i) :
    ∀ {l : List Nat}, l.Nodup → j ∈ l → (l.map f).sum + g j = (l.map g).sum + f j
  | [], _, hj => absurd hj List.not_mem_nil
  | i :: l, hnodup, hj => by
    obtain ⟨hnot, hnodup⟩ := List.nodup_cons.mp hnodup
    rw [List.map_cons, List.map_cons, List.sum_cons, List.sum_cons]
    by_cases hij : i = j
    · have hsame : l.map f = l.map g := List.map_congr_left fun k hk => hfg k fun hkj => by
        rw [hkj, ← hij] at hk
        exact hnot hk
      rw [hij, hsame]
      omega
    · have ih := sum_update hfg hnodup ((List.mem_cons.mp hj).resolve_left fun h => hij h.symm)
      rw [hfg i hij]
      omega

theorem sum_filter {f : Nat → Nat} : ∀ {l : List Nat}, l.Nodup → j ∈ l →
    ((l.filter fun i => i ≠ j).map f).sum + f j = (l.map f).sum
  | [], _, hj => absurd hj List.not_mem_nil
  | i :: l, hnodup, hj => by
    obtain ⟨hnot, hnodup⟩ := List.nodup_cons.mp hnodup
    by_cases hij : i = j
    · have hall : l.filter (fun i => i ≠ j) = l := List.filter_eq_self.mpr fun k hk => by
        simp only [decide_not, Bool.not_eq_true', decide_eq_false_iff_not]
        exact fun hkj => hnot (by rw [hij, ← hkj]; exact hk)
      rw [List.filter_cons_of_neg (by simpa using hij), hall, List.map_cons, List.sum_cons, hij]
      omega
    · have ih := sum_filter (f := f) hnodup ((List.mem_cons.mp hj).resolve_left fun h => hij h.symm)
      rw [List.filter_cons_of_pos (by simpa using hij), List.map_cons, List.map_cons, List.sum_cons,
        List.sum_cons]
      omega

variable {s : Session}

variable {key value k : Str} {replace : Bool}

theorem add_of_ne {m : Multimap} (h : k ≠ fold key) :
    m.add key value replace k = m k := if_neg h

theorem add_self (m : Multimap) (key value : Str) (replace : Bool) :
    m.add key value replace (fold key) =
      if replace then value :: (m (fold key)).tail else m (fold key) ++ [value] := if_pos rfl

/-! ## A new key -/

/-- The slot that a new key gets, and the number of conflicts after it. -/
def NewSlot (s : Store) (key : Str) (j n : Nat) : Prop :=
  ¬Occupied s j ∧ ((j = getChecksum key ∧ n = s.iNumConflicts) ∨
    (j = 500 + s.iNumConflicts ∧ n = s.iNumConflicts + 1 ∧ n < 500))

theorem inv_newKey (h : Inv s) (value : Str) (replace : Bool) {t : Store}
    (hkey : key ≠ []) (habsent : ∀ i, Occupied s.store i → fold (s.store.iFieldKeys i).iStr ≠ fold key)
    (hslot : NewSlot s.store key j n)
    (hkeys : t.iFieldKeys = fun i => if i = j then ⟨key, []⟩ else s.store.iFieldKeys i)
    (hvals : t.iFieldVals = fun i => if i = j then value else s.store.iFieldVals i)
    (hblock : t.block = s.store.block) (hconflicts : t.iNumConflicts = n)
    (hslots : t.iFieldKeyTableIndexVector = s.store.iFieldKeyTableIndexVector ++ [j])
    (hpairs : t.iTotalNumberOfKeyValuePairs = s.store.iTotalNumberOfKeyValuePairs + 1) :
    Inv ⟨t, s.added.add key value replace⟩ := by
  obtain ⟨hfree, hwhere⟩ := hslot
  have hnew : t.iFieldKeys j = ⟨key, []⟩ := by
    rw [hkeys]
    exact if_pos rfl
  have hold (i : Nat) (hi : i ≠ j) : t.iFieldKeys i = s.store.iFieldKeys i := by
    rw [hkeys]
    exact if_neg hi
  have hval (i : Nat) (hi : i ≠ j) : t.iFieldVals i = s.store.iFieldVals i := by
    rw [hvals]
    exact if_neg hi
  have hoccj : Occupied t j := by
    rw [Occupied, hnew]
    exact hkey
  have hocc (i : Nat) (hi : i ≠ j) : Occupied t i ↔ Occupied s.store i := by
    rw [Occupied, Occupied, hold i hi]
  have hnil : s.added (fold key) = [] := h.absent _ habsent
  constructor
  · constructor
    · intro i hi
      have hij : i ≠ j := fun heq => hi (heq ▸ hoccj)
      rw [hold i hij]
      exact h.free i (mt (hocc i hij).mpr hi)
    · intro i hi
      by_cases hij : i = j
      · rw [hij, hnew, hconflicts]
        simp only
        omega
      · rw [hold i hij, hconflicts]
        have hs := h.slot i ((hocc i hij).mp hi)
        omega
    · intro i hi
      by_cases hij : 500 + i = j
      · rw [hij]
        exact hoccj
      · refine (hocc _ hij).mpr (h.overflow i ?_)
        rw [hconflicts] at hi
        have hlt := getChecksum_lt key
        omega
    · have hlt := h.conflicts
      rw [hconflicts]
      omega
    · intro i k hi hk heq
      by_cases hij : i = j
      · by_cases hkj : k = j
        · rw [hij, hkj]
        · rw [hij, hnew, hold k hkj] at heq
          exact absurd heq.symm (habsent k ((hocc k hkj).mp hk))
      · by_cases hkj : k = j
        · rw [hkj, hnew, hold i hij] at heq
          exact absurd heq (habsent i ((hocc i hij).mp hi))
        · rw [hold i hij, hold k hkj] at heq
          exact h.unique i k ((hocc i hij).mp hi) ((hocc k hkj).mp hk) heq
  · intro i link hlink
    by_cases hij : i = j
    · rw [hij, hnew] at hlink
      exact absurd hlink List.not_mem_nil
    · rw [hold i hij] at hlink
      rw [hblock]
      exact h.blocks i link hlink
  · intro i hi
    have hij : i ≠ j := fun heq => hi (heq ▸ hoccj)
    rw [hval i hij]
    exact h.noValue i (mt (hocc i hij).mpr hi)
  · rw [hslots]
    refine List.nodup_append.mpr ⟨h.slots_nodup, List.nodup_singleton j, fun i hi k hk heq => ?_⟩
    rw [heq, List.mem_singleton.mp hk] at hi
    exact hfree ((h.mem_slots j).mp hi)
  · intro i
    rw [hslots, List.mem_append, List.mem_singleton, h.mem_slots]
    by_cases hij : i = j
    · exact iff_of_true (.inr hij) (hij ▸ hoccj)
    · rw [hocc i hij]
      exact or_iff_left hij
  · intro i hi
    by_cases hij : i = j
    · simp only [hij, hnew, hvals, if_true, List.map_nil]
      rw [add_self, hnil]
      cases replace <;> rfl
    · simp only
      rw [hold i hij, hval i hij, add_of_ne (habsent i ((hocc i hij).mp hi))]
      exact h.present i ((hocc i hij).mp hi)
  · intro k hk
    have hne : k ≠ fold key := fun heq => hk j hoccj (by simp only [hnew, heq])
    simp only
    rw [add_of_ne hne]
    refine h.absent k fun i hi => ?_
    have hij : i ≠ j := fun heq => hfree (heq ▸ hi)
    have hki := hk i ((hocc i hij).mpr hi)
    rwa [hold i hij] at hki
  · have hsame : s.store.iFieldKeyTableIndexVector.map (fun i => 1 + (t.iFieldKeys i).iNext.length) =
        s.store.iFieldKeyTableIndexVector.map (fun i => 1 + (s.store.iFieldKeys i).iNext.length) :=
      List.map_congr_left fun i hi => by
        have hij : i ≠ j := fun heq => hfree ((h.mem_slots j).mp (heq ▸ hi))
        rw [hold i hij]
    rw [hpairs, h.count, hslots, total, total, List.map_append, hsame, List.sum_append, UInt32.ofNat_add]
    simp only [List.map_cons, List.map_nil, List.sum_singleton, hnew, List.length_nil]
    rfl

/-! ## A key that is there -/

theorem inv_values (h : Inv s) {added : Multimap} {t : Store} (value : Str)
    (next : List Linked) (hocc : Occupied s.store j) (hkey : fold (s.store.iFieldKeys j).iStr = fold key)
    (hkeys : t.iFieldKeys = fun i => if i = j then ⟨(s.store.iFieldKeys j).iStr, next⟩ else s.store.iFieldKeys i)
    (hvals : t.iFieldVals = fun i => if i = j then value else s.store.iFieldVals i)
    (hblocks : ∀ i, ∀ link ∈ (t.iFieldKeys i).iNext, link.block = t.block)
    (hconflicts : t.iNumConflicts = s.store.iNumConflicts)
    (hslots : t.iFieldKeyTableIndexVector = s.store.iFieldKeyTableIndexVector)
    (hpairs : t.iTotalNumberOfKeyValuePairs + UInt32.ofNat (s.store.iFieldKeys j).iNext.length =
      s.store.iTotalNumberOfKeyValuePairs + UInt32.ofNat next.length)
    (hadded : added (fold key) = value :: next.map Linked.str)
    (hothers : ∀ k, k ≠ fold key → added k = s.added k) : Inv ⟨t, added⟩ := by
  have hnew : t.iFieldKeys j = ⟨(s.store.iFieldKeys j).iStr, next⟩ := by
    rw [hkeys]
    exact if_pos rfl
  have hold (i : Nat) (hi : i ≠ j) : t.iFieldKeys i = s.store.iFieldKeys i := by
    rw [hkeys]
    exact if_neg hi
  have hval (i : Nat) (hi : i ≠ j) : t.iFieldVals i = s.store.iFieldVals i := by
    rw [hvals]
    exact if_neg hi
  have hstr (i : Nat) : (t.iFieldKeys i).iStr = (s.store.iFieldKeys i).iStr := by
    by_cases hij : i = j
    · rw [hij, hnew]
    · rw [hold i hij]
  have hsame (i : Nat) : Occupied t i ↔ Occupied s.store i := by rw [Occupied, Occupied, hstr]
  constructor
  · constructor
    · intro i hi
      have hij : i ≠ j := fun heq => hi (heq ▸ (hsame j).mpr hocc)
      rw [hold i hij]
      exact h.free i (mt (hsame i).mpr hi)
    · intro i hi
      rw [hstr, hconflicts]
      exact h.slot i ((hsame i).mp hi)
    · intro i hi
      rw [hconflicts] at hi
      exact (hsame _).mpr (h.overflow i hi)
    · rw [hconflicts]
      exact h.conflicts
    · intro i k hi hk heq
      rw [hstr, hstr] at heq
      exact h.unique i k ((hsame i).mp hi) ((hsame k).mp hk) heq
  · exact hblocks
  · intro i hi
    have hij : i ≠ j := fun heq => hi (heq ▸ (hsame j).mpr hocc)
    rw [hval i hij]
    exact h.noValue i (mt (hsame i).mpr hi)
  · rw [hslots]
    exact h.slots_nodup
  · intro i
    rw [hslots, h.mem_slots]
    exact (hsame i).symm
  · intro i hi
    have hi := (hsame i).mp hi
    by_cases hij : i = j
    · simp only [hij, hnew, hvals, if_true, hkey, hadded]
    · have hne : fold (s.store.iFieldKeys i).iStr ≠ fold key := fun heq =>
        hij (h.unique i j hi hocc (heq.trans hkey.symm))
      simp only [hold i hij, hval i hij, hothers _ hne]
      exact h.present i hi
  · intro k hk
    have hne : k ≠ fold key := fun heq => hk j ((hsame j).mpr hocc) (by rw [hstr, hkey, heq])
    simp only [hothers k hne]
    exact h.absent k fun i hi heq => hk i ((hsame i).mpr hi) (by rw [hstr, heq])
  · have hsum := sum_update (f := fun i => 1 + (t.iFieldKeys i).iNext.length)
      (g := fun i => 1 + (s.store.iFieldKeys i).iNext.length) (fun i hi => by rw [hold i hi])
      h.slots_nodup ((h.mem_slots j).mpr hocc)
    simp only [hnew] at hsum
    have htotal : total t.iFieldKeys s.store.iFieldKeyTableIndexVector + (s.store.iFieldKeys j).iNext.length =
        total s.store.iFieldKeys s.store.iFieldKeyTableIndexVector + next.length := by
      rw [total, total]
      omega
    have hcount := congrArg UInt32.ofNat htotal
    rw [UInt32.ofNat_add, UInt32.ofNat_add, ← h.count, ← hpairs] at hcount
    rw [hslots]
    exact ((UInt32.add_left_inj _).mp hcount).symm

/-! ## Removing -/

theorem eraseIndices_eq {found : Nat → Bool} : ∀ {l : List Nat}, l.Nodup →
    (∀ i ∈ l, found i = true ↔ i = j) → eraseIndices found l = l.filter fun i => i ≠ j
  | [], _, _ => rfl
  | [i], _, hfound => by
    have hi := hfound i (List.mem_singleton_self i)
    by_cases hij : i = j
    · rw [eraseIndices, if_pos (hi.mpr hij), List.filter_cons_of_neg (by simpa using hij), List.filter_nil]
    · rw [eraseIndices, if_neg (mt hi.mp hij), List.filter_cons_of_pos (by simpa using hij), List.filter_nil]
  | i :: k :: rest, hnodup, hfound => by
    obtain ⟨hnot, hnodup⟩ := List.nodup_cons.mp hnodup
    have hi := hfound i List.mem_cons_self
    by_cases hij : i = j
    · have hk : k ≠ j := fun hkj => hnot (by rw [hij, ← hkj]; exact List.mem_cons_self)
      have ih := eraseIndices_eq (List.nodup_cons.mp hnodup).2
        fun m hm => hfound m (List.mem_cons_of_mem _ (List.mem_cons_of_mem _ hm))
      rw [eraseIndices, if_pos (hi.mpr hij), List.filter_cons_of_neg (by simpa using hij),
        List.filter_cons_of_pos (by simpa using hk), ih]
    · have ih := eraseIndices_eq hnodup fun m hm => hfound m (List.mem_cons_of_mem _ hm)
      rw [eraseIndices, if_neg (mt hi.mp hij), List.filter_cons_of_pos (by simpa using hij), ih]

theorem remove_of_ne {m : Multimap} (h : k ≠ fold key) : m.remove key k = m k := if_neg h

theorem remove_self (m : Multimap) (key : Str) : m.remove key (fold key) = [] := if_pos rfl

theorem inv_removed (h : Inv s) {t : Store} (hocc : Occupied s.store j)
    (hkey : fold (s.store.iFieldKeys j).iStr = fold key) (hj : j < 500)
    (hkeys : t.iFieldKeys = fun i => if i = j then noWrapper else s.store.iFieldKeys i)
    (hvals : t.iFieldVals = fun i => if i = j then [] else s.store.iFieldVals i)
    (hblock : t.block = s.store.block) (hconflicts : t.iNumConflicts = s.store.iNumConflicts)
    (hslots : t.iFieldKeyTableIndexVector = s.store.iFieldKeyTableIndexVector.filter fun i => i ≠ j)
    (hpairs : t.iTotalNumberOfKeyValuePairs + UInt32.ofNat (1 + (s.store.iFieldKeys j).iNext.length) =
      s.store.iTotalNumberOfKeyValuePairs) : Inv ⟨t, s.added.remove key⟩ := by
  have hnew : t.iFieldKeys j = noWrapper := by
    rw [hkeys]
    exact if_pos rfl
  have hold (i : Nat) (hi : i ≠ j) : t.iFieldKeys i = s.store.iFieldKeys i := by
    rw [hkeys]
    exact if_neg hi
  have hval (i : Nat) (hi : i ≠ j) : t.iFieldVals i = s.store.iFieldVals i := by
    rw [hvals]
    exact if_neg hi
  have hfree : ¬Occupied t j := by
    rw [Occupied, hnew]
    exact fun hne => hne rfl
  have hiff (i : Nat) : Occupied t i ↔ i ≠ j ∧ Occupied s.store i := by
    by_cases hij : i = j
    · exact iff_of_false (hij ▸ hfree) fun hand => hand.1 hij
    · rw [Occupied, Occupied, hold i hij]
      exact ⟨fun hi => ⟨hij, hi⟩, fun hi => hi.2⟩
  have hother (i : Nat) (hi : Occupied t i) : fold (s.store.iFieldKeys i).iStr ≠ fold key := fun heq =>
    ((hiff i).mp hi).1 (h.unique i j ((hiff i).mp hi).2 hocc (heq.trans hkey.symm))
  constructor
  · constructor
    · intro i hi
      by_cases hij : i = j
      · rw [hij, hnew]
      · rw [hold i hij]
        exact h.free i fun hi' => hi ((hiff i).mpr ⟨hij, hi'⟩)
    · intro i hi
      obtain ⟨hij, hi⟩ := (hiff i).mp hi
      rw [hold i hij, hconflicts]
      exact h.slot i hi
    · intro i hi
      rw [hconflicts] at hi
      exact (hiff _).mpr ⟨by omega, h.overflow i hi⟩
    · rw [hconflicts]
      exact h.conflicts
    · intro i k hi hk heq
      obtain ⟨hij, hi⟩ := (hiff i).mp hi
      obtain ⟨hkj, hk⟩ := (hiff k).mp hk
      rw [hold i hij, hold k hkj] at heq
      exact h.unique i k hi hk heq
  · intro i link hlink
    by_cases hij : i = j
    · rw [hij, hnew] at hlink
      exact absurd hlink List.not_mem_nil
    · rw [hold i hij] at hlink
      rw [hblock]
      exact h.blocks i link hlink
  · intro i hi
    by_cases hij : i = j
    · simp only [hij, hvals, if_true]
    · rw [hval i hij]
      exact h.noValue i fun hi' => hi ((hiff i).mpr ⟨hij, hi'⟩)
  · rw [hslots]
    exact h.slots_nodup.filter _
  · intro i
    rw [hslots, List.mem_filter, h.mem_slots, hiff, decide_eq_true_eq]
    exact and_comm
  · intro i hi
    have hne := hother i hi
    obtain ⟨hij, hi⟩ := (hiff i).mp hi
    simp only [hold i hij, hval i hij]
    rw [remove_of_ne hne]
    exact h.present i hi
  · intro k hk
    simp only
    by_cases hkk : k = fold key
    · rw [hkk, remove_self]
    · rw [remove_of_ne hkk]
      refine h.absent k fun i hi heq => ?_
      have hij : i ≠ j := fun hij => hkk (by rw [← heq, hij, hkey])
      exact hk i ((hiff i).mpr ⟨hij, hi⟩) (by rw [hold i hij, heq])
  · have hrest : (s.store.iFieldKeyTableIndexVector.filter fun i => i ≠ j).map
          (fun i => 1 + (t.iFieldKeys i).iNext.length) =
        (s.store.iFieldKeyTableIndexVector.filter fun i => i ≠ j).map
          (fun i => 1 + (s.store.iFieldKeys i).iNext.length) :=
      List.map_congr_left fun i hi => by
        have hij : i ≠ j := by simpa using (List.mem_filter.mp hi).2
        rw [hold i hij]
    have hsum := congrArg UInt32.ofNat (sum_filter (f := fun i => 1 + (s.store.iFieldKeys i).iNext.length)
      h.slots_nodup ((h.mem_slots j).mpr hocc))
    rw [UInt32.ofNat_add, ← hrest] at hsum
    have hcount := hpairs.trans (h.count.trans hsum.symm)
    rw [hslots]
    exact (UInt32.add_left_inj _).mp hcount

/-! ## When a call is sound -/

/-- A further value for the key in slot `j`: the first one is not empty, and no vector
moves under pointers. -/
def OldOk (s : Store) (j : Nat) (replace : Bool) (memory : Memory) : Prop :=
  memory.value → s.iFieldVals j ≠ [] ∧ (replace = false → s.wrappers = s.capacity → memory.wrapper →
    ∀ i < tableSize, (s.iFieldKeys i).iNext = [])

instance (s : Store) (j : Nat) (replace : Bool) (memory : Memory) : Decidable (OldOk s j replace memory) := by
  unfold OldOk
  infer_instance

def AddOk (s : Store) (key : Str) (replace : Bool) (memory : Memory) : Prop :=
  if (s.iFieldKeys (getChecksum key)).empty then
    memory.index → key ≠ [] ∧ query key s < 0 ∧ memory.key ∧ memory.value
  else if isCIEquivalentTo (s.iFieldKeys (getChecksum key)).iStr key then
    OldOk s (getChecksum key) replace memory
  else if query key s ≥ 0 then OldOk s (query key s).toNat replace memory
  else key ≠ [] ∧ s.iNumConflicts + 1 < 500 ∧ memory.index ∧ memory.key ∧ memory.value

instance (s : Store) (key : Str) (replace : Bool) (memory : Memory) :
    Decidable (AddOk s key replace memory) := by
  unfold AddOk
  infer_instance

/-- A call that leads to no defect. -/
def Ok (s : Session) : Event → Prop
  | .addKeyValuePair key _ replace memory => AddOk s.store key replace memory
  | .removeKeyValuePair key => query key s.store < 0
  | .clear => True

instance (s : Session) : ∀ event, Decidable (Ok s event)
  | .addKeyValuePair key _ replace memory => inferInstanceAs (Decidable (AddOk s.store key replace memory))
  | .removeKeyValuePair key => inferInstanceAs (Decidable (query key s.store < 0))
  | .clear => .isTrue trivial

/-! ## The results of a call -/

/-- A new key in slot `j`, with its value. -/
def Store.withKey (s : Store) (key value : Str) (j n : Nat) : Store :=
  Store.counted (Store.setVal { s.setKey j ⟨key, []⟩ with
    iNumConflicts := n
    iFieldKeyTableIndexVector := s.iFieldKeyTableIndexVector ++ [j]
    iTotalKeyValueLength := s.iTotalKeyValueLength + UInt32.ofNat key.length } j value) value

/-- A value in the place of the first one of slot `j`. -/
def Store.replaced (s : Store) (value : Str) (j : Nat) : Store :=
  Store.counted { s.setVal j value with
    iTotalKeyValueLength := s.iTotalKeyValueLength - UInt32.ofNat (s.iFieldVals j).length
    iTotalNumberOfKeyValuePairs := s.iTotalNumberOfKeyValuePairs - 1 } value

/-- A value behind those of slot `j`. -/
def Store.appended (s : Store) (value : Str) (j : Nat) : Store :=
  let t := s.pushWrapper
  let w := s.iFieldKeys j
  Store.counted { t.setKey j ⟨w.iStr, w.iNext ++ [⟨value, t.block⟩]⟩ with
    iTotalKeyValueLength := t.iTotalKeyValueLength + UInt32.ofNat w.iStr.length } value

/-- The key in slot `j` is taken out, with its values. -/
def Store.without (s : Store) (j : Nat) : Store :=
  let w := s.iFieldKeys j
  let lengths := w.iStr.length * (1 + w.iNext.length) + (s.iFieldVals j).length +
    (w.iNext.map fun link => link.str.length).sum
  Store.setVal (Store.setKey { s with
    iTotalNumberOfKeyValuePairs := s.iTotalNumberOfKeyValuePairs - UInt32.ofNat (1 + w.iNext.length)
    iTotalKeyValueLength := s.iTotalKeyValueLength - UInt32.ofNat lengths
    iFieldKeyTableIndexVector := s.iFieldKeyTableIndexVector.filter fun i => i ≠ j } j noWrapper) j []

/-- A key is in slot `j`. -/
def At (s : Store) (key : Str) (j : Nat) : Prop := Occupied s j ∧ fold (s.iFieldKeys j).iStr = fold key

def Absent (s : Store) (key : Str) : Prop := ∀ i, Occupied s i → fold (s.iFieldKeys i).iStr ≠ fold key

/-- What `addKeyValuePair` can lead to. -/
inductive Added (s : Session) (key value : Str) : Bool → Session → Prop
  | refused {replace : Bool} : Added s key value replace s
  | newKey {replace : Bool} {j n : Nat} (hkey : key ≠ []) (habsent : Absent s.store key)
      (hslot : NewSlot s.store key j n) :
      Added s key value replace ⟨s.store.withKey key value j n, s.added.add key value replace⟩
  | replaced {j : Nat} (hat : At s.store key j) :
      Added s key value true ⟨s.store.replaced value j, s.added.add key value true⟩
  | appended {j : Nat} (hat : At s.store key j)
      (hblocks : ∀ i, ∀ link ∈ (s.store.iFieldKeys i).iNext, link.block = s.store.pushWrapper.block) :
      Added s key value false ⟨s.store.appended value j, s.added.add key value false⟩

/-- What `removeKeyValuePair` can lead to. -/
inductive Removed (s : Session) (key : Str) : Session → Prop
  | absent : Removed s key s
  | removed {j : Nat} (hat : At s.store key j) (hj : j < 500) :
      Removed s key ⟨s.store.without j, s.added.remove key⟩

section pushWrapper

variable (s : Store)

@[simp] theorem pushWrapper_iFieldKeys : s.pushWrapper.iFieldKeys = s.iFieldKeys := by
  rw [Store.pushWrapper]
  split <;> rfl

@[simp] theorem pushWrapper_iFieldVals : s.pushWrapper.iFieldVals = s.iFieldVals := by
  rw [Store.pushWrapper]
  split <;> rfl

@[simp] theorem pushWrapper_iNumConflicts : s.pushWrapper.iNumConflicts = s.iNumConflicts := by
  rw [Store.pushWrapper]
  split <;> rfl

@[simp] theorem pushWrapper_slots :
    s.pushWrapper.iFieldKeyTableIndexVector = s.iFieldKeyTableIndexVector := by
  rw [Store.pushWrapper]
  split <;> rfl

@[simp] theorem pushWrapper_pairs :
    s.pushWrapper.iTotalNumberOfKeyValuePairs = s.iTotalNumberOfKeyValuePairs := by
  rw [Store.pushWrapper]
  split <;> rfl

@[simp] theorem pushWrapper_length : s.pushWrapper.iTotalKeyValueLength = s.iTotalKeyValueLength := by
  rw [Store.pushWrapper]
  split <;> rfl

theorem pushWrapper_block (h : s.wrappers ≠ s.capacity) : s.pushWrapper.block = s.block := by
  rw [Store.pushWrapper, if_neg h]

end pushWrapper

/-- A value behind the others keeps the invariant, when the pointers are good after `push_back`. -/
theorem inv_appended (h : Inv s) (value : Str) (hat : At s.store key j)
    (hblocks : ∀ i, ∀ link ∈ (s.store.iFieldKeys i).iNext, link.block = s.store.pushWrapper.block) :
    Inv ⟨s.store.appended value j, s.added.add key value false⟩ := by
  obtain ⟨hocc, hkey⟩ := hat
  have hpresent := h.present j hocc
  rw [hkey] at hpresent
  have hsingle : UInt32.ofNat 1 = 1 := rfl
  refine inv_values h (s.store.iFieldVals j) ((s.store.iFieldKeys j).iNext ++ [⟨value, s.store.pushWrapper.block⟩])
    hocc hkey ?_ ?_ ?_ ?_ ?_ ?_ ?_ fun k hk => add_of_ne hk
  · funext i
    simp only [Store.appended, Store.counted, Store.setKey, pushWrapper_iFieldKeys]
  · funext i
    simp only [Store.appended, Store.counted, Store.setKey, pushWrapper_iFieldVals]
    by_cases hij : i = j
    · rw [if_pos hij, hij]
    · rw [if_neg hij]
  · intro i link hlink
    simp only [Store.appended, Store.counted, Store.setKey, pushWrapper_iFieldKeys] at hlink
    by_cases hij : i = j
    · rw [if_pos hij, List.mem_append, List.mem_singleton] at hlink
      rcases hlink with hold | hnew
      · exact hblocks j link hold
      · rw [hnew]
        rfl
    · rw [if_neg hij] at hlink
      exact hblocks i link hlink
  · simp only [Store.appended, Store.counted, Store.setKey, pushWrapper_iNumConflicts]
  · simp only [Store.appended, Store.counted, Store.setKey, pushWrapper_slots]
  · simp only [Store.appended, Store.counted, Store.setKey, pushWrapper_pairs, List.length_append,
      List.length_singleton, UInt32.ofNat_add, hsingle]
    rw [UInt32.add_assoc, UInt32.add_comm 1]
  · rw [add_self, hpresent]
    simp

theorem inv_replaced (h : Inv s) (value : Str) (hat : At s.store key j) :
    Inv ⟨s.store.replaced value j, s.added.add key value true⟩ := by
  obtain ⟨hocc, hkey⟩ := hat
  have hpresent := h.present j hocc
  rw [hkey] at hpresent
  refine inv_values h value (s.store.iFieldKeys j).iNext hocc hkey ?_ rfl h.blocks rfl rfl ?_ ?_
    fun k hk => add_of_ne hk
  · funext i
    by_cases hij : i = j
    · rw [if_pos hij, hij]
      rfl
    · rw [if_neg hij]
      rfl
  · simp only [Store.replaced, Store.counted, Store.setVal]
    rw [UInt32.sub_add_cancel]
  · rw [add_self, hpresent]
    rfl

theorem inv_added (h : Inv s) {t : Session} (ht : Added s key value replace t) :
    Inv t := by
  cases ht with
  | refused => exact h
  | newKey hkey habsent hslot => exact inv_newKey h value replace hkey habsent hslot rfl rfl rfl rfl rfl rfl
  | replaced hat => exact inv_replaced h value hat
  | appended hat hblocks => exact inv_appended h value hat hblocks

theorem inv_of_removed (h : Inv s) {t : Session} (ht : Removed s key t) : Inv t := by
  cases ht with
  | absent => exact h
  | removed hat hj =>
    exact inv_removed h hat.1 hat.2 hj rfl rfl rfl rfl rfl (UInt32.sub_add_cancel _ _)

/-! ## Adding -/

/-- **A further value** of a key that is there. -/
theorem added_old (h : Inv s) {memory : Memory}
    (hat : At s.store key j) (hok : OldOk s.store j replace memory)
    (hindex : getHashTableIndex key false s.store = ((j : Int), s.store)) :
    ∃ t, handle s (.addKeyValuePair key value replace memory) = some t ∧ Added s key value replace t := by
  have hne : (s.store.iFieldKeys j).empty = false :=
    Bool.eq_false_iff.mpr fun hempty => (empty_iff h.toTable j).mp hempty hat.1
  have hstore : addKeyToStore key j memory s.store = (success, s.store) := by
    rw [addKeyToStore, hne]
    rfl
  have hnegative : ¬(j : Int) < 0 := by omega
  rw [handle, addKeyValuePair, hindex]
  simp only [hnegative, if_false, Int.toNat_natCast, hstore, ne_eq, not_true_eq_false]
  by_cases hmemory : memory.value = true
  · obtain ⟨hvalue, hmove⟩ := hok hmemory
    have hlen : ¬(s.store.iFieldVals j).length = 0 := fun hlen => hvalue (List.eq_nil_of_length_eq_zero hlen)
    simp only [hmemory, Bool.not_true, Bool.false_eq_true, if_false, hlen]
    cases replace with
    | true => exact ⟨_, rfl, .replaced hat⟩
    | false =>
      simp only [Bool.false_eq_true, if_false]
      by_cases hfull : s.store.wrappers = s.store.capacity ∧ (!memory.wrapper) = true
      · rw [appendValue, if_pos hfull]
        exact ⟨s, rfl, .refused⟩
      · have hblocks : ∀ i, ∀ link ∈ (s.store.iFieldKeys i).iNext,
            link.block = s.store.pushWrapper.block := by
          intro i link hlink
          by_cases hcapacity : s.store.wrappers = s.store.capacity
          · have hwrapper : memory.wrapper = true := by simpa [hcapacity] using hfull
            have hnil : (s.store.iFieldKeys i).iNext = [] := by
              by_cases hi : Occupied s.store i
              · refine hmove rfl hcapacity hwrapper i ?_
                have hslot := h.slot i hi
                have hsum := getChecksum_lt (s.store.iFieldKeys i).iStr
                have hconflicts := h.conflicts
                simp only [tableSize]
                omega
              · rw [h.free i hi]
                rfl
            rw [hnil] at hlink
            exact absurd hlink List.not_mem_nil
          · rw [pushWrapper_block s.store hcapacity]
            exact h.blocks i link hlink
        have hfollow : follow s.store.pushWrapper (s.store.iFieldKeys j).iNext =
            some ((s.store.iFieldKeys j).iNext.map Linked.str) :=
          if_pos (List.all_eq_true.mpr fun link hlink => beq_iff_eq.mpr (hblocks j link hlink))
        rw [appendValue, if_neg hfull]
        simp only [pushWrapper_iFieldKeys, hfollow, Option.map_some]
        exact ⟨_, rfl, .appended hat hblocks⟩
  · have hmemory : (!memory.value) = true := by simpa using hmemory
    rw [if_pos hmemory]
    exact ⟨s, rfl, .refused⟩

/-- **A new key.** -/
theorem added_new (h : Inv s) {memory : Memory}
    (hkey : key ≠ []) (habsent : Absent s.store key) (hslot : NewSlot s.store key j n)
    (hindex : getHashTableIndex key false s.store = ((j : Int), { s.store with iNumConflicts := n }))
    (hmemory : memory.index ∧ memory.key ∧ memory.value) :
    ∃ t, handle s (.addKeyValuePair key value replace memory) = some t ∧ Added s key value replace t := by
  obtain ⟨hmindex, hmkey, hmvalue⟩ := hmemory
  have hempty : (s.store.iFieldKeys j).empty = true := (empty_iff h.toTable j).mpr hslot.1
  have hnoValue := h.noValue j hslot.1
  have hnegative : ¬(j : Int) < 0 := by omega
  refine ⟨_, ?_, .newKey hkey habsent hslot⟩
  rw [handle, addKeyValuePair, hindex]
  simp only [hnegative, if_false, Int.toNat_natCast, addKeyToStore, hempty, Bool.not_true, Bool.false_eq_true,
    hmindex, hmkey, ne_eq, not_true_eq_false, hmvalue, hnoValue, List.length_nil, Store.setKey, if_true,
    Option.map_some, Store.setVal, Store.withKey]

/-! ## One call -/

theorem query_cases (aKey : Str) (s : Store) : query aKey s = -1 ∨
    ∃ i < s.iNumConflicts, query aKey s = (500 + i : Nat) ∧ fold (s.iFieldKeys (500 + i)).iStr = fold aKey := by
  rw [query]
  cases hfind : (List.range s.iNumConflicts).find? fun i =>
      isCIEquivalentTo (s.iFieldKeys (tableSize / 2 + i)).iStr aKey with
  | none => exact .inl rfl
  | some i =>
    have hfound := List.find?_some hfind
    exact .inr ⟨i, List.mem_range.mp (List.mem_of_find?_eq_some hfind), rfl, isCIEquivalentTo_iff.mp hfound⟩

theorem absent_of_query (h : Table s.store) (hquery : query key s.store < 0)
    (hprimary : Occupied s.store (getChecksum key) →
      fold (s.store.iFieldKeys (getChecksum key)).iStr ≠ fold key) :
    ∀ i, Occupied s.store i → fold (s.store.iFieldKeys i).iStr ≠ fold key := by
  intro i hi heq
  rcases h.slot i hi with hslot | ⟨hle, -⟩
  · rw [getChecksum_congr heq] at hslot
    rw [hslot] at hi heq
    exact hprimary hi heq
  · have hfound := query_of_mem h hi hle heq
    omega

/-- **What an add does**, and that it follows no bad pointer. -/
theorem handle_add (h : Inv s) {memory : Memory} (hok : AddOk s.store key replace memory) :
    ∃ t, handle s (.addKeyValuePair key value replace memory) = some t ∧ Added s key value replace t := by
  have hindex : getHashTableIndex key false s.store = getHashTableIndex key false s.store := rfl
  rw [AddOk] at hok
  conv at hindex => rhs; rw [getHashTableIndex]
  by_cases hempty : (s.store.iFieldKeys (getChecksum key)).empty = true
  · have hfree := (empty_iff h.toTable _).mp hempty
    simp only [hempty, if_true, Bool.not_false] at hok hindex
    by_cases hmindex : memory.index = true
    · obtain ⟨hkey, hquery, hmemory⟩ := hok hmindex
      exact added_new h hkey (absent_of_query h.toTable hquery fun hocc => absurd hocc hfree)
        ⟨hfree, .inl ⟨rfl, rfl⟩⟩ hindex ⟨hmindex, hmemory⟩
    · have hmindex : memory.index = false := by simpa using hmindex
      have hnegative : ¬((getChecksum key : Nat) : Int) < 0 := by omega
      refine ⟨s, ?_, .refused⟩
      rw [handle, addKeyValuePair, hindex]
      simp [hnegative, addKeyToStore, hempty, hmindex, noMemory, success]
  · have hocc : Occupied s.store (getChecksum key) := not_not.mp (mt (empty_iff h.toTable _).mpr hempty)
    simp only [hempty, Bool.false_eq_true, if_false] at hok hindex
    by_cases hsame : isCIEquivalentTo (s.store.iFieldKeys (getChecksum key)).iStr key = true
    · simp only [hsame, if_true] at hok hindex
      exact added_old h ⟨hocc, isCIEquivalentTo_iff.mp hsame⟩ hok hindex
    · have hother := mt isCIEquivalentTo_iff.mpr hsame
      simp only [hsame, Bool.false_eq_true, if_false] at hok hindex
      rcases query_cases key s.store with hquery | ⟨i, hi, hquery, hkey⟩
      · simp only [hquery, show ¬(-1 : Int) ≥ 0 from by omega, if_false] at hok hindex
        obtain ⟨hkey, hroom, hmemory⟩ := hok
        have hroom' : ¬s.store.iNumConflicts + 1 ≥ tableSize / 2 := by
          simp only [tableSize]
          omega
        rw [if_neg hroom'] at hindex
        refine added_new h hkey (absent_of_query h.toTable (by omega) fun _ => hother)
          ⟨fun hocc => ?_, .inr ⟨rfl, rfl, hroom⟩⟩ hindex hmemory
        have hslot := h.slot _ hocc
        have hsum := getChecksum_lt (s.store.iFieldKeys (500 + s.store.iNumConflicts)).iStr
        omega
      · simp only [hquery, show ((500 + i : Nat) : Int) ≥ 0 from by omega, if_true, Int.toNat_natCast] at hok hindex
        exact added_old h ⟨h.overflow i hi, hkey⟩ hok hindex

theorem follow_of_blocks (h : Inv s) (i : Nat) {links : List Linked}
    (hsub : ∀ link ∈ links, link ∈ (s.store.iFieldKeys i).iNext) :
    follow s.store links = some (links.map Linked.str) :=
  if_pos (List.all_eq_true.mpr fun link hlink => beq_iff_eq.mpr (h.blocks i link (hsub link hlink)))

theorem present_or_absent (s : Store) (key : Str) :
    (∃ i, Occupied s i ∧ fold (s.iFieldKeys i).iStr = fold key) ∨
      ∀ i, Occupied s i → fold (s.iFieldKeys i).iStr ≠ fold key := by
  by_cases hpresent : ∃ i, Occupied s i ∧ fold (s.iFieldKeys i).iStr = fold key
  · exact .inl hpresent
  · exact .inr fun i hi heq => hpresent ⟨i, hi, heq⟩

/-- **What a removal does.** -/
theorem handle_remove (h : Inv s) (hok : query key s.store < 0) :
    ∃ t, handle s (.removeKeyValuePair key) = some t ∧ Removed s key t := by
  rcases present_or_absent s.store key with ⟨j, hocc, hkey⟩ | habsent
  · have hj : j < 500 := by
      by_contra hle
      have hquery := query_of_mem h.toTable hocc (by omega) hkey
      omega
    have hfind := find_of_mem h.toTable hocc hkey
    have hnegative : ¬(j : Int) < 0 := by omega
    have hnumber : getNumberOfValuesByKey key s.store = some (1 + (s.store.iFieldKeys j).iNext.length) := by
      simp only [getNumberOfValuesByKey, hfind, hnegative, if_false, Int.toNat_natCast]
      rw [follow_of_blocks h j fun _ hlink => hlink, Option.map_some, List.length_map]
    have hslots : eraseIndices (fun i => isCIEquivalentTo (s.store.iFieldKeys i).iStr key)
        s.store.iFieldKeyTableIndexVector = s.store.iFieldKeyTableIndexVector.filter fun i => i ≠ j := by
      refine eraseIndices_eq h.slots_nodup fun i hi => ?_
      rw [isCIEquivalentTo_iff]
      constructor
      · intro heq
        exact h.unique i j ((h.mem_slots i).mp hi) hocc (heq.trans hkey.symm)
      · intro hij
        rw [hij, hkey]
    have hpositive : ¬1 + (s.store.iFieldKeys j).iNext.length = 0 := by omega
    rw [handle, removeKeyValuePair, hnumber]
    simp only [Option.map_some, hpositive, if_false, hfind, Int.toNat_natCast, hslots]
    exact ⟨_, rfl, .removed ⟨hocc, hkey⟩ hj⟩
  · have hfind := find_of_not_mem h.toTable habsent
    have hnumber : getNumberOfValuesByKey key s.store = some 0 := by
      simp only [getNumberOfValuesByKey, hfind]
      rfl
    have hnothing : s.added.remove key = s.added := by
      funext k
      by_cases hk : k = fold key
      · rw [hk, remove_self, h.absent _ habsent]
      · exact remove_of_ne hk
    rw [handle, removeKeyValuePair, hnumber]
    refine ⟨s, ?_, .absent⟩
    simp only [Option.map_some, if_true, hnothing]

theorem inv_clear (s : Session) : Inv ⟨clear s.store, fun _ => []⟩ := by
  have hfree : ∀ i, ¬Occupied (clear s.store) i := fun i hi => hi rfl
  refine ⟨⟨fun _ _ => rfl, fun i hi => absurd hi (hfree i), fun i hi => absurd hi (Nat.not_lt_zero i),
    Nat.zero_lt_succ _, fun i j hi => absurd hi (hfree i)⟩, fun i link hlink => ?_, fun _ _ => rfl, List.nodup_nil,
    fun i => ?_, fun i hi => absurd hi (hfree i), fun _ _ => rfl, rfl⟩
  · exact absurd hlink List.not_mem_nil
  · exact iff_of_false List.not_mem_nil (hfree i)

/-- **One call keeps the invariant**, and follows no bad pointer. -/
theorem inv_handle (h : Inv s) {event : Event} (hok : Ok s event) :
    ∃ t, handle s event = some t ∧ Inv t := by
  cases event with
  | addKeyValuePair key value replace memory =>
    obtain ⟨t, ht, hadded⟩ := handle_add h hok
    exact ⟨t, ht, inv_added h hadded⟩
  | removeKeyValuePair key =>
    obtain ⟨t, ht, hremoved⟩ := handle_remove h hok
    exact ⟨t, ht, inv_of_removed h hremoved⟩
  | clear => exact ⟨_, rfl, inv_clear s⟩

theorem inv_of_run {events : List Event} (hrun : Run (guarded Ok (stepOf handle)) newSession events s) :
    Inv s :=
  hrun.invariant inv_new fun a event b ha hstep => by
    obtain ⟨t, ht, hinv⟩ := inv_handle ha hstep.1
    have hbt : t = b := Option.some.inj (ht.symm.trans hstep.2)
    rwa [← hbt]

/-! ## The multimap -/

/-- The store is the multimap of what has been added to it. -/
structure Good (s : Session) : Prop where
  number : ∀ key, getNumberOfValuesByKey key s.store = some (s.added (fold key)).length
  value : ∀ key index, index < (s.added (fold key)).length →
    getValueByKey key index s.store = some (true, (s.added (fold key)).getD index [])
  listed : ∀ key, (getCurrentKeyList s.store).countP (isCIEquivalentTo key) =
    if s.added (fold key) = [] then 0 else 1
  pairs : s.store.iTotalNumberOfKeyValuePairs =
    UInt32.ofNat ((getCurrentKeyList s.store).map fun key => (s.added (fold key)).length).sum

theorem slot_lt (h : Table s.store) {i : Nat} (hi : Occupied s.store i) : i < tableSize := by
  have hslot := h.slot i hi
  have hsum := getChecksum_lt (s.store.iFieldKeys i).iStr
  have hconflicts := h.conflicts
  simp only [tableSize]
  omega

theorem good_number (h : Inv s) (key : Str) :
    getNumberOfValuesByKey key s.store = some (s.added (fold key)).length := by
  rw [getNumberOfValuesByKey]
  rcases present_or_absent s.store key with ⟨j, hocc, hkey⟩ | habsent
  · have hnegative : ¬(j : Int) < 0 := by omega
    have hpresent := h.present j hocc
    rw [hkey] at hpresent
    simp only [find_of_mem h.toTable hocc hkey, hnegative, if_false, Int.toNat_natCast]
    rw [follow_of_blocks h j fun _ hlink => hlink, Option.map_some, hpresent, List.length_cons, Nat.add_comm]
  · simp only [find_of_not_mem h.toTable habsent, h.absent _ habsent]
    rfl

theorem good_value (h : Inv s) {index : Nat} (hindex : index < (s.added (fold key)).length) :
    getValueByKey key index s.store = some (true, (s.added (fold key)).getD index []) := by
  rcases present_or_absent s.store key with ⟨j, hocc, hkey⟩ | habsent
  · have hlt := slot_lt h.toTable hocc
    have hrange : ¬((j : Int) < 0 ∨ (j : Int) > (tableSize : Nat)) := by omega
    have hpresent := h.present j hocc
    rw [hkey] at hpresent
    rw [hpresent] at hindex ⊢
    rw [getValueByKey]
    simp only [find_of_mem h.toTable hocc hkey, hrange, if_false, Int.toNat_natCast]
    cases index with
    | zero => rfl
    | succ index =>
      have hlen : index < (s.store.iFieldKeys j).iNext.length := by simpa using hindex
      rw [if_neg (Nat.succ_ne_zero index), follow_of_blocks h j fun _ hlink => List.mem_of_mem_take hlink]
      simp only [Option.map_some, List.length_map, List.length_take, Nat.min_eq_left hlen, if_true,
        Nat.add_sub_cancel, List.getD_eq_getElem?_getD, List.getElem?_map, List.getElem?_cons_succ,
        List.getElem?_take_of_lt (Nat.lt_succ_self index)]
  · rw [h.absent _ habsent] at hindex
    exact absurd hindex (Nat.not_lt_zero index)

theorem value_behind (h : Inv s) (hat : At s.store key j) :
    getValueByKey key (1 + (s.store.iFieldKeys j).iNext.length) s.store = some (false, []) := by
  have hlt := slot_lt h.toTable hat.1
  have hrange : ¬((j : Int) < 0 ∨ (j : Int) > (tableSize : Nat)) := by omega
  rw [getValueByKey]
  simp only [find_of_mem h.toTable hat.1 hat.2, hrange, if_false, Int.toNat_natCast]
  rw [if_neg (by omega), follow_of_blocks h j fun _ hlink => List.mem_of_mem_take hlink]
  simp

theorem countP_unique {p : Nat → Bool} {l : List Nat} (hnodup : l.Nodup) (hj : j ∈ l)
    (hp : ∀ i ∈ l, p i = true ↔ i = j) : l.countP p = 1 := by
  have hcongr : l.countP p = l.countP fun i => i == j :=
    List.countP_congr fun i hi => by rw [hp i hi, beq_iff_eq]
  rw [hcongr]
  exact List.count_eq_one_of_mem hnodup hj

theorem good_listed (h : Inv s) (key : Str) : (getCurrentKeyList s.store).countP (isCIEquivalentTo key) =
    if s.added (fold key) = [] then 0 else 1 := by
  rw [getCurrentKeyList, List.countP_map]
  rcases present_or_absent s.store key with ⟨j, hocc, hkey⟩ | habsent
  · have hpresent := h.present j hocc
    rw [hkey] at hpresent
    rw [hpresent, if_neg (List.cons_ne_nil _ _)]
    refine countP_unique h.slots_nodup ((h.mem_slots j).mpr hocc) fun i hi => ?_
    rw [Function.comp, isCIEquivalentTo_iff]
    constructor
    · intro heq
      exact h.unique i j ((h.mem_slots i).mp hi) hocc (heq.symm.trans hkey.symm)
    · intro hij
      rw [hij, hkey]
  · rw [h.absent _ habsent, if_pos rfl, List.countP_eq_zero]
    intro i hi hfound
    exact habsent i ((h.mem_slots i).mp hi) (isCIEquivalentTo_iff.mp hfound).symm

theorem good_of_inv (h : Inv s) : Good s where
  number := good_number h
  value _ _ := good_value h
  listed := good_listed h
  pairs := by
    rw [h.count, total, getCurrentKeyList, List.map_map]
    congr 2
    refine List.map_congr_left fun i hi => ?_
    rw [Function.comp, h.present i ((h.mem_slots i).mp hi), List.length_cons, List.length_map, Nat.add_comm]

/-- **The store is a multimap that ignores case**, in every run whose calls are sound;
and the next such call follows no bad pointer. -/
theorem multimap_of_run {events : List Event} {s : Session}
    (hrun : Run (guarded Ok (stepOf handle)) newSession events s) :
    Good s ∧ ∀ event, Ok s event → (handle s event).isSome := by
  have hinv := inv_of_run hrun
  refine ⟨good_of_inv hinv, fun event hok => ?_⟩
  obtain ⟨t, ht, -⟩ := inv_handle hinv hok
  rw [ht]
  rfl

/-- All allocations succeed. -/
def enough : Memory := ⟨true, true, true, true⟩

/-- `ab` and `ba` have one checksum: the first value of `ab`, two of `ba`, the first of them
replaced. -/
def collide : List Event :=
  [.addKeyValuePair [97, 98] [49] false enough, .addKeyValuePair [98, 97] [50] false enough,
    .addKeyValuePair [66, 65] [51] false enough, .addKeyValuePair [98, 65] [52] true enough,
    .removeKeyValuePair [65, 66]]

theorem multimap_of_run_collide : ∃ s, Run (guarded Ok (stepOf handle)) newSession collide s ∧
    Good s ∧ ∀ event, Ok s event → (handle s event).isSome := by
  have hsome : (collide.foldlM (fun s event => if Ok s event then handle s event else none)
      newSession).isSome := by decide
  obtain ⟨s, hs⟩ := Option.isSome_iff_exists.mp hsome
  have hrun := Run.of_foldlM_guarded hs
  exact ⟨s, hrun, multimap_of_run hrun⟩

/-- When `ab` has gone and `ba` is added once more, it gets the slot of `ab`: the values in the
overflow area are not found any more. -/
def shadow : List Event := collide ++ [.addKeyValuePair [98, 97] [53] false enough]

theorem shadow_values : ¬∀ events s, Run (stepOf handle) newSession events s → Good s := by
  intro h
  have hrun : (shadow.foldlM handle newSession).map (fun s =>
      (getNumberOfValuesByKey [98, 97] s.store, (s.added [98, 97]).length)) = some (some 1, 3) := by
    decide
  obtain ⟨s, hs, hvalues⟩ := Option.map_eq_some_iff.mp hrun
  obtain ⟨hone, hthree⟩ := Prod.mk.inj hvalues
  have hgood := (h shadow s (Run.of_foldlM hs)).number [98, 97]
  have hfold : fold [98, 97] = [98, 97] := rfl
  rw [hfold, hone, hthree] at hgood
  exact absurd hgood (by decide)

end Ftke.KeyValueStore
