import Ftke.KeyValueStore.Runs

/-!
# Ftke.KeyValueStore.Lengths

The running total `iTotalKeyValueLength` against what is stored.

A key counts once for each of its values.  `Counted` is kept by every sound call
(`counted_handle`): each call changes the total by as much as it changes the pairs of one
slot.
-/

namespace Ftke.KeyValueStore

/-! ## The pairs of a store -/

/-- The pairs in a slot: the key with each of its values. -/
def slotFields (s : Store) (i : Nat) : List (Str × Str) :=
  (s.iFieldVals i :: (s.iFieldKeys i).iNext.map Linked.str).map fun value => ((s.iFieldKeys i).iStr, value)

/-- The pairs of a store, key by key. -/
def fields (s : Store) : List (Str × Str) := s.iFieldKeyTableIndexVector.flatMap (slotFields s)

/-- The length of a pair. -/
def pairLength (field : Str × Str) : Nat := field.1.length + field.2.length

def lengths (pairs : List (Str × Str)) : Nat := (pairs.map pairLength).sum

/-- The total is the length of the pairs. -/
def Counted (s : Store) : Prop := s.iTotalKeyValueLength = UInt32.ofNat (lengths (fields s))

/-- The length of the pairs in a slot. -/
def slotLength (s : Store) (i : Nat) : Nat := lengths (slotFields s i)

@[simp] theorem lengths_nil : lengths [] = 0 := rfl

@[simp] theorem lengths_cons (field : Str × Str) (pairs : List (Str × Str)) :
    lengths (field :: pairs) = pairLength field + lengths pairs := by
  simp [lengths]

@[simp] theorem lengths_append (l m : List (Str × Str)) : lengths (l ++ m) = lengths l + lengths m := by
  simp [lengths]

theorem lengths_flatMap (f : Nat → List (Str × Str)) (slots : List Nat) :
    lengths (slots.flatMap f) = (slots.map fun i => lengths (f i)).sum := by
  induction slots with
  | nil => rfl
  | cons i slots ih => simp [ih]

theorem lengths_fields (s : Store) :
    lengths (fields s) = (s.iFieldKeyTableIndexVector.map (slotLength s)).sum := lengths_flatMap _ _

theorem length_fields (s : Store) :
    (fields s).length = total s.iFieldKeys s.iFieldKeyTableIndexVector := by
  rw [fields, total, List.length_flatMap]
  congr 1
  refine List.map_congr_left fun i _ => ?_
  simp [slotFields, Nat.add_comm]

theorem lengths_map (key : Str) (values : List Str) : lengths (values.map fun value => (key, value)) =
    key.length * values.length + (values.map List.length).sum := by
  induction values with
  | nil => rfl
  | cons value values ih =>
    simp only [List.map_cons, lengths_cons, ih, pairLength, List.length_cons, List.sum_cons, Nat.mul_succ]
    omega

theorem slotLength_eq (s : Store) (i : Nat) : slotLength s i =
    (s.iFieldKeys i).iStr.length * (1 + (s.iFieldKeys i).iNext.length) + (s.iFieldVals i).length +
      ((s.iFieldKeys i).iNext.map fun link => link.str.length).sum := by
  rw [slotLength, slotFields, lengths_map, List.length_cons, List.length_map, List.map_cons, List.map_map,
    List.sum_cons, Nat.add_comm 1, Nat.add_assoc]
  rfl

theorem slotLength_congr {s t : Store} {i : Nat} (hkeys : t.iFieldKeys i = s.iFieldKeys i)
    (hvals : t.iFieldVals i = s.iFieldVals i) : slotLength t i = slotLength s i := by
  rw [slotLength, slotLength, slotFields, slotFields, hkeys, hvals]

/-! ## One call -/

variable {s : Session}

theorem counted_update (h : Counted s.store) {t : Store} {j : Nat}
    (hnodup : s.store.iFieldKeyTableIndexVector.Nodup) (hj : j ∈ s.store.iFieldKeyTableIndexVector)
    (hslots : t.iFieldKeyTableIndexVector = s.store.iFieldKeyTableIndexVector)
    (hothers : ∀ i, i ≠ j → slotLength t i = slotLength s.store i)
    (htotal : t.iTotalKeyValueLength + UInt32.ofNat (slotLength s.store j) =
      s.store.iTotalKeyValueLength + UInt32.ofNat (slotLength t j)) : Counted t := by
  have hsum := congrArg UInt32.ofNat (sum_update hothers hnodup hj)
  rw [UInt32.ofNat_add, UInt32.ofNat_add] at hsum
  rw [Counted, lengths_fields] at h ⊢
  rw [hslots]
  rw [h, ← hsum] at htotal
  exact (UInt32.add_left_inj _).mp htotal

variable {key value : Str}

theorem counted_newKey (h : Inv s) (hcounted : Counted s.store) {j n : Nat}
    (hslot : NewSlot s.store key j n) : Counted (s.store.withKey key value j n) := by
  have hsame : s.store.iFieldKeyTableIndexVector.map (slotLength (s.store.withKey key value j n)) =
      s.store.iFieldKeyTableIndexVector.map (slotLength s.store) :=
    List.map_congr_left fun i hi => by
      have hij : i ≠ j := fun hij => hslot.1 ((h.mem_slots j).mp (hij ▸ hi))
      exact slotLength_congr (if_neg hij) (if_neg hij)
  have hnew : slotLength (s.store.withKey key value j n) j = key.length + value.length := by
    rw [slotLength_eq]
    simp [Store.withKey, Store.counted, Store.setVal, Store.setKey]
  have hslots : (s.store.withKey key value j n).iFieldKeyTableIndexVector =
      s.store.iFieldKeyTableIndexVector ++ [j] := rfl
  rw [Counted, lengths_fields] at hcounted ⊢
  rw [hslots, List.map_append, hsame, List.sum_append, List.map_singleton, List.sum_singleton, hnew,
    UInt32.ofNat_add, UInt32.ofNat_add, ← hcounted, ← UInt32.add_assoc]
  rfl

theorem counted_replaced (h : Inv s) (hcounted : Counted s.store) {j : Nat}
    (hat : At s.store key j) : Counted (s.store.replaced value j) := by
  refine counted_update hcounted h.slots_nodup ((h.mem_slots j).mpr hat.1) rfl
    (fun i hij => slotLength_congr rfl (if_neg hij)) ?_
  have hold := slotLength_eq s.store j
  have hnew : slotLength (s.store.replaced value j) j + (s.store.iFieldVals j).length =
      slotLength s.store j + value.length := by
    rw [slotLength_eq, hold]
    simp only [Store.replaced, Store.counted, Store.setVal, if_true]
    omega
  have hsum := congrArg UInt32.ofNat hnew
  rw [UInt32.ofNat_add, UInt32.ofNat_add] at hsum
  have htotal : (s.store.replaced value j).iTotalKeyValueLength = s.store.iTotalKeyValueLength -
      UInt32.ofNat (s.store.iFieldVals j).length + UInt32.ofNat value.length := rfl
  have hnew' : UInt32.ofNat (slotLength (s.store.replaced value j) j) = UInt32.ofNat (slotLength s.store j) +
      UInt32.ofNat value.length - UInt32.ofNat (s.store.iFieldVals j).length := by
    rw [← hsum, UInt32.add_sub_cancel]
  rw [htotal, hnew']
  grind

theorem counted_appended (h : Inv s) (hcounted : Counted s.store) {j : Nat}
    (hat : At s.store key j) : Counted (s.store.appended value j) := by
  have hkeys : (s.store.appended value j).iFieldKeys = fun i => if i = j then
      ⟨(s.store.iFieldKeys j).iStr, (s.store.iFieldKeys j).iNext ++ [⟨value, s.store.pushWrapper.block⟩]⟩
      else s.store.iFieldKeys i := by
    funext i
    simp only [Store.appended, Store.counted, Store.setKey, pushWrapper_iFieldKeys]
  have hvals : (s.store.appended value j).iFieldVals = s.store.iFieldVals := by
    simp only [Store.appended, Store.counted, Store.setKey, pushWrapper_iFieldVals]
  refine counted_update hcounted h.slots_nodup ((h.mem_slots j).mpr hat.1) ?_ (fun i hij => ?_) ?_
  · simp only [Store.appended, Store.counted, Store.setKey, pushWrapper_slots]
  · exact slotLength_congr (by rw [hkeys]; exact if_neg hij) (by rw [hvals])
  · have hnew : slotLength (s.store.appended value j) j =
        slotLength s.store j + (s.store.iFieldKeys j).iStr.length + value.length := by
      rw [slotLength_eq, slotLength_eq, hkeys, hvals]
      simp only [if_true, List.length_append, List.length_singleton, List.map_append, List.map_singleton,
        List.sum_append, List.sum_singleton, ← Nat.add_assoc, Nat.mul_succ]
      omega
    have htotal : (s.store.appended value j).iTotalKeyValueLength = s.store.iTotalKeyValueLength +
        UInt32.ofNat (s.store.iFieldKeys j).iStr.length + UInt32.ofNat value.length := by
      simp only [Store.appended, Store.counted, pushWrapper_length]
    rw [hnew, htotal, UInt32.ofNat_add, UInt32.ofNat_add]
    grind

theorem counted_added (h : Inv s) (hcounted : Counted s.store) {replace : Bool} {t : Session}
    (ht : Added s key value replace t) : Counted t.store := by
  cases ht with
  | refused => exact hcounted
  | newKey _ _ hslot => exact counted_newKey h hcounted hslot
  | replaced hat => exact counted_replaced h hcounted hat
  | appended hat _ => exact counted_appended h hcounted hat

theorem counted_removed (h : Inv s) (hcounted : Counted s.store) {t : Session}
    (ht : Removed s key t) : Counted t.store := by
  cases ht with
  | absent => exact hcounted
  | @removed j hat _ =>
    have hsame : (s.store.iFieldKeyTableIndexVector.filter fun i => i ≠ j).map (slotLength (s.store.without j)) =
        (s.store.iFieldKeyTableIndexVector.filter fun i => i ≠ j).map (slotLength s.store) :=
      List.map_congr_left fun i hi => by
        have hij : i ≠ j := by simpa using (List.mem_filter.mp hi).2
        exact slotLength_congr (if_neg hij) (if_neg hij)
    have hsum := congrArg UInt32.ofNat (sum_filter (f := slotLength s.store) h.slots_nodup
      ((h.mem_slots j).mpr hat.1))
    rw [Counted, lengths_fields] at hcounted
    rw [UInt32.ofNat_add, ← hcounted] at hsum
    have htotal : (s.store.without j).iTotalKeyValueLength =
        s.store.iTotalKeyValueLength - UInt32.ofNat (slotLength s.store j) := by
      rw [slotLength_eq]
      rfl
    have hslots : (s.store.without j).iFieldKeyTableIndexVector =
        s.store.iFieldKeyTableIndexVector.filter fun i => i ≠ j := rfl
    simp only
    rw [Counted, lengths_fields, hslots, hsame, htotal, ← hsum, UInt32.add_sub_cancel]

/-- **The total is kept** by every sound call. -/
theorem counted_handle (h : Inv s) (hcounted : Counted s.store) {event : Event} (hok : Ok s event) {t : Session}
    (ht : handle s event = some t) : Counted t.store := by
  cases event with
  | addKeyValuePair key value replace memory =>
    obtain ⟨t', ht', hadded⟩ : ∃ t', handle s (.addKeyValuePair key value replace memory) = some t' ∧
      Added s key value replace t' := handle_add h hok
    rw [Option.some.inj (ht.symm.trans ht')]
    exact counted_added h hcounted hadded
  | removeKeyValuePair key =>
    obtain ⟨t', ht', hremoved⟩ := handle_remove h hok
    rw [Option.some.inj (ht.symm.trans ht')]
    exact counted_removed h hcounted hremoved
  | clear =>
    rw [← Option.some.inj ht]
    rfl

/-! ## The pairs of a key -/

theorem flatMap_single {β : Type*} {f : Nat → List β} {j : Nat} : ∀ {l : List Nat}, l.Nodup → j ∈ l →
    (∀ i ∈ l, i ≠ j → f i = []) → l.flatMap f = f j
  | [], _, hj, _ => absurd hj List.not_mem_nil
  | i :: l, hnodup, hj, hothers => by
    obtain ⟨hnot, hnodup⟩ := List.nodup_cons.mp hnodup
    rw [List.flatMap_cons]
    by_cases hij : i = j
    · have hnil : l.flatMap f = [] := List.flatMap_eq_nil_iff.mpr fun k hk =>
        hothers k (List.mem_cons_of_mem _ hk) fun hkj => hnot (by rw [hij, ← hkj]; exact hk)
      rw [hnil, hij, List.append_nil]
    · rw [hothers i List.mem_cons_self hij, List.nil_append]
      exact flatMap_single hnodup ((List.mem_cons.mp hj).resolve_left fun h => hij h.symm)
        fun k hk => hothers k (List.mem_cons_of_mem _ hk)

theorem filter_slotFields (s : Store) (i : Nat) (key : Str) :
    (slotFields s i).filter (fun field => isCIEquivalentTo field.1 key) =
      if fold (s.iFieldKeys i).iStr = fold key then slotFields s i else [] := by
  split
  · next heq =>
    refine List.filter_eq_self.mpr fun field hfield => ?_
    obtain ⟨value, -, rfl⟩ := List.mem_map.mp hfield
    exact isCIEquivalentTo_iff.mpr heq
  · next hne =>
    refine List.filter_eq_nil_iff.mpr fun field hfield hfound => ?_
    obtain ⟨value, -, rfl⟩ := List.mem_map.mp hfield
    exact hne (isCIEquivalentTo_iff.mp hfound)

/-- **The pairs are what has been added**: those of a key are its values, in order. -/
theorem fields_of_key (h : Inv s) (key : Str) :
    ((fields s.store).filter fun field => isCIEquivalentTo field.1 key).map Prod.snd = s.added (fold key) := by
  rw [fields, List.filter_flatMap]
  rcases present_or_absent s.store key with ⟨j, hocc, hkey⟩ | habsent
  · have hothers : ∀ i ∈ s.store.iFieldKeyTableIndexVector, i ≠ j →
        (slotFields s.store i).filter (fun field => isCIEquivalentTo field.1 key) = [] := fun i hi hij => by
      have hocci := (h.mem_slots i).mp hi
      rw [filter_slotFields, if_neg fun heq => hij (h.unique i j hocci hocc (heq.trans hkey.symm))]
    rw [flatMap_single h.slots_nodup ((h.mem_slots j).mpr hocc) hothers]
    rw [filter_slotFields, if_pos hkey, ← hkey, h.present j hocc, slotFields, List.map_map]
    exact List.map_id _
  · have hnil : (s.store.iFieldKeyTableIndexVector.flatMap fun i =>
        (slotFields s.store i).filter fun field => isCIEquivalentTo field.1 key) = [] :=
      List.flatMap_eq_nil_iff.mpr fun i hi => by
        rw [filter_slotFields, if_neg (habsent i ((h.mem_slots i).mp hi))]
    rw [hnil, h.absent _ habsent]
    rfl

end Ftke.KeyValueStore
