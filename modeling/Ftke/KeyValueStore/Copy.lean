import Ftke.KeyValueStore.Runs
import Mathlib.Data.Finset.Card
import Mathlib.Order.Interval.Finset.Nat

/-!
# Ftke.KeyValueStore.Copy

`StringKeyValueStore::copy`, which puts the pairs of a store into a new one.

The keys are listed in an array of `getNumberOfKeys` elements, and the loop over it runs
to `getNumberOfKeyValuePairs`; when a key has several values it reads behind the array.
-/

namespace Ftke.KeyValueStore

/-! ## Copying -/

/-- `getNumberOfKeys`. -/
def getNumberOfKeys (s : Store) : Nat := s.iFieldKeyTableIndexVector.length

/-- The loop over the values of a key, from the value `j` on; the result is false when the
copy is given up. -/
def copyValues (aStore : Store) (key : Str) (memory : Memory) : Nat → Nat → Store → Option (Bool × Store)
  | 0, _, s => some (true, s)
  | count + 1, j, s =>
    (getValueByKey key j aStore).bind fun fieldValue =>
      if !fieldValue.1 then some (false, s)
      else
        (addKeyValuePair key fieldValue.2 false memory s).bind fun r =>
          if r.1 ≠ success then some (false, r.2) else copyValues aStore key memory count (j + 1) r.2

/-- The loop over the keys, from the key `i` on; an element behind the list is a fault. -/
def copyKeys (aStore : Store) (keyList : List Str) (memory : Memory) : Nat → Nat → Store → Option (Bool × Store)
  | 0, _, s => some (true, s)
  | count + 1, i, s =>
    keyList[i]?.bind fun key =>
      (getNumberOfValuesByKey key aStore).bind fun numValuesByKey =>
        (copyValues aStore key memory numValuesByKey 0 s).bind fun r =>
          if r.1 then copyKeys aStore keyList memory count (i + 1) r.2 else some r

/-- `copy`. -/
def copy (aStore : Store) (memory : Memory) (s : Store) : Option (Bool × Store) :=
  let numKeyValuePairs := aStore.iTotalNumberOfKeyValuePairs.toNat
  if numKeyValuePairs = 0 ∨ getNumberOfKeys aStore = 0 then some (true, s)
  else copyKeys aStore (getCurrentKeyList aStore) memory numKeyValuePairs 0 s

/-! ## The content of a store -/

/-- The values of a key, in order. -/
def values (key : Str) (s : Store) : Option (List Str) :=
  (getNumberOfValuesByKey key s).bind fun count =>
    (List.range count).mapM fun j => (getValueByKey key j s).map Prod.snd

/-- The copy goes through, and has the same content. -/
def Copied (s : Store) : Prop :=
  ∃ t, copy s enough create = some (true, t) ∧ (∀ key, values key t = values key s) ∧
    t.iTotalNumberOfKeyValuePairs = s.iTotalNumberOfKeyValuePairs ∧ getNumberOfKeys t = getNumberOfKeys s

/-- No key has a second value. -/
def Single (s : Store) : Prop := ∀ i ∈ s.iFieldKeyTableIndexVector, (s.iFieldKeys i).iNext = []

/-- A store that is a multimap, and counts its pairs. -/
structure Sound (s : Store) : Prop where
  holds : ∃ added, Inv ⟨s, added⟩
  counted : s.iTotalNumberOfKeyValuePairs.toNat = total s.iFieldKeys s.iFieldKeyTableIndexVector

variable {s : Session}

theorem values_eq (h : Inv s) (key : Str) : values key s.store = some (s.added (fold key)) := by
  have hgood := good_of_inv h
  have hmap (l : List Nat) (hl : ∀ j ∈ l, j < (s.added (fold key)).length) :
      (l.mapM fun j => (getValueByKey key j s.store).map Prod.snd) =
        some (l.map fun j => (s.added (fold key)).getD j []) := by
    induction l with
    | nil => rfl
    | cons j l ih =>
      rw [List.mapM_cons, hgood.value key j (hl j List.mem_cons_self),
        ih fun j hj => hl j (List.mem_cons_of_mem _ hj)]
      rfl
  rw [values, hgood.number key, Option.bind_some, hmap _ fun j hj => List.mem_range.mp hj]
  congr 1
  refine List.ext_getElem? fun j => ?_
  by_cases hj : j < (s.added (fold key)).length
  · rw [List.getElem?_map, List.getElem?_range hj, Option.map_some, List.getD_eq_getElem?_getD,
      List.getElem?_eq_getElem hj, Option.getD_some]
  · rw [List.getElem?_eq_none (by simpa using hj), List.getElem?_eq_none (by simpa using hj)]

/-! ## A key that is not there yet -/

/-- **A new key** gets the slot of its checksum, or a new one in the overflow area when that is
occupied. -/
theorem add_absent (h : Inv s) {key : Str} (value : Str) (hkey : key ≠ [])
    (habsent : ∀ i, Occupied s.store i → fold (s.store.iFieldKeys i).iStr ≠ fold key)
    (hroom : Occupied s.store (getChecksum key) → s.store.iNumConflicts + 1 < 500) :
    ∃ j t, addKeyValuePair key value false enough s.store = some (success, t) ∧
      Inv ⟨t, s.added.add key value false⟩ ∧
      t.iFieldKeys = (fun i => if i = j then ⟨key, []⟩ else s.store.iFieldKeys i) ∧
      t.iFieldKeyTableIndexVector = s.store.iFieldKeyTableIndexVector ++ [j] ∧
      t.iTotalNumberOfKeyValuePairs = s.store.iTotalNumberOfKeyValuePairs + 1 ∧
      ((¬Occupied s.store (getChecksum key) ∧ j = getChecksum key ∧ t.iNumConflicts = s.store.iNumConflicts) ∨
        (Occupied s.store (getChecksum key) ∧ j = 500 + s.store.iNumConflicts ∧
          t.iNumConflicts = s.store.iNumConflicts + 1)) := by
  -- the slot, and the result once the slot is known
  have hnew (j n : Nat) (hslot : NewSlot s.store key j n) (hindex : getHashTableIndex key false s.store =
      ((j : Int), { s.store with iNumConflicts := n })) :
      ∃ t, addKeyValuePair key value false enough s.store = some (success, t) ∧
        Inv ⟨t, s.added.add key value false⟩ ∧
        t.iFieldKeys = (fun i => if i = j then ⟨key, []⟩ else s.store.iFieldKeys i) ∧
        t.iFieldKeyTableIndexVector = s.store.iFieldKeyTableIndexVector ++ [j] ∧
        t.iTotalNumberOfKeyValuePairs = s.store.iTotalNumberOfKeyValuePairs + 1 ∧ t.iNumConflicts = n := by
    have hempty : (s.store.iFieldKeys j).empty = true := (empty_iff h.toTable j).mpr hslot.1
    have hnoValue := h.noValue j hslot.1
    have hnegative : ¬(j : Int) < 0 := by omega
    refine ⟨Store.counted (Store.setVal
      { s.store.setKey j ⟨key, []⟩ with
        iNumConflicts := n
        iFieldKeyTableIndexVector := s.store.iFieldKeyTableIndexVector ++ [j]
        iTotalKeyValueLength := s.store.iTotalKeyValueLength + UInt32.ofNat key.length } j value) value,
      ?_, inv_newKey h value false hkey habsent hslot rfl rfl rfl rfl rfl rfl, rfl, rfl, rfl, rfl⟩
    rw [addKeyValuePair, hindex]
    simp only [hnegative, if_false, Int.toNat_natCast, addKeyToStore, hempty, Bool.not_true, Bool.false_eq_true,
      enough, ne_eq, not_true_eq_false, hnoValue, List.length_nil, Store.setKey, if_true, Store.setVal]
  have hquery : query key s.store = -1 := query_of_not_mem fun i hle hlt => habsent i (by
    have hocc := h.overflow (i - 500) (by omega)
    rwa [Nat.add_sub_cancel' hle] at hocc)
  have hlt := getChecksum_lt key
  by_cases hocc : Occupied s.store (getChecksum key)
  · have hne : (s.store.iFieldKeys (getChecksum key)).empty = false :=
      Bool.eq_false_iff.mpr fun hempty => (empty_iff h.toTable _).mp hempty hocc
    have hother : isCIEquivalentTo (s.store.iFieldKeys (getChecksum key)).iStr key = false :=
      isCIEquivalentTo_eq_false (habsent _ hocc)
    have hconflicts := hroom hocc
    have hindex : getHashTableIndex key false s.store =
        (((500 + s.store.iNumConflicts : Nat) : Int),
          { s.store with iNumConflicts := s.store.iNumConflicts + 1 }) := by
      rw [getHashTableIndex]
      simp only [hne, hother, hquery, Bool.false_eq_true, if_false]
      rw [if_neg (by decide), if_neg (by simp only [tableSize]; omega)]
      rfl
    have hfree : ¬Occupied s.store (500 + s.store.iNumConflicts) := fun hocc => by
      have hslot := h.slot _ hocc
      have hsum := getChecksum_lt (s.store.iFieldKeys (500 + s.store.iNumConflicts)).iStr
      omega
    obtain ⟨t, hadd, hinv, hkeys, hslots, hpairs, hn⟩ := hnew _ _ ⟨hfree, .inr ⟨rfl, rfl, hconflicts⟩⟩ hindex
    exact ⟨_, t, hadd, hinv, hkeys, hslots, hpairs, .inr ⟨hocc, rfl, hn⟩⟩
  · have hempty : (s.store.iFieldKeys (getChecksum key)).empty = true := (empty_iff h.toTable _).mpr hocc
    have hindex : getHashTableIndex key false s.store = (((getChecksum key : Nat) : Int), s.store) := by
      rw [getHashTableIndex]
      simp only [hempty, Bool.not_false, if_true]
    obtain ⟨t, hadd, hinv, hkeys, hslots, hpairs, hn⟩ := hnew _ _ ⟨hocc, .inl ⟨rfl, rfl⟩⟩ hindex
    exact ⟨_, t, hadd, hinv, hkeys, hslots, hpairs, .inl ⟨hocc, rfl, hn⟩⟩

/-! ## The copy while it is built -/

/-- The checksum of the key in a slot. -/
def slotSum (s : Store) (i : Nat) : Nat := getChecksum (s.iFieldKeys i).iStr

/-- The keys in these slots of `s` have been copied, each with its one value; each that finds
the slot of its checksum occupied is a conflict. -/
structure Built (s : Store) (done : List Nat) (d : Session) : Prop where
  inv : Inv d
  present : ∀ i ∈ done, d.added (fold (s.iFieldKeys i).iStr) = [s.iFieldVals i]
  absent : ∀ k, (∀ i ∈ done, fold (s.iFieldKeys i).iStr ≠ k) → d.added k = []
  slots : getNumberOfKeys d.store = done.length
  pairs : d.store.iTotalNumberOfKeyValuePairs = UInt32.ofNat done.length
  occupied : ∀ c < 500, Occupied d.store c ↔ c ∈ (done.map (slotSum s)).toFinset
  conflicts : d.store.iNumConflicts + (done.map (slotSum s)).toFinset.card = done.length

theorem built_nil (s : Store) : Built s [] newSession where
  inv := inv_new
  present i hi := absurd hi List.not_mem_nil
  absent _ _ := rfl
  slots := rfl
  pairs := rfl
  occupied c _ := iff_of_false (fun h => h rfl) (by simp)
  conflicts := rfl

theorem Built.snoc {src : Store} {done : List Nat} {d : Session} (h : Built src done d) {i : Nat}
    (hkey : (src.iFieldKeys i).iStr ≠ [])
    (hother : ∀ j ∈ done, fold (src.iFieldKeys j).iStr ≠ fold (src.iFieldKeys i).iStr)
    (hroom : done.length + 1 < 500 + ((done ++ [i]).map (slotSum src)).toFinset.card) :
    ∃ t, addKeyValuePair (src.iFieldKeys i).iStr (src.iFieldVals i) false enough d.store = some (success, t) ∧
      Built src (done ++ [i]) ⟨t, d.added.add (src.iFieldKeys i).iStr (src.iFieldVals i) false⟩ := by
  have hsum := getChecksum_lt (src.iFieldKeys i).iStr
  have hmap : ((done ++ [i]).map (slotSum src)).toFinset =
      insert (slotSum src i) (done.map (slotSum src)).toFinset := by
    rw [List.map_append, List.toFinset_append, List.map_singleton, Finset.union_comm]
    rfl
  have hmem := h.occupied (slotSum src i) hsum
  have habsent : ∀ j, Occupied d.store j →
      fold (d.store.iFieldKeys j).iStr ≠ fold (src.iFieldKeys i).iStr := fun j hj heq => by
    have hpresent := h.inv.present j hj
    rw [heq, h.absent _ hother] at hpresent
    cases hpresent
  have hconflicts := h.conflicts
  obtain ⟨j, t, hadd, hinv, hkeys, hslots, hpairs, hwhere⟩ := add_absent h.inv (src.iFieldVals i) hkey habsent
    fun hocc => by
      rw [hmap, Finset.insert_eq_of_mem (hmem.mp hocc)] at hroom
      omega
  refine ⟨t, hadd, hinv, fun k hk => ?_, fun k hk => ?_, ?_, ?_, fun c hc => ?_, ?_⟩
  · simp only
    rcases List.mem_append.mp hk with hk | hk
    · rw [add_of_ne (hother k hk)]
      exact h.present k hk
    · rw [List.mem_singleton.mp hk, add_self, h.absent _ hother]
      rfl
  · simp only
    rw [add_of_ne (hk i (by simp)).symm]
    exact h.absent k fun j hj => hk j (List.mem_append_left _ hj)
  · have hold := h.slots
    rw [getNumberOfKeys] at hold ⊢
    simp only [hslots, List.length_append, List.length_singleton, hold]
  · simp only
    rw [hpairs, h.pairs, List.length_append, UInt32.ofNat_add]
    rfl
  · have hocct : Occupied t c ↔ c = j ∨ Occupied d.store c := by
      by_cases hcj : c = j
      · simp [Occupied, hkeys, hcj, hkey]
      · simp [Occupied, hkeys, hcj]
    simp only
    rw [hmap, Finset.mem_insert, ← h.occupied c hc, hocct]
    rcases hwhere with ⟨-, rfl, -⟩ | ⟨hocc, rfl, -⟩
    · rfl
    · constructor
      · rintro (hlarge | hold)
        · omega
        · exact .inr hold
      · rintro (rfl | hold)
        · exact .inr hocc
        · exact .inr hold
  · simp only
    rw [hmap, List.length_append, List.length_singleton]
    rcases hwhere with ⟨hfree, -, hn⟩ | ⟨hocc, -, hn⟩
    · rw [hn, Finset.card_insert_of_notMem (mt hmem.mpr hfree)]
      omega
    · rw [hn, Finset.insert_eq_of_mem (hmem.mp hocc)]
      omega

theorem room (h : Inv s) {done rest : List Nat} {i : Nat}
    (hslots : s.store.iFieldKeyTableIndexVector = done ++ i :: rest) :
    done.length + 1 < 500 + ((done ++ [i]).map (slotSum s.store)).toFinset.card := by
  have hsub : (done ++ i :: rest).toFinset ⊆ ((done ++ i :: rest).map (slotSum s.store)).toFinset ∪
      Finset.Ico 500 (500 + s.store.iNumConflicts) := by
    intro j hj
    have hmem : j ∈ done ++ i :: rest := List.mem_toFinset.mp hj
    have hocc := (h.mem_slots j).mp (hslots ▸ hmem)
    rw [Finset.mem_union, List.mem_toFinset, Finset.mem_Ico]
    refine (h.slot j hocc).imp_left fun heq => ?_
    have hsum : slotSum s.store j ∈ (done ++ i :: rest).map (slotSum s.store) := List.mem_map_of_mem hmem
    rwa [slotSum, ← heq] at hsum
  have hnodup := h.slots_nodup
  rw [hslots] at hnodup
  have hall := (Finset.card_le_card hsub).trans (Finset.card_union_le _ _)
  rw [List.toFinset_card_of_nodup hnodup, Nat.card_Ico] at hall
  -- each of the other keys has one checksum
  have hrest : ((done ++ i :: rest).map (slotSum s.store)).toFinset.card ≤
      ((done ++ [i]).map (slotSum s.store)).toFinset.card + rest.length := by
    have hmap : ((done ++ i :: rest).map (slotSum s.store)).toFinset =
        ((done ++ [i]).map (slotSum s.store)).toFinset ∪ (rest.map (slotSum s.store)).toFinset := by
      rw [← List.toFinset_append, ← List.map_append, List.append_assoc]
      rfl
    have hcard := List.toFinset_card_le (rest.map (slotSum s.store))
    rw [List.length_map] at hcard
    rw [hmap]
    exact (Finset.card_union_le _ _).trans (Nat.add_le_add_left hcard _)
  have hconflicts := h.conflicts
  rw [List.length_append, List.length_cons] at hall
  omega

/-! ## The loops -/

theorem copyValues_single (h : Inv s) {i : Nat} (hocc : Occupied s.store i)
    (hsingle : (s.store.iFieldKeys i).iNext = []) {d : Store} {t : Store}
    (hadd : addKeyValuePair (s.store.iFieldKeys i).iStr (s.store.iFieldVals i) false enough d = some (success, t)) :
    getNumberOfValuesByKey (s.store.iFieldKeys i).iStr s.store = some 1 ∧
      copyValues s.store (s.store.iFieldKeys i).iStr enough 1 0 d = some (true, t) := by
  have hpresent := h.present i hocc
  rw [hsingle, List.map_nil] at hpresent
  have hgood := good_of_inv h
  have hnumber := hgood.number (s.store.iFieldKeys i).iStr
  have hvalue := hgood.value (s.store.iFieldKeys i).iStr 0 (by rw [hpresent]; exact Nat.one_pos)
  rw [hpresent] at hnumber hvalue
  refine ⟨hnumber, ?_⟩
  rw [copyValues, hvalue]
  simp only [Option.bind_some, Bool.not_true, Bool.false_eq_true, if_false, List.getD_cons_zero, hadd, ne_eq,
    not_true_eq_false, copyValues]

/-- **The loop over the keys**, from the first one that has not been copied on. -/
theorem copyKeys_single (h : Inv s) (hsingle : Single s.store) : ∀ (rest done : List Nat) {d : Session},
    s.store.iFieldKeyTableIndexVector = done ++ rest → Built s.store done d →
    ∃ e, copyKeys s.store (getCurrentKeyList s.store) enough rest.length done.length d.store =
      some (true, e.store) ∧ Built s.store (done ++ rest) e
  | [], done, d, _, hd => ⟨d, rfl, by rwa [List.append_nil]⟩
  | i :: rest, done, d, hslots, hd => by
    have hmem : i ∈ s.store.iFieldKeyTableIndexVector := by rw [hslots]; simp
    have hocc := (h.mem_slots i).mp hmem
    have hnodup := h.slots_nodup
    rw [hslots] at hnodup
    have hother : ∀ j ∈ done, fold (s.store.iFieldKeys j).iStr ≠ fold (s.store.iFieldKeys i).iStr :=
      fun j hj heq => by
        have hjocc := (h.mem_slots j).mp (by rw [hslots]; exact List.mem_append_left _ hj)
        exact (List.nodup_append.mp hnodup).2.2 j hj i List.mem_cons_self (h.unique j i hjocc hocc heq)
    obtain ⟨t, hadd, hbuilt⟩ := hd.snoc hocc hother (room h hslots)
    obtain ⟨hnumber, hvalues⟩ := copyValues_single h hocc (hsingle i hmem) hadd
    have hkey : (getCurrentKeyList s.store)[done.length]? = some (s.store.iFieldKeys i).iStr := by
      rw [getCurrentKeyList, hslots, List.getElem?_map, List.getElem?_append_right (Nat.le_refl _), Nat.sub_self]
      rfl
    obtain ⟨e, hloop, he⟩ := copyKeys_single h hsingle rest (done ++ [i]) (by simp [hslots]) hbuilt
    refine ⟨e, ?_, by simpa using he⟩
    rw [List.length_cons, copyKeys, hkey]
    simp only [Option.bind_some, hnumber, hvalues, if_true]
    rw [List.length_append, List.length_singleton] at hloop
    exact hloop

theorem copyKeys_le {aStore : Store} {keyList : List Str} {memory : Memory} :
    ∀ (count i : Nat) {d t : Store}, 0 < count →
      copyKeys aStore keyList memory count i d = some (true, t) → i + count ≤ keyList.length
  | count + 1, i, d, t, _, h => by
    rw [copyKeys] at h
    obtain ⟨key, hkey, h⟩ := Option.bind_eq_some_iff.mp h
    obtain ⟨numValuesByKey, -, h⟩ := Option.bind_eq_some_iff.mp h
    obtain ⟨r, -, h⟩ := Option.bind_eq_some_iff.mp h
    have hlt : i < keyList.length := (List.getElem?_eq_some_iff.mp hkey).1
    split at h
    · cases count with
      | zero => omega
      | succ count =>
        have hle := copyKeys_le (count + 1) (i + 1) (Nat.succ_pos count) h
        omega
    · next hr =>
      cases h
      exact absurd rfl hr

/-! ## The copy -/

theorem total_eq_length_iff {keys : Nat → Wrapper} {slots : List Nat} :
    total keys slots ≤ slots.length ↔ ∀ i ∈ slots, (keys i).iNext = [] := by
  induction slots with
  | nil => simp [total]
  | cons i slots ih =>
    have hle := length_le_total keys slots
    rw [List.forall_mem_cons, ← ih, ← List.length_eq_zero_iff]
    simp only [total, List.map_cons, List.sum_cons, List.length_cons] at hle ⊢
    omega

theorem single_of_copy {s t : Store} {memory : Memory}
    (hcounted : s.iTotalNumberOfKeyValuePairs.toNat = total s.iFieldKeys s.iFieldKeyTableIndexVector)
    (hcopy : copy s memory create = some (true, t)) : Single s := by
  have hle := length_le_total s.iFieldKeys s.iFieldKeyTableIndexVector
  refine total_eq_length_iff.mp ?_
  rw [copy, hcounted] at hcopy
  split at hcopy
  · next hzero =>
    rcases hzero with hzero | hzero
    · omega
    · rw [List.eq_nil_of_length_eq_zero hzero]
      exact Nat.le_refl _
  · next hpos =>
    have hread := copyKeys_le _ 0 (by omega) hcopy
    rw [getCurrentKeyList, List.length_map, Nat.zero_add] at hread
    exact hread

theorem copied_of_single (h : Inv s) (hsingle : Single s.store)
    (hcounted : s.store.iTotalNumberOfKeyValuePairs.toNat =
      total s.store.iFieldKeys s.store.iFieldKeyTableIndexVector) : Copied s.store := by
  have htotal : total s.store.iFieldKeys s.store.iFieldKeyTableIndexVector =
      s.store.iFieldKeyTableIndexVector.length :=
    Nat.le_antisymm (total_eq_length_iff.mpr hsingle) (length_le_total _ _)
  obtain ⟨e, hloop, hbuilt⟩ := copyKeys_single h hsingle s.store.iFieldKeyTableIndexVector [] rfl
    (built_nil s.store)
  rw [List.nil_append] at hbuilt
  have hcopy : copy s.store enough create = some (true, e.store) := by
    rw [copy, hcounted, htotal, getNumberOfKeys]
    split
    · next hzero =>
      rw [or_self_iff.mp hzero] at hloop
      exact hloop
    · exact hloop
  refine ⟨e.store, hcopy, fun key => ?_, ?_, hbuilt.slots⟩
  · rw [values_eq hbuilt.inv, values_eq h]
    rcases present_or_absent s.store key with ⟨i, hocc, hkey⟩ | habsent
    · have hmem := (h.mem_slots i).mpr hocc
      rw [← hkey, h.present i hocc, hsingle i hmem, hbuilt.present i hmem]
      rfl
    · rw [hbuilt.absent _ fun i hi => habsent i ((h.mem_slots i).mp hi), h.absent _ habsent]
  · rw [hbuilt.pairs, ← htotal, ← hcounted, UInt32.ofNat_toNat]

/-- **A store is copied with all of its content** if and only if no key has a second value. -/
theorem copied_iff {s : Store} (h : Sound s) : Copied s ↔ Single s := by
  obtain ⟨⟨added, hinv⟩, hcounted⟩ := h
  constructor
  · rintro ⟨t, hcopy, -⟩
    exact single_of_copy hcounted hcopy
  · exact fun hsingle => copied_of_single hinv hsingle hcounted

/-- Two keys with one checksum, a value each. -/
def twoKeys : List Event :=
  [.addKeyValuePair [97, 98] [49] false enough, .addKeyValuePair [98, 97] [50] false enough]

/-- Two values of one key. -/
def twoValues : List Event :=
  [.addKeyValuePair [97, 98] [49] false enough, .addKeyValuePair [97, 98] [50] false enough]

theorem copied_twoKeys : ∃ s, Run (guarded Ok (stepOf handle)) newSession twoKeys s ∧ Sound s.store ∧
    (Copied s.store ↔ Single s.store) := by
  have hrun : (twoKeys.foldlM (fun s event => if Ok s event then handle s event else none)
      newSession).map (fun s => (s.store.iTotalNumberOfKeyValuePairs.toNat,
        total s.store.iFieldKeys s.store.iFieldKeyTableIndexVector)) = some (2, 2) := by decide
  obtain ⟨s, hs, hcounts⟩ := Option.map_eq_some_iff.mp hrun
  obtain ⟨hpairs, htotal⟩ := Prod.mk.inj hcounts
  have hstep := Run.of_foldlM_guarded hs
  have hsound : Sound s.store := ⟨⟨s.added, inv_of_run hstep⟩, hpairs.trans htotal.symm⟩
  exact ⟨s, hstep, hsound, copied_iff hsound⟩

/-- The copy of a key with two values reads behind the key list. -/
theorem copy_beyond : ¬∀ events s, Run (guarded Ok (stepOf handle)) newSession events s → Copied s.store := by
  intro h
  have hrun : (twoValues.foldlM (fun s event => if Ok s event then handle s event else none)
      newSession).map (fun s => (copy s.store enough create).isSome) = some false := by decide
  obtain ⟨s, hs, hnone⟩ := Option.map_eq_some_iff.mp hrun
  obtain ⟨t, hcopy, -⟩ := h twoValues s (Run.of_foldlM_guarded hs)
  rw [hcopy] at hnone
  cases hnone

end Ftke.KeyValueStore
