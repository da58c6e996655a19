import Ftke.HttpHeaderStore
import Ftke.VariableSizeMemPool.Runs

/-!
# Ftke.HttpHeaderStore.Growth

When a header field can be stored.

The keys are distinct and go to distinct slots, so that a table holds a list of pairs
(`Plain`), and a pool that nothing is given back to has at most one free chunk (`Pooled`).
A new pool has room for what is copied and for the new pair (`realloc_spec`); without one, the
average decides, and whether the free chunk is large enough (`addKeyValuePair_direct`).
-/

namespace Ftke.HttpHeaderStore

open VariableSizeMemPool
open KeyValueStore (Str getChecksum getHashTableIndex getValueByKey getNumberOfValuesByKey
  getCurrentKeyList getNumberOfKeys isCIEquivalentTo isCIEquivalentTo_iff getChecksum_lt noWrapper success
  noMemory)

/-! ## Tables -/

/-- The slot of a pair. -/
def slotOf (pair : Str × Str) : Nat := getChecksum pair.1

/-- A table holds these pairs, each in the slot of its key. -/
structure Plain (s : KeyValueStore.Store) (pairs : List (Str × Str)) : Prop where
  slots : s.iFieldKeyTableIndexVector = pairs.map slotOf
  nodup : (pairs.map slotOf).Nodup
  key : ∀ pair ∈ pairs, s.iFieldKeys (slotOf pair) = ⟨pair.1, []⟩
  value : ∀ pair ∈ pairs, s.iFieldVals (slotOf pair) = pair.2
  named : ∀ pair ∈ pairs, pair.1 ≠ []
  free : ∀ i, i ∉ pairs.map slotOf → s.iFieldKeys i = noWrapper ∧ s.iFieldVals i = []
  count : s.iTotalNumberOfKeyValuePairs = UInt32.ofNat pairs.length

theorem plain_create : Plain KeyValueStore.create [] where
  slots := rfl
  nodup := List.nodup_nil
  key _ h := absurd h List.not_mem_nil
  value _ h := absurd h List.not_mem_nil
  named _ h := absurd h List.not_mem_nil
  free _ _ := ⟨rfl, rfl⟩
  count := rfl

variable {t : KeyValueStore.Store} {pairs : List (Str × Str)} {key value : Str}

theorem Plain.length_le (h : Plain t pairs) : pairs.length ≤ 500 := by
  have hsub : (pairs.map slotOf).toFinset ⊆ Finset.range 500 := by
    intro i hi
    obtain ⟨pair, -, rfl⟩ := List.mem_map.mp (List.mem_toFinset.mp hi)
    exact Finset.mem_range.mpr (getChecksum_lt pair.1)
  have hcard := Finset.card_le_card hsub
  rwa [List.toFinset_card_of_nodup h.nodup, Finset.card_range, List.length_map] at hcard

theorem Plain.count_eq (h : Plain t pairs) : t.iTotalNumberOfKeyValuePairs.toNat = pairs.length := by
  have hle := h.length_le
  rw [h.count, UInt32.toNat_ofNat_of_lt' (by simp only [UInt32.size]; omega)]

theorem Plain.keyList (h : Plain t pairs) : getCurrentKeyList t = pairs.map Prod.fst := by
  rw [getCurrentKeyList, h.slots, List.map_map]
  refine List.map_congr_left fun pair hpair => ?_
  rw [Function.comp, h.key pair hpair]

variable {pair : Str × Str}

theorem Plain.index (h : Plain t pairs) (hpair : pair ∈ pairs) (find : Bool) :
    (getHashTableIndex pair.1 find t).1 = (slotOf pair : Nat) := by
  have hkey := h.key pair hpair
  rw [slotOf] at hkey ⊢
  have hempty : (t.iFieldKeys (getChecksum pair.1)).empty = false := by
    rw [hkey]
    simpa [KeyValueStore.Wrapper.empty] using h.named pair hpair
  have hsame : isCIEquivalentTo (t.iFieldKeys (getChecksum pair.1)).iStr pair.1 = true := by
    rw [hkey]
    exact isCIEquivalentTo_iff.mpr rfl
  rw [getHashTableIndex]
  simp only [hempty, hsame, Bool.false_eq_true, if_false, if_true]

theorem Plain.value_of (h : Plain t pairs) (hpair : pair ∈ pairs) :
    getValueByKey pair.1 0 t = some (true, pair.2) := by
  have hlt : slotOf pair < 500 := getChecksum_lt pair.1
  have hrange : ¬((slotOf pair : Int) < 0 ∨ (slotOf pair : Int) > (KeyValueStore.tableSize : Nat)) := by
    simp only [KeyValueStore.tableSize]
    omega
  rw [getValueByKey]
  simp only [h.index hpair true, hrange, if_false, if_true, Int.toNat_natCast, h.value pair hpair]

theorem Plain.number_of (h : Plain t pairs) (hpair : pair ∈ pairs) :
    getNumberOfValuesByKey pair.1 t = some 1 := by
  have hnegative : ¬(slotOf pair : Int) < 0 := by omega
  rw [getNumberOfValuesByKey]
  simp only [h.index hpair true, hnegative, if_false, Int.toNat_natCast, h.key pair hpair]
  rfl

/-- The slot of a key is free. -/
def NewKey (key : Str) (pairs : List (Str × Str)) : Prop := key ≠ [] ∧ getChecksum key ∉ pairs.map slotOf

theorem Plain.index_new (h : Plain t pairs) (hnew : NewKey key pairs) :
    (t.iFieldKeys (getChecksum key)).empty = true ∧
      getHashTableIndex key false t = (((getChecksum key : Nat) : Int), t) := by
  have hempty : (t.iFieldKeys (getChecksum key)).empty = true := by
    rw [(h.free _ hnew.2).1]
    rfl
  refine ⟨hempty, ?_⟩
  rw [getHashTableIndex]
  simp only [hempty, Bool.not_false, if_true]

theorem Plain.add (h : Plain t pairs) (hnew : NewKey key pairs) (value : Str) (replace : Bool) :
    ∃ u, KeyValueStore.addKeyValuePair key value replace ⟨true, true, true, true⟩ t = some (success, u) ∧
      Plain u (pairs ++ [(key, value)]) := by
  obtain ⟨hempty, hindex⟩ := h.index_new hnew
  have hnoValue := (h.free _ hnew.2).2
  have hnegative : ¬((getChecksum key : Nat) : Int) < 0 := by omega
  refine ⟨t.withKey key value (getChecksum key) t.iNumConflicts, ?_, ?_⟩
  · rw [KeyValueStore.addKeyValuePair, hindex]
    simp only [hnegative, if_false, Int.toNat_natCast, KeyValueStore.addKeyToStore, hempty, Bool.not_true,
      Bool.false_eq_true, ne_eq, not_true_eq_false, hnoValue, List.length_nil, KeyValueStore.Store.setKey, if_true,
      KeyValueStore.Store.setVal, KeyValueStore.Store.withKey]
  · have hother (pair : Str × Str) (hpair : pair ∈ pairs) : slotOf pair ≠ getChecksum key := fun heq =>
      hnew.2 (heq ▸ List.mem_map_of_mem hpair)
    have hmap : (pairs ++ [(key, value)]).map slotOf = pairs.map slotOf ++ [getChecksum key] := by
      rw [List.map_append]
      rfl
    refine ⟨?_, ?_, fun pair hpair => ?_, fun pair hpair => ?_, fun pair hpair => ?_, fun i hi => ?_, ?_⟩
    · rw [hmap, ← h.slots]
      rfl
    · rw [hmap]
      exact List.nodup_append.mpr ⟨h.nodup, List.nodup_singleton _, fun i hi j hj heq =>
        hnew.2 (by rwa [← List.mem_singleton.mp hj, ← heq])⟩
    · rcases List.mem_append.mp hpair with hold | hlast
      · rw [← h.key pair hold]
        exact if_neg (hother pair hold)
      · rw [List.mem_singleton.mp hlast]
        exact if_pos rfl
    · rcases List.mem_append.mp hpair with hold | hlast
      · rw [← h.value pair hold]
        exact if_neg (hother pair hold)
      · rw [List.mem_singleton.mp hlast]
        exact if_pos rfl
    · rcases List.mem_append.mp hpair with hold | hlast
      · exact h.named pair hold
      · rw [List.mem_singleton.mp hlast]
        exact hnew.1
    · rw [hmap, List.mem_append, List.mem_singleton, not_or] at hi
      obtain ⟨hkey, hval⟩ := h.free i hi.1
      exact ⟨(if_neg hi.2).trans hkey, (if_neg hi.2).trans hval⟩
    · rw [List.length_append, UInt32.ofNat_add, ← h.count]
      rfl

theorem Plain.add_failed (h : Plain t pairs) (hnew : NewKey key pairs) (value : Str) (replace : Bool)
    (memory : KeyValueStore.Memory) (hindexed : memory.index = true)
    (hfailed : memory.key = false ∨ memory.value = false) :
    ∃ u, KeyValueStore.addKeyValuePair key value replace memory t = some (noMemory, u) := by
  obtain ⟨hempty, hindex⟩ := h.index_new hnew
  have hnegative : ¬((getChecksum key : Nat) : Int) < 0 := by omega
  rw [KeyValueStore.addKeyValuePair, hindex]
  simp only [hnegative, if_false, Int.toNat_natCast, KeyValueStore.addKeyToStore, hempty, Bool.not_true,
    Bool.false_eq_true, hindexed]
  cases hmkey : memory.key with
  | false => simp [noMemory, success]
  | true =>
    have hmvalue : memory.value = false := hfailed.resolve_left (by simp [hmkey])
    simp [hmvalue]

/-! ## The pool -/

/-- The pool has `available` free bytes, in one chunk, and has allocated `sizes`. -/
structure Pooled (pool : Pool) (sizes : List Nat) (available : Nat) : Prop where
  free : available = 0 ∧ pool.iFreeMemChunkList = [] ∨
    0 < available ∧ ∃ p, pool.iFreeMemChunkList = [⟨p, available⟩]
  used : pool.iUsedMemChunkList.map Chunk.len = sizes
  total : available + sizes.sum = pool.iMaxPoolSize
  size : pool.iMaxPoolSize < 2 ^ 32

variable {pool : Pool} {sizes : List Nat} {available : Nat}

theorem Pooled.available_eq (h : Pooled pool sizes available) :
    getTotalAvailableSize pool = available := by
  have htotal := h.total
  have hsize := h.size
  rw [getTotalAvailableSize]
  rcases h.free with ⟨hzero, hfree⟩ | ⟨-, p, hfree⟩
  · rw [hfree, hzero]
    rfl
  · rw [hfree]
    exact (add32_of_lt (by simp only; omega)).trans (Nat.zero_add _)

theorem Pooled.usage_eq (h : Pooled pool sizes available) : getCurrMemoryUsage pool = sizes.sum := by
  have htotal := h.total
  have hsize := h.size
  rw [getCurrMemoryUsage, h.used, foldl_add32 (by omega), Nat.zero_add]

variable {n : Nat}

theorem alignedSize_le (h : n + 7 < 2 ^ 32) : alignedSize n ≤ n + 7 := by
  rw [alignedSize]
  split <;> omega

theorem pooled_createMempool (iMemPool : Nat) {n : UInt32} (hpos : 0 < n.toNat) (hn : n.toNat + 7 < 2 ^ 32) :
    Pooled (createMempool iMemPool n) [] (alignedSize n.toNat) := by
  have hle := le_alignedSize hn
  have hlt := alignedSize_le hn
  exact ⟨.inr ⟨by omega, iMemPool, rfl⟩, rfl, rfl, by simp only [createMempool]; omega⟩

/-- What an allocation takes: the size asked for if the chunk is cut, or all there is. -/
def taken (request aver available : Nat) : Nat := if available - request > aver then request else available

theorem Pooled.allocated (h : Pooled pool sizes available) (aver : Nat) (hn : n + 7 < 2 ^ 32)
    (hpos : 0 < n) (hfits : alignedSize n ≤ available) :
    ∃ p u, allocate (UInt32.ofNat n) aver true pool = (some p, u) ∧
      u.iUsedMemChunkList.getLast?.map Chunk.len = some (taken (alignedSize n) aver available) ∧
      u.iMaxPoolSize = pool.iMaxPoolSize ∧
      Pooled u (sizes ++ [taken (alignedSize n) aver available])
        (available - taken (alignedSize n) aver available) := by
  have hnat : (UInt32.ofNat n).toNat = n := UInt32.toNat_ofNat_of_lt' (by simp only [UInt32.size]; omega)
  have hle := le_alignedSize hn
  have htotal := h.total
  obtain ⟨hsome, p, hfree⟩ := h.free.resolve_left fun hzero => by omega
  have hsane : allocateSanityCheck (alignedSize n) pool = true := by
    simp [allocateSanityCheck, hfree]
    omega
  have hlarge : ¬available < alignedSize n := by omega
  rw [allocate]
  simp only [hnat, hsane, Bool.not_true, Bool.false_eq_true, if_false, hfree, getFreeMemChunk, hlarge, if_true]
  by_cases hcut : available - alignedSize n > aver
  · have htaken : taken (alignedSize n) aver available = alignedSize n := if_pos hcut
    simp only [hcut, if_true, htaken]
    refine ⟨p, _, rfl, by simp, rfl, .inr ⟨by omega, _, rfl⟩, by simp [h.used], ?_, h.size⟩
    simp only [List.sum_append, List.sum_singleton]
    omega
  · have htaken : taken (alignedSize n) aver available = available := if_neg hcut
    simp only [hcut, if_false, htaken, Nat.sub_self]
    refine ⟨p, _, rfl, by simp, rfl, .inl ⟨rfl, rfl⟩, by simp [h.used], ?_, h.size⟩
    simp only [List.sum_append, List.sum_singleton]
    omega

theorem Pooled.refused (h : Pooled pool sizes available) (aver : Nat) (hn : n + 7 < 2 ^ 32)
    (hlarge : available < alignedSize n) : allocate (UInt32.ofNat n) aver true pool = (none, pool) := by
  have hnat : (UInt32.ofNat n).toNat = n := UInt32.toNat_ofNat_of_lt' (by simp only [UInt32.size]; omega)
  rw [allocate, hnat]
  by_cases hsane : (!allocateSanityCheck (alignedSize n) pool) = true
  · rw [if_pos hsane]
  · rw [if_neg hsane, getFreeMemChunk_eq_none fun f hf => ?_]
    rcases h.free with ⟨-, hfree⟩ | ⟨-, p, hfree⟩
    · rw [hfree] at hf
      exact absurd hf List.not_mem_nil
    · rw [hfree] at hf
      rw [List.mem_singleton.mp hf]
      exact hlarge

/-! ## Adding to a store -/

variable {average : List Nat → Nat} {s : HeaderStore} {replace : Bool}

theorem storeNew_spec (average : List Nat → Nat) (h : Pooled s.pool s.sizes available)
    (hn : n + 8 < 2 ^ 32) (hfits : alignedSize (n + 1) ≤ available) :
    ∃ p u, storeNewKeyValueItem average n s = (some p, u) ∧ u.table = s.table ∧
      u.pool.iMaxPoolSize = s.pool.iMaxPoolSize ∧
      u.sizes = s.sizes ++ [taken (alignedSize (n + 1)) (average s.sizes) available] ∧
      Pooled u.pool u.sizes (available - taken (alignedSize (n + 1)) (average s.sizes) available) := by
  obtain ⟨p, u, hallocate, hlast, hmax, hu⟩ := h.allocated (average s.sizes) (by omega) (Nat.succ_pos n) hfits
  rw [storeNewKeyValueItem]
  simp only [hallocate, Option.isSome_some, if_true, hlast, Option.toList_some]
  exact ⟨p, _, rfl, rfl, hmax, rfl, hu⟩

theorem storeNew_refused (average : List Nat → Nat) (h : Pooled s.pool s.sizes available)
    (hn : n + 8 < 2 ^ 32) (hlarge : available < alignedSize (n + 1)) :
    storeNewKeyValueItem average n s = (none, s) := by
  rw [storeNewKeyValueItem, h.refused (average s.sizes) (by omega) hlarge]
  simp

/-- The store has these pairs, and so many free bytes. -/
structure State (s : HeaderStore) (pairs : List (Str × Str)) (available : Nat) : Prop where
  table : Plain s.table pairs
  pool : Pooled s.pool s.sizes available

/-- A key may be added. -/
structure Addable (pairs : List (Str × Str)) (key value : Str) : Prop where
  new : NewKey key pairs
  keyLength : key.length < 2 ^ 31
  valueLength : value.length < 2 ^ 31

/-- The free chunk has room for the key, it is cut behind the key, and what is left has room for the
value. -/
def Holds (average : List Nat → Nat) (s : HeaderStore) (available : Nat) (key value : Str) : Prop :=
  alignedSize (key.length + 1) ≤ available ∧
    average s.sizes < available - alignedSize (key.length + 1) ∧
    alignedSize (value.length + 1) ≤ available - alignedSize (key.length + 1)

theorem State.indexForAdding (h : State s pairs available) (hnew : NewKey key pairs) :
    indexForAdding key s = some (getChecksum key) := by
  have hnegative : ¬((getChecksum key : Nat) : Int) < 0 := by omega
  rw [HttpHeaderStore.indexForAdding, (h.table.index_new hnew).2]
  simp only [hnegative, if_false, Int.toNat_natCast]

/-- **An add with room.** -/
theorem State.add (h : State s pairs available) (hadd : Addable pairs key value)
    (hholds : Holds average s available key value) (replace : Bool) : ∃ u,
    addKeyValuePair average key value replace s = some (success, u) ∧
      u.pool.iMaxPoolSize = s.pool.iMaxPoolSize ∧
      u.sizes = s.sizes ++ [alignedSize (key.length + 1)] ++ [taken (alignedSize (value.length + 1))
        (average (s.sizes ++ [alignedSize (key.length + 1)])) (available - alignedSize (key.length + 1))] ∧
      State u (pairs ++ [(key, value)]) (available - alignedSize (key.length + 1) -
        taken (alignedSize (value.length + 1)) (average (s.sizes ++ [alignedSize (key.length + 1)]))
          (available - alignedSize (key.length + 1))) := by
  obtain ⟨hroom, hcut, hrest⟩ := hholds
  have htaken : taken (alignedSize (key.length + 1)) (average s.sizes) available =
      alignedSize (key.length + 1) := if_pos hcut
  have hkeyLength := hadd.keyLength
  have hvalueLength := hadd.valueLength
  obtain ⟨p, k, hkey, hktable, hkmax, hksizes, hkpool⟩ :=
    storeNew_spec average h.pool (n := key.length) (by omega) hroom
  rw [htaken] at hksizes hkpool
  obtain ⟨q, v, hvalue, hvtable, hvmax, hvsizes, hvpool⟩ :=
    storeNew_spec average hkpool (n := value.length) (by omega) hrest
  rw [hksizes] at hvsizes
  rw [hksizes] at hvpool
  obtain ⟨t, ht, htplain⟩ := h.table.add hadd.new value replace
  have hnoValue : (s.table.iFieldVals (getChecksum key)).length = 0 := by
    rw [(h.table.free _ hadd.new.2).2]
    rfl
  rw [addKeyValuePair, h.indexForAdding hadd.new]
  simp only [(h.table.index_new hadd.new).1, if_true, hkey, Option.isSome_some, hvalue, ht, Option.map_some,
    hnoValue]
  exact ⟨_, rfl, hvmax.trans hkmax, hvsizes, htplain, hvpool⟩

/-- **An add without room** fails, and may leave the key behind. -/
theorem State.add_fails (h : State s pairs available) (hadd : Addable pairs key value)
    (hholds : ¬Holds average s available key value) (replace : Bool) :
    ∃ u, addKeyValuePair average key value replace s = some (noMemory, u) := by
  have hkeyLength := hadd.keyLength
  have hvalueLength := hadd.valueLength
  have hempty := (h.table.index_new hadd.new).1
  rw [addKeyValuePair, h.indexForAdding hadd.new]
  by_cases hroom : alignedSize (key.length + 1) ≤ available
  · obtain ⟨p, k, hkey, hktable, hkmax, hksizes, hkpool⟩ :=
      storeNew_spec average h.pool (n := key.length) (by omega) hroom
    have hlarge : available - taken (alignedSize (key.length + 1)) (average s.sizes) available <
        alignedSize (value.length + 1) := by
      have hle := le_alignedSize (n := value.length + 1) (by omega)
      rw [taken]
      split
      · next hcut => exact Nat.lt_of_not_le fun hrest => hholds ⟨hroom, hcut, hrest⟩
      · omega
    have hvalue := storeNew_refused average hkpool (n := value.length) (by omega) hlarge
    obtain ⟨t, ht⟩ := h.table.add_failed hadd.new value replace ⟨true, true, false, true⟩ rfl (.inr rfl)
    simp only [hempty, if_true, hkey, Option.isSome_some, hvalue, Option.isSome_none, ht, Option.map_some]
    exact ⟨_, rfl⟩
  · have hkey := storeNew_refused average h.pool (n := key.length) (by omega)
      (Nat.lt_of_not_le hroom)
    obtain ⟨t, ht⟩ := h.table.add_failed hadd.new value replace ⟨true, false, false, true⟩ rfl (.inl rfl)
    simp only [hempty, if_true, hkey, Option.isSome_none, Bool.false_eq_true, if_false, ht, Option.map_some]
    exact ⟨_, rfl⟩

/-! ## Copying -/

/-- The bytes that the chunks of a pair take. -/
def pairNeed (pair : Str × Str) : Nat := alignedSize (pair.1.length + 1) + alignedSize (pair.2.length + 1)

def need (pairs : List (Str × Str)) : Nat := (pairs.map pairNeed).sum

@[simp] theorem need_nil : need [] = 0 := rfl

@[simp] theorem need_cons (pair : Str × Str) (pairs : List (Str × Str)) :
    need (pair :: pairs) = pairNeed pair + need pairs := by
  simp [need]

@[simp] theorem need_append (l m : List (Str × Str)) : need (l ++ m) = need l + need m := by
  simp [need]

/-- The strings of a pair have an `int32` length. -/
def Short (pairs : List (Str × Str)) : Prop := ∀ pair ∈ pairs, pair.1.length < 2 ^ 31 ∧ pair.2.length < 2 ^ 31

theorem copyValues_one {src : KeyValueStore.Store} (h : Plain src pairs) (hpair : pair ∈ pairs)
    {d e : HeaderStore} (hadd : addKeyValuePair average pair.1 pair.2 false d = some (success, e)) :
    copyValues average src pair.1 1 0 d = some (true, e) := by
  rw [copyValues, h.value_of hpair]
  simp only [Option.bind_some, Bool.not_true, Bool.false_eq_true, if_false, hadd, ne_eq, not_true_eq_false,
    copyValues]

/-- **The loop over the keys**, from the first one that has not been copied on: when the pool has
twice the bytes that are needed, each chunk is cut. -/
theorem copyKeys_spec (haverage : ∀ sizes, average sizes ≤ sizes.sum) {src : KeyValueStore.Store} {size : Nat} :
    ∀ (rest done : List (Str × Str)) {d : HeaderStore}, Plain src (done ++ rest) → Short (done ++ rest) →
    2 * need (done ++ rest) < size → State d done (size - need done) → d.sizes.sum = need done →
    ∃ e, copyKeys average src (getCurrentKeyList src) rest.length done.length d = some (true, e) ∧
      e.pool.iMaxPoolSize = d.pool.iMaxPoolSize ∧ State e (done ++ rest) (size - need (done ++ rest)) ∧
      e.sizes.sum = need (done ++ rest)
  | [], done, d, _, _, _, hd, hsum => ⟨d, rfl, rfl, by rwa [List.append_nil], by rwa [List.append_nil]⟩
  | pair :: rest, done, d, hsrc, hshort, hsize, hd, hsum => by
    have hmem : pair ∈ done ++ pair :: rest := by simp
    have hadd : Addable done pair.1 pair.2 := by
      refine ⟨⟨hsrc.named pair hmem, fun hold => ?_⟩, (hshort pair hmem).1, (hshort pair hmem).2⟩
      have hnodup := hsrc.nodup
      rw [List.map_append, List.map_cons] at hnodup
      exact (List.nodup_append.mp hnodup).2.2 _ hold _ List.mem_cons_self rfl
    have hall : need (done ++ pair :: rest) = need done + pairNeed pair + need rest := by
      simp only [need_append, need_cons]
      omega
    rw [pairNeed] at hall
    have haver := haverage d.sizes
    have haver' := haverage (d.sizes ++ [alignedSize (pair.1.length + 1)])
    simp only [List.sum_append, List.sum_singleton] at haver'
    have hholds : Holds average d (size - need done) pair.1 pair.2 := ⟨by omega, by omega, by omega⟩
    obtain ⟨e, he, hemax, hesizes, hestate⟩ := hd.add hadd hholds false
    have htaken : taken (alignedSize (pair.2.length + 1)) (average (d.sizes ++ [alignedSize (pair.1.length + 1)]))
        (size - need done - alignedSize (pair.1.length + 1)) = alignedSize (pair.2.length + 1) :=
      if_pos (by omega)
    rw [htaken] at hesizes hestate
    have hneed : need (done ++ [pair]) = need done + alignedSize (pair.1.length + 1) +
        alignedSize (pair.2.length + 1) := by
      simp only [need_append, need_cons, need_nil, pairNeed]
      omega
    have hesum : e.sizes.sum = need (done ++ [pair]) := by
      rw [hesizes, hneed]
      simp only [List.sum_append, List.sum_singleton]
      omega
    have hestate' : State e (done ++ [pair]) (size - need (done ++ [pair])) := by
      rwa [hneed, ← Nat.sub_sub, ← Nat.sub_sub]
    have hsplit : done ++ pair :: rest = (done ++ [pair]) ++ rest := by simp
    rw [hsplit] at hsrc hshort hsize ⊢
    obtain ⟨f, hf, hfmax, hfstate, hfsum⟩ := copyKeys_spec haverage rest (done ++ [pair]) hsrc hshort hsize
      hestate' hesum
    refine ⟨f, ?_, hfmax.trans hemax, hfstate, hfsum⟩
    have hkey : (getCurrentKeyList src)[done.length]? = some pair.1 := by
      rw [hsrc.keyList]
      simp
    have hin : pair ∈ done ++ [pair] ++ rest := by simp
    rw [List.length_cons, copyKeys, hkey]
    simp only [Option.bind_some, hsrc.number_of hin, copyValues_one hsrc hin he, if_true]
    rw [List.length_append, List.length_singleton] at hf
    exact hf

theorem copy_spec (haverage : ∀ sizes, average sizes ≤ sizes.sum) {src : KeyValueStore.Store}
    (hsrc : Plain src pairs) (hshort : Short pairs) {d : HeaderStore} (size : Nat)
    (hsize : 2 * need pairs < size) (hd : State d [] size) (hsizes : d.sizes = []) :
    ∃ e, copy average src d = some (true, e) ∧
      e.pool.iMaxPoolSize = d.pool.iMaxPoolSize ∧ State e pairs (size - need pairs) ∧ e.sizes.sum = need pairs := by
  obtain ⟨e, he, hmax, hstate, hsum⟩ := copyKeys_spec haverage pairs [] hsrc hshort hsize hd (by rw [hsizes]; rfl)
  refine ⟨e, ?_, hmax, hstate, hsum⟩
  have hkeys : getNumberOfKeys src = pairs.length := by
    rw [getNumberOfKeys, hsrc.slots, List.length_map]
  rw [copy, hsrc.count_eq, hkeys]
  split
  · next hzero =>
    rw [or_self_iff.mp hzero] at he
    exact he
  · exact he

/-! ## Growing -/

theorem toNat_twice_max {a b : Nat} (h : 2 * max a b < 2 ^ 32) :
    (osclMax (UInt32.ofNat a) (UInt32.ofNat b) <<< 1).toNat = 2 * max a b := by
  have ha : (UInt32.ofNat a).toNat = a := UInt32.toNat_ofNat_of_lt' (by simp only [UInt32.size]; omega)
  have hb : (UInt32.ofNat b).toNat = b := UInt32.toNat_ofNat_of_lt' (by simp only [UInt32.size]; omega)
  have hmax : (osclMax (UInt32.ofNat a) (UInt32.ofNat b)).toNat = max a b := by
    rw [osclMax]
    by_cases hlt : b < a
    · rw [if_pos (UInt32.lt_iff_toNat_lt.mpr (by rwa [ha, hb])), ha]
      omega
    · rw [if_neg (mt UInt32.lt_iff_toNat_lt.mp (by rwa [ha, hb])), hb]
      omega
  rw [UInt32.toNat_shiftLeft, hmax]
  simp only [UInt32.reduceToNat, Nat.reduceMod, Nat.shiftLeft_eq]
  omega

/-- **A new pool** has room for the pairs and for one more: it was short of memory, so that at
most the overhead was free beside the pair. -/
theorem realloc_spec (haverage : ∀ sizes, average sizes ≤ sizes.sum) (h : State s pairs available)
    (hneed : need pairs ≤ s.sizes.sum) (hshort : Short pairs) (hfree : 100 ≤ available)
    (hlarge : 2 * max (s.sizes.sum + (key.length + value.length)) s.pool.iMaxPoolSize + 7 < 2 ^ 32)
    (iMemPool : Nat) : ∃ u size,
    reallocKeyValueStore average (UInt32.ofNat (key.length + value.length)) iMemPool s = some (true, u) ∧
      State u pairs size ∧ u.sizes.sum = need pairs ∧ Holds average u size key value := by
  have htotal := h.pool.total
  have hsizeUInt : osclMax (getCurrentMemoryUsage s + UInt32.ofNat (key.length + value.length)) (getStoreSize s) =
      osclMax (UInt32.ofNat (s.sizes.sum + (key.length + value.length))) (UInt32.ofNat s.pool.iMaxPoolSize) := by
    rw [getCurrentMemoryUsage, h.pool.usage_eq, getStoreSize, ← UInt32.ofNat_add]
  have hnat := toNat_twice_max (a := s.sizes.sum + (key.length + value.length)) (b := s.pool.iMaxPoolSize) (by omega)
  rw [reallocKeyValueStore]
  simp only [hsizeUInt]
  generalize osclMax (UInt32.ofNat (s.sizes.sum + (key.length + value.length)))
    (UInt32.ofNat s.pool.iMaxPoolSize) <<< 1 = newSize at hnat
  have hnonzero : newSize ≠ 0 := fun hzero => by
    rw [hzero, UInt32.toNat_zero] at hnat
    omega
  have hpool := pooled_createMempool iMemPool (n := newSize) (by omega) (by omega)
  have hle := le_alignedSize (n := newSize.toNat) (by omega)
  have hcreate : create newSize iMemPool =
      some ⟨KeyValueStore.create, createMempool iMemPool newSize, [], fun _ => 0⟩ := if_neg hnonzero
  obtain ⟨e, he, -, hstate, hsum⟩ := copy_spec haverage h.table hshort
    (d := ⟨KeyValueStore.create, createMempool iMemPool newSize, [], fun _ => 0⟩)
    (alignedSize newSize.toNat) (by omega) ⟨plain_create, hpool⟩ rfl
  rw [hcreate]
  simp only [he, Option.map_some, if_true]
  refine ⟨e, _, rfl, hstate, hsum, ?_⟩
  have haver := haverage e.sizes
  have hkey := alignedSize_le (n := key.length + 1) (by omega)
  have hvalue := alignedSize_le (n := value.length + 1) (by omega)
  exact ⟨by omega, by omega, by omega⟩

/-! ## One field -/

/-- The store is taken to have room for the field. -/
def Direct (s : HeaderStore) (key value : Str) : Prop :=
  UInt32.ofNat key.length + UInt32.ofNat value.length < getAvailableSize s

instance (s : HeaderStore) (key value : Str) : Decidable (Direct s key value) :=
  inferInstanceAs (Decidable (_ < _))

/-- When a field can be stored: there is room where that is taken for granted, and otherwise the
size of the new pool does not wrap. -/
def Fits (average : List Nat → Nat) (s : HeaderStore) (key value : Str) : Prop :=
  if Direct s key value then Holds average s (getTotalAvailableSize s.pool) key value
  else 2 * max (getCurrMemoryUsage s.pool + (key.length + value.length)) s.pool.iMaxPoolSize + 7 < 2 ^ 32

/-- The state after a field. -/
def Session.next (s : Session) (event : Event) (u : HeaderStore) (result : Int) : Session :=
  ⟨u, s.added ++ [(event.key, event.value)], s.results ++ [result]⟩

variable {s : Session} {event : Event}

theorem addToStore_direct {store : HeaderStore} (h : Direct store key value) (replace : Bool) (iMemPool : Nat) :
    addKeyValuePairToStore average key value replace iMemPool store =
      (addKeyValuePair average key value replace store).map fun r =>
        (if r.1 ≠ 0 then parseGeneralError else parseSuccess, r.2) := if_pos h

theorem addToStore_grow {store : HeaderStore} (h : ¬Direct store key value) (replace : Bool) (iMemPool : Nat) :
    addKeyValuePairToStore average key value replace iMemPool store =
      (reallocKeyValueStore average (UInt32.ofNat (key.length + value.length)) iMemPool store).bind fun r =>
        if !r.1 then some (parseMemoryAllocationFailure, r.2)
        else
          (addKeyValuePair average key value replace r.2).map fun r =>
            (if r.1 = storeFailure then parseGeneralError else parseSuccess, r.2) := by
  rw [UInt32.ofNat_add]
  exact if_neg h

theorem handle_direct (h : State s.store s.added available) (hadd : Addable s.added event.key event.value)
    (hdirect : Direct s.store event.key event.value)
    (hholds : Holds average s.store available event.key event.value) :
    ∃ u, handle average s event = some (s.next event u parseSuccess) ∧
      u.pool.iMaxPoolSize = s.store.pool.iMaxPoolSize ∧
      u.sizes = s.store.sizes ++ [alignedSize (event.key.length + 1)] ++
        [taken (alignedSize (event.value.length + 1))
          (average (s.store.sizes ++ [alignedSize (event.key.length + 1)]))
          (available - alignedSize (event.key.length + 1))] ∧
      State u (s.added ++ [(event.key, event.value)]) (available - alignedSize (event.key.length + 1) -
        taken (alignedSize (event.value.length + 1))
          (average (s.store.sizes ++ [alignedSize (event.key.length + 1)]))
          (available - alignedSize (event.key.length + 1))) := by
  obtain ⟨u, hu, hmax, hsizes, hstate⟩ := h.add hadd hholds event.replace
  refine ⟨u, ?_, hmax, hsizes, hstate⟩
  rw [handle, addToStore_direct hdirect, hu]
  rfl

theorem handle_fails (h : State s.store s.added available) (hadd : Addable s.added event.key event.value)
    (hdirect : Direct s.store event.key event.value)
    (hholds : ¬Holds average s.store available event.key event.value) :
    ∃ u, handle average s event = some (s.next event u parseGeneralError) := by
  obtain ⟨u, hu⟩ := h.add_fails hadd hholds event.replace
  refine ⟨u, ?_⟩
  rw [handle, addToStore_direct hdirect, hu]
  rfl

/-- What a run keeps. -/
structure Inv (s : Session) : Prop where
  state : ∃ available, State s.store s.added available
  need : need s.added ≤ s.store.sizes.sum
  short : Short s.added
  results : ∀ result ∈ s.results, result = parseSuccess

theorem inv_newSession (iMemPool : Nat) : Inv (newSession iMemPool) where
  state := ⟨_, plain_create, pooled_createMempool iMemPool (by decide) (by decide)⟩
  need := Nat.le_refl _
  short _ h := absurd h List.not_mem_nil
  results _ h := absurd h List.not_mem_nil

theorem le_taken {request : Nat} (aver : Nat) (h : request ≤ available) :
    request ≤ taken request aver available := by
  rw [taken]
  split <;> omega

theorem Inv.next (h : Inv s) {u : HeaderStore} {free : Nat} (hadd : Addable s.added event.key event.value)
    (hstate : State u (s.added ++ [(event.key, event.value)]) free)
    (hneed : HttpHeaderStore.need s.added + pairNeed (event.key, event.value) ≤ u.sizes.sum) :
    Inv (s.next event u parseSuccess) := by
  refine ⟨⟨free, hstate⟩, ?_, fun pair hpair => ?_, fun result hresult => ?_⟩
  · simp only [Session.next, need_append, need_cons, need_nil]
    omega
  · rcases List.mem_append.mp hpair with hold | hlast
    · exact h.short pair hold
    · rw [List.mem_singleton.mp hlast]
      exact ⟨hadd.keyLength, hadd.valueLength⟩
  · rcases List.mem_append.mp hresult with hold | hlast
    · exact h.results result hold
    · exact List.mem_singleton.mp hlast

/-- **A field that fits is stored.** -/
theorem inv_step (haverage : ∀ sizes, average sizes ≤ sizes.sum) (h : Inv s)
    (hadd : Addable s.added event.key event.value) (hfits : Fits average s.store event.key event.value) :
    ∃ u, handle average s event = some (s.next event u parseSuccess) ∧ Inv (s.next event u parseSuccess) := by
  obtain ⟨available, hstate⟩ := h.state
  have hneed := h.need
  have hkeyLength := hadd.keyLength
  have hvalueLength := hadd.valueLength
  have htotal := hstate.pool.total
  rw [Fits, hstate.pool.available_eq, hstate.pool.usage_eq] at hfits
  by_cases hdirect : Direct s.store event.key event.value
  · rw [if_pos hdirect] at hfits
    obtain ⟨u, hu, -, hsizes, hustate⟩ := handle_direct hstate hadd hdirect hfits
    refine ⟨u, hu, h.next hadd hustate ?_⟩
    have hle := le_taken (average (s.store.sizes ++ [alignedSize (event.key.length + 1)])) hfits.2.2
    rw [hsizes, pairNeed]
    simp only [List.sum_append, List.sum_singleton]
    omega
  · rw [if_neg hdirect] at hfits
    -- with less than the overhead free the difference wraps, and the field would be added directly
    have hfree : 100 ≤ available := by
      by_contra hlow
      refine hdirect ?_
      rw [Direct, getAvailableSize, hstate.pool.available_eq, overhead, ← UInt32.ofNat_add, UInt32.lt_iff_toNat_lt,
        UInt32.toNat_sub, UInt32.toNat_ofNat_of_lt' (by simp only [UInt32.size]; omega),
        UInt32.toNat_ofNat_of_lt' (by simp only [UInt32.size]; omega)]
      simp only [UInt32.reduceToNat]
      omega
    obtain ⟨v, size, hv, hvstate, hvsum, hholds⟩ := realloc_spec haverage hstate hneed h.short hfree hfits
      event.iMemPool
    obtain ⟨u, hu, -, hsizes, hustate⟩ := hvstate.add hadd hholds event.replace
    refine ⟨u, ?_, h.next hadd hustate ?_⟩
    · rw [handle, addToStore_grow hdirect, hv, Option.bind_some]
      simp only [Bool.not_true, Bool.false_eq_true, if_false, hu]
      rfl
    · have hle := le_taken (average (v.sizes ++ [alignedSize (event.key.length + 1)])) hholds.2.2
      rw [hsizes, pairNeed]
      simp only [List.sum_append, List.sum_singleton]
      omega

/-! ## Runs -/

/-- Every key of the fields is in the store, with its value. -/
structure Stored (s : Session) : Prop where
  keys : getCurrentKeyList s.store.table = s.added.map Prod.fst
  values : ∀ pair ∈ s.added, getValueByKey pair.1 0 s.store.table = some (true, pair.2)

/-- All calls have succeeded, and everything is stored. -/
structure Good (s : Session) : Prop where
  results : ∀ result ∈ s.results, result = parseSuccess
  stored : Stored s

theorem good_of_inv (h : Inv s) : Good s := by
  obtain ⟨available, hstate⟩ := h.state
  exact ⟨h.results, hstate.table.keyList, fun pair hpair => hstate.table.value_of hpair⟩

/-- The next field, which is of a new key with a slot of its own. -/
structure Next (average : List Nat → Nat) (s : Session) (event : Event) : Prop where
  fits : Fits average s.store event.key event.value → ∃ t, handle average s event = some t ∧ Good t
  exact : Direct s.store event.key event.value → (∃ t, handle average s event = some t ∧ Good t) →
    Fits average s.store event.key event.value

/-- **The store grows on demand** in every run whose fields fit: each call has returned
`PARSE_SUCCESS`, and each key has its value.  Where no new pool is made the condition is exact. -/
theorem stored_of_run (average : List Nat → Nat) (haverage : ∀ sizes, average sizes ≤ sizes.sum)
    {iMemPool : Nat} {events : List Event} {s : Session}
    (hrun : Run (guarded (fun s event => Addable s.added event.key event.value ∧
      Fits average s.store event.key event.value) (stepOf (handle average))) (newSession iMemPool) events s) :
    Good s ∧ ∀ event, Addable s.added event.key event.value → Next average s event := by
  have hinv : Inv s := hrun.invariant (inv_newSession iMemPool) fun a event b ha hstep => by
    obtain ⟨u, hu, hnext⟩ := inv_step haverage ha hstep.1.1 hstep.1.2
    rwa [← Option.some.inj (hu.symm.trans hstep.2)]
  refine ⟨good_of_inv hinv, fun event hadd => ⟨fun hfits => ?_, fun hdirect hgood => ?_⟩⟩
  · obtain ⟨u, hu, hnext⟩ := inv_step haverage hinv hadd hfits
    exact ⟨_, hu, good_of_inv hnext⟩
  · obtain ⟨available, hstate⟩ := hinv.state
    obtain ⟨t, ht, hresults, -⟩ := hgood
    rw [Fits, if_pos hdirect, hstate.pool.available_eq]
    by_contra hholds
    obtain ⟨u, hu⟩ := handle_fails hstate hadd hdirect hholds
    rw [← Option.some.inj (hu.symm.trans ht)] at hresults
    have herror := hresults parseGeneralError (by simp [Session.next])
    exact absurd herror (by decide)

/-- The average, rounded down. -/
def mean (sizes : List Nat) : Nat := sizes.sum / sizes.length

theorem mean_le (sizes : List Nat) : mean sizes ≤ sizes.sum := Nat.div_le_self _ _

/-- A field of one character, with such a value. -/
def shortField : Event := ⟨[98], [49], false, 0⟩

theorem state_newSession : State (newSession 8).store (newSession 8).added 4000 :=
  ⟨plain_create, pooled_createMempool 8 (by decide) (by decide)⟩

theorem stored_of_run_shortField : ∃ s, Run (guarded (fun s event => Addable s.added event.key event.value ∧
    Fits mean s.store event.key event.value) (stepOf (handle mean))) (newSession 8) [shortField] s ∧
    Good s ∧ ∀ event, Addable s.added event.key event.value → Next mean s event := by
  have hadd : Addable (newSession 8).added shortField.key shortField.value :=
    ⟨⟨by decide, by decide⟩, by decide, by decide⟩
  have hdirect : Direct (newSession 8).store shortField.key shortField.value := by decide
  have hfits : Fits mean (newSession 8).store shortField.key shortField.value := by
    rw [Fits, if_pos hdirect, state_newSession.pool.available_eq, Holds]
    decide
  obtain ⟨u, hu, -⟩ := inv_step mean_le (inv_newSession 8) hadd hfits
  have hrun : Run (guarded (fun s event => Addable s.added event.key event.value ∧
      Fits mean s.store event.key event.value) (stepOf (handle mean))) (newSession 8) [shortField]
      ((newSession 8).next shortField u parseSuccess) := Run.cons ⟨⟨hadd, hfits⟩, hu⟩ (Run.nil _)
  exact ⟨_, hrun, stored_of_run mean mean_le hrun⟩

/-- Behind a field of 3000 octets the key of a small one takes all that is left of the pool, and
its value finds no memory. -/
theorem small_fails (event : Event) (hkey : event.key = [97]) (hvalue : event.value.length = 3000) :
    ∃ s, Run (guarded (fun s event => Addable s.added event.key event.value) (stepOf (handle mean)))
      (newSession 8) [event, shortField] s ∧ parseGeneralError ∈ s.results := by
  have hadd : Addable (newSession 8).added event.key event.value := by
    rw [hkey]
    exact ⟨⟨by decide, by decide⟩, by decide, by rw [hvalue]; decide⟩
  have hdirect : Direct (newSession 8).store event.key event.value := by
    rw [Direct, hkey, hvalue]
    decide
  have hholds : Holds mean (newSession 8).store 4000 event.key event.value := by
    rw [Holds, hkey, hvalue]
    decide
  obtain ⟨u, hu, -, hsizes, hustate⟩ := handle_direct state_newSession hadd hdirect hholds
  rw [hkey, hvalue] at hsizes hustate
  have hsizes : u.sizes = [8, 3008] := hsizes.trans (by decide)
  have hustate : State u [([97], event.value)] 984 := by
    rw [show 4000 - alignedSize (List.length [(97 : UInt8)] + 1) - taken (alignedSize (3000 + 1))
      (mean ((newSession 8).store.sizes ++ [alignedSize (List.length [(97 : UInt8)] + 1)]))
        (4000 - alignedSize (List.length [(97 : UInt8)] + 1)) = 984 by decide] at hustate
    exact hustate
  -- the second field
  have hadd' : Addable ((newSession 8).next event u parseSuccess).added shortField.key shortField.value := by
    rw [Session.next, hkey]
    exact ⟨⟨by decide, by simp [newSession, slotOf]; decide⟩, by decide, by decide⟩
  have hdirect' : Direct u shortField.key shortField.value := by
    rw [Direct, getAvailableSize, hustate.pool.available_eq]
    decide
  have hholds' : ¬Holds mean u 984 shortField.key shortField.value := by
    rw [Holds, hsizes]
    decide
  have hnext : State ((newSession 8).next event u parseSuccess).store
      ((newSession 8).next event u parseSuccess).added 984 := by
    rw [Session.next, hkey]
    exact hustate
  obtain ⟨v, hv⟩ := handle_fails hnext hadd' hdirect' hholds'
  refine ⟨_, Run.cons (t := (newSession 8).next event u parseSuccess) ⟨hadd, hu⟩
    (Run.cons ⟨hadd', hv⟩ (Run.nil _)), ?_⟩
  simp [Session.next]

theorem small_behind_large : ¬∀ average : List Nat → Nat, (∀ sizes, average sizes ≤ sizes.sum) →
    ∀ iMemPool events s, Run (guarded (fun s event => Addable s.added event.key event.value)
      (stepOf (handle average))) (newSession iMemPool) events s → Good s := by
  intro h
  obtain ⟨s, hrun, herror⟩ := small_fails ⟨[97], List.replicate 3000 97, false, 0⟩ rfl
    List.length_replicate
  exact absurd ((h mean mean_le 8 _ s hrun).results _ herror) (by decide)

end Ftke.HttpHeaderStore
