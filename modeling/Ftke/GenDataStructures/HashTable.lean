import Ftke.GenDataStructures.SortedList
import Mathlib.Algebra.Ring.Int.Defs
import Mathlib.Algebra.Ring.Nat
import Mathlib.Data.Nat.Bits
import Mathlib.Order.Basic

/-!
# Ftke.GenDataStructures.HashTable

`HashTable` (`hashtable.h`): a table of sorted lists, one for each masked hash.

* `HashTable.construct` — the constructor, which rounds the size up to a power of two;
* `addElement`, `removeElement`, `getElement`, `getIndex` — the operations;
* `Map.step`, `Represents` — a finite map, and that a table is one;
* `hashTable_iff` — the sizes with which a table behaves as a finite map.
-/

namespace Ftke.GenDataStructures

variable {K D : Type*}

/-! ## The table -/

structure HashListElement (K D : Type*) where
  fullkey : K
  data : D
  deriving DecidableEq

instance [LE K] : LE (HashListElement K D) := ⟨fun a b => a.fullkey ≤ b.fullkey⟩

instance [LT K] : LT (HashListElement K D) := ⟨fun a b => a.fullkey < b.fullkey⟩

instance [LE K] [DecidableLE K] : DecidableLE (HashListElement K D) :=
  fun a b => inferInstanceAs (Decidable (a.fullkey ≤ b.fullkey))

instance [LT K] [DecidableLT K] : DecidableLT (HashListElement K D) :=
  fun a b => inferInstanceAs (Decidable (a.fullkey < b.fullkey))

structure HashTable (K D : Type*) where
  hash_table : List (SortedList (HashListElement K D))
  hash_mask : UInt32
  hash_table_size : UInt32
  num_elements : Nat

namespace HashTable

/-- The loop of the constructor, for no more turns than these. -/
def countBits : Nat → Int → Nat → Option Nat
  | 0, tmp, cnt => if tmp = 0 then some cnt else none
  | turns + 1, tmp, cnt => if tmp = 0 then some cnt else countBits turns (tmp >>> (1 : Nat)) (cnt + 1)

/-- The table of a size and a mask. -/
def ofSize (hash_table_size hash_mask : UInt32) : HashTable K D where
  hash_table := List.replicate hash_table_size.toNat .construct
  hash_mask
  hash_table_size
  num_elements := 0

/-- The constructor; `none` if its loop does not end, which it does in 32 turns if at all. -/
def construct (in_hash_table_size : Int32) : Option (HashTable K D) :=
  let hash_mask := (in_hash_table_size - 1).toUInt32
  if hash_mask &&& in_hash_table_size.toUInt32 ≠ 0 then
    (countBits 32 in_hash_table_size.toInt 0).map fun cnt =>
      let hash_table_size := UInt32.ofNat (1 <<< cnt)
      ofSize hash_table_size (hash_table_size - 1)
  else some (ofSize in_hash_table_size.toUInt32 hash_mask)

/-- The list of a hash. -/
def bucket (t : HashTable K D) (key : UInt32) : Option (SortedList (HashListElement K D)) :=
  t.hash_table[(key &&& t.hash_mask).toNat]?

/-- The loop over a list that looks for a key. -/
def findKey [LT K] [DecidableLT K] [DecidableEq K] (l : SortedList (HashListElement K D)) (fullkey : K) :
    Nat → Nat → Option (Option (HashListElement K D))
  | 0, _ => some none
  | left + 1, ii =>
    match SortedList.walk l.heap ii l.head with
    | none => none
    | some tmp =>
      if tmp.fullkey = fullkey then some (some tmp)
      else if tmp.fullkey > fullkey then some none
      else findKey l fullkey left (ii + 1)

section Operations

variable [LinearOrder K] [DecidableEq D] (compute_hash : K → UInt32)

/-- `get_element` of a hash and a key. -/
def getHashed (t : HashTable K D) (key : UInt32) (fullkey : K) : Option (Option D) :=
  (t.bucket key).bind fun l => (findKey l fullkey l.num_elements 0).map (Option.map HashListElement.data)

/-- `get_element` of a key. -/
def getElement (t : HashTable K D) (fullkey : K) : Option (Option D) := t.getHashed (compute_hash fullkey) fullkey

/-- The list of a hash changes. -/
def setBucket (t : HashTable K D) (key : UInt32) (l : SortedList (HashListElement K D)) (num_elements : Nat) :
    HashTable K D :=
  { t with
    hash_table := t.hash_table.set (key &&& t.hash_mask).toNat l
    num_elements }

/-- `add_element` of a hash. -/
def addHashed (t : HashTable K D) (key : UInt32) (fullkey : K) (data : D) : Option (Bool × HashTable K D) :=
  match t.getElement compute_hash fullkey with
  | none => none
  | some (some _) => some (false, t)
  | some none =>
    (t.bucket key).bind fun l => (l.addElement ⟨fullkey, data⟩).map fun l =>
      (true, t.setBucket key l (t.num_elements + 1))

/-- `add_element`. -/
def addElement (t : HashTable K D) (fullkey : K) (data : D) : Option (Bool × HashTable K D) :=
  t.addHashed compute_hash (compute_hash fullkey) fullkey data

/-- `remove_element` of a hash. -/
def removeHashed (t : HashTable K D) (key : UInt32) (fullkey : K) : Option (Bool × HashTable K D) :=
  (t.bucket key).bind fun l =>
    match findKey l fullkey l.num_elements 0 with
    | none => none
    | some none => some (false, t)
    | some (some tmp) =>
      (l.removeElement tmp).map fun (_, l) => (true, t.setBucket key l (t.num_elements - 1))

/-- `remove_element`. -/
def removeElement (t : HashTable K D) (fullkey : K) : Option (Bool × HashTable K D) :=
  t.removeHashed (compute_hash fullkey) fullkey

/-- The loop of `get_element` of an index: the list that it is in, and where. -/
def findIndex : List (SortedList (HashListElement K D)) → Int → Option (SortedList (HashListElement K D) × Int)
  | [], _ => none
  | l :: buckets, index =>
    if index < l.num_elements then some (l, index) else findIndex buckets (index - l.num_elements)

/-- `get_element` of an index: the hash, the key and the data. -/
def getIndex (t : HashTable K D) (index : Int) : Option (Option (UInt32 × K × D)) :=
  if index < 0 ∨ index ≥ t.num_elements then some none
  else
    (findIndex t.hash_table index).bind fun (l, index) =>
      (l.getElement index).map (Option.map fun tmp => (compute_hash tmp.fullkey, tmp.fullkey, tmp.data))

end Operations

end HashTable

/-! ## Finite maps -/

/-- What is done with a table. -/
inductive Op (K D : Type*)
  | add (fullkey : K) (data : D)
  | addHashed (fullkey : K) (data : D)
  | remove (fullkey : K)
  | get (fullkey : K)

/-- What it answers. -/
inductive Answer (D : Type*)
  | flag (done : Bool)
  | found (data : Option D)

section Behaviour

variable [LinearOrder K] [DecidableEq D] (compute_hash : K → UInt32)

/-- One operation of a table. -/
def HashTable.step (t : HashTable K D) : Op K D → Option (Answer D × HashTable K D)
  | .add fullkey data => (t.addElement compute_hash fullkey data).map fun (done, t) => (.flag done, t)
  | .addHashed fullkey data =>
    (t.addHashed compute_hash (compute_hash fullkey) fullkey data).map fun (done, t) => (.flag done, t)
  | .remove fullkey => (t.removeElement compute_hash fullkey).map fun (done, t) => (.flag done, t)
  | .get fullkey => (t.getElement compute_hash fullkey).map fun data => (.found data, t)

/-- One operation of a finite map. -/
def Map.step (m : K → Option D) : Op K D → Answer D × (K → Option D)
  | .add fullkey data | .addHashed fullkey data =>
    if (m fullkey).isSome then (.flag false, m) else (.flag true, Function.update m fullkey (some data))
  | .remove fullkey => (.flag (m fullkey).isSome, Function.update m fullkey none)
  | .get fullkey => (.found (m fullkey), m)

/-- The answers of a table, and the table after them. -/
def HashTable.run : HashTable K D → List (Op K D) → Option (List (Answer D) × HashTable K D)
  | t, [] => some ([], t)
  | t, op :: ops =>
    (t.step compute_hash op).bind fun (answer, t) => (run t ops).map fun (answers, t) => (answer :: answers, t)

/-- The answers of a finite map, and the map after them. -/
def Map.run : (K → Option D) → List (Op K D) → List (Answer D) × (K → Option D)
  | m, [] => ([], m)
  | m, op :: ops => ((step m op).1 :: (run (step m op).2 ops).1, (run (step m op).2 ops).2)

/-- **A table is a finite map**: its lists are in order and in one piece, and it has a binding for each key that the
map has one for, which the indices lead through. -/
structure Represents (t : HashTable K D) (m : K → Option D) : Prop where
  lists : ∀ l ∈ t.hash_table, ∃ cells, Holds l cells ∧
    (cells.map Prod.snd).Pairwise fun x y => x.fullkey < y.fullkey
  bindings : ∃ bindings : List (K × D), (bindings.map Prod.fst).Nodup ∧
    (∀ k d, (k, d) ∈ bindings ↔ m k = some d) ∧ t.num_elements = bindings.length ∧
    ∀ index : Int, t.getIndex compute_hash index =
      some (if index < 0 then none else bindings[index.toNat]?.map fun b => (compute_hash b.1, b.1, b.2))

/-- **A table behaves as a finite map**, which is empty at first, whatever is done with it. -/
def Behaves (t : HashTable K D) : Prop :=
  ∀ ops : List (Op K D), ∃ t', t.run compute_hash ops = some ((Map.run (fun _ => none) ops).1, t') ∧
    Represents compute_hash t' (Map.run (fun _ => none) ops).2

end Behaviour

/-! ## The lists -/

theorem findIndex_eq {buckets : List (SortedList (HashListElement K D))}
    {contents : List (List (HashListElement K D))}
    (h : List.Forall₂ (fun l xs => ∃ cells, Holds l cells ∧ cells.map Prod.snd = xs) buckets contents) :
    ∀ {index : Nat} {x : HashListElement K D}, contents.flatten[index]? = some x →
      ∃ (l : SortedList (HashListElement K D)) (i : Nat) (cells : List (Nat × HashListElement K D)),
        HashTable.findIndex buckets index = some (l, (i : Int)) ∧ Holds l cells ∧
          (cells.map Prod.snd)[i]? = some x := by
  induction h with
  | nil => simp
  | @cons l xs buckets contents hl _ ih =>
    obtain ⟨cells, hcells, rfl⟩ := hl
    intro index x hx
    have hlen : l.num_elements = (cells.map Prod.snd).length := by rw [hcells.num_elements, List.length_map]
    rw [List.flatten_cons, List.getElem?_append] at hx
    rw [HashTable.findIndex, hlen]
    split at hx
    · next hlt =>
      rw [if_pos (by exact_mod_cast hlt)]
      exact ⟨l, index, cells, rfl, hcells, hx⟩
    · next hge =>
      rw [if_neg (by exact_mod_cast hge)]
      obtain ⟨l', i, cells', hfind, hcells', hi⟩ := ih hx
      refine ⟨l', i, cells', ?_, hcells', hi⟩
      rw [← hfind]
      congr 1
      omega

/-- If every element is in the list of its key, one with a key is among all if it is in the list of the key. -/
theorem mem_flatten_of_home {contents : List (List (HashListElement K D))} (home : K → Nat)
    (h : ∀ (i : Nat) xs, contents[i]? = some xs → ∀ x ∈ xs, home x.fullkey = i) {fullkey : K} {d : D}
    {xs : List (HashListElement K D)} (hxs : contents[home fullkey]? = some xs) :
    ⟨fullkey, d⟩ ∈ contents.flatten ↔ ⟨fullkey, d⟩ ∈ xs := by
  rw [List.mem_flatten]
  constructor
  · rintro ⟨ys, hys, hmem⟩
    obtain ⟨i, hi⟩ := List.mem_iff_getElem?.mp hys
    have hhome : home fullkey = i := h i ys hi _ hmem
    rw [hhome, hi] at hxs
    exact Option.some_inj.mp hxs ▸ hmem
  · exact fun hmem => ⟨xs, List.mem_of_getElem? hxs, hmem⟩

/-! ## Looking for a key -/

section Contents

variable [LinearOrder K] {compute_hash : K → UInt32}

/-- The elements in order, with no key twice. -/
abbrev InOrder (xs : List (HashListElement K D)) : Prop := xs.Pairwise fun x y => x.fullkey < y.fullkey

variable {cells : List (Nat × HashListElement K D)}

theorem findKey_eq {l : SortedList (HashListElement K D)}
    (h : Holds l cells) (fullkey : K) : ∀ (cells₂ cells₁ : List (Nat × HashListElement K D)),
      cells = cells₁ ++ cells₂ → InOrder (cells₂.map Prod.snd) →
      HashTable.findKey l fullkey cells₂.length cells₁.length =
        some ((cells₂.map Prod.snd).find? fun x => x.fullkey = fullkey)
  | [], _, _, _ => rfl
  | cell :: cells₂, cells₁, hsplit, horder => by
    obtain ⟨habove, hrest⟩ := List.pairwise_cons.mp horder
    have hwalk : SortedList.walk l.heap cells₁.length l.head = some cell.2 := h.walk (by simp [hsplit])
    have hnext := findKey_eq h fullkey cells₂ (cells₁ ++ [cell]) (by simp [hsplit]) hrest
    rw [List.length_append, List.length_singleton] at hnext
    simp only [List.length_cons, HashTable.findKey, hwalk, List.map_cons, List.find?_cons]
    by_cases heq : cell.2.fullkey = fullkey
    · simp [heq]
    by_cases hgt : cell.2.fullkey > fullkey
    · have hnone : (cells₂.map Prod.snd).find? (fun x => decide (x.fullkey = fullkey)) = none := by
        rw [List.find?_eq_none]
        intro x hx
        simpa using (lt_trans hgt (habove x hx)).ne'
      simp [heq, hgt, hnone]
    · simp [heq, hgt, hnext]

/-- **Looking for a key.** -/
theorem Holds.findKey {l : SortedList (HashListElement K D)}
    (h : Holds l cells) (horder : InOrder (cells.map Prod.snd)) (fullkey : K) :
    HashTable.findKey l fullkey l.num_elements 0 =
      some ((cells.map Prod.snd).find? fun x => x.fullkey = fullkey) := by
  rw [h.num_elements]
  exact findKey_eq h fullkey cells [] rfl horder

/-! ## The lists of a table -/

/-- The table holds these elements, in each of its lists, and they are those of the map. -/
structure Contents (compute_hash : K → UInt32) (t : HashTable K D) (contents : List (List (HashListElement K D)))
    (m : K → Option D) : Prop where
  length : t.hash_table.length = contents.length
  mask : t.hash_mask.toNat < contents.length
  lists : ∀ (i : Nat) l xs, t.hash_table[i]? = some l → contents[i]? = some xs →
    ∃ cells, Holds l cells ∧ cells.map Prod.snd = xs
  inOrder : ∀ xs ∈ contents, InOrder xs
  home : ∀ (i : Nat) xs, contents[i]? = some xs → ∀ x ∈ xs, (compute_hash x.fullkey &&& t.hash_mask).toNat = i
  num_elements : t.num_elements = contents.flatten.length
  bindings : ∀ k d, ⟨k, d⟩ ∈ contents.flatten ↔ m k = some d

theorem mask_lt (key : UInt32) {mask : UInt32} {n : Nat} (h : mask.toNat < n) : (key &&& mask).toNat < n := by
  rw [UInt32.toNat_and]
  exact lt_of_le_of_lt Nat.and_le_right h

namespace Contents

variable {t : HashTable K D} {contents : List (List (HashListElement K D))} {m : K → Option D}

theorem bucket (h : Contents compute_hash t contents m) (fullkey : K) :
    ∃ l xs cells, t.bucket (compute_hash fullkey) = some l ∧
      contents[(compute_hash fullkey &&& t.hash_mask).toNat]? = some xs ∧ Holds l cells ∧ cells.map Prod.snd = xs ∧
      InOrder xs := by
  have hlt := mask_lt (compute_hash fullkey) h.mask
  have hlt' := h.length.symm ▸ hlt
  obtain ⟨cells, hcells, hxs⟩ := h.lists _ _ _ (List.getElem?_eq_getElem hlt') (List.getElem?_eq_getElem hlt)
  exact ⟨_, _, cells, List.getElem?_eq_getElem hlt', List.getElem?_eq_getElem hlt, hcells, hxs,
    h.inOrder _ (List.getElem_mem hlt)⟩

variable {fullkey : K} {xs : List (HashListElement K D)}

theorem mem_bucket (h : Contents compute_hash t contents m) {d : D}
    (hxs : contents[(compute_hash fullkey &&& t.hash_mask).toNat]? = some xs) :
    ⟨fullkey, d⟩ ∈ xs ↔ m fullkey = some d := by
  rw [← h.bindings, mem_flatten_of_home (fun k => (compute_hash k &&& t.hash_mask).toNat) h.home hxs]

theorem find (h : Contents compute_hash t contents m)
    (hxs : contents[(compute_hash fullkey &&& t.hash_mask).toNat]? = some xs) :
    xs.find? (fun x => decide (x.fullkey = fullkey)) = (m fullkey).map fun d => ⟨fullkey, d⟩ := by
  cases hm : m fullkey with
  | none =>
    rw [Option.map_none, List.find?_eq_none]
    intro x hx
    rw [decide_eq_true_eq]
    rintro rfl
    have hsome := (h.mem_bucket hxs).mp hx
    rw [hm] at hsome
    contradiction
  | some d =>
    rw [Option.map_some]
    have hmem := (h.mem_bucket hxs).mpr hm
    -- the first element with the key is the one with the data of the map
    cases hfind : xs.find? (fun x => decide (x.fullkey = fullkey)) with
    | none => simpa using List.find?_eq_none.mp hfind _ hmem
    | some x =>
      obtain rfl : x.fullkey = fullkey := by simpa using List.find?_some hfind
      have hx := (h.mem_bucket hxs).mp (List.mem_of_find?_eq_some hfind)
      rw [hm, Option.some_inj] at hx
      rw [hx]

theorem getElement (h : Contents compute_hash t contents m) [DecidableEq D] (fullkey : K) :
    t.getElement compute_hash fullkey = some (m fullkey) := by
  obtain ⟨l, xs, cells, hbucket, hxs, hcells, rfl, horder⟩ := h.bucket fullkey
  rw [HashTable.getElement, HashTable.getHashed, hbucket, Option.bind_some, hcells.findKey horder, h.find hxs]
  cases m fullkey <;> rfl

/-- **A list changes**: the table after that, if only the binding of one key does. -/
theorem setBucket (h : Contents compute_hash t contents m)
    (hxs : contents[(compute_hash fullkey &&& t.hash_mask).toNat]? = some xs)
    {l' : SortedList (HashListElement K D)} {cells' : List (Nat × HashListElement K D)} (hcells' : Holds l' cells')
    (horder : InOrder (cells'.map Prod.snd)) (num_elements : Nat)
    (hnum : num_elements + xs.length = t.num_elements + cells'.length) {binding : Option D}
    (hmem : ∀ x : HashListElement K D, x.fullkey ≠ fullkey → (x ∈ cells'.map Prod.snd ↔ x ∈ xs))
    (hnew : ∀ d, ⟨fullkey, d⟩ ∈ cells'.map Prod.snd ↔ binding = some d) :
    Contents compute_hash (t.setBucket (compute_hash fullkey) l' num_elements)
      (contents.set (compute_hash fullkey &&& t.hash_mask).toNat (cells'.map Prod.snd))
      (Function.update m fullkey binding) := by
  have hlt := (List.getElem?_eq_some_iff.mp hxs).1
  have hget := (List.getElem?_eq_some_iff.mp hxs).2
  -- every element is still in the list of its key
  have hhome : ∀ (i : Nat) ys,
      (contents.set (compute_hash fullkey &&& t.hash_mask).toNat (cells'.map Prod.snd))[i]? = some ys →
      ∀ x ∈ ys, (compute_hash x.fullkey &&& t.hash_mask).toNat = i := by
    intro i ys hys x hx
    by_cases hi : (compute_hash fullkey &&& t.hash_mask).toNat = i
    · rw [← hi, List.getElem?_set_self hlt, Option.some_inj] at hys
      by_cases hkey : x.fullkey = fullkey
      · rw [hkey, hi]
      · exact hi ▸ h.home _ xs hxs x ((hmem x hkey).mp (hys ▸ hx))
    · rw [List.getElem?_set_ne hi] at hys
      exact h.home i ys hys x hx
  refine ⟨?_, ?_, fun i l ys hl hys => ?_, fun ys hys => ?_, hhome, ?_, fun k d => ?_⟩
  · rw [HashTable.setBucket, List.length_set, List.length_set, h.length]
  · rw [List.length_set]
    exact h.mask
  · by_cases hi : (compute_hash fullkey &&& t.hash_mask).toNat = i
    · rw [← hi, List.getElem?_set_self hlt, Option.some_inj] at hys
      rw [HashTable.setBucket, ← hi, List.getElem?_set_self (h.length.symm ▸ hlt), Option.some_inj] at hl
      exact ⟨cells', hl ▸ hcells', hys⟩
    · rw [List.getElem?_set_ne hi] at hys
      rw [HashTable.setBucket, List.getElem?_set_ne hi] at hl
      exact h.lists i l ys hl hys
  · obtain hys | rfl := List.mem_or_eq_of_mem_set hys
    · exact h.inOrder ys hys
    · exact horder
  · obtain ⟨front, back, hsplit, -, hset⟩ := @List.exists_of_set _ _ (cells'.map Prod.snd) contents hlt
    have htotal := h.num_elements
    rw [hsplit, hget] at htotal
    rw [hset]
    simp only [HashTable.setBucket, List.flatten_append, List.flatten_cons, List.length_append, List.length_map]
      at htotal ⊢
    omega
  · have hltk := mask_lt (compute_hash k) h.mask
    by_cases hk : k = fullkey
    · subst hk
      rw [mem_flatten_of_home (fun k => (compute_hash k &&& t.hash_mask).toNat) hhome
        (List.getElem?_set_self hlt), hnew, Function.update_self]
    · rw [Function.update_of_ne hk, ← h.bindings]
      by_cases hi : (compute_hash fullkey &&& t.hash_mask).toNat = (compute_hash k &&& t.hash_mask).toNat
      · have hset : (contents.set (compute_hash fullkey &&& t.hash_mask).toNat (cells'.map Prod.snd))[
            (compute_hash k &&& t.hash_mask).toNat]? = some (cells'.map Prod.snd) := by
          rw [← hi, List.getElem?_set_self hlt]
        rw [mem_flatten_of_home (fun k => (compute_hash k &&& t.hash_mask).toNat) hhome hset, hmem _ hk,
          mem_flatten_of_home (fun k => (compute_hash k &&& t.hash_mask).toNat) h.home (hi ▸ hxs)]
      · have hys := List.getElem?_eq_getElem hltk
        rw [mem_flatten_of_home (fun k => (compute_hash k &&& t.hash_mask).toNat) hhome
          ((List.getElem?_set_ne hi).trans hys),
          mem_flatten_of_home (fun k => (compute_hash k &&& t.hash_mask).toNat) h.home hys]

theorem nodup_keys (h : Contents compute_hash t contents m) :
    (contents.flatten.map HashListElement.fullkey).Nodup := by
  rw [List.Nodup, List.pairwise_map, List.pairwise_flatten]
  refine ⟨fun xs hxs => (h.inOrder xs hxs).imp fun hlt => hlt.ne, ?_⟩
  rw [List.pairwise_iff_getElem]
  intro i j hi hj hij x hx y hy heq
  have hx' := h.home i _ (List.getElem?_eq_getElem hi) x hx
  have hy' := h.home j _ (List.getElem?_eq_getElem hj) y hy
  rw [heq, hy'] at hx'
  omega

theorem forall₂ (h : Contents compute_hash t contents m) :
    List.Forall₂ (fun l xs => ∃ cells, Holds l cells ∧ cells.map Prod.snd = xs) t.hash_table contents := by
  rw [List.forall₂_iff_get]
  refine ⟨h.length, fun i hi hi' => ?_⟩
  exact h.lists i _ _ (List.getElem?_eq_getElem hi) (List.getElem?_eq_getElem hi')

/-! ## The indices -/

/-- **An element by its index.** -/
theorem getIndex (h : Contents compute_hash t contents m) (index : Int) :
    t.getIndex compute_hash index = some (if index < 0 then none
      else contents.flatten[index.toNat]?.map fun x => (compute_hash x.fullkey, x.fullkey, x.data)) := by
  rw [HashTable.getIndex, h.num_elements]
  by_cases hneg : index < 0
  · simp [hneg]
  obtain ⟨n, rfl⟩ := Int.eq_ofNat_of_zero_le (not_lt.mp hneg)
  by_cases hlt : n < contents.flatten.length
  · obtain ⟨l, i, cells, hfind, hcells, hi⟩ := findIndex_eq h.forall₂ (List.getElem?_eq_getElem hlt)
    obtain ⟨cell, hcell, hsnd⟩ : ∃ cell, cells[i]? = some cell ∧ cell.2 = contents.flatten[n] := by
      simpa [List.getElem?_map] using hi
    have hin : i < cells.length := (List.getElem?_eq_some_iff.mp hcell).1
    have hget : l.getElement (i : Int) = some (some contents.flatten[n]) := by
      have hrange : ¬((i : Int) < 0 ∨ (i : Int) ≥ l.num_elements) := by
        rw [hcells.num_elements]
        omega
      rw [SortedList.getElement, if_neg hrange, Int.toNat_natCast, hcells.walk hcell, hsnd]
      rfl
    rw [if_neg (by omega), hfind, if_neg hneg, Int.toNat_natCast, List.getElem?_eq_getElem hlt]
    simp only [Option.bind_some, hget, Option.map_some]
  · rw [if_pos (by omega), if_neg hneg, Int.toNat_natCast, List.getElem?_eq_none (by omega)]
    rfl

/-- **The table is the map.** -/
theorem represents (h : Contents compute_hash t contents m) : Represents compute_hash t m where
  lists l hl := by
    obtain ⟨i, hi, hget⟩ := List.getElem_of_mem hl
    have hi' : i < contents.length := h.length ▸ hi
    obtain ⟨cells, hcells, hxs⟩ := h.lists i l _ (hget ▸ List.getElem?_eq_getElem hi) (List.getElem?_eq_getElem hi')
    exact ⟨cells, hcells, hxs ▸ h.inOrder _ (List.getElem_mem hi')⟩
  bindings := by
    refine ⟨contents.flatten.map fun x => (x.fullkey, x.data), ?_, fun k d => ?_, ?_, fun index => ?_⟩
    · rw [List.map_map]
      exact h.nodup_keys
    · rw [← h.bindings, List.mem_map]
      constructor
      · rintro ⟨x, hx, heq⟩
        obtain ⟨rfl, rfl⟩ := Prod.mk.inj heq
        exact hx
      · exact fun hmem => ⟨_, hmem, rfl⟩
    · rw [List.length_map, h.num_elements]
    · rw [h.getIndex, List.getElem?_map, Option.map_map]
      rfl

/-! ## The operations -/

theorem inOrder_orderedInsert (h : InOrder xs) {x : HashListElement K D}
    (hnew : ∀ y ∈ xs, y.fullkey ≠ x.fullkey) : InOrder (xs.orderedInsert (· ≤ ·) x) := by
  induction xs with
  | nil => exact List.pairwise_singleton _ _
  | cons y xs ih =>
    obtain ⟨hne, hnew⟩ := List.forall_mem_cons.mp hnew
    obtain ⟨hy, hxs⟩ := List.pairwise_cons.mp h
    rw [List.orderedInsert_cons]
    split
    · next hle =>
      have hlt : x.fullkey < y.fullkey := lt_of_le_of_ne hle hne.symm
      refine List.pairwise_cons.mpr ⟨fun z hz => ?_, h⟩
      obtain rfl | hz := List.mem_cons.mp hz
      · exact hlt
      · exact hlt.trans (hy z hz)
    · next hgt =>
      have hlt : y.fullkey < x.fullkey := not_le.mp hgt
      refine List.pairwise_cons.mpr ⟨fun z hz => ?_, ih hxs hnew⟩
      obtain rfl | hz := List.mem_cons.mp ((List.perm_orderedInsert _ x xs).mem_iff.mp hz)
      · exact hlt
      · exact hy z hz

variable [DecidableEq D]

/-- **Adding a binding** for a key that has none. -/
theorem addElement (h : Contents compute_hash t contents m) (hm : m fullkey = none) (d : D) :
    ∃ t' contents', t.addElement compute_hash fullkey d = some (true, t') ∧
      Contents compute_hash t' contents' (Function.update m fullkey (some d)) := by
  obtain ⟨l, xs, cells, hbucket, hxs, hcells, rfl, horder⟩ := h.bucket fullkey
  obtain ⟨l', cells', hadd, hcells', hinsert⟩ := hcells.addElement ⟨fullkey, d⟩
  have hperm := List.perm_orderedInsert (· ≤ ·) (⟨fullkey, d⟩ : HashListElement K D) (cells.map Prod.snd)
  rw [← hinsert] at hperm
  have hnone : ∀ y ∈ cells.map Prod.snd, y.fullkey ≠ fullkey := by
    rintro y hy rfl
    have hsome := (h.mem_bucket hxs).mp hy
    rw [hm] at hsome
    contradiction
  refine ⟨_, _, ?_, h.setBucket hxs hcells' ?_ (t.num_elements + 1) ?_ (fun x hx => ?_) fun d' => ?_⟩
  · rw [HashTable.addElement, HashTable.addHashed, h.getElement, hm]
    simp [hbucket, hadd]
  · rw [hinsert]
    exact inOrder_orderedInsert horder hnone
  · have hlength := hperm.length_eq
    simp only [List.length_map, List.length_cons] at hlength ⊢
    omega
  · rw [hperm.mem_iff, List.mem_cons, or_iff_right]
    exact fun heq => hx (heq ▸ rfl)
  · rw [hperm.mem_iff, List.mem_cons, or_iff_left fun hmem => hnone _ hmem rfl]
    simp [eq_comm]

/-- **Removing a binding**, or none. -/
theorem removeElement (h : Contents compute_hash t contents m) (fullkey : K) :
    ∃ t' contents', t.removeElement compute_hash fullkey = some ((m fullkey).isSome, t') ∧
      Contents compute_hash t' contents' (Function.update m fullkey none) := by
  obtain ⟨l, xs, cells, hbucket, hxs, hcells, rfl, horder⟩ := h.bucket fullkey
  have hfind := hcells.findKey horder fullkey
  rw [h.find hxs] at hfind
  cases hm : m fullkey with
  | none =>
    rw [hm] at hfind
    have hsame : Function.update m fullkey none = m := by rw [← hm, Function.update_eq_self]
    refine ⟨t, contents, ?_, hsame.symm ▸ h⟩
    simp [HashTable.removeElement, HashTable.removeHashed, hbucket, hfind]
  | some d =>
    rw [hm] at hfind
    obtain ⟨cell, hcell, hsnd⟩ := List.mem_map.mp ((h.mem_bucket hxs).mpr hm)
    obtain ⟨cells₁, cells₂, rfl⟩ := List.append_of_mem hcell
    obtain ⟨p, x⟩ := cell
    obtain rfl : x = ⟨fullkey, d⟩ := hsnd
    rw [List.map_append, List.map_cons] at horder
    obtain ⟨horder₁, horder₂, hbetween⟩ := List.pairwise_append.mp horder
    obtain ⟨habove, horder₂⟩ := List.pairwise_cons.mp horder₂
    have hbelow : ∀ c ∈ cells₁, c.2.fullkey < fullkey :=
      fun c hc => hbetween c.2 (List.mem_map_of_mem hc) _ List.mem_cons_self
    have habove' : ∀ c ∈ cells₂, fullkey < c.2.fullkey := fun c hc => habove c.2 (List.mem_map_of_mem hc)
    obtain ⟨l', hremove, hcells'⟩ := hcells.removeElement fun c hc =>
      ⟨fun heq => (hbelow c hc).ne (congrArg HashListElement.fullkey heq), fun hgt => lt_asymm (hbelow c hc) hgt⟩
    refine ⟨_, _, ?_, h.setBucket hxs hcells' ?_ (t.num_elements - 1) ?_ (fun x hx => ?_) fun d' => ?_⟩
    · simp [HashTable.removeElement, HashTable.removeHashed, hbucket, hfind, hremove]
    · rw [List.map_append]
      exact List.pairwise_append.mpr ⟨horder₁, horder₂, fun x hx y hy => hbetween x hx y (List.mem_cons_of_mem _ hy)⟩
    · have hpos : 0 < t.num_elements := by
        rw [h.num_elements]
        exact List.length_pos_of_mem ((h.bindings fullkey d).mpr hm)
      simp only [List.length_map, List.length_append, List.length_cons]
      omega
    · simp only [List.map_append, List.map_cons, List.mem_append, List.mem_cons]
      rw [or_iff_right (a := x = _) fun heq => hx (heq ▸ rfl)]
    · simp only [List.map_append, List.mem_append, List.mem_map, iff_false, reduceCtorEq]
      rintro (⟨c, hc, heq⟩ | ⟨c, hc, heq⟩)
      · exact (hbelow c hc).ne (congrArg HashListElement.fullkey heq)
      · exact (habove' c hc).ne' (congrArg HashListElement.fullkey heq)

/-! ## Runs -/

/-- **One operation** answers as the map does. -/
theorem step (h : Contents compute_hash t contents m) (op : Op K D) :
    ∃ t' contents', t.step compute_hash op = some ((Map.step m op).1, t') ∧
      Contents compute_hash t' contents' (Map.step m op).2 := by
  -- both ways of adding come to the same
  have hadd : ∀ (fullkey : K) (d : D), ∃ t' contents',
      (t.addElement compute_hash fullkey d).map (fun (done, t) => (Answer.flag (D := D) done, t)) =
        some ((Map.step m (.add fullkey d)).1, t') ∧
      Contents compute_hash t' contents' (Map.step m (.add fullkey d)).2 := by
    intro fullkey d
    cases hm : m fullkey with
    | none =>
      obtain ⟨t', contents', hstep, h'⟩ := h.addElement hm d
      refine ⟨t', contents', ?_, ?_⟩
      · simp [Map.step, hm, hstep]
      · simpa [Map.step, hm] using h'
    | some d' =>
      refine ⟨t, contents, ?_, ?_⟩
      · simp [Map.step, hm, HashTable.addElement, HashTable.addHashed, h.getElement]
      · simpa [Map.step, hm] using h
  cases op with
  | add fullkey d => exact hadd fullkey d
  | addHashed fullkey d => exact hadd fullkey d
  | remove fullkey =>
    obtain ⟨t', contents', hstep, h'⟩ := h.removeElement fullkey
    exact ⟨t', contents', by simp [HashTable.step, Map.step, hstep], h'⟩
  | get fullkey => exact ⟨t, contents, by simp [HashTable.step, Map.step, h.getElement], h⟩

/-- **Any operations** answer as the map does. -/
theorem run (ops : List (Op K D)) {t : HashTable K D} {contents : List (List (HashListElement K D))}
    {m : K → Option D} (h : Contents compute_hash t contents m) :
    ∃ t' contents', t.run compute_hash ops = some ((Map.run m ops).1, t') ∧
      Contents compute_hash t' contents' (Map.run m ops).2 := by
  induction ops generalizing t contents m with
  | nil => exact ⟨t, contents, rfl, h⟩
  | cons op ops ih =>
    obtain ⟨t', contents', hstep, h'⟩ := h.step op
    obtain ⟨t'', contents'', hrun, h''⟩ := ih h'
    exact ⟨t'', contents'', by simp [HashTable.run, Map.run, hstep, hrun], h''⟩

end Contents

/-! ## The constructor -/

theorem contents_ofSize {hash_table_size hash_mask : UInt32} (h : hash_mask < hash_table_size) :
    Contents compute_hash (HashTable.ofSize hash_table_size hash_mask : HashTable K D)
      (List.replicate hash_table_size.toNat []) (fun _ => none) where
  length := by simp [HashTable.ofSize]
  mask := by
    rw [List.length_replicate]
    exact UInt32.lt_iff_toNat_lt.mp h
  lists i l xs hl hxs := by
    obtain ⟨-, rfl⟩ := List.mem_replicate.mp (List.mem_of_getElem? hl)
    obtain ⟨-, rfl⟩ := List.mem_replicate.mp (List.mem_of_getElem? hxs)
    exact ⟨[], holds_construct, rfl⟩
  inOrder xs hxs := by
    obtain ⟨-, rfl⟩ := List.mem_replicate.mp hxs
    exact List.Pairwise.nil
  home i xs hxs x hx := by
    obtain ⟨-, rfl⟩ := List.mem_replicate.mp (List.mem_of_getElem? hxs)
    contradiction
  num_elements := by simp [HashTable.ofSize]
  bindings k d := by simp

theorem behaves_ofSize [DecidableEq D] {hash_table_size hash_mask : UInt32} (h : hash_mask < hash_table_size) :
    Behaves compute_hash (HashTable.ofSize hash_table_size hash_mask : HashTable K D) := by
  intro ops
  obtain ⟨t', contents', hrun, h'⟩ := (@contents_ofSize K D _ compute_hash _ _ h).run ops
  exact ⟨t', hrun, h'.represents⟩

end Contents

theorem countBits_nat : ∀ (turns bits : Nat) {n : Nat} (cnt : Nat), bits ≤ turns → n < 2 ^ bits →
    ∃ k ≤ bits, HashTable.countBits turns n cnt = some (cnt + k)
  | 0, bits, n, cnt, hbits, hn => by
    obtain rfl : bits = 0 := by omega
    obtain rfl : n = 0 := by omega
    exact ⟨0, le_rfl, rfl⟩
  | turns + 1, bits, n, cnt, hbits, hn => by
    rw [HashTable.countBits]
    split
    · exact ⟨0, Nat.zero_le _, rfl⟩
    · next hne =>
      obtain ⟨bits, rfl⟩ : ∃ b, bits = b + 1 := by
        refine Nat.exists_eq_succ_of_ne_zero fun hzero => hne ?_
        subst hzero
        omega
      have hhalf : (n : Int) >>> (1 : Nat) = (n / 2 : Nat) := by
        rw [Int.shiftRight_eq_div_pow]
        omega
      obtain ⟨k, hk, hcount⟩ := countBits_nat turns bits (n := n / 2) (cnt + 1) (by omega)
        (by rw [Nat.pow_succ] at hn; omega)
      exact ⟨k + 1, by omega, by rw [hhalf, hcount]; congr 1; omega⟩

theorem countBits_neg : ∀ (turns : Nat) {tmp : Int} (cnt : Nat), tmp < 0 → HashTable.countBits turns tmp cnt = none
  | 0, tmp, cnt, h => if_neg h.ne
  | turns + 1, tmp, cnt, h => by
    have hhalf : tmp >>> (1 : Nat) < 0 := by
      rw [Int.shiftRight_eq_div_pow]
      omega
    rw [HashTable.countBits, if_neg h.ne, countBits_neg turns _ hhalf]

theorem toInt_eq (size : Int32) : size.toInt = if size.toUInt32.toNat < 2 ^ 31 then (size.toUInt32.toNat : Int)
    else (size.toUInt32.toNat : Int) - 2 ^ 32 := by
  have h := BitVec.toInt_eq_toNat_cond size.toBitVec
  have hnat : size.toBitVec.toNat = size.toUInt32.toNat := rfl
  rw [Int32.toInt, h, hnat]
  split <;> split <;> omega

theorem toUInt32_sub_one (size : Int32) : (size - 1).toUInt32 = size.toUInt32 - 1 := rfl

theorem and_ne_zero {a b : Nat} (ha : 2 ^ 31 ≤ a) (ha' : a < 2 ^ 32) (hb : 2 ^ 31 ≤ b) (hb' : b < 2 ^ 32) :
    a &&& b ≠ 0 := by
  intro hzero
  have hbit : (a &&& b).testBit 31 = true := by
    rw [Nat.testBit_and, Nat.testBit_of_two_pow_le_and_two_pow_add_one_gt ha ha',
      Nat.testBit_of_two_pow_le_and_two_pow_add_one_gt hb hb']
    rfl
  simp [hzero] at hbit

variable [LinearOrder K] [DecidableEq D]

/-- **When a table behaves as a finite map**: with a size that is positive, or the smallest of all (a power of two
taken as unsigned). -/
theorem hashTable_iff [Inhabited K] [Inhabited D] (compute_hash : K → UInt32) (in_hash_table_size : Int32) :
    (∃ t : HashTable K D, HashTable.construct in_hash_table_size = some t ∧ Behaves compute_hash t) ↔
      0 < in_hash_table_size ∨ in_hash_table_size = Int32.minValue := by
  have hlt := in_hash_table_size.toUInt32.toNat_lt
  have hone : (1 : UInt32).toNat = 1 := rfl
  have hint := toInt_eq in_hash_table_size
  have hpos : 0 < in_hash_table_size ↔ 0 < in_hash_table_size.toInt := Int32.lt_iff_toInt_lt
  have hmin : in_hash_table_size = Int32.minValue ↔ in_hash_table_size.toUInt32.toNat = 2 ^ 31 := by
    rw [← Int32.toBitVec_inj, ← BitVec.toNat_inj]
    rfl
  rw [hpos, hmin, hint]
  by_cases hzero : in_hash_table_size.toUInt32.toNat = 0
  · -- no lists at all
    refine iff_of_false ?_ (by omega)
    rintro ⟨t, hconstruct, hbehaves⟩
    have hsize : in_hash_table_size.toUInt32 = 0 := UInt32.toNat_inj.mp hzero
    rw [HashTable.construct, if_neg (by simp [hsize])] at hconstruct
    obtain ⟨t', hrun, -⟩ := hbehaves [.get default]
    rw [← Option.some_inj.mp hconstruct, hsize] at hrun
    simp [HashTable.run, HashTable.step, HashTable.getElement, HashTable.getHashed, HashTable.bucket,
      HashTable.ofSize] at hrun
  have hsub : (in_hash_table_size.toUInt32 - 1).toNat = in_hash_table_size.toUInt32.toNat - 1 := by
    rw [UInt32.toNat_sub_of_le _ _ (UInt32.le_iff_toNat_le.mpr (by omega)), hone]
  by_cases hbits : (in_hash_table_size - 1).toUInt32 &&& in_hash_table_size.toUInt32 = 0
  · -- the size is taken as it is
    have hbehaves : Behaves compute_hash
        (HashTable.ofSize in_hash_table_size.toUInt32 (in_hash_table_size - 1).toUInt32 : HashTable K D) :=
      behaves_ofSize (UInt32.lt_iff_toNat_lt.mpr (by rw [toUInt32_sub_one, hsub]; omega))
    refine iff_of_true ⟨_, by rw [HashTable.construct, if_neg (by simpa using hbits)], hbehaves⟩ ?_
    by_contra hnot
    refine and_ne_zero (a := in_hash_table_size.toUInt32.toNat - 1) (b := in_hash_table_size.toUInt32.toNat)
      (by omega) (by omega) (by omega) hlt ?_
    rw [← hsub, ← toUInt32_sub_one, ← UInt32.toNat_and, hbits]
    rfl
  · by_cases hneg : in_hash_table_size.toUInt32.toNat < 2 ^ 31
    · -- rounded up
      obtain ⟨k, hk, hcount⟩ := countBits_nat 32 31 0 (by omega) hneg
      rw [Nat.zero_add] at hcount
      have hpow : (UInt32.ofNat (1 <<< k)).toNat = 2 ^ k := by
        have hlt32 : 2 ^ k < 2 ^ 32 := Nat.pow_lt_pow_right Nat.one_lt_two (Nat.lt_succ_of_le hk)
        rw [Nat.one_shiftLeft]
        exact UInt32.toNat_ofNat_of_lt' hlt32
      have hpowpos : 0 < 2 ^ k := Nat.two_pow_pos k
      have hbehaves : Behaves compute_hash
          (HashTable.ofSize (UInt32.ofNat (1 <<< k)) (UInt32.ofNat (1 <<< k) - 1) : HashTable K D) := by
        refine behaves_ofSize (UInt32.lt_iff_toNat_lt.mpr ?_)
        rw [UInt32.toNat_sub_of_le _ _ (UInt32.le_iff_toNat_le.mpr (by omega)), hone]
        omega
      refine iff_of_true ⟨_, ?_, hbehaves⟩ (Or.inl (by rw [if_pos hneg]; omega))
      rw [HashTable.construct, if_pos hbits, hint, if_pos hneg, hcount]
      rfl
    · -- the loop does not end
      have hnone : (HashTable.construct in_hash_table_size : Option (HashTable K D)) = none := by
        rw [HashTable.construct, if_pos hbits, hint, if_neg hneg, countBits_neg 32 0 (by omega)]
        rfl
      refine iff_of_false ?_ ?_
      · rintro ⟨t, hconstruct, -⟩
        rw [hnone] at hconstruct
        contradiction
      · rw [if_neg hneg]
        rintro (hlt' | hmin')
        · omega
        · refine hbits ?_
          rw [← UInt32.toNat_inj, UInt32.toNat_and, toUInt32_sub_one, hsub, hmin']
          decide

/-- **A table without lists**: with size 0 the mask has all bits, and the first look for a key goes outside. -/
theorem zero_size_fails : (∃ t : HashTable Nat Nat, HashTable.construct 0 = some t ∧ t.hash_mask = 0xFFFFFFFF ∧
      t.run (fun _ => 7) [.get 5] = none) ∧
    ¬∃ t : HashTable Nat Nat, HashTable.construct 0 = some t ∧ Behaves (fun _ => 7) t := by
  have hrun : (HashTable.ofSize 0 0xFFFFFFFF : HashTable Nat Nat).run (fun _ => 7) [.get 5] = none := rfl
  refine ⟨⟨_, rfl, rfl, hrun⟩, ?_⟩
  rintro ⟨t, hconstruct, hbehaves⟩
  obtain ⟨t', hanswers, -⟩ := hbehaves [.get 5]
  rw [← Option.some_inj.mp hconstruct] at hanswers
  exact absurd (hrun.symm.trans hanswers) (by simp)

end Ftke.GenDataStructures
