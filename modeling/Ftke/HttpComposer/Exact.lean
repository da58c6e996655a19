import Ftke.HttpComposer

/-!
# Ftke.HttpComposer.Exact

The predicted length of a request against what is written.

`header` is the text of a request: the request line, a line for each pair of the store and
the final CRLF.  Both sides are compared with it: `getCurrentRequestLength_eq` is its length,
and `composeFirstLine_eq` with `composeHeaders_eq` write it.  `requestExact_iff` puts them together
for the composers that a run leads to.

The null character behind the entity body is not in the predicted length, so that a buffer
that fits exactly is exceeded by one octet.
-/

namespace Ftke.HttpComposer

open KeyValueStore

/-! ## The text of a request -/

def requestLine (usingAbsoluteURI : Bool) (c : Composer) : Str :=
  HTTPMethodString c.iMethod ++ [charSpace] ++ c.uri usingAbsoluteURI ++ [charSpace] ++
    versionString c.iVersion ++ [charCR, charLF]

/-- `key: value`, and CRLF. -/
def fieldLine (field : Str × Str) : Str :=
  field.1 ++ [charColon, charSpace] ++ field.2 ++ [charCR, charLF]

/-- The lines of the fields, and the final CRLF. -/
def fieldsText (store : KeyValueStore.Store) : Str := (fields store).flatMap fieldLine ++ [charCR, charLF]

def header (usingAbsoluteURI : Bool) (c : Composer) : Str :=
  requestLine usingAbsoluteURI c ++ fieldsText c.iKeyValueStore

theorem length_versionString (version : HTTPVersion) : (versionString version).length = 8 := by
  cases version <;> rfl

theorem length_requestLine (u : Bool) (c : Composer) :
    (requestLine u c).length = (HTTPMethodString c.iMethod).length + (c.uri u).length + 12 := by
  simp only [requestLine, List.length_append, List.length_cons, List.length_nil, length_versionString]
  omega

theorem length_lines (pairs : List (Str × Str)) :
    (pairs.flatMap fieldLine).length = lengths pairs + 4 * pairs.length := by
  induction pairs with
  | nil => rfl
  | cons field pairs ih =>
    simp only [List.flatMap_cons, List.length_append, ih, lengths_cons, pairLength, fieldLine, List.length_cons,
      List.length_nil]
    omega

theorem length_fieldsText (store : KeyValueStore.Store) :
    (fieldsText store).length = lengths (fields store) + 4 * (fields store).length + 2 := by
  rw [fieldsText, List.length_append, length_lines]
  rfl

/-! ## The predicted length -/

/-- What a run keeps: the store is a multimap that counts its pairs, and no body has been
composed. -/
structure Inv (s : Session) : Prop where
  store : KeyValueStore.Inv ⟨s.composer.iKeyValueStore, s.added⟩
  counted : Counted s.composer.iKeyValueStore
  body : s.composer.iEntityBodyLength = 0

/-- There is a URI for the request line, or it is the absolute one. -/
def Usable (usingAbsoluteURI : Bool) (c : Composer) : Prop :=
  usingAbsoluteURI = true ∨ c.iRelativeURI ≠ []

variable {s : Session} {u : Bool}

theorem not_badURI {c : Composer} (h : Usable u c) : (!u && c.iRelativeURI.length == 0) = false := by
  rcases h with rfl | h
  · rfl
  · simp [h]

/-- **The predicted length** is that of the header, modulo 2^32. -/
theorem getCurrentRequestLength_eq (h : Inv s) (huri : Usable u s.composer) :
    getCurrentRequestLength u s.composer = (Int32.ofNat (header u s.composer).length,
      { s.composer with
        iFirstLineLength := UInt32.ofNat (requestLine u s.composer).length
        iHeaderLength := UInt32.ofNat (header u s.composer).length }) := by
  have hfour : (4 : UInt32) = UInt32.ofNat 4 := rfl
  have htwo : (2 : UInt32) = UInt32.ofNat 2 := rfl
  have height : (8 : UInt32) = UInt32.ofNat 8 := rfl
  have hcount := h.store.count
  rw [← length_fields] at hcount
  have hfirst : UInt32.ofNat (HTTPMethodString s.composer.iMethod).length +
      UInt32.ofNat (s.composer.uri u).length + 8 + 4 = UInt32.ofNat (requestLine u s.composer).length := by
    rw [length_requestLine, height, hfour, ← UInt32.ofNat_add, ← UInt32.ofNat_add, ← UInt32.ofNat_add]
  have hheader : UInt32.ofNat (requestLine u s.composer).length +
      (s.composer.iKeyValueStore.iTotalKeyValueLength +
        s.composer.iKeyValueStore.iTotalNumberOfKeyValuePairs * 4) + 2 =
      UInt32.ofNat (header u s.composer).length := by
    rw [h.counted, hcount, hfour, htwo, ← UInt32.ofNat_mul, ← UInt32.ofNat_add, ← UInt32.ofNat_add,
      ← UInt32.ofNat_add, header, List.length_append, length_fieldsText, Nat.mul_comm 4]
    rfl
  rw [getCurrentRequestLength, not_badURI huri]
  simp only [Bool.false_eq_true, if_false, hfirst, hheader, h.body, UInt32.add_zero, UInt32.toInt32_ofNat']

theorem length_exact_iff (h : Inv s) (huri : Usable u s.composer) :
    (getCurrentRequestLength u s.composer).1.toInt = (header u s.composer).length ↔
      (header u s.composer).length < 2 ^ 31 := by
  rw [getCurrentRequestLength_eq h huri]
  constructor
  · intro heq
    have hlt := (Int32.ofNat (header u s.composer).length).toInt_lt
    simp only at heq
    omega
  · exact Int32.toInt_ofNat_of_lt

/-! ## Writing -/

theorem put_put (out : Cursor) (a b : Str) : (out.put a).put b = out.put (a ++ b) := by
  rw [Cursor.put, Cursor.put, Cursor.put, Buffer.memcpy_memcpy, List.length_append, Nat.add_assoc]

theorem put_nil (out : Cursor) : out.put [] = out := by
  rw [Cursor.put, Buffer.memcpy_nil]
  rfl

theorem composeFirstLine_eq (c : Composer) (b : HTTPMemoryFragment) : composeFirstLine u c b =
    { b with written := b.written.memcpy b.iLen.toNat (requestLine u c) }.update c.iFirstLineLength := by
  simp only [composeFirstLine, put_put]
  rw [show HTTPMethodString c.iMethod ++ [charSpace] ++ c.uri u ++ [charSpace] ++ versionString c.iVersion ++
    [charCR] ++ [charLF] = requestLine u c by simp [requestLine]]
  rfl

/-- The values of a slot. -/
def slotValues (store : KeyValueStore.Store) (j : Nat) : List Str :=
  store.iFieldVals j :: (store.iFieldKeys j).iNext.map Linked.str

variable {added : Multimap} {store : KeyValueStore.Store}

/-- **The loop over the values of a key**, from one of them on. -/
theorem composeValues_eq (h : KeyValueStore.Inv ⟨store, added⟩) {j : Nat}
    (hocc : Occupied store j) : ∀ (rest before : List Str) (out : Cursor),
    slotValues store j = before ++ rest →
    composeValues store (store.iFieldKeys j).iStr (rest.length + 1) before.length out =
      some ((slotValues store j).length, out.put
        ((rest.map fun value => ((store.iFieldKeys j).iStr, value)).flatMap fieldLine))
  | [], before, out, hvalues => by
    have hbehind := value_behind h ⟨hocc, rfl⟩
    have hlen : before.length = 1 + (store.iFieldKeys j).iNext.length := by
      rw [← List.append_nil before, ← hvalues]
      simp [slotValues, Nat.add_comm]
    rw [List.length_nil, composeValues, hlen, hbehind, Option.bind_some]
    rw [List.append_nil] at hvalues
    rw [hvalues, hlen]
    exact congrArg some (congrArg _ (put_nil out).symm)
  | value :: rest, before, out, hvalues => by
    have hpresent : added (fold (store.iFieldKeys j).iStr) = slotValues store j := h.present j hocc
    have hvalue : getValueByKey (store.iFieldKeys j).iStr before.length store = some (true, value) := by
      have hgood : getValueByKey (store.iFieldKeys j).iStr before.length store = some (true,
          (added (fold (store.iFieldKeys j).iStr)).getD before.length []) :=
        good_value h (by simp only [hpresent, hvalues, List.length_append, List.length_cons]; omega)
      simpa [hpresent, hvalues] using hgood
    have ih := composeValues_eq h hocc rest (before ++ [value])
      (out.put (fieldLine ((store.iFieldKeys j).iStr, value))) (by simp [hvalues])
    rw [List.length_append, List.length_singleton, put_put] at ih
    rw [List.length_cons, composeValues, hvalue]
    simp only [Option.bind_some, Bool.not_true, Bool.false_eq_true, if_false, put_put]
    rw [List.map_cons, List.flatMap_cons, ← ih]
    simp [fieldLine]

theorem composeSlot_eq (h : KeyValueStore.Inv ⟨store, added⟩) {j : Nat}
    (hocc : Occupied store j) (out : Cursor) :
    composeValues store (store.iFieldKeys j).iStr (valuesFuel store (store.iFieldKeys j).iStr) 0 out =
      some ((slotFields store j).length, out.put ((slotFields store j).flatMap fieldLine)) := by
  have hfuel : valuesFuel store (store.iFieldKeys j).iStr = (slotValues store j).length + 1 := by
    rw [valuesFuel, find_of_mem h.toTable hocc rfl]
    simp [slotValues]
  have hloop := composeValues_eq h hocc (slotValues store j) [] out rfl
  rw [hfuel]
  rw [List.length_nil] at hloop
  rw [hloop, slotFields, List.length_map]
  rfl

/-- **The loop over the keys**, from one of them on. -/
theorem composeKeys_eq (h : KeyValueStore.Inv ⟨store, added⟩)
    (hcount : store.iTotalNumberOfKeyValuePairs.toNat = (fields store).length) :
    ∀ (rest before : List Nat) (out : Cursor), store.iFieldKeyTableIndexVector = before ++ rest →
    composeKeys store (rest.map fun j => (store.iFieldKeys j).iStr)
        (UInt32.ofNat (before.flatMap (slotFields store)).length) out =
      some (out.put ((rest.flatMap (slotFields store)).flatMap fieldLine))
  | [], _, out, _ => congrArg some (put_nil out).symm
  | j :: rest, before, out, hslots => by
    have hocc : Occupied store j := (h.mem_slots j).mp (by rw [hslots]; simp)
    have hall : (fields store).length = (before.flatMap (slotFields store)).length +
        ((slotFields store j).length + (rest.flatMap (slotFields store)).length) := by
      rw [fields, hslots, List.flatMap_append, List.flatMap_cons, List.length_append, List.length_append]
    have hpos : 0 < (slotFields store j).length := by
      rw [slotFields, List.length_map]
      exact Nat.succ_pos _
    have hlt : UInt32.ofNat (before.flatMap (slotFields store)).length < store.iTotalNumberOfKeyValuePairs := by
      have hbound := store.iTotalNumberOfKeyValuePairs.toNat_lt
      rw [UInt32.lt_iff_toNat_lt, UInt32.toNat_ofNat_of_lt' (by simp only [UInt32.size]; omega)]
      omega
    have ih := composeKeys_eq h hcount rest (before ++ [j])
      (out.put ((slotFields store j).flatMap fieldLine)) (by simp [hslots])
    rw [List.map_cons, composeKeys, if_pos hlt, composeSlot_eq h hocc, Option.bind_some, ← UInt32.ofNat_add]
    rw [List.flatMap_append, List.flatMap_singleton, List.length_append] at ih
    rw [ih, put_put, List.flatMap_cons, List.flatMap_append]

/-- **The header fields** are written, with the final CRLF. -/
theorem composeHeaders_eq {c : Composer} (h : KeyValueStore.Inv ⟨c.iKeyValueStore, added⟩)
    (hsmall : (fields c.iKeyValueStore).length < 2 ^ 32) (b : HTTPMemoryFragment) :
    composeHeaders true c b = some (true,
      { b with written := b.written.memcpy b.iLen.toNat (fieldsText c.iKeyValueStore) }.updateTo
        (b.iLen.toNat + (fieldsText c.iKeyValueStore).length)) := by
  have hcount : c.iKeyValueStore.iTotalNumberOfKeyValuePairs.toNat = (fields c.iKeyValueStore).length := by
    have hinv := h.count
    rw [← length_fields] at hinv
    rw [hinv, UInt32.toNat_ofNat_of_lt' hsmall]
  have hfinish (lines : Str) : finishHeaders b (b.cursor.put lines) =
      { b with written := b.written.memcpy b.iLen.toNat (lines ++ [charCR, charLF]) }.updateTo
        (b.iLen.toNat + (lines ++ [charCR, charLF]).length) := by
    simp only [finishHeaders, put_put, List.append_assoc, List.singleton_append]
    rfl
  have hle := length_le_total c.iKeyValueStore.iFieldKeys c.iKeyValueStore.iFieldKeyTableIndexVector
  rw [← length_fields] at hle
  by_cases hzero : c.iKeyValueStore.iTotalNumberOfKeyValuePairs > 0
  · have hpos : 0 < (fields c.iKeyValueStore).length := by
      rw [← hcount]
      exact UInt32.lt_iff_toNat_lt.mp hzero
    have hslots : c.iKeyValueStore.iFieldKeyTableIndexVector.length ≠ 0 := fun hnil => by
      rw [fields, List.eq_nil_of_length_eq_zero hnil] at hpos
      exact absurd hpos (Nat.lt_irrefl 0)
    have hloop := composeKeys_eq h hcount c.iKeyValueStore.iFieldKeyTableIndexVector [] b.cursor rfl
    have hkeys : (getCurrentKeyList c.iKeyValueStore).length = c.iKeyValueStore.iFieldKeyTableIndexVector.length :=
      List.length_map _
    rw [composeHeaders, if_pos hzero]
    simp only [Bool.not_true, Bool.false_eq_true, if_false, hkeys, hcount, gt_iff_lt, Nat.not_lt.mpr hle, hslots]
    rw [getCurrentKeyList]
    rw [List.flatMap_nil, List.length_nil] at hloop
    rw [show (0 : UInt32) = UInt32.ofNat 0 from rfl, hloop, Option.map_some, hfinish]
    rfl
  · have hnil : fields c.iKeyValueStore = [] := by
      refine List.eq_nil_of_length_eq_zero ?_
      rw [← hcount]
      exact Nat.eq_zero_of_not_pos fun hpos => hzero (UInt32.lt_iff_toNat_lt.mpr hpos)
    rw [composeHeaders, if_neg hzero, ← put_nil b.cursor, hfinish, fieldsText, hnil]
    rfl

/-! ## Composing -/

theorem santityCheck_composer (b : HTTPMemoryFragment) (u : Bool) (body : UInt32) (c : Composer) :
    ∃ status, santityCheckForCompose b u body c = some (status, (getCurrentRequestLength u c).2) := by
  rw [santityCheckForCompose]
  split
  · next hbad =>
    rw [getCurrentRequestLength, if_pos hbad]
    exact ⟨_, rfl⟩
  · have hvalue (key : Str) : ∃ v, getValueByKey key 0 c.iKeyValueStore = some v := by
      rw [getValueByKey]
      simp only [if_true]
      split <;> exact ⟨_, rfl⟩
    simp only
    split
    · exact ⟨_, rfl⟩
    · split
      · exact ⟨_, rfl⟩
      · split
        · exact ⟨_, rfl⟩
        · split
          · exact ⟨_, rfl⟩
          · obtain ⟨v, hv⟩ := hvalue (ascii ['C', 'o', 'n', 't', 'e', 'n', 't', '-', 'L', 'e', 'n', 'g', 't', 'h'])
            rw [hv, Option.map_some]
            split
            · exact ⟨_, rfl⟩
            · split <;> exact ⟨_, rfl⟩

variable {capacity : UInt32}

theorem update_new (written : Buffer UInt8) {n : Nat} (hn : n < 2 ^ 31) :
    HTTPMemoryFragment.update ⟨0, capacity, written⟩ (UInt32.ofNat n) =
      if n ≤ capacity.toNat then ⟨UInt32.ofNat n, capacity, written⟩ else ⟨0, capacity, written⟩ := by
  have hnat : (UInt32.ofNat n).toNat = n := UInt32.toNat_ofNat_of_lt' (by simp only [UInt32.size]; omega)
  simp only [HTTPMemoryFragment.update, HTTPMemoryFragment.isSpaceEnough, UInt32.zero_add, UInt32.le_iff_toNat_le,
    hnat, decide_eq_true_eq]

theorem updateTo_eq (b : HTTPMemoryFragment) {n : Nat} (hn : n < 2 ^ 31) :
    b.updateTo n = if n ≤ b.iCapacity.toNat then { b with iLen := UInt32.ofNat n } else b := by
  have hnat : (UInt32.ofNat n).toNat = n := UInt32.toNat_ofNat_of_lt' (by simp only [UInt32.size]; omega)
  have hpos : ¬Int32.ofNat n < 0 := by
    rw [Int32.lt_iff_toInt_lt, Int32.toInt_ofNat_of_lt hn, Int32.toInt_zero]
    omega
  simp only [HTTPMemoryFragment.updateTo, hpos, false_or, Int32.toUInt32_ofNat', gt_iff_lt, UInt32.lt_iff_toNat_lt,
    hnat]
  by_cases hle : n ≤ b.iCapacity.toNat
  · rw [if_neg (by omega), if_pos hle]
  · rw [if_pos (by omega), if_neg hle]

/-- The buffer before the null character is written. -/
structure Written (s : Session) (u : Bool) (capacity : UInt32) (b : HTTPMemoryFragment) : Prop where
  room : b.iCapacity = capacity
  within : (header u s.composer).length ≤ capacity.toNat →
    b.written = Buffer.empty.memcpy 0 (header u s.composer) ∧
      b.iLen = UInt32.ofNat (header u s.composer).length
  beyond : capacity.toNat < (header u s.composer).length → b.written.Overrun capacity.toNat

/-- **The header is written**, wherever it ends. -/
theorem composeHeader_written {c : Composer} (hmethod : requestLine u c = requestLine u s.composer)
    (hstore : c.iKeyValueStore = s.composer.iKeyValueStore) (h : Inv s)
    (hfirst : c.iFirstLineLength = UInt32.ofNat (requestLine u s.composer).length)
    (hsmall : (header u s.composer).length < 2 ^ 31) (capacity : UInt32) :
    ∃ b, composeHeaders true c (composeFirstLine u c (.ofCapacity capacity)) = some (true, b) ∧
      Written s u capacity b := by
  have hlen : (header u s.composer).length = (requestLine u s.composer).length +
      (fieldsText s.composer.iKeyValueStore).length := by rw [header, List.length_append]
  have htext := length_fieldsText s.composer.iKeyValueStore
  have hline : composeFirstLine u c (.ofCapacity capacity) =
      if (requestLine u s.composer).length ≤ capacity.toNat then
        ⟨UInt32.ofNat (requestLine u s.composer).length, capacity,
          Buffer.empty.memcpy 0 (requestLine u s.composer)⟩
      else ⟨0, capacity, Buffer.empty.memcpy 0 (requestLine u s.composer)⟩ := by
    rw [composeFirstLine_eq, hmethod, hfirst]
    exact update_new _ (by omega)
  have hheaders := composeHeaders_eq (hstore ▸ h.store) (by rw [hstore]; omega)
    (composeFirstLine u c (.ofCapacity capacity))
  rw [hstore] at hheaders
  refine ⟨_, hheaders, ?_⟩
  rw [hline]
  have hnat : (UInt32.ofNat (requestLine u s.composer).length).toNat = (requestLine u s.composer).length :=
    UInt32.toNat_ofNat_of_lt' (by simp only [UInt32.size]; omega)
  by_cases hle : (requestLine u s.composer).length ≤ capacity.toNat
  · have hwritten : (Buffer.empty.memcpy 0 (requestLine u s.composer)).memcpy (requestLine u s.composer).length
        (fieldsText s.composer.iKeyValueStore) = Buffer.empty.memcpy 0 (header u s.composer) := by
      have happend := Buffer.memcpy_memcpy Buffer.empty 0 (requestLine u s.composer)
        (fieldsText s.composer.iKeyValueStore)
      rwa [Nat.zero_add] at happend
    simp only [if_pos hle, hnat, hwritten, ← hlen]
    rw [updateTo_eq _ hsmall]
    refine ⟨?_, fun hall => ?_, fun hlt => ?_⟩
    · split <;> rfl
    · rw [if_pos hall]
      exact ⟨rfl, rfl⟩
    · rw [if_neg (by simpa using hlt)]
      refine ⟨capacity.toNat, Nat.le_refl _, ?_⟩
      have hinside := Buffer.memcpy_inside Buffer.empty (k := 0) hlt
      rw [Nat.zero_add] at hinside
      exact fun hnone => Option.some_ne_none _ (hinside.symm.trans hnone)
  · simp only [if_neg hle, UInt32.toNat_zero, Nat.zero_add]
    rw [updateTo_eq _ (by omega)]
    refine ⟨?_, fun hall => by omega, fun hlt => ⟨capacity.toNat, Nat.le_refl _, ?_⟩⟩
    · split <;> rfl
    · have hinside := Buffer.memcpy_inside Buffer.empty (k := 0) (Nat.lt_of_not_le hle)
      rw [Nat.zero_add] at hinside
      have hfirstLine : (Buffer.empty.memcpy 0 (requestLine u s.composer)) capacity.toNat ≠ none := by
        rw [hinside]
        exact Option.some_ne_none _
      have hkept := Buffer.memcpy_ne_none _ 0 (fieldsText s.composer.iKeyValueStore) hfirstLine
      split <;> exact hkept

/-- On success the header is in the buffer, and nothing is written outside exactly if the header
fills the buffer or there is room for the null character behind the body. -/
def Composes (s : Session) (u : Bool) (capacity body : UInt32) : Prop :=
  ∃ status c b, compose (.ofCapacity capacity) u body true s.composer = some (status, c, b) ∧
    (status = composeSuccess →
      ((header u s.composer).length ≤ capacity.toNat →
        ∀ i < (header u s.composer).length, b.written i = (header u s.composer)[i]?) ∧
      (¬b.written.Overrun capacity.toNat ↔ (header u s.composer).length ≤ capacity.toNat ∧
        ((header u s.composer).length = capacity.toNat ∨
          (header u s.composer).length + body.toNat < capacity.toNat)))

/-- What a caller relies on: the predicted length, that the header has each value of a key once,
and that it is composed. -/
structure Exact (s : Session) (u : Bool) : Prop where
  length : (getCurrentRequestLength u s.composer).1.toInt = (header u s.composer).length
  each : ∀ key, ((fields s.composer.iKeyValueStore).filter fun field => isCIEquivalentTo field.1 key).map
    Prod.snd = s.added (fold key)
  composes : ∀ capacity body, Composes s u capacity body

theorem Written.content {b : HTTPMemoryFragment} (h : Written s u capacity b)
    (hall : (header u s.composer).length ≤ capacity.toNat) {i : Nat} :
    b.written i = (header u s.composer)[i]? := by
  rw [(h.within hall).1]
  by_cases hi : i < (header u s.composer).length
  · have hinside := Buffer.memcpy_inside Buffer.empty (k := 0) hi
    rw [Nat.zero_add] at hinside
    rw [hinside, List.getElem?_eq_getElem hi]
  · rw [Buffer.memcpy_outside _ (.inr (by omega)), List.getElem?_eq_none (by omega)]
    rfl

theorem Written.terminated {b : HTTPMemoryFragment} (h : Written s u capacity b)
    (body : UInt32) (hall : (header u s.composer).length ≤ capacity.toNat)
    (hsmall : (header u s.composer).length < 2 ^ 31) :
    (b.getAvailableSpace > 0 ↔ (header u s.composer).length < capacity.toNat) ∧
      b.iLen.toNat + body.toNat = (header u s.composer).length + body.toNat := by
  obtain ⟨-, hlen⟩ := h.within hall
  have hnat : b.iLen.toNat = (header u s.composer).length := by
    rw [hlen, UInt32.toNat_ofNat_of_lt' (by simp only [UInt32.size]; omega)]
  refine ⟨?_, by rw [hnat]⟩
  rw [HTTPMemoryFragment.getAvailableSpace, h.room, gt_iff_lt, UInt32.lt_iff_toNat_lt, UInt32.toNat_zero,
    UInt32.toNat_sub_of_le _ _ (by rw [UInt32.le_iff_toNat_le, hnat]; exact hall), hnat]
  omega

theorem update_written (b : HTTPMemoryFragment) (n : UInt32) : (b.update n).written = b.written := by
  rw [HTTPMemoryFragment.update]
  split <;> rfl

/-- **Composing** a header that is shorter than 2^31. -/
theorem compose_written (h : Inv s) (huri : Usable u s.composer)
    (hsmall : (header u s.composer).length < 2 ^ 31) (capacity body : UInt32) : Composes s u capacity body := by
  obtain ⟨status, hstatus⟩ := santityCheck_composer (.ofCapacity capacity) u body s.composer
  rw [getCurrentRequestLength_eq h huri] at hstatus
  rw [Composes, compose, hstatus, Option.bind_some]
  by_cases hsuccess : status = composeSuccess
  · simp only [hsuccess, ne_eq, not_true_eq_false, if_false]
    obtain ⟨b, hb, hwritten⟩ := composeHeader_written
      (c := { s.composer with
        iFirstLineLength := UInt32.ofNat (requestLine u s.composer).length
        iHeaderLength := UInt32.ofNat (header u s.composer).length
        iEntityBodyLength := body }) rfl rfl h rfl hsmall capacity
    rw [hb, Option.map_some]
    by_cases hall : (header u s.composer).length ≤ capacity.toNat
    · obtain ⟨hspace, hplace⟩ := hwritten.terminated body hall hsmall
      have hcontent {i : Nat} := hwritten.content hall (i := i)
      by_cases hroom : (header u s.composer).length < capacity.toNat
      · simp only [hspace.mpr hroom, if_true, hplace]
        refine ⟨_, _, _, rfl, fun _ => ⟨fun _ i hi => ?_, ?_⟩⟩
        · rw [update_written]
          exact (if_neg (by omega)).trans hcontent
        · rw [update_written, Buffer.not_overrun_iff]
          constructor
          · intro hnone
            refine ⟨hall, .inr (Nat.lt_of_not_le fun hle => ?_)⟩
            have hterminator := (Buffer.store_self _ _ _).symm.trans (hnone _ hle)
            cases hterminator
          · rintro ⟨-, hinside⟩ i hi
            refine (if_neg (by omega)).trans (hcontent.trans ?_)
            exact List.getElem?_eq_none (by omega)
      · simp only [mt hspace.mp hroom, if_false]
        refine ⟨_, _, _, rfl, fun _ => ⟨fun _ i _ => hcontent, ?_⟩⟩
        rw [Buffer.not_overrun_iff]
        refine iff_of_true (fun i hi => ?_) ⟨hall, .inl (by omega)⟩
        rw [hcontent]
        exact List.getElem?_eq_none (by omega)
    · have hover := hwritten.beyond (by omega)
      simp only
      split
      · refine ⟨_, _, _, rfl, fun _ => ⟨fun hle => absurd hle hall, iff_of_false (fun hnot => hnot ?_) fun hle =>
          absurd hle.1 hall⟩⟩
        rw [update_written]
        obtain ⟨i, hi, hne⟩ := hover
        exact ⟨i, hi, Buffer.store_ne_none _ _ _ hne⟩
      · exact ⟨_, _, _, rfl, fun _ => ⟨fun hle => absurd hle hall, iff_of_false (fun hnot => hnot hover) fun hle =>
          absurd hle.1 hall⟩⟩
  · rw [if_pos hsuccess]
    exact ⟨_, _, _, rfl, fun heq => absurd heq hsuccess⟩

/-! ## Runs -/

/-- A call that leads to no defect of the store. -/
def Ok (s : Session) : Event → Prop
  | .setField name (some value) replace memory =>
    KeyValueStore.Ok ⟨s.composer.iKeyValueStore, s.added⟩ (.addKeyValuePair name value replace memory)
  | .setField name none _ _ =>
    KeyValueStore.Ok ⟨s.composer.iKeyValueStore, s.added⟩ (.removeKeyValuePair name)
  | .setMethod _ | .setVersion _ | .setURI _ _ | .reset _ => True

instance (s : Session) : ∀ event, Decidable (Ok s event)
  | .setField name (some value) replace memory => inferInstanceAs (Decidable (KeyValueStore.Ok
      ⟨s.composer.iKeyValueStore, s.added⟩ (.addKeyValuePair name value replace memory)))
  | .setField name none _ _ => inferInstanceAs (Decidable (KeyValueStore.Ok
      ⟨s.composer.iKeyValueStore, s.added⟩ (.removeKeyValuePair name)))
  | .setMethod _ => .isTrue trivial
  | .setVersion _ => .isTrue trivial
  | .setURI _ _ => .isTrue trivial
  | .reset _ => .isTrue trivial

theorem inv_newSession : Inv newSession := ⟨inv_new, rfl, rfl⟩

theorem Inv.store_step (h : Inv s) {event : KeyValueStore.Event} {t : KeyValueStore.Session}
    (hok : KeyValueStore.Ok ⟨s.composer.iKeyValueStore, s.added⟩ event)
    (ht : KeyValueStore.handle ⟨s.composer.iKeyValueStore, s.added⟩ event = some t) :
    Inv ⟨{ s.composer with iKeyValueStore := t.store }, t.added⟩ := by
  obtain ⟨t', ht', hinv⟩ := inv_handle h.store hok
  rw [← Option.some.inj (ht.symm.trans ht')] at hinv
  exact ⟨hinv, counted_handle h.store h.counted hok ht, h.body⟩

theorem setURI_store (aURI behind : Str) (c : Composer) :
    (setURI aURI behind c).iKeyValueStore = c.iKeyValueStore ∧
      (setURI aURI behind c).iEntityBodyLength = c.iEntityBodyLength := by
  simp only [setURI]
  split
  · exact ⟨rfl, rfl⟩
  · split <;> exact ⟨rfl, rfl⟩

/-- **One call keeps the invariant.** -/
theorem inv_step (h : Inv s) {event : Event} (hok : Ok s event) {t : Session} (ht : handle s event = some t) :
    Inv t := by
  cases event with
  | setMethod aMethod =>
    rw [← Option.some.inj ht]
    exact ⟨h.store, h.counted, h.body⟩
  | setVersion aVersion =>
    rw [← Option.some.inj ht]
    exact ⟨h.store, h.counted, h.body⟩
  | setURI aURI behind =>
    obtain ⟨hstore, hbody⟩ := setURI_store aURI behind s.composer
    rw [← Option.some.inj ht]
    refine ⟨?_, ?_, hbody.trans h.body⟩
    · simp only [hstore]
      exact h.store
    · simp only [hstore]
      exact h.counted
  | reset keep =>
    rw [← Option.some.inj ht]
    cases keep with
    | true => exact ⟨h.store, h.counted, rfl⟩
    | false => exact ⟨inv_clear ⟨s.composer.iKeyValueStore, s.added⟩, rfl, rfl⟩
  | setField name value replace memory =>
    cases value with
    | some value =>
      have hok : KeyValueStore.Ok ⟨s.composer.iKeyValueStore, s.added⟩
        (.addKeyValuePair name value replace memory) := hok
      obtain ⟨r, hr, hrt⟩ := Option.map_eq_some_iff.mp ht
      obtain ⟨r', hr', hrr⟩ := Option.map_eq_some_iff.mp hr
      rw [← hrt, ← hrr]
      have hstep := h.store_step hok (t := ⟨r'.2,
        if r'.1 = success then s.added.add name value replace else s.added⟩) (by
          rw [KeyValueStore.handle, hr']
          rfl)
      simpa only [setAdded, beq_iff_eq] using hstep
    | none =>
      have hok : KeyValueStore.Ok ⟨s.composer.iKeyValueStore, s.added⟩ (.removeKeyValuePair name) := hok
      obtain ⟨r, hr, hrt⟩ := Option.map_eq_some_iff.mp ht
      obtain ⟨store, hstore, hrr⟩ := Option.map_eq_some_iff.mp hr
      rw [← hrt, ← hrr]
      exact h.store_step hok (t := ⟨store, s.added.remove name⟩) (by
        rw [KeyValueStore.handle, hstore]
        rfl)

theorem inv_after {events : List Event} (hrun : Run (guarded Ok (stepOf handle)) newSession events s) : Inv s :=
  hrun.invariant inv_newSession fun _ _ _ ha hstep => inv_step ha hstep.1 hstep.2

/-- **The predicted length is what is written**, after every run whose calls are sound, for
the requests shorter than 2^31; the buffer is then kept exactly if the header fills it or there
is room for the null character behind the body. -/
theorem requestExact_iff {events : List Event} {s : Session}
    (hrun : Run (guarded Ok (stepOf handle)) newSession events s) {u : Bool} (huri : Usable u s.composer) :
    Exact s u ↔ (header u s.composer).length < 2 ^ 31 := by
  have h := inv_after hrun
  constructor
  · exact fun hexact => (length_exact_iff h huri).mp hexact.length
  · intro hsmall
    exact ⟨(length_exact_iff h huri).mpr hsmall, fields_of_key h.store, compose_written h huri hsmall⟩

/-- A request with an entity body of one octet. -/
def postRequest : List Event :=
  [.setMethod .post, .setURI (ascii ['h', 't', 't', 'p', ':', '/', '/', 'h', '/', 'a']) [charNull],
    .setField (ascii ['C', 'o', 'n', 't', 'e', 'n', 't', '-', 'T', 'y', 'p', 'e']) (some [120]) false enough,
    .setField (ascii ['C', 'o', 'n', 't', 'e', 'n', 't', '-', 'L', 'e', 'n', 'g', 't', 'h']) (some [49]) false
      enough]

theorem requestExact_iff_postRequest : ∃ s, Run (guarded Ok (stepOf handle)) newSession postRequest s ∧
    Usable false s.composer ∧ (Exact s false ↔ (header false s.composer).length < 2 ^ 31) := by
  have hrun : (postRequest.foldlM (fun s event => if Ok s event then handle s event else none)
      newSession).map (fun s => s.composer.iRelativeURI) = some [47, 97] := by decide +kernel
  obtain ⟨s, hs, huri⟩ := Option.map_eq_some_iff.mp hrun
  have husable : Usable false s.composer := .inr (by rw [huri]; exact List.cons_ne_nil _ _)
  have hstep := Run.of_foldlM_guarded hs
  exact ⟨s, hstep, husable, requestExact_iff hstep husable⟩

/-- With a buffer of exactly the size of the header and the body, the null character is written
behind the buffer. -/
theorem terminator_outside : ¬∀ events s u, Run (guarded Ok (stepOf handle)) newSession events s →
    Usable u s.composer → ∀ capacity body c b,
    compose (.ofCapacity capacity) u body true s.composer = some (composeSuccess, c, b) →
    ¬b.written.Overrun capacity.toNat := by
  intro h
  have hrun : (postRequest.foldlM (fun s event => if Ok s event then handle s event else none)
      newSession).bind (fun s => (compose (.ofCapacity 65) true 1 true s.composer).map fun r =>
        (r.1, r.2.2.written 65)) = some (composeSuccess, some charNull) := by decide +kernel
  obtain ⟨s, hs, hcompose⟩ := Option.bind_eq_some_iff.mp hrun
  obtain ⟨⟨status, c, b⟩, hr, hpair⟩ := Option.map_eq_some_iff.mp hcompose
  obtain ⟨hstatus, hwritten⟩ := Prod.mk.inj hpair
  simp only at hstatus hwritten
  rw [hstatus] at hr
  refine h postRequest s true (Run.of_foldlM_guarded hs) (.inl rfl) 65 1 c b hr ⟨65, Nat.le_refl _, ?_⟩
  rw [hwritten]
  exact Option.some_ne_none _

end Ftke.HttpComposer
