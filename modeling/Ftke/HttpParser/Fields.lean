import Ftke.HttpParser
import Mathlib.Data.List.Induction

/-!
# Ftke.HttpParser.Fields

The field lines of a header (`parseHeaderFields` in `http_parser.cpp`): from a line the
key up to the colon and the value up to the line end are cut out, blanks are taken off,
and the pair goes to the store.

The functions move a pointer through the memory of a fragment and look at a character
before they look at what is left of the fragment.  A pointer is a place in the memory,
which goes on behind the fragment.  The store is a parameter: any state with
`addKeyValuePairToStore`.
-/

namespace Ftke.HttpParser

abbrev Str := List UInt8

/-! ## Characters -/

def charCR : UInt8 := 13
def charLF : UInt8 := 10
def charColon : UInt8 := 0x3A
def charSpace : UInt8 := 0x20
def charTab : UInt8 := 9

/-- `isLetter`: the minus sign is one. -/
def isLetter (c : UInt8) : Bool := (65 ≤ c && c ≤ 90) || (97 ≤ c && c ≤ 122) || c == 45

def isCRLF (c : UInt8) : Bool := c == charCR || c == charLF

def isBlank (c : UInt8) : Bool := c == charSpace || c == charTab

/-! ## Lines -/

/-- `HTTPMemoryFragment`: `iCapacity` octets of the memory from `iPtr` on. -/
structure Fragment where
  memory : List UInt8
  iLen : Nat
  iCapacity : Nat
  deriving DecidableEq

namespace Fragment

/-- The character at a place. -/
def char (f : Fragment) (ptr : Nat) : UInt8 := f.memory.getD ptr 0

/-- `getAvailableSpace`. -/
def getAvailableSpace (f : Fragment) : Nat := f.iCapacity - f.iLen

/-- `update`. -/
def update (f : Fragment) (ptr : Nat) : Fragment := if ptr > f.iCapacity then f else { f with iLen := ptr }

/-- The octets of an item. -/
def item (f : Fragment) (ptr length : Nat) : Str := (f.memory.drop ptr).take length

/-- The loops `while (p(*ptr) && len > 0)`: where they stop, and what is left. -/
def advance (f : Fragment) (p : UInt8 → Bool) : Nat → Nat → Nat × Nat
  | ptr, 0 => (ptr, 0)
  | ptr, len + 1 => if p (f.char ptr) then f.advance p (ptr + 1) len else (ptr, len + 1)

/-- The loop that goes back over blanks; the place is the one behind the last character. -/
def trim (f : Fragment) : Nat → Nat
  | 0 => 0
  | ptr + 1 => if isBlank (f.char ptr) then f.trim ptr else ptr + 1

/-- The second loop of `saveEndingCRLF`. -/
def endingBits (f : Fragment) : Nat → Nat → UInt8 → UInt8
  | _, 0, aCRLF => aCRLF
  | ptr, len + 1, aCRLF =>
    if f.char ptr = charCR then f.endingBits (ptr + 1) len (aCRLF ||| 2)
    else if f.char ptr = charLF then f.endingBits (ptr + 1) len (aCRLF ||| 1)
    else aCRLF

/-- `saveEndingCRLF`, with `aNeedReset`. -/
def saveEndingCRLF (f : Fragment) (ptr len : Nat) : UInt8 :=
  let (ptr, len) := f.advance (fun c => !isCRLF c) ptr len
  f.endingBits ptr len 0

/-- The second character of a line end is passed over. -/
def passCRLF (f : Fragment) (ptr len : Nat) : Nat := if len > 0 ∧ isCRLF (f.char (ptr + 1)) then ptr + 1 else ptr

/-- `getLineStartPoint`: the return value, the place and what is left from it, and `iPrevCRLF`. -/
def getLineStartPoint (f : Fragment) (ptr len : Nat) (isKeyItem : Bool) (iPrevCRLF : UInt8) :
    Int × Nat × Nat × UInt8 :=
  if isKeyItem then
    let (start, left) := f.advance (fun c => !isLetter c && !isCRLF c) ptr len
    let iPrevCRLF := if start = ptr then iPrevCRLF else 0
    if isCRLF (f.char start) then
      let currCRLF := f.saveEndingCRLF start left
      if iPrevCRLF = 0 then (2, f.passCRLF start left, left, currCRLF)
      else if iPrevCRLF &&& currCRLF ≠ 0 then (1, f.passCRLF start left, left, iPrevCRLF)
      else (2, f.passCRLF start left, left, currCRLF)
    else (0, start, left, iPrevCRLF)
  else
    let (start, left) := f.advance isBlank ptr len
    (0, start, left, iPrevCRLF)

/-- `parseNextValueItem`: the return value if it is not 0, or the item's place and length; the
fragment, and `iPrevCRLF`. -/
def parseNextValueItem (f : Fragment) (isKeyItem : Bool) (iPrevCRLF : UInt8) :
    Except Int (Nat × Nat) × Fragment × UInt8 :=
  let (status, valueItemPtr, len, iPrevCRLF) :=
    f.getLineStartPoint f.iLen f.getAvailableSpace isKeyItem iPrevCRLF
  if status = 2 then (.error status, f, iPrevCRLF)
  else if status = 1 then (.error 1, f.update valueItemPtr, iPrevCRLF)
  else
    let (end_ptr, len) :=
      f.advance (fun c => if isKeyItem then c != charColon else !isCRLF c) valueItemPtr len
    if len = 0 then (.error (-1), f, iPrevCRLF)
    else
      let ptr := f.trim end_ptr
      -- a last character that is the first one gives no length
      let valueItemLength := if ptr > valueItemPtr + 1 then ptr - valueItemPtr else 0
      if isKeyItem then (.ok (valueItemPtr, valueItemLength), f.update (end_ptr + 1), iPrevCRLF)
      else (.ok (valueItemPtr, valueItemLength), f.update (f.passCRLF end_ptr len), f.saveEndingCRLF end_ptr len)

end Fragment

section
variable {σ : Type} (addKeyValuePairToStore : Str → Str → Bool → σ → Code × σ)

/-- `parseHeaderFields`, with `getNextFieldKeyValuePair`: the return code and the store; the
fragment, and `iPrevCRLF`. -/
def parseHeaderFields (aInputLineData : Fragment) (aReplaceOldValue : Bool) (iPrevCRLF : UInt8) (store : σ) :
    (Code × σ) × Fragment × UInt8 :=
  match aInputLineData.parseNextValueItem true iPrevCRLF with
  | (.error status, f, iPrevCRLF) =>
    ((if status = 1 then .headerAvailable else if status < 0 then .syntaxError else .success, store), f, iPrevCRLF)
  | (.ok (fieldKey, fieldKeyLength), f, iPrevCRLF) =>
    match f.parseNextValueItem false iPrevCRLF with
    | (.error status, f, iPrevCRLF) =>
      ((if status = 1 then .headerAvailable else if status < 0 then .syntaxError else .success, store),
        f, iPrevCRLF)
    | (.ok (fieldValue, fieldValueLength), f, iPrevCRLF) =>
      if fieldKeyLength = 0 then ((.success, store), f, iPrevCRLF)
      else
        let value := if fieldValueLength = 0 then [charSpace] else f.item fieldValue fieldValueLength
        (addKeyValuePairToStore (f.item fieldKey fieldKeyLength) value aReplaceOldValue store, f, iPrevCRLF)

end

/-! ## The loops -/

namespace Fragment

variable {f : Fragment} {p : UInt8 → Bool}

theorem char_append {before after : List UInt8} {c : UInt8} (h : f.memory = before ++ c :: after) :
    f.char before.length = c := by
  rw [char, h, List.getD_eq_getElem?_getD, List.getElem?_append_right (Nat.le_refl _), Nat.sub_self]
  rfl

theorem char_zero {after : List UInt8} {c : UInt8} (h : f.memory = c :: after) : f.char 0 = c := by
  rw [char, h]
  rfl

theorem advance_stop {ptr : Nat} (h : p (f.char ptr) = false) (len : Nat) :
    f.advance p ptr len = (ptr, len) := by
  cases len with
  | zero => rfl
  | succ len => rw [advance, h, if_neg Bool.false_ne_true]

/-- **A loop** stops behind the characters it passes over. -/
theorem advance_append : ∀ {before passed after : List UInt8} {c : UInt8} {left : Nat},
    f.memory = before ++ (passed ++ c :: after) → (∀ d ∈ passed, p d = true) → p c = false →
      f.advance p before.length (passed.length + (left + 1)) = ((before ++ passed).length, left + 1)
  | before, [], after, c, left, hmem, _, hstop => by
    rw [List.append_nil, List.length_nil, Nat.zero_add, advance, char_append hmem, hstop]
    rfl
  | before, d :: passed, after, c, left, hmem, hpass, hstop => by
    have hd : p d = true := hpass d List.mem_cons_self
    have hmem' : f.memory = (before ++ [d]) ++ (passed ++ c :: after) := by simp [hmem]
    have hrest : f.advance p (before ++ [d]).length (passed.length + (left + 1)) =
        (((before ++ [d]) ++ passed).length, left + 1) :=
      advance_append hmem' (fun e he => hpass e (List.mem_cons_of_mem _ he)) hstop
    rw [List.length_cons, Nat.succ_add, advance, char_append (by rw [hmem]; rfl), if_pos hd]
    simp only [List.length_append, List.length_cons, List.length_nil, Nat.zero_add] at hrest ⊢
    rw [hrest]
    simp only [Prod.mk.injEq, and_true]
    omega

theorem trim_append : ∀ {before blanks after : List UInt8} {c : UInt8},
    f.memory = before ++ c :: (blanks ++ after) → isBlank c = false → (∀ d ∈ blanks, isBlank d = true) →
      f.trim (before.length + 1 + blanks.length) = before.length + 1 := by
  intro before blanks
  induction blanks using List.reverseRecOn with
  | nil =>
    intro after c hmem hc _
    rw [List.length_nil, Nat.add_zero, trim, char_append hmem, hc]
    rfl
  | append_singleton blanks d ih =>
    intro after c hmem hc hblank
    have hd : isBlank d = true := hblank d (by simp)
    have hchar : f.char (before.length + 1 + blanks.length) = d := by
      have hmem' : f.memory = (before ++ c :: blanks) ++ d :: after := by simp [hmem]
      have h := char_append hmem'
      rw [List.length_append, List.length_cons] at h
      rw [← h]
      congr 1
      omega
    rw [List.length_append, List.length_singleton, ← Nat.add_assoc, trim, hchar, if_pos hd]
    have hmem' : f.memory = before ++ c :: (blanks ++ d :: after) := by
      rw [hmem, List.append_assoc]
      rfl
    exact ih hmem' hc fun e he => hblank e (List.mem_append_left _ he)

end Fragment

/-! ## A line -/

/-- A key: letters and minus signs. -/
def IsKey (key : Str) : Prop := key ≠ [] ∧ ∀ c ∈ key, isLetter c = true

/-- A value: no line end and no zero in it, and no blank at either end. -/
def IsValue (value : Str) : Prop :=
  value ≠ [] ∧ (∀ c ∈ value, isCRLF c = false ∧ c ≠ 0) ∧
    value.head?.all (fun c => !isBlank c) = true ∧ value.getLast?.all (fun c => !isBlank c) = true

/-- Blanks. -/
def Blanks (blanks : Str) : Prop := ∀ c ∈ blanks, isBlank c = true

/-- A field line, with blanks around the value. -/
def fieldLine (key before value after : Str) : Str :=
  key ++ charColon :: (before ++ (value ++ (after ++ [charCR, charLF])))

/-- A line in the memory. -/
def lineFragment (line rest : Str) : Fragment := ⟨line ++ rest, 0, line.length⟩

theorem isCRLF_of_isBlank {c : UInt8} (h : isBlank c = true) : isCRLF c = false := by
  rw [isBlank, Bool.or_eq_true, beq_iff_eq, beq_iff_eq] at h
  rcases h with rfl | rfl <;> rfl

theorem isBlank_of_isLetter {c : UInt8} (h : isLetter c = true) : isBlank c = false := by
  rw [Bool.eq_false_iff, ne_eq, isBlank, Bool.or_eq_true, beq_iff_eq, beq_iff_eq]
  rintro (rfl | rfl) <;> exact absurd h (by decide)

theorem ne_colon_of_isLetter {c : UInt8} (h : isLetter c = true) : c ≠ charColon := by
  rintro rfl
  exact absurd h (by decide)

theorem isCRLF_of_isLetter {c : UInt8} (h : isLetter c = true) : isCRLF c = false := by
  rw [Bool.eq_false_iff, ne_eq, isCRLF, Bool.or_eq_true, beq_iff_eq, beq_iff_eq]
  rintro (rfl | rfl) <;> exact absurd h (by decide)

theorem getLineStartPoint_key {f : Fragment} {ptr : Nat} (h : isLetter (f.char ptr) = true) (len : Nat)
    (iPrevCRLF : UInt8) : f.getLineStartPoint ptr len true iPrevCRLF = (0, ptr, len, iPrevCRLF) := by
  have hstop : f.advance (fun c => !isLetter c && !isCRLF c) ptr len = (ptr, len) :=
    Fragment.advance_stop (by rw [h]; rfl) len
  rw [Fragment.getLineStartPoint, if_pos rfl, hstop]
  simp only [isCRLF_of_isLetter h, if_true, Bool.false_eq_true, if_false]

section
variable {key before value after : Str} {rest : Str}

theorem parse_key (hkey : IsKey key) (iPrevCRLF : UInt8) {f : Fragment} {tail : Str} {left : Nat}
    (hmem : f.memory = key ++ charColon :: tail) (hiLen : f.iLen = 0)
    (hcap : f.iCapacity = key.length + (left + 1)) :
    f.parseNextValueItem true iPrevCRLF =
      (.ok (0, if 1 < key.length then key.length else 0), { f with iLen := key.length + 1 }, iPrevCRLF) := by
  obtain ⟨hne, hletters⟩ := hkey
  obtain ⟨init, last, rfl⟩ : ∃ init last, key = init ++ [last] :=
    ⟨key.dropLast, key.getLast hne, (List.dropLast_append_getLast hne).symm⟩
  have hfirst : isLetter (f.char 0) = true := by
    cases init with
    | nil =>
      rw [Fragment.char_zero hmem]
      exact hletters last (by simp)
    | cons c init =>
      rw [Fragment.char_zero hmem]
      exact hletters c List.mem_cons_self
  have hcolon : f.advance (fun c => c != charColon) 0 f.iCapacity = ((init ++ [last]).length, left + 1) := by
    rw [hcap]
    exact Fragment.advance_append (show f.memory = [] ++ _ from hmem)
      (fun c hc => by simpa using ne_colon_of_isLetter (hletters c hc)) (by simp)
  have htrim : f.trim (init ++ [last]).length = (init ++ [last]).length := by
    have hmem' : f.memory = init ++ last :: ([] ++ charColon :: tail) := by simp [hmem]
    have h := Fragment.trim_append hmem' (isBlank_of_isLetter (hletters last (by simp))) (by simp)
    simpa using h
  have hupdate : f.update ((init ++ [last]).length + 1) = { f with iLen := (init ++ [last]).length + 1 } := by
    rw [Fragment.update, if_neg (by omega)]
  rw [Fragment.parseNextValueItem, Fragment.getAvailableSpace, hiLen, Nat.sub_zero,
    getLineStartPoint_key hfirst]
  simp only [if_true, hcolon, htrim, hupdate, Nat.succ_ne_zero, if_false, Nat.zero_add, Nat.sub_zero]
  rfl

theorem parse_value (hvalue : IsValue value) (hbefore : Blanks before) (hafter : Blanks after)
    (iPrevCRLF : UInt8) {f : Fragment} {head : Str}
    (hmem : f.memory = head ++ (before ++ (value ++ (after ++ charCR :: charLF :: rest))))
    (hiLen : f.iLen = head.length)
    (hcap : f.iCapacity = head.length + (before.length + (value.length + (after.length + 2)))) :
    ∃ g bits, f.parseNextValueItem false iPrevCRLF =
      (.ok ((head ++ before).length, if 1 < value.length then value.length else 0), g, bits) ∧
      g.memory = f.memory := by
  obtain ⟨hne, hchars, hhead, hlast⟩ := hvalue
  have hblanks : f.advance isBlank f.iLen f.getAvailableSpace =
      ((head ++ before).length, value.length + (after.length + 2)) := by
    rw [hiLen, Fragment.getAvailableSpace, hiLen, hcap, Nat.add_sub_cancel_left]
    cases value with
    | nil => exact absurd rfl hne
    | cons c value =>
      rw [List.length_cons, Nat.add_right_comm]
      exact Fragment.advance_append hmem hbefore (by simpa using hhead)
  have hend : f.advance (fun c => !isCRLF c) (head ++ before).length (value.length + (after.length + 2)) =
      ((head ++ before ++ (value ++ after)).length, 2) := by
    have hmem' : f.memory = (head ++ before) ++ ((value ++ after) ++ charCR :: charLF :: rest) := by
      simp [hmem]
    rw [← Nat.add_assoc, ← List.length_append]
    refine Fragment.advance_append hmem' (fun c hc => ?_) rfl
    rcases List.mem_append.mp hc with hc | hc
    · rw [(hchars c hc).1]
      rfl
    · rw [isCRLF_of_isBlank (hafter c hc)]
      rfl
  obtain ⟨init, last, rfl⟩ : ∃ init last, value = init ++ [last] :=
    ⟨value.dropLast, value.getLast hne, (List.dropLast_append_getLast hne).symm⟩
  have htrim : f.trim (head ++ before ++ (init ++ [last] ++ after)).length =
      (head ++ before).length + (init ++ [last]).length := by
    have hmem' : f.memory = (head ++ before ++ init) ++ last :: (after ++ charCR :: charLF :: rest) := by
      simp [hmem]
    have h := Fragment.trim_append hmem' (by simpa using hlast) hafter
    have hplace : (head ++ before ++ (init ++ [last] ++ after)).length =
        (head ++ before ++ init).length + 1 + after.length := by simp; omega
    rw [hplace, h]
    simp
    omega
  refine ⟨f.update (f.passCRLF (head ++ before ++ (init ++ [last] ++ after)).length 2),
    f.saveEndingCRLF (head ++ before ++ (init ++ [last] ++ after)).length 2, ?_, ?_⟩
  · rw [Fragment.parseNextValueItem, Fragment.getLineStartPoint]
    simp only [Bool.false_eq_true, if_false, hblanks, hend, htrim, gt_iff_lt, Nat.add_lt_add_iff_left,
      Nat.add_sub_cancel_left]
    rfl
  · rw [Fragment.update]
    split <;> rfl

/-- **What a field line adds to the store**: nothing for a key of one letter, a space for a
value of one character, and the pair otherwise. -/
theorem parseHeaderFields_fieldLine {σ : Type} (add : Str → Str → Bool → σ → Code × σ) (hkey : IsKey key)
    (hvalue : IsValue value) (hbefore : Blanks before) (hafter : Blanks after) (replace : Bool)
    (iPrevCRLF : UInt8) (store : σ) :
    (parseHeaderFields add (lineFragment (fieldLine key before value after) rest) replace iPrevCRLF store).1 =
      if key.length = 1 then (.success, store)
      else add key (if value.length = 1 then [charSpace] else value) replace store := by
  have hkeypos : 0 < key.length := List.length_pos_iff.mpr hkey.1
  have hvaluepos : 0 < value.length := List.length_pos_iff.mpr hvalue.1
  have hlen : (fieldLine key before value after).length =
      key.length + ((before.length + (value.length + (after.length + 2))) + 1) := by
    simp [fieldLine]
  have hmem : (lineFragment (fieldLine key before value after) rest).memory =
      key ++ charColon :: (before ++ (value ++ (after ++ charCR :: charLF :: rest))) := by
    simp [lineFragment, fieldLine]
  have hmem' : (lineFragment (fieldLine key before value after) rest).memory =
      (key ++ [charColon]) ++ (before ++ (value ++ (after ++ charCR :: charLF :: rest))) := by
    rw [hmem]
    simp
  have hcap : (fieldLine key before value after).length =
      (key ++ [charColon]).length + (before.length + (value.length + (after.length + 2))) := by
    rw [hlen, List.length_append, List.length_singleton]
    omega
  obtain ⟨g, bits, hparse, hgmem⟩ : ∃ g bits,
      Fragment.parseNextValueItem { lineFragment (fieldLine key before value after) rest with
        iLen := key.length + 1 } false iPrevCRLF =
        (.ok ((key ++ [charColon] ++ before).length, if 1 < value.length then value.length else 0), g, bits) ∧
        g.memory = (lineFragment (fieldLine key before value after) rest).memory :=
    parse_value hvalue hbefore hafter iPrevCRLF hmem' (by simp) hcap
  rw [parseHeaderFields, parse_key hkey iPrevCRLF hmem rfl hlen]
  simp only [hparse]
  by_cases hone : key.length = 1
  · rw [if_pos hone, hone]
    rfl
  · have hkeylong : 1 < key.length := by omega
    rw [if_neg hone, if_pos hkeylong, if_neg (by omega)]
    have hitem : g.item 0 key.length = key := by
      rw [Fragment.item, hgmem, hmem]
      simp
    rw [hitem]
    by_cases hshort : value.length = 1
    · rw [if_pos hshort, hshort]
      rfl
    · have hlong : 1 < value.length := by omega
      have hitem' : g.item (key ++ [charColon] ++ before).length value.length = value := by
        rw [Fragment.item, hgmem, hmem]
        simp
      rw [if_neg hshort, if_pos hlong, if_neg (by omega), hitem']

/-- **A field line adds exactly its pair** if and only if neither the key nor the value is a
single character. -/
theorem addsPair_iff (hkey : IsKey key) (hvalue : IsValue value) (hbefore : Blanks before)
    (hafter : Blanks after) (replace : Bool) (iPrevCRLF : UInt8) :
    (∀ (σ : Type) (add : Str → Str → Bool → σ → Code × σ) (store : σ),
      (parseHeaderFields add (lineFragment (fieldLine key before value after) rest) replace iPrevCRLF
        store).1 = add key value replace store) ↔ 2 ≤ key.length ∧ 2 ≤ value.length := by
  have hkeypos : 0 < key.length := List.length_pos_iff.mpr hkey.1
  have hvaluepos : 0 < value.length := List.length_pos_iff.mpr hvalue.1
  constructor
  · intro h
    -- a store that takes this pair, and no other
    have hadd := h Unit (fun _ v _ _ => (if v = value then .needMoreData else .generalError, ())) ()
    rw [parseHeaderFields_fieldLine _ hkey hvalue hbefore hafter] at hadd
    rw [if_pos rfl] at hadd
    by_cases hone : key.length = 1
    · rw [if_pos hone] at hadd
      simp at hadd
    · rw [if_neg hone] at hadd
      by_cases hshort : value.length = 1
      · obtain ⟨c, rfl⟩ := List.length_eq_one_iff.mp hshort
        have hspace : [charSpace] ≠ [c] := by
          rintro ⟨rfl⟩
          exact absurd hvalue.2.2.1 (by decide)
        rw [if_pos hshort, if_neg hspace] at hadd
        simp at hadd
      · omega
  · rintro ⟨hk, hv⟩ σ add store
    rw [parseHeaderFields_fieldLine add hkey hvalue hbefore hafter, if_neg (by omega), if_neg (by omega)]

theorem isKey_age : IsKey [0x41, 0x67, 0x65] := ⟨by simp, by simp [isLetter]⟩

theorem blanks_space : Blanks [charSpace] := by simp [Blanks, isBlank]

theorem blanks_nil : Blanks [] := by simp [Blanks]

/-- `Age: 10`. -/
theorem addsPair_age : 2 ≤ 3 ∧ 2 ≤ 2 ∧ ∀ (σ : Type) (add : Str → Str → Bool → σ → Code × σ) (store : σ),
    (parseHeaderFields add (lineFragment (fieldLine [0x41, 0x67, 0x65] [charSpace] [0x31, 0x30] []) []) false 0
      store).1 = add [0x41, 0x67, 0x65] [0x31, 0x30] false store :=
  ⟨by decide, by decide, (addsPair_iff isKey_age
    ⟨by simp, by simp [isCRLF, charCR, charLF], by simp [isBlank, charSpace, charTab],
      by simp [isBlank, charSpace, charTab]⟩ blanks_space blanks_nil false 0).mpr ⟨by decide, by decide⟩⟩

/-- `Age: 5` is stored as `Age` with a space. -/
theorem value_of_one : ¬ ∀ (key before value after rest : Str) (replace : Bool) (iPrevCRLF : UInt8) (σ : Type)
    (add : Str → Str → Bool → σ → Code × σ) (store : σ), IsKey key → IsValue value → Blanks before →
    Blanks after →
    (parseHeaderFields add (lineFragment (fieldLine key before value after) rest) replace iPrevCRLF
      store).1 = add key value replace store := by
  intro h
  have hadd := h [0x41, 0x67, 0x65] [charSpace] [0x35] [] [] false 0 (List Str)
    (fun _ value _ store => (.success, store ++ [value])) [] isKey_age
    ⟨by simp, by simp [isCRLF, charCR, charLF], by simp [isBlank, charSpace, charTab],
      by simp [isBlank, charSpace, charTab]⟩ blanks_space blanks_nil
  exact absurd hadd (by decide)

end

end Ftke.HttpParser
