import Ftke.Multiplex.Expansion
import Ftke.MultiplexEntry

/-!
# Ftke.MultiplexEntry.Carried

What a multiplex table entry can carry for a logical channel, and the entries for
which `FindLcns` files just that.

A channel has, for each of its occurrences, the product of the repeat counts on the
way to it, where "until closing flag" is from once to as often as there is room.
`Regular` is the condition: no channel is filed over another slot, no channel stands
by itself until the closing flag, and what is left of the MUX-PDU is known where a
sublist is to fill it.
-/

namespace Ftke.MultiplexEntry

open Ftke.Multiplex

/-! ## The meaning of an entry -/

/-- How often a sublist of `size` bytes is carried at the least, and at the most when
`remaining` bytes are left. -/
def leastRounds : RepeatCount → Nat
  | .finite count => count.toNat
  | .untilClosingFlag => 1

def mostRounds (remaining : Int) (size : Nat) : RepeatCount → Nat
  | .finite count => count.toNat
  | .untilClosingFlag => remaining.toNat / size

mutual

/-- The bytes of an element when `remaining` bytes are left for it. -/
def elementSize (remaining : Int) : MultiplexElement → Nat
  | .logicalChannelNumber _ repeatCount => mostRounds remaining 1 repeatCount
  | .subElementList elements repeatCount =>
    mostRounds remaining (entrySize remaining elements) repeatCount * entrySize remaining elements
termination_by structural element => element

def entrySize (remaining : Int) : List MultiplexElement → Nat
  | [] => 0
  | element :: rest =>
    elementSize remaining element + entrySize (remaining - elementSize remaining element) rest
termination_by structural elements => elements

end

mutual

/-- The channels of an element. -/
def elementChannels : MultiplexElement → List UInt16
  | .logicalChannelNumber lcn _ => [lcn]
  | .subElementList elements _ => entryChannels elements
termination_by structural element => element

def entryChannels : List MultiplexElement → List UInt16
  | [] => []
  | element :: rest => elementChannels element ++ entryChannels rest
termination_by structural elements => elements

end

section
variable (lcn : UInt16)

mutual

/-- The least that an element carries for a channel. -/
def elementMin : MultiplexElement → Nat
  | .logicalChannelNumber lcn' repeatCount => if lcn' = lcn then leastRounds repeatCount else 0
  | .subElementList elements repeatCount => leastRounds repeatCount * entryMin elements
termination_by structural element => element

def entryMin : List MultiplexElement → Nat
  | [] => 0
  | element :: rest => elementMin element + entryMin rest
termination_by structural elements => elements

end

mutual

/-- The most that an element carries for a channel when `remaining` bytes are left. -/
def elementMax (remaining : Int) : MultiplexElement → Nat
  | .logicalChannelNumber lcn' repeatCount => if lcn' = lcn then mostRounds remaining 1 repeatCount else 0
  | .subElementList elements repeatCount =>
    mostRounds remaining (entrySize remaining elements) repeatCount * entryMax remaining elements
termination_by structural element => element

def entryMax (remaining : Int) : List MultiplexElement → Nat
  | [] => 0
  | element :: rest => elementMax remaining element + entryMax (remaining - elementSize remaining element) rest
termination_by structural elements => elements

end

end

/-- The slot that an entry ought to have for a channel. -/
def slot (remaining : Int) (elements : List MultiplexElement) (lcn : UInt16) : Option Slot :=
  if lcn ∈ entryChannels elements then some ⟨lcn, entryMin lcn elements, entryMax lcn remaining elements⟩
  else none

/-- `FindLcns` files the slots that the entry ought to have, and `FindLcn` accepts, of
the sizes that are not zero, those between their bounds. -/
def Carries (elements : List MultiplexElement) (maxPduSize : Nat) : Prop :=
  ∃ iLcns, constructL elements maxPduSize = some iLcns ∧
    ∀ lcn, iLcns.lookup lcn = slot maxPduSize elements lcn ∧
      ∀ len, len ≠ 0 → ((findLcn iLcns lcn len).isSome ↔ lcn ∈ entryChannels elements ∧
        entryMin lcn elements ≤ len ∧ len ≤ entryMax lcn maxPduSize elements)

/-! ## Regular entries -/

/-- No sublist stands behind bytes. -/
def Straight (remaining : Int) (elements : List MultiplexElement) : Prop :=
  ∀ before sub repeatCount after, elements = before ++ .subElementList sub repeatCount :: after →
    entrySize remaining before = 0

/-- The size of a list is an `int`, and what it carries at the least an `unsigned`. -/
def Bounded (remaining : Int) (elements : List MultiplexElement) : Prop :=
  entrySize remaining elements < 2 ^ 31 ∧ ∀ lcn ∈ entryChannels elements, entryMin lcn elements < 2 ^ 32

mutual

/-- An element, behind `before` in its list, is filed as it ought to be.  `iLcns` are
the channels filed in the object when the list is that of a sublist; `straight` says
that `remaining`, at the start of the list, is what the source has. -/
def RegularElement (iLcns : Option (List UInt16)) (straight : Prop) (remaining : Int)
    (before : List MultiplexElement) : MultiplexElement → Prop
  | .logicalChannelNumber lcn repeatCount =>
    repeatCount ≠ .untilClosingFlag ∧ lcn ∉ entryChannels before
  | .subElementList elements repeatCount =>
    Bounded (remaining - entrySize remaining before) elements ∧
      RegularList (some (iLcns.getD (entryChannels before))) (straight ∧ Straight remaining before)
        (remaining - entrySize remaining before) [] elements ∧
      (∀ filed ∈ iLcns, ∀ lcn ∈ entryChannels elements, lcn ∉ entryChannels before ∧ lcn ∉ filed) ∧
      (repeatCount = .untilClosingFlag →
        (straight ∧ Straight remaining before) ∧ entrySize remaining before ≤ remaining ∧
          entrySize (remaining - entrySize remaining before) elements ≠ 0)
termination_by structural element => element

def RegularList (iLcns : Option (List UInt16)) (straight : Prop) (remaining : Int) :
    List MultiplexElement → List MultiplexElement → Prop
  | _, [] => True
  | before, element :: rest =>
    RegularElement iLcns straight remaining before element ∧
      RegularList iLcns straight remaining (before ++ [element]) rest
termination_by structural _ elements => elements

end

/-- The entries for which `FindLcns` is right. -/
def Regular (elements : List MultiplexElement) (maxPduSize : Nat) : Prop :=
  maxPduSize < 2 ^ 31 ∧ Bounded maxPduSize elements ∧ RegularList none True maxPduSize [] elements ∧
    ∀ lcn ∈ entryChannels elements, entryMax lcn maxPduSize elements ≠ 0

/-! ## Lists one behind the other -/

theorem entrySize_append (remaining : Int) (before after : List MultiplexElement) :
    entrySize remaining (before ++ after) =
      entrySize remaining before + entrySize (remaining - entrySize remaining before) after := by
  induction before generalizing remaining with
  | nil => simp [entrySize]
  | cons element before ih =>
    rw [List.cons_append, entrySize, entrySize, ih, Nat.cast_add, ← Int.sub_sub, Nat.add_assoc]

theorem entryChannels_append (before after : List MultiplexElement) :
    entryChannels (before ++ after) = entryChannels before ++ entryChannels after := by
  induction before with
  | nil => rfl
  | cons element before ih => rw [List.cons_append, entryChannels, entryChannels, ih, List.append_assoc]

theorem entryMin_append (lcn : UInt16) (before after : List MultiplexElement) :
    entryMin lcn (before ++ after) = entryMin lcn before + entryMin lcn after := by
  induction before with
  | nil => simp [entryMin]
  | cons element before ih => rw [List.cons_append, entryMin, entryMin, ih, Nat.add_assoc]

theorem entryMax_append (lcn : UInt16) (remaining : Int) (before after : List MultiplexElement) :
    entryMax lcn remaining (before ++ after) =
      entryMax lcn remaining before + entryMax lcn (remaining - entrySize remaining before) after := by
  induction before generalizing remaining with
  | nil => simp [entryMax, entrySize]
  | cons element before ih =>
    rw [List.cons_append, entryMax, entryMax, entrySize, ih, Nat.cast_add, ← Int.sub_sub, Nat.add_assoc]

theorem absent_entry {lcn : UInt16} (elements : List MultiplexElement) (remaining : Int)
    (h : lcn ∉ entryChannels elements) : entryMin lcn elements = 0 ∧ entryMax lcn remaining elements = 0 := by
  induction elements using elements_induction generalizing remaining with
  | nil => exact ⟨rfl, rfl⟩
  | channel lcn' repeatCount rest ih =>
    simp only [entryChannels, elementChannels, List.cons_append, List.nil_append, List.mem_cons, not_or] at h
    have hrest := ih (remaining - elementSize remaining (.logicalChannelNumber lcn' repeatCount)) h.2
    rw [entryMin, entryMax, elementMin, elementMax, if_neg (Ne.symm h.1), if_neg (Ne.symm h.1), hrest.1, hrest.2]
    exact ⟨rfl, rfl⟩
  | sub elements repeatCount rest ih ihrest =>
    simp only [entryChannels, elementChannels, List.mem_append, not_or] at h
    have hsub := ih remaining h.1
    have hrest := ihrest (remaining - elementSize remaining (.subElementList elements repeatCount)) h.2
    rw [entryMin, entryMax, elementMin, elementMax, hsub.1, hsub.2, hrest.1, hrest.2]
    exact ⟨rfl, rfl⟩

theorem entryMax_le_entrySize (lcn : UInt16) (elements : List MultiplexElement) (remaining : Int) :
    entryMax lcn remaining elements ≤ entrySize remaining elements := by
  induction elements using elements_induction generalizing remaining with
  | nil => exact Nat.le_refl 0
  | channel lcn' repeatCount rest ih =>
    rw [entryMax, entrySize, elementMax, elementSize]
    have hrest := ih (remaining - mostRounds remaining 1 repeatCount)
    split <;> omega
  | sub elements repeatCount rest ih ihrest =>
    rw [entryMax, entrySize, elementMax, elementSize]
    exact Nat.add_le_add (Nat.mul_le_mul_left _ (ih remaining)) (ihrest _)

variable {remaining : Int}

theorem bounded_append {before after : List MultiplexElement}
    (h : Bounded remaining (before ++ after)) : Bounded remaining before := by
  have hsize := h.1
  rw [entrySize_append] at hsize
  refine ⟨by omega, fun lcn hlcn => ?_⟩
  have hmin := h.2 lcn (by rw [entryChannels_append]; exact List.mem_append_left _ hlcn)
  rw [entryMin_append] at hmin
  omega

variable {before elements : List MultiplexElement}

theorem straight_snoc {element : MultiplexElement}
    (h : Straight remaining (before ++ [element])) : Straight remaining before := by
  intro pre sub repeatCount post heq
  exact h pre sub repeatCount (post ++ [element]) (by rw [heq, List.append_assoc, List.cons_append])

/-! ## What FindLcns has filed -/

/-- Behind `before`, what has been found is what `before` ought to have. -/
structure Agrees (straight : Prop) (remaining : Int) (before : List MultiplexElement) (found : Found) :
    Prop where
  size : found.subelementSize = entrySize remaining before
  slots : ∀ lcn, found.lcns.lookup lcn = slot remaining before lcn
  left : straight → Straight remaining before → entrySize remaining before ≤ remaining →
    found.maxPduSize = remaining - entrySize remaining before

/-- The channels of the object's own list. -/
inductive Filed : Option SlotList → Option (List UInt16) → Prop
  | own : Filed none none
  | other {iLcns : SlotList} {filed : List UInt16} (h : ∀ lcn, lcn ∉ filed → iLcns.lookup lcn = none) :
      Filed (some iLcns) (some filed)

/-! ## Merging slots -/

theorem unsigned_of_lt {n : Nat} (h : n < 2 ^ 32) : unsigned n = n := by
  rw [unsigned]
  omega

theorem int_of_lt {x : Int} (hneg : 0 ≤ x) (h : x < 2 ^ 31) : int x = x := by
  simp only [int, Int.bmod]
  split <;> omega

/-- What a slot becomes. -/
def merged (rcMin rcMax : Nat) (filed slot : Slot) : Slot :=
  ⟨slot.lcn, unsigned (filed.minSize + unsigned (slot.minSize * rcMin)),
    unsigned (filed.maxSize + unsigned (slot.maxSize * rcMax))⟩

theorem findLcn_zero (iLcns : SlotList) (lcn : UInt16) :
    findLcn iLcns lcn 0 = (iLcns.lookup lcn).filter fun slot => slot.lcn = lcn := by
  rw [findLcn]
  cases iLcns.lookup lcn <;> simp [Slot.isFit, Option.filter]

theorem mergeSlot_lookup (iLcns : Option SlotList) (rcMin rcMax : Nat) (lcns : SlotList) (slot : Slot)
    (lcn : UInt16) : (mergeSlot iLcns rcMin rcMax lcns slot).lookup lcn =
      if lcn = slot.lcn then
        some (merged rcMin rcMax ((findLcn (iLcns.getD lcns) slot.lcn 0).getD ⟨0, 0, 0⟩) slot)
      else lcns.lookup lcn := by
  rw [mergeSlot]
  by_cases hlcn : lcn = slot.lcn
  · rw [if_pos hlcn, hlcn, AList.lookup_insert, merged]
  · rw [if_neg hlcn, AList.lookup_insert_ne hlcn]
    split
    · rw [SlotList.insertNew]
      split
      · rfl
      · rw [AList.lookup_insert_ne hlcn]
    · rfl

theorem foldl_mergeSlot_lookup (iLcns : Option SlotList) (rcMin rcMax : Nat)
    (entries : List (Sigma fun _ : UInt16 => Slot)) (lcns : SlotList) (lcn : UInt16)
    (hkeys : entries.NodupKeys) (hlcn : ∀ entry ∈ entries, entry.2.lcn = entry.1) :
    ((entries.map (·.2)).foldl (mergeSlot iLcns rcMin rcMax) lcns).lookup lcn =
      match entries.dlookup lcn with
      | some slot => some (merged rcMin rcMax ((findLcn (iLcns.getD lcns) lcn 0).getD ⟨0, 0, 0⟩) slot)
      | none => lcns.lookup lcn := by
  induction entries generalizing lcns with
  | nil => rfl
  | cons entry entries ih =>
    obtain ⟨key, slot⟩ := entry
    rw [List.nodupKeys_cons] at hkeys
    have hslot : slot.lcn = key := hlcn ⟨key, slot⟩ List.mem_cons_self
    rw [List.map_cons, List.foldl_cons, ih _ hkeys.2 fun e he => hlcn e (List.mem_cons_of_mem _ he)]
    by_cases heq : lcn = key
    · have hnone : entries.dlookup lcn = none := by
        rw [List.dlookup_eq_none, heq]
        exact hkeys.1
      rw [hnone, heq, List.dlookup_cons_eq, mergeSlot_lookup, hslot, if_pos rfl]
    · have hkept : (mergeSlot iLcns rcMin rcMax lcns slot).lookup lcn = lcns.lookup lcn := by
        rw [mergeSlot_lookup, hslot, if_neg heq]
      have hfound : findLcn (iLcns.getD (mergeSlot iLcns rcMin rcMax lcns slot)) lcn 0 =
          findLcn (iLcns.getD lcns) lcn 0 := by
        cases iLcns with
        | none => rw [Option.getD_none, Option.getD_none, findLcn_zero, findLcn_zero, hkept]
        | some iLcns => rfl
      rw [List.dlookup_cons_ne _ _ heq, hkept, hfound]

theorem repeatCounts_eq {maxPduSize remaining : Int} {size : Nat} (repeatCount : RepeatCount)
    (hfit : remaining < 2 ^ 31)
    (h : repeatCount = .untilClosingFlag → maxPduSize = remaining ∧ 0 ≤ remaining ∧ size ≠ 0) :
    repeatCounts maxPduSize size repeatCount =
      some (leastRounds repeatCount, mostRounds remaining size repeatCount) := by
  cases repeatCount with
  | finite count => rfl
  | untilClosingFlag =>
    obtain ⟨hmax, hremaining, hsize⟩ := h rfl
    obtain ⟨r, rfl⟩ := Int.eq_ofNat_of_zero_le hremaining
    have hdiv : r / size ≤ r := Nat.div_le_self r size
    have hcount : unsigned ((r : Int).tdiv size) = r / size := by
      rw [← Int.ofNat_tdiv]
      exact unsigned_of_lt (by omega)
    rw [repeatCounts, if_neg (by omega), hmax, hcount]
    rfl

/-! ## A turn -/

variable {filed : Option (List UInt16)}

theorem insertChannel_agrees {straight : Prop}
     {found : Found} {lcn : UInt16} {repeatCount : RepeatCount}
    (hagrees : Agrees straight remaining before found)
    (hregular : RegularElement filed straight remaining before (.logicalChannelNumber lcn repeatCount))
    (hbounded : Bounded remaining (before ++ [.logicalChannelNumber lcn repeatCount]))
    (hfit : remaining < 2 ^ 31) :
    Agrees straight remaining (before ++ [.logicalChannelNumber lcn repeatCount])
      (insertChannel found lcn repeatCount) := by
  rw [RegularElement] at hregular
  obtain ⟨hfinite, hnew⟩ := hregular
  cases repeatCount with
  | untilClosingFlag => exact absurd rfl hfinite
  | finite count =>
    have hsize : entrySize remaining (before ++ [.logicalChannelNumber lcn (.finite count)]) =
        entrySize remaining before + count.toNat := by
      simp [entrySize_append, entrySize, elementSize, mostRounds]
    have hlt := hbounded.1
    rw [hsize] at hlt
    refine ⟨?_, ?_, ?_⟩
    · simp only [insertChannel]
      rw [hsize, hagrees.size, Nat.cast_add, int_of_lt (by omega) (by omega)]
    · intro k
      have habsent := absent_entry before remaining hnew
      have hlookup := hagrees.slots lcn
      rw [slot, if_neg hnew, AList.lookup_eq_none] at hlookup
      have hslots := hagrees.slots k
      simp only [insertChannel, SlotList.insertNew, if_neg hlookup]
      by_cases hk : k = lcn
      · subst hk
        rw [AList.lookup_insert]
        simp [slot, entryChannels_append, entryChannels, elementChannels, entryMin_append, entryMax_append,
          entryMin, entryMax, elementMin, elementMax, habsent, leastRounds, mostRounds]
      · rw [AList.lookup_insert_ne hk, hslots]
        simp [slot, entryChannels_append, entryChannels, elementChannels, entryMin_append, entryMax_append,
          entryMin, entryMax, elementMin, elementMax, hk, Ne.symm hk]
    · intro hs hstraight hle
      rw [hsize] at hle ⊢
      have hleft := hagrees.left hs (straight_snoc hstraight) (by omega)
      rw [insertChannel]
      simp only [hleft]
      rw [int_of_lt (by omega) (by omega)]
      omega

variable {iLcns : Option SlotList}

/-- The slot that a channel of a sublist is added to is what the elements before it
ought to have. -/
theorem findLcn_before {straight : Prop}
     {found : Found} {lcn : UInt16}
    (hfiled : Filed iLcns filed) (hagrees : Agrees straight remaining before found)
    (hdisjoint : ∀ channels ∈ filed, ∀ lcn ∈ entryChannels elements,
      lcn ∉ entryChannels before ∧ lcn ∉ channels) (hlcn : lcn ∈ entryChannels elements) :
    (((findLcn (iLcns.getD found.lcns) lcn 0).getD ⟨0, 0, 0⟩).minSize = entryMin lcn before) ∧
      ((findLcn (iLcns.getD found.lcns) lcn 0).getD ⟨0, 0, 0⟩).maxSize = entryMax lcn remaining before := by
  rw [findLcn_zero]
  cases hfiled with
  | own =>
    rw [Option.getD_none, hagrees.slots, slot]
    by_cases hnew : lcn ∈ entryChannels before
    · simp [hnew, Option.filter]
    · have habsent := absent_entry before remaining hnew
      simp [hnew, habsent]
  | other hnone =>
    obtain ⟨hbefore, hother⟩ := hdisjoint _ rfl lcn hlcn
    have habsent := absent_entry before remaining hbefore
    rw [Option.getD_some, hnone lcn hother]
    simp [habsent]

theorem mergeSublist_agrees {straight : Prop}
     {found sub : Found} {repeatCount : RepeatCount}
    (hfiled : Filed iLcns filed) (hagrees : Agrees straight remaining before found)
    (hregular : RegularElement filed straight remaining before (.subElementList elements repeatCount))
    (hbounded : Bounded remaining (before ++ [.subElementList elements repeatCount]))
    (hfit : remaining < 2 ^ 31)
    (hsub : Agrees (straight ∧ Straight remaining before) (remaining - entrySize remaining before) elements sub) :
    ∃ found', mergeSublist iLcns found sub repeatCount = some found' ∧
      Agrees straight remaining (before ++ [.subElementList elements repeatCount]) found' := by
  rw [RegularElement] at hregular
  obtain ⟨hinner, -, hdisjoint, hfill⟩ := hregular
  have hcounts : repeatCounts found.maxPduSize sub.subelementSize repeatCount =
      some (leastRounds repeatCount, mostRounds (remaining - entrySize remaining before)
        (entrySize (remaining - entrySize remaining before) elements) repeatCount) := by
    rw [hsub.size]
    refine repeatCounts_eq repeatCount (by omega) fun hucf => ?_
    obtain ⟨hstraight, hle, hsize⟩ := hfill hucf
    exact ⟨hagrees.left hstraight.1 hstraight.2 hle, by omega, hsize⟩
  have hsize : entrySize remaining (before ++ [.subElementList elements repeatCount]) =
      entrySize remaining before + mostRounds (remaining - entrySize remaining before)
        (entrySize (remaining - entrySize remaining before) elements) repeatCount *
        entrySize (remaining - entrySize remaining before) elements := by
    simp [entrySize_append, entrySize, elementSize]
  have hlt := hbounded.1
  rw [hsize] at hlt
  rw [mergeSublist, hcounts]
  generalize hrounds : mostRounds (remaining - entrySize remaining before)
    (entrySize (remaining - entrySize remaining before) elements) repeatCount = rcMax at hsize hlt
  generalize hbytes : rcMax * entrySize (remaining - entrySize remaining before) elements = bytes at hsize hlt
  have hproduct : unsigned (rcMax * sub.subelementSize) = bytes := by
    rw [hsub.size, ← Int.natCast_mul, hbytes]
    exact unsigned_of_lt (by omega)
  have hsubelementSize : int (found.subelementSize + unsigned (rcMax * sub.subelementSize)) =
      entrySize remaining before + bytes := by
    rw [hproduct, hagrees.size]
    exact int_of_lt (by omega) (by omega)
  refine ⟨_, rfl, ?_, ?_, ?_⟩
  · simp only
    rw [hsubelementSize, hsize, Nat.cast_add]
  · intro lcn
    have hkeys : ∀ entry ∈ sub.lcns.entries, entry.2.lcn = entry.1 := by
      intro entry hentry
      have hlookup : sub.lcns.lookup entry.1 = some entry.2 :=
        List.mem_dlookup sub.lcns.nodupKeys hentry
      rw [hsub.slots, slot] at hlookup
      split at hlookup
      · injection hlookup with hlookup
        rw [← hlookup]
      · simp at hlookup
    have hmerge := foldl_mergeSlot_lookup iLcns (leastRounds repeatCount) rcMax sub.lcns.entries found.lcns lcn
      sub.lcns.nodupKeys hkeys
    have hinnerSlot : sub.lcns.entries.dlookup lcn = slot (remaining - entrySize remaining before) elements lcn :=
      hsub.slots lcn
    simp only
    rw [hmerge, hinnerSlot]
    by_cases hlcn : lcn ∈ entryChannels elements
    · have hmin := hbounded.2 lcn (by simp [entryChannels_append, entryChannels, elementChannels, hlcn])
      have hmax := Nat.lt_of_le_of_lt (entryMax_le_entrySize lcn _ remaining) hbounded.1
      simp only [entryMin_append, entryMax_append, entryMin, entryMax, elementMin, elementMax, hrounds,
        Nat.add_zero] at hmin hmax
      obtain ⟨hfoundMin, hfoundMax⟩ := findLcn_before hfiled hagrees hdisjoint hlcn
      have hminSize : unsigned ((entryMin lcn elements : Int) * leastRounds repeatCount) =
          leastRounds repeatCount * entryMin lcn elements := by
        rw [← Int.natCast_mul, Nat.mul_comm]
        exact unsigned_of_lt (by omega)
      have hmaxSize :
          unsigned ((entryMax lcn (remaining - entrySize remaining before) elements : Int) * rcMax) =
            rcMax * entryMax lcn (remaining - entrySize remaining before) elements := by
        rw [← Int.natCast_mul, Nat.mul_comm]
        exact unsigned_of_lt (by omega)
      simp only [slot, if_pos hlcn, merged, hfoundMin, hfoundMax, hminSize, hmaxSize]
      rw [← Nat.cast_add, ← Nat.cast_add, unsigned_of_lt hmin, unsigned_of_lt (by omega)]
      simp [entryChannels_append, entryChannels, elementChannels, hlcn, entryMin_append, entryMax_append,
        entryMin, entryMax, elementMin, elementMax, hrounds]
    · have habsent := absent_entry elements (remaining - entrySize remaining before) hlcn
      have hslots := hagrees.slots lcn
      simp only [slot, if_neg hlcn]
      rw [hslots]
      simp [slot, entryChannels_append, entryChannels, elementChannels, hlcn, entryMin_append, entryMax_append,
        entryMin, entryMax, elementMin, elementMax, habsent]
  · intro hs hstraight hle
    have hempty : entrySize remaining before = 0 := hstraight before elements repeatCount [] rfl
    have hleft := hagrees.left hs (straight_snoc hstraight) (by omega)
    rw [hsize] at hle ⊢
    simp only
    rw [hsubelementSize, hleft, hempty]
    rw [int_of_lt (by omega) (by omega)]
    omega

/-! ## FindLcns -/

theorem findElements_agrees (elements : List MultiplexElement) {straight : Prop}
    {found : Found} (hfiled : Filed iLcns filed) (hagrees : Agrees straight remaining before found)
    (hregular : RegularList filed straight remaining before elements)
    (hbounded : Bounded remaining (before ++ elements)) (hfit : remaining < 2 ^ 31) :
    ∃ found', findElements elements iLcns found = some found' ∧
      Agrees straight remaining (before ++ elements) found' := by
  induction elements using elements_induction generalizing iLcns filed straight remaining before found with
  | nil => exact ⟨found, rfl, by rw [List.append_nil]; exact hagrees⟩
  | channel lcn repeatCount rest ih =>
    rw [RegularList] at hregular
    rw [List.append_cons] at hbounded ⊢
    have hturn := insertChannel_agrees hagrees hregular.1 (bounded_append hbounded) hfit
    rw [findElements, findElement, Option.bind_some]
    exact ih hfiled hturn hregular.2 hbounded hfit
  | sub elements repeatCount rest ih ihrest =>
    rw [RegularList] at hregular
    rw [List.append_cons] at hbounded ⊢
    have hregularElement := hregular.1
    rw [RegularElement] at hregularElement
    obtain ⟨hinner, hlist, -, -⟩ := hregularElement
    have hstart : Agrees (straight ∧ Straight remaining before) (remaining - entrySize remaining before) []
        (.start found.maxPduSize) := by
      refine ⟨rfl, fun lcn => ?_, fun hs _ hle => ?_⟩
      · simp [Found.start, slot, entryChannels]
      · have hleft := hagrees.left hs.1 hs.2 (by simpa [entrySize] using hle)
        simpa [Found.start, entrySize] using hleft
    have hother : Filed (some (iLcns.getD found.lcns)) (some (filed.getD (entryChannels before))) := by
      cases hfiled with
      | own =>
        refine .other fun lcn hlcn => ?_
        rw [Option.getD_none] at hlcn
        rw [Option.getD_none, hagrees.slots, slot, if_neg hlcn]
      | other hnone => exact .other hnone
    obtain ⟨sub, hfound, hsub⟩ := ih hother hstart hlist hinner (by omega)
    obtain ⟨found', hmerge, hturn⟩ :=
      mergeSublist_agrees hfiled hagrees hregular.1 (bounded_append hbounded) hfit hsub
    rw [findElements, findElement, hfound, Option.bind_some, hmerge, Option.bind_some]
    exact ihrest hfiled hturn hregular.2 hbounded hfit

/-- **`FindLcns` finds for each channel of a regular entry what the entry can carry for
it, and `FindLcn` accepts those sizes.** -/
theorem carries_of_regular {elements : List MultiplexElement} {maxPduSize : Nat}
    (h : Regular elements maxPduSize) : Carries elements maxPduSize := by
  obtain ⟨hfit, hbounded, hlist, hroom⟩ := h
  have hstart : Agrees True maxPduSize [] (.start (int maxPduSize)) := by
    refine ⟨rfl, fun lcn => ?_, fun _ _ _ => ?_⟩
    · simp [Found.start, slot, entryChannels]
    · rw [Found.start, int_of_lt (by omega) (by omega)]
      simp [entrySize]
  obtain ⟨found, hfound, hagrees⟩ := findElements_agrees elements .own hstart hlist hbounded (by omega)
  refine ⟨found.lcns, by rw [constructL, hfound, Option.map_some], fun lcn => ?_⟩
  have hslots := hagrees.slots lcn
  rw [List.nil_append] at hslots
  refine ⟨hslots, fun len hlen => ?_⟩
  rw [findLcn, hslots, slot]
  by_cases hlcn : lcn ∈ entryChannels elements
  · have hmax := hroom lcn hlcn
    simp [Slot.isFit, hlen, hmax, hlcn]
  · simp [hlcn]

/-- A channel of two sublists, the second of which fills the MUX-PDU. -/
def twoSublists : List MultiplexElement :=
  [.subElementList [.logicalChannelNumber 1 (.finite 2), .logicalChannelNumber 2 (.finite 1)] (.finite 3),
    .subElementList [.logicalChannelNumber 1 (.finite 1), .logicalChannelNumber 3 (.finite 3)] .untilClosingFlag]

theorem bounded_of_le (hsize : entrySize remaining elements ≤ 128)
    (hmin : ∀ lcn ∈ entryChannels elements, entryMin lcn elements ≤ 128) : Bounded remaining elements :=
  ⟨by omega, fun lcn hlcn => Nat.lt_of_le_of_lt (hmin lcn hlcn) (by omega)⟩

theorem carries_twoSublists : Regular twoSublists 128 ∧ Carries twoSublists 128 := by
  have hregular : Regular twoSublists 128 := by
    refine ⟨by omega, bounded_of_le (by decide) ?_, ?_, ?_⟩
    · simp [twoSublists, entryChannels, elementChannels, entryMin, elementMin, leastRounds]
    · simp only [twoSublists, RegularList, RegularElement]
      constructor
      · refine ⟨bounded_of_le (by decide) ?_, by decide, by simp, by simp⟩
        simp [entryChannels, elementChannels, entryMin, elementMin, leastRounds]
      · refine ⟨⟨bounded_of_le (by decide) ?_, by decide, by simp, fun _ => ⟨⟨trivial, ?_⟩, ?_⟩⟩, trivial⟩
        · simp [entryChannels, elementChannels, entryMin, elementMin, leastRounds]
        · intro before sub repeatCount after heq
          cases before with
          | nil => rfl
          | cons element before => simp at heq
        · exact ⟨by decide, by decide⟩
    · intro lcn hlcn
      simp only [twoSublists, entryChannels, elementChannels, List.append_nil, List.cons_append, List.nil_append,
        List.mem_cons, List.not_mem_nil, or_false] at hlcn
      obtain rfl | rfl | rfl | rfl := hlcn <;> decide
  exact ⟨hregular, carries_of_regular hregular⟩

/-- The second element of a channel is not added to the slot of the first. -/
theorem second_element_lost : ¬ ∀ elements maxPduSize, Carries elements maxPduSize := by
  intro h
  obtain ⟨iLcns, hlist, hslots⟩ :=
    h [.logicalChannelNumber 1 (.finite 1), .logicalChannelNumber 1 (.finite 2)] 128
  injection hlist with hlist
  have hslot := (hslots 1).1
  rw [← hlist] at hslot
  revert hslot
  decide

end Ftke.MultiplexEntry
