import Ftke.Multiplex
import Mathlib.Algebra.Ring.Int.Defs
import Mathlib.Data.List.AList

/-!
# Ftke.MultiplexEntry

`CPVMultiplexEntryDescriptor`: the sizes that a multiplex table entry can carry for
each of its logical channels.

`FindLcns` goes through the elements of an entry and files a slot for each channel;
for a list of sub-elements it calls itself with a slot list of its own, and merges
that.  The slots it adds to are those of the object, `iLcns`, also where the list
that it builds is another one.

An `unsigned` is a natural number below `2 ^ 32`, an `int` an integer; where one
becomes the other the source wraps, and so do `unsigned` and `int`.
-/

namespace Ftke.MultiplexEntry

open Ftke.Multiplex

/-! ## Slots -/

/-- What is left of a number in an `unsigned`. -/
def unsigned (x : Int) : Nat := (x % 2 ^ 32).toNat

/-- What is left of a number in an `int`. -/
def int (x : Int) : Int := x.bmod (2 ^ 32)

/-- `TPVMuxDescriptorSlot`; a channel number is never more than the 16 bits of an element. -/
structure Slot where
  lcn : UInt16
  minSize : Nat
  maxSize : Nat
  deriving DecidableEq

/-- `is_fit`: no size, or no largest size, is not looked at. -/
def Slot.isFit (slot : Slot) (thatLcn : UInt16) (size : Nat) : Bool :=
  if slot.lcn = thatLcn ∧ size ≠ 0 ∧ slot.maxSize ≠ 0 then slot.minSize ≤ size ∧ size ≤ slot.maxSize
  else slot.lcn = thatLcn

/-- `TPVMuxDescriptorSlotList`. -/
abbrev SlotList := AList fun _ : UInt16 => Slot

/-- `insert` of a map: what is there stays. -/
def SlotList.insertNew (lcns : SlotList) (lcn : UInt16) (slot : Slot) : SlotList :=
  if lcn ∈ lcns then lcns else AList.insert lcn slot lcns

/-- `FindLcn`; the slot is returned through a reference. -/
def findLcn (iLcns : SlotList) (channelId : UInt16) (len : Nat) : Option Slot :=
  match iLcns.lookup channelId with
  | some foundSlot => if foundSlot.isFit channelId len then some foundSlot else none
  | none => none

/-! ## FindLcns -/

/-- The locals of `FindLcns` and what it hands back. -/
structure Found where
  lcns : SlotList
  subelementSize : Int
  maxPduSize : Int
  numLcns : Nat

/-- The start of a call. -/
def Found.start (maxPduSize : Int) : Found := ⟨∅, 0, maxPduSize, 0⟩

/-- A slot of a sublist is multiplied and added to the slot of its channel in `iLcns`,
which is `lcns` itself in the outermost call. -/
def mergeSlot (iLcns : Option SlotList) (rcMin rcMax : Nat) (lcns : SlotList) (slot : Slot) : SlotList :=
  let maxSize := unsigned (slot.maxSize * rcMax)
  let minSize := unsigned (slot.minSize * rcMin)
  let found := findLcn (iLcns.getD lcns) slot.lcn 0
  let slotInfo := found.getD ⟨0, 0, 0⟩
  let lcns := if found.isNone then lcns.insertNew slot.lcn slotInfo else lcns
  AList.insert slot.lcn
    ⟨slot.lcn, unsigned (slotInfo.minSize + minSize), unsigned (slotInfo.maxSize + maxSize)⟩ lcns

/-- The repeat counts of a sublist of `size` bytes; a division by zero has no value. -/
def repeatCounts (maxPduSize size : Int) : RepeatCount → Option (Nat × Nat)
  | .finite count => some (count.toNat, count.toNat)
  | .untilClosingFlag => if size = 0 then none else some (1, unsigned (maxPduSize.tdiv size))

/-- The end of a turn for a list of sub-elements, for which `sub` was found. -/
def mergeSublist (iLcns : Option SlotList) (found sub : Found) (repeatCount : RepeatCount) : Option Found :=
  match repeatCounts found.maxPduSize sub.subelementSize repeatCount with
  | none => none
  | some (rcMin, rcMax) =>
    let subelementSize := int (found.subelementSize + unsigned (rcMax * sub.subelementSize))
    some
      { lcns := (sub.lcns.entries.map (·.2)).foldl (mergeSlot iLcns rcMin rcMax) found.lcns
        subelementSize
        maxPduSize := int (found.maxPduSize - subelementSize)
        numLcns := unsigned (found.numLcns + sub.numLcns) }

/-- A turn for a logical channel. -/
def insertChannel (found : Found) (lcn : UInt16) (repeatCount : RepeatCount) : Found :=
  let (minSize, maxSize) :=
    match repeatCount with
    | .finite count => (count.toNat, count.toNat)
    | .untilClosingFlag => (1, 0)
  { lcns := found.lcns.insertNew lcn ⟨lcn, minSize, maxSize⟩
    subelementSize := int (found.subelementSize + maxSize)
    maxPduSize := int (found.maxPduSize - maxSize)
    numLcns := unsigned (found.numLcns + 1) }

mutual

/-- A turn of the loop of `FindLcns`. -/
def findElement : MultiplexElement → Option SlotList → Found → Option Found
  | .logicalChannelNumber lcn repeatCount, _, found => some (insertChannel found lcn repeatCount)
  | .subElementList elements repeatCount, iLcns, found =>
    (findElements elements (some (iLcns.getD found.lcns)) (.start found.maxPduSize)).bind fun sub =>
      mergeSublist iLcns found sub repeatCount
termination_by structural element => element

/-- The loop. -/
def findElements : List MultiplexElement → Option SlotList → Found → Option Found
  | [], _, found => some found
  | element :: rest, iLcns, found =>
    (findElement element iLcns found).bind fun found => findElements rest iLcns found
termination_by structural elements => elements

end

/-- `FindLcns`, as `ConstructL` calls it: the list that it builds is `iLcns`. -/
def constructL (elements : List MultiplexElement) (maxPduSize : Nat) : Option SlotList :=
  (findElements elements none (.start (int maxPduSize))).map (·.lcns)

end Ftke.MultiplexEntry
