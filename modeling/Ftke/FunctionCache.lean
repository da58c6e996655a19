import Mathlib.Algebra.Ring.Nat
import Ftke.Run

/-!
# Ftke.FunctionCache

The cache of compiled functions of the rasterizer (`FunctionCache.cpp`), with the
part of the code generator that enters a function (`CodeGenerator::Compile`).

A function has a slot, an entry of a linked list in the order of use, and a range
of the code buffer.  Where the buffer or the slots do not suffice, the functions
used longest ago are dropped and the code of the others is moved together.

* `FunctionCache.getFunction`, `FunctionCache.addFunction`, `FunctionCache.compactCode` —
  the operations; `none` where an assertion fails;
* `Session` — a cache with the compilations made so far and the last address returned.
-/

namespace Ftke

/-- `FunctionCache::FunctionType`. -/
inductive FunctionType
  | scanline
  | point
  | line
  | triangle
  deriving DecidableEq, Repr

/-- The comparisons of a `RasterizerState`. -/
structure Comparisons (State : Type*) where
  comparePoint : State → State → Bool
  compareLine : State → State → Bool
  comparePolygon : State → State → Bool

/-- `FunctionInfo`; the links are indices into `m_Functions`. -/
structure FunctionInfo (State : Type*) where
  prev : Option Nat
  next : Option Nat
  state : State
  offset : Nat
  size : Nat
  flags : Nat
  type : FunctionType

/-- `FunctionCache`, with `share n` for the truncated product of `n` and `m_PercentageKeep`. -/
structure FunctionCache (State : Type*) where
  code : Nat → UInt8
  used : Nat
  total : Nat
  functions : Nat → FunctionInfo State
  mostRecentlyUsed : Option Nat
  leastRecentlyUsed : Option Nat
  usedFunctions : Nat
  maxFunctions : Nat
  share : Nat → Nat

variable {State : Type*}

/-- The comparison made for a type of function. -/
def Comparisons.compare (comparisons : Comparisons State) : FunctionType → State → State → Bool
  | .point => comparisons.comparePoint
  | .line => comparisons.compareLine
  | .scanline => comparisons.comparePolygon
  | .triangle => comparisons.comparePolygon

namespace FunctionCache

/-- The constructor; `zero` is a state of zero bytes. -/
def new (zero : State) (totalSize : Nat) (share : Nat → Nat) : FunctionCache State where
  code := fun _ => 0
  used := 0
  total := totalSize
  functions := fun _ => ⟨none, none, zero, 0, 0, 0, .scanline⟩
  mostRecentlyUsed := none
  leastRecentlyUsed := none
  usedFunctions := 0
  maxFunctions := totalSize / 256
  share := share

/-- A function is changed in place. -/
def modify (c : FunctionCache State) (index : Nat) (f : FunctionInfo State → FunctionInfo State) : FunctionCache State :=
  { c with functions := fun i => if i = index then f (c.functions i) else c.functions i }

/-- `memmove` in the code buffer. -/
def memmove (c : FunctionCache State) (target source size : Nat) : FunctionCache State :=
  { c with code := fun a => if target ≤ a ∧ a < target + size then c.code (source + (a - target)) else c.code a }

/-- The code of a function is written into the buffer. -/
def write (c : FunctionCache State) (offset : Nat) (code : List UInt8) : FunctionCache State :=
  { c with code := fun a => if offset ≤ a ∧ a < offset + code.length then code.getD (a - offset) 0 else c.code a }

/-! ## Lookup -/

/-- The loop of `GetFunction` over the linked list; it passes every slot at most once. -/
def find (c : FunctionCache State) (matching : FunctionInfo State → Bool) : Nat → Option Nat → Option Nat
  | _, none => none
  | 0, some _ => none
  | fuel + 1, some function =>
    if matching (c.functions function) then some function
    else c.find matching fuel (c.functions function).next

/-- The cached function for a type and a state. -/
def lookup (comparisons : Comparisons State) (c : FunctionCache State) (type : FunctionType) (state : State) : Option Nat :=
  c.find (fun function => function.type == type && comparisons.compare type state function.state) c.maxFunctions
    c.mostRecentlyUsed

/-- A function becomes the most recently used one. -/
def moveToFront (c : FunctionCache State) (function : Nat) : FunctionCache State :=
  match (c.functions function).prev with
  | none => c
  | some prev =>
    let next := (c.functions function).next
    let c := c.modify prev fun info => { info with next := next }
    let c := match next with
      | some next => c.modify next fun info => { info with prev := some prev }
      | none => { c with leastRecentlyUsed := some prev }
    let c := c.modify function fun info =>
      { info with
        next := c.mostRecentlyUsed
        prev := none }
    let c := match c.mostRecentlyUsed with
      | some first => c.modify first fun info => { info with prev := some function }
      | none => c
    { c with mostRecentlyUsed := some function }

/-! ## Compaction -/

/-- The functions that are retained, from one on: as many as the shares of the buffer and of the slots hold. -/
def retainedFrom (c : FunctionCache State) : Nat → Option Nat → Nat → Nat → List Nat
  | _, none, _, _ => []
  | 0, some _, _, _ => []
  | fuel + 1, some function, countFunctions, countMemory =>
    if (c.functions function).size + countMemory > c.share c.total ∨ countFunctions ≥ c.share c.maxFunctions then []
    else function :: c.retainedFrom fuel (c.functions function).next (countFunctions + 1)
      (countMemory + (c.functions function).size)

/-- The functions that a compaction retains. -/
def retained (c : FunctionCache State) : List Nat := c.retainedFrom c.maxFunctions c.mostRecentlyUsed 0 0

/-- The loop that takes the mark off the remaining functions. -/
def clearFlags (c : FunctionCache State) : Nat → Option Nat → FunctionCache State
  | _, none => c
  | 0, some _ => c
  | fuel + 1, some function =>
    (c.modify function fun info => { info with flags := 0 }).clearFlags fuel (c.functions function).next

/-- The loop that marks the functions to be retained. -/
def markFunctions (c : FunctionCache State) : Nat → Option Nat → Nat → Nat → FunctionCache State
  | _, none, _, _ => c
  | 0, some _, _, _ => c
  | fuel + 1, some function, countFunctions, countMemory =>
    if (c.functions function).size + countMemory > c.share c.total ∨ countFunctions ≥ c.share c.maxFunctions then
      c.clearFlags (fuel + 1) (some function)
    else
      (c.modify function fun info => { info with flags := 1 }).markFunctions fuel (c.functions function).next
        (countFunctions + 1) (countMemory + (c.functions function).size)

/-- One turn of the loop over the slots, with the slot for the next function that is retained. -/
def compactSlot (acc : FunctionCache State × Nat) (index : Nat) : FunctionCache State × Nat :=
  let c := acc.1
  let function := c.functions index
  if function.flags ≠ 0 then
    let c := c.memmove c.used function.offset function.size
    let c := c.modify index fun info => { info with offset := c.used }
    let c := { c with used := c.used + function.size }
    let moved := c.functions index
    let c := c.modify acc.2 fun info =>
      { info with
        state := moved.state
        offset := moved.offset
        size := moved.size }
    (c, acc.2 + 1)
  else acc

/-- The linked list is made anew, in the order of the slots. -/
def relink (c : FunctionCache State) : FunctionCache State :=
  if c.usedFunctions = 0 then
    { c with
      mostRecentlyUsed := none
      leastRecentlyUsed := none }
  else if c.usedFunctions = 1 then
    let c := c.modify 0 fun info =>
      { info with
        prev := none
        next := none }
    { c with
      mostRecentlyUsed := some 0
      leastRecentlyUsed := some 0 }
  else
    let last := c.usedFunctions - 1
    let c := { c with
      mostRecentlyUsed := some 0
      leastRecentlyUsed := some last }
    let c := c.modify last fun info => { info with next := none }
    let c := c.modify 0 fun info =>
      { info with
        prev := none
        next := some 1 }
    let c := c.modify last fun info => { info with prev := some (last - 1) }
    (List.range' 1 (last - 1)).foldl (fun c index => c.modify index fun info =>
      { info with
        prev := some (index - 1)
        next := some (index + 1) }) c

/-- `CompactCode`: the count of the functions is set to zero before the loop over the slots and not raised in it. -/
def compactCode (c : FunctionCache State) : FunctionCache State :=
  let c := c.markFunctions c.maxFunctions c.mostRecentlyUsed 0 0
  let countFunctions := 0
  let c := ((List.range c.usedFunctions).foldl compactSlot ({ c with used := 0 }, 0)).1
  relink { c with usedFunctions := countFunctions }

/-! ## Entering a function -/

/-- There is no room for another function of this size. -/
def Full (c : FunctionCache State) (size : Nat) : Prop := size + c.used ≥ c.total ∨ c.usedFunctions ≥ c.maxFunctions

instance (c : FunctionCache State) (size : Nat) : Decidable (c.Full size) := inferInstanceAs (Decidable (_ ∨ _))

/-- A function takes the next slot and the front of the list; its offset is returned with the cache. -/
def enter (c : FunctionCache State) (type : FunctionType) (state : State) (size : Nat) : FunctionCache State × Nat :=
  let function := c.usedFunctions
  let c := { c with usedFunctions := c.usedFunctions + 1 }
  let c := c.modify function fun info =>
    { info with
      next := c.mostRecentlyUsed
      prev := none }
  let c := match c.mostRecentlyUsed with
    | some first => c.modify first fun info => { info with prev := some function }
    | none => { c with leastRecentlyUsed := some function }
  let c := { c with mostRecentlyUsed := some function }
  let offset := c.used
  let c := c.modify function fun info =>
    { info with
      flags := 0
      offset := offset
      size := size
      state := state
      type := type }
  ({ c with used := c.used + size }, offset)

/-- `AddFunction`; the assertions are that there is room, after a compaction if need be. -/
def addFunction (c : FunctionCache State) (type : FunctionType) (state : State) (size : Nat) :
    Option (FunctionCache State × Nat) :=
  let c := if c.Full size then c.compactCode else c
  if c.usedFunctions < c.maxFunctions ∧ size + c.used < c.total then some (c.enter type state size) else none

/-- `CodeGenerator::Compile` from the machine code that it emits: the code is copied to the new function. -/
def compile (c : FunctionCache State) (type : FunctionType) (state : State) (code : List UInt8) :
    Option (FunctionCache State × Nat) :=
  (c.addFunction type state code.length).map fun r => (r.1.write r.2 code, r.2)

/-- `GetFunction`: the offset of the function in the code buffer, compiled to `code` if it is not in the cache. -/
def getFunction (comparisons : Comparisons State) (c : FunctionCache State) (type : FunctionType) (state : State)
    (code : List UInt8) : Option (FunctionCache State × Nat) :=
  match c.lookup comparisons type state with
  | some function => some (c.moveToFront function, (c.functions function).offset)
  | none =>
    (c.compile type state code).map fun r =>
      (r.1, (r.1.mostRecentlyUsed.elim 0 fun first => (r.1.functions first).offset))

end FunctionCache

end Ftke
