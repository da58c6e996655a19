import Ftke.TableWindow
import Mathlib.Data.UInt

/-!
# Ftke.ChunkOffset

The functions of the chunk offset table (`chunkoffsetatom.cpp`) as computations over its entries.
-/

namespace Ftke.ChunkOffset

/-- `PV_ERROR`. -/
def pvError : UInt32 := 0xFFFFFFFF

/-- `INSUFFICIENT_DATA`. -/
def insufficientData : UInt32 := 141

variable {count : Nat} {entries : Nat → UInt32}

/-- `getChunkOffsetAt`. -/
def getChunkOffsetAt (count index : Nat) : Probe UInt32 UInt32 :=
  if index < count then .check index (.slot index .done) else .done pvError

/-- The search of `getChunkClosestToOffset`, with `left` entries to go. -/
def closestLoop (offSet : UInt32) : (left i prevIndex : Nat) → Probe UInt32 (UInt32 × Option Nat)
  | 0, _, _ => .done (insufficientData, none)
  | left + 1, i, prevIndex =>
    .check i <| .slot i fun offset =>
      if offset < offSet then closestLoop offSet left (i + 1) i else .done (0, some prevIndex)

/-- `getChunkClosestToOffset`: the code and `index`, which is `none` for -1. -/
def getChunkClosestToOffset (count : Nat) (offSet : UInt32) : Probe UInt32 (UInt32 × Option Nat) :=
  if count = 0 then .done (pvError, none) else closestLoop offSet count 0 0

/-- A call of one of the functions. -/
inductive Call where
  | getChunkOffsetAt (index : Nat)
  | getChunkClosestToOffset (offSet : UInt32)

/-- What a call returns. -/
def handle (count : Nat) : Call → Probe UInt32 (UInt32 × Option Nat)
  | .getChunkOffsetAt index => (getChunkOffsetAt count index).map (·, none)
  | .getChunkClosestToOffset offSet => getChunkClosestToOffset count offSet

theorem getChunkOffsetAt_guarded (index : Nat) :
    (getChunkOffsetAt count index).Guarded entries (· < count) none := by
  unfold getChunkOffsetAt
  split
  · exact ⟨‹_›, rfl, trivial⟩
  · trivial

theorem closestLoop_guarded (offSet : UInt32) : ∀ {left i prevIndex : Nat} {last : Option Nat}, i + left = count →
    (closestLoop offSet left i prevIndex).Guarded entries (· < count) last
  | 0, _, _, _, _ => trivial
  | left + 1, i, _, _, hcount => by
    refine ⟨by omega, rfl, ?_⟩
    beta_reduce
    split
    · exact closestLoop_guarded offSet (by omega)
    · trivial

theorem handle_guarded (call : Call) : (handle count call).Guarded entries (· < count) none := by
  cases call with
  | getChunkOffsetAt index => exact Probe.guarded_map _ (getChunkOffsetAt_guarded index)
  | getChunkClosestToOffset offSet =>
    simp only [handle, getChunkClosestToOffset]
    split
    · trivial
    · exact closestLoop_guarded offSet (by omega)

end Ftke.ChunkOffset
