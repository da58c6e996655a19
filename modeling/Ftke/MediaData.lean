import Mathlib.Algebra.Ring.Nat
import Mathlib.Data.List.Basic

/-!
# Ftke.MediaData

`PVMFMediaFragGroup` (`pvmf_media_frag_group.h`): a packet as a list of memory
fragments.

A fragment is a length and the memory behind its pointer; the length never
exceeds the memory.  The bytes of a packet are those of its fragments
(`contents`), however they are cut.
-/

namespace Ftke

/-- `OsclRefCounterMemFrag`: the memory from the pointer on, and how much of it
is filled. -/
structure MemFrag where
  ptr : List UInt8
  len : Nat
  le : len ≤ ptr.length

/-- The `iFragments` of a `PVMFMediaFragGroup`. -/
abbrev MediaData := List MemFrag

namespace MemFrag

/-- A fragment that is all filled. -/
def ofBytes (bytes : List UInt8) : MemFrag := ⟨bytes, bytes.length, Nat.le_refl _⟩

/-- The filled part. -/
def bytes (f : MemFrag) : List UInt8 := f.ptr.take f.len

/-- The fragment with `k` bytes less in front: `len -= k`, `ptr += k`. -/
def advance (f : MemFrag) (k : Nat) : MemFrag :=
  ⟨f.ptr.drop k, f.len - k, by have := f.le; rw [List.length_drop]; omega⟩

/-- A byte written through the pointer. -/
def store (f : MemFrag) (i : Nat) (v : UInt8) : MemFrag :=
  ⟨f.ptr.set i v, f.len, by rw [List.length_set]; exact f.le⟩

@[simp] theorem bytes_ofBytes (l : List UInt8) : (ofBytes l).bytes = l := List.take_length

@[simp] theorem length_bytes (f : MemFrag) : f.bytes.length = f.len := List.length_take_of_le f.le

@[simp] theorem bytes_advance (f : MemFrag) (k : Nat) : (f.advance k).bytes = f.bytes.drop k :=
  List.drop_take.symm

end MemFrag

namespace MediaData

/-- The bytes of a packet. -/
def contents (m : MediaData) : List UInt8 := m.flatMap MemFrag.bytes

/-- `getFilledSize`, which the group keeps as a running sum. -/
def getFilledSize (m : MediaData) : Nat := (m.map MemFrag.len).sum

/-- `setMediaFragFilledLen`; the memory of a fragment is its capacity. -/
def setMediaFragFilledLen (m : MediaData) (index len : Nat) : MediaData :=
  match m[index]? with
  | none => m
  | some f => if h : len ≤ f.ptr.length then m.set index ⟨f.ptr, len, h⟩ else m

@[simp] theorem contents_nil : contents [] = [] := rfl

@[simp] theorem contents_cons (f : MemFrag) (m : MediaData) :
    contents (f :: m) = f.bytes ++ contents m := rfl

@[simp] theorem contents_append (l m : MediaData) : contents (l ++ m) = contents l ++ contents m :=
  List.flatMap_append

theorem length_contents : ∀ m : MediaData, (contents m).length = getFilledSize m
  | [] => rfl
  | f :: m => by
    rw [contents_cons, List.length_append, f.length_bytes, length_contents m]
    rfl

/-- The fragments of a packet whose fragments are byte strings. -/
def ofChunks (chunks : List (List UInt8)) : MediaData := chunks.map MemFrag.ofBytes

@[simp] theorem contents_ofChunks : ∀ chunks : List (List UInt8),
    contents (ofChunks chunks) = chunks.flatten
  | [] => rfl
  | c :: chunks => by
    have ih := contents_ofChunks chunks
    rw [ofChunks, List.map_cons, contents_cons, MemFrag.bytes_ofBytes, List.flatten_cons, ← ih]
    rfl

@[simp] theorem length_setMediaFragFilledLen (m : MediaData) (index len : Nat) :
    (setMediaFragFilledLen m index len).length = m.length := by
  unfold setMediaFragFilledLen
  split
  · rfl
  · split
    · exact List.length_set
    · rfl

theorem setMediaFragFilledLen_last (m : MediaData) (f : MemFrag) {len : Nat} (h : len ≤ f.len) :
    setMediaFragFilledLen (m ++ [f]) m.length len = m ++ [⟨f.ptr, len, Nat.le_trans h f.le⟩] := by
  have hget : (m ++ [f])[m.length]? = some f := by simp
  simp only [setMediaFragFilledLen, hget, dif_pos (Nat.le_trans h f.le)]
  rw [List.set_append_right _ _ (Nat.le_refl _), Nat.sub_self, List.set_cons_zero]

theorem setMediaFragFilledLen_second (m : MediaData) (f g : MemFrag) {len : Nat} (h : len ≤ f.len) :
    setMediaFragFilledLen (m ++ [f, g]) m.length len = m ++ [⟨f.ptr, len, Nat.le_trans h f.le⟩, g] := by
  have hget : (m ++ [f, g])[m.length]? = some f := by simp
  simp only [setMediaFragFilledLen, hget, dif_pos (Nat.le_trans h f.le)]
  rw [List.set_append_right _ _ (Nat.le_refl _), Nat.sub_self, List.set_cons_zero]

end MediaData

end Ftke
