import Ftke.MemoryBuffer.Cache

/-!
# Ftke.MemoryBuffer.PermCache

The permanent cache: data that `MakePersistent` was asked to keep.

An entry is filled as the data comes in.  `ReadBytes` runs over the entries as that of the
temporary cache does, and ends at the first one without data.
-/

namespace Ftke.MemoryBuffer

/-- `MBDSPermCacheEntry`: what has come in; `fillFileOffset` is behind it. -/
structure PermCacheEntry where
  firstFileOffset : UInt32
  filled : List UInt8
  filled_lt : filled.length < 2 ^ 32

/-- `PVMFMemoryBufferDataStreamPermCache`. -/
structure PermCache where
  iEntries : List PermCacheEntry
  iFirstByteFileOffset : UInt32
  iLastByteFileOffset : UInt32
  iFirstPermByteOffset : UInt32
  iLastPermByteOffset : UInt32

namespace PermCache

/-- The cache before anything is put there. -/
def empty : PermCache := ⟨[], 0, 0, 0, 0⟩

/-- The entries up to the first one without data. -/
def filledEntries : List PermCacheEntry → List TempCacheEntry
  | [] => []
  | e :: rest =>
    if h : 0 < e.filled.length then ⟨⟨0, e.filled, h, e.filled_lt⟩, e.firstFileOffset⟩ :: filledEntries rest
    else []

/-- The offset behind the data. -/
def filledEnd (p : PermCache) : Nat :=
  p.iFirstByteFileOffset.toNat + ((filledEntries p.iEntries).map fun e => e.frag.bytes.length).sum

/-- `ReadBytes`. -/
def readBytes (p : PermCache) (aFirstByte aLastByte : UInt32) : Option (List UInt8) :=
  (TempCache.readFrom aFirstByte aLastByte 0 (filledEntries p.iEntries)).map Prod.fst

end PermCache

end Ftke.MemoryBuffer
