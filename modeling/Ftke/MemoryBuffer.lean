import Mathlib.Algebra.Ring.Nat
import Mathlib.Logic.Function.Iterate

/-!
# Ftke.MemoryBuffer

The memory buffer data stream of progressive download (`pvmf_memorybufferdatastream_factory.cpp`): a writer hands
over memory fragments, which a temporary cache keeps by their offsets in the file, and sessions read from it.

The permanent cache stays empty: bytes get there through `MakePersistent` with a size only, and the call modelled is
the one that parsers make with nothing to copy, to have the cache trimmed.  Notifications and the log are left out;
`released` is what the writer was given back.  A result `none` of a read is a copy from outside of a fragment, or a
division by zero.
-/

namespace Ftke.MemoryBuffer

/-! ## Types -/

inductive PvmiDataStreamStatus
  | success
  | failure
  | unsupportedMode
  | invalidSession
  | invalidRequest
  | pending
  deriving DecidableEq

inductive PvmiDataStreamSeekType
  | seekSet
  | seekCur
  | seekEnd
  | skipSet
  | skipCur
  | skipEnd
  deriving DecidableEq

inductive MBDSCacheTrimMode
  | none
  | headOnly
  | tailOnly
  | headAndTail
  | empty
  deriving DecidableEq

inductive MBDSRepositionMode
  | exact
  | withMargin
  deriving DecidableEq

inductive MBDSStreamFormat
  | unknown
  | progressivePlayback
  | shoutcast
  deriving DecidableEq

/-- A memory fragment of the writer: which one it is, and its bytes. -/
structure MemFrag where
  frag : Nat
  bytes : List UInt8
  length_pos : 0 < bytes.length
  length_lt : bytes.length < 2 ^ 32

def MemFrag.getMemFragSize (f : MemFrag) : UInt32 := UInt32.ofNat f.bytes.length

/-- `MBDSTempCacheEntry`. -/
structure TempCacheEntry where
  frag : MemFrag
  fileOffset : UInt32

def TempCacheEntry.fragSize (e : TempCacheEntry) : UInt32 := e.frag.getMemFragSize

/-! ## The temporary cache -/

/-- `PVMFMemoryBufferDataStreamTempCache`. -/
structure TempCache where
  iTotalBytes : UInt32
  iFirstByteFileOffset : UInt32
  iLastByteFileOffset : UInt32
  iEntries : List TempCacheEntry

namespace TempCache

/-- The cache without entries. -/
def clear : TempCache := ⟨0, 0, 0, []⟩

/-- `AddEntry`; `memory` is whether there is memory for the entry. -/
def addEntry (c : TempCache) (aFrag : MemFrag) (aFileOffset : UInt32) (memory : Bool) :
    PvmiDataStreamStatus × TempCache :=
  let aFragSize := aFrag.getMemFragSize
  if !c.iEntries.isEmpty && aFileOffset ≠ c.iLastByteFileOffset + 1 then (.invalidRequest, c)
  else if !memory then (.failure, c)
  else
    (.success,
      { iEntries := c.iEntries ++ [⟨aFrag, aFileOffset⟩]
        iFirstByteFileOffset := if c.iEntries.isEmpty then aFileOffset else c.iFirstByteFileOffset
        iLastByteFileOffset :=
          if c.iEntries.isEmpty then aFileOffset + aFragSize - 1 else c.iLastByteFileOffset + aFragSize
        iTotalBytes := c.iTotalBytes + aFragSize })

/-- `RemoveFirstEntry`. -/
def removeFirstEntry (c : TempCache) : Option (MemFrag × TempCache) :=
  match c.iEntries with
  | [] => none
  | [e] => some (e.frag, clear)
  | e :: next :: rest =>
    some (e.frag,
      { c with
        iEntries := next :: rest
        iTotalBytes := c.iTotalBytes - e.fragSize
        iFirstByteFileOffset := next.fileOffset })

/-- `RemoveLastEntry`. -/
def removeLastEntry (c : TempCache) : Option (MemFrag × TempCache) :=
  match c.iEntries.getLast? with
  | none => none
  | some e =>
    some (e.frag,
      if c.iEntries.dropLast.isEmpty then clear
      else
        { c with
          iEntries := c.iEntries.dropLast
          iTotalBytes := c.iTotalBytes - e.fragSize
          iLastByteFileOffset := e.fileOffset - 1 })

/-- `oscl_memcpy` of `n` bytes of a fragment. -/
def copy (e : TempCacheEntry) (start n : UInt32) : Option (List UInt8) :=
  if start.toNat + n.toNat ≤ e.frag.bytes.length then some ((e.frag.bytes.drop start.toNat).take n.toNat) else none

/-- The loop of `ReadBytes`, once the first byte is found. -/
def readRest (aLastByte : UInt32) : List TempCacheEntry → Option (List UInt8)
  | [] => some []
  | e :: rest =>
    if aLastByte < e.fileOffset + e.fragSize then copy e 0 (aLastByte - e.fileOffset + 1)
    else
      match copy e 0 e.fragSize, readRest aLastByte rest with
      | some data, some more => some (data ++ more)
      | _, _ => none

/-- The loop of `ReadBytes` from the entry `i` on: the bytes, and the entry of the first one. -/
def readFrom (aFirstByte aLastByte : UInt32) : Nat → List TempCacheEntry → Option (List UInt8 × Nat)
  | _, [] => some ([], 0)
  | i, e :: rest =>
    if e.fileOffset ≤ aFirstByte ∧ aFirstByte < e.fileOffset + e.fragSize then
      if aLastByte < e.fileOffset + e.fragSize then
        (copy e (aFirstByte - e.fileOffset) (aLastByte - aFirstByte + 1)).map fun data => (data, i)
      else
        match copy e (aFirstByte - e.fileOffset) (e.fragSize - (aFirstByte - e.fileOffset)),
          readRest aLastByte rest with
        | some data, some more => some (data ++ more, i)
        | _, _ => none
    else readFrom aFirstByte aLastByte (i + 1) rest

/-- `ReadBytes`. -/
def readBytes (c : TempCache) (aFirstByte aLastByte : UInt32) : Option (List UInt8 × Nat) :=
  readFrom aFirstByte aLastByte 0 c.iEntries

end TempCache

/-! ## The write stream -/

/-- Where a session reads. -/
structure ReadFilePosition where
  iReadPositionStructValid : Bool
  iReadFilePtr : UInt32
  iInTempCache : Bool

structure RepositionRequestStruct where
  iOutstanding : Bool
  iRequestCompleted : Bool
  iNewFilePosition : UInt32
  iFlushCache : Bool
  iRepositionSessionID : Nat

/-- `PVMFMemoryBufferWriteDataStreamImpl`. -/
structure WriteStream where
  iTempCache : TempCache
  released : List MemFrag
  iWriteSessionOpened : Bool
  iFilePtrPos : UInt32
  iContentLength : UInt32
  iThrowAwayData : Bool
  iMadePersistent : Bool
  iRepositionRequest : RepositionRequestStruct
  iReadFilePositions : Nat → ReadFilePosition
  iNumReadSessions : UInt32
  iAVTSessionID : Nat × Nat × Nat
  iAVTOffsetDelta : UInt32
  iStreamFormat : MBDSStreamFormat
  iTempCacheCapacity : UInt32
  iTempCacheTrimThreshold : UInt32
  iTempCacheTrimMargin : UInt32

def maxNumberOfReadConnections : Nat := 16
def tempCacheTrimMarginPS : UInt32 := 64000
def tempCacheTrimMarginSC : UInt32 := 4096
def bytesToWait : UInt32 := 4 * 1024
def fwdSeekingNoGetRequestThreshold : UInt32 := 64000

namespace WriteStream

def numEntries (s : WriteStream) : Nat := s.iTempCache.iEntries.length

/-- The first fragment goes back to the writer. -/
def releaseFirst (s : WriteStream) : WriteStream :=
  match s.iTempCache.removeFirstEntry with
  | none => s
  | some (frag, cache) => { s with iTempCache := cache, released := s.released ++ [frag] }

/-- The last fragment goes back to the writer. -/
def releaseLast (s : WriteStream) : WriteStream :=
  match s.iTempCache.removeLastEntry with
  | none => s
  | some (frag, cache) => { s with iTempCache := cache, released := s.released ++ [frag] }

/-- All fragments go back to the writer, the first one first. -/
def releaseAll (s : WriteStream) : WriteStream := Nat.iterate releaseFirst s.numEntries s

/-- Whether a session reads from the temporary cache. -/
def readsTempCache (s : WriteStream) (i : Nat) : Bool :=
  (s.iReadFilePositions i).iReadPositionStructValid && (s.iReadFilePositions i).iInTempCache

/-- The read pointers in the temporary cache; while nothing was made persistent, that of session 0 at offset 0 is
ignored. -/
def readPointers (s : WriteStream) : List UInt32 :=
  (List.range maxNumberOfReadConnections).filterMap fun i =>
    if s.readsTempCache i && !(i = 0 && (s.iReadFilePositions i).iReadFilePtr = 0) then
      some (s.iReadFilePositions i).iReadFilePtr
    else none

/-- The smallest read pointer. -/
def smallestPointer (s : WriteStream) : UInt32 :=
  s.readPointers.foldl (fun smallest ptr => if ptr < smallest then ptr else smallest) 0xFFFFFFFF

/-- Whether a session reads in an entry. -/
def readsEntry (s : WriteStream) (e : TempCacheEntry) : Bool :=
  (List.range maxNumberOfReadConnections).any fun i =>
    s.readsTempCache i && e.fileOffset ≤ (s.iReadFilePositions i).iReadFilePtr &&
      (s.iReadFilePositions i).iReadFilePtr < e.fileOffset + e.fragSize

/-! ### Trimming -/

/-- The loop of `ManageCache`, for as many turns as there are entries. -/
def manageLoop (smallest : UInt32) : Nat → WriteStream → WriteStream
  | 0, s => s
  | n + 1, s =>
    match s.iTempCache.iEntries.head? with
    | none => s
    | some e =>
      if s.iTempCache.iTotalBytes > s.iTempCacheTrimThreshold ∧ e.fileOffset + e.fragSize ≤ smallest ∧
          !s.readPointers.any fun ptr => ptr < e.fileOffset + e.fragSize then
        manageLoop smallest n s.releaseFirst
      else s

/-- `ManageCache`. -/
def manageCache (s : WriteStream) : WriteStream :=
  if s.iTempCache.iEntries.isEmpty || !s.iMadePersistent then s
  else if s.smallestPointer ≠ 0xFFFFFFFF then
    if s.smallestPointer - s.iTempCache.iFirstByteFileOffset ≤ s.iTempCacheTrimMargin then s
    else manageLoop (s.smallestPointer - s.iTempCacheTrimMargin) s.numEntries s
  else manageLoop s.smallestPointer s.numEntries s

/-- Trimming from the beginning. -/
def trimHead : Nat → WriteStream → WriteStream
  | 0, s => s
  | n + 1, s =>
    match s.iTempCache.iEntries.head? with
    | none => s
    | some e => if s.readsEntry e then s else trimHead n s.releaseFirst

/-- Trimming from the end; `half` is down to half of the capacity. -/
def trimTail (half : Bool) : Nat → WriteStream → WriteStream
  | 0, s => s
  | n + 1, s =>
    match s.iTempCache.iEntries.getLast? with
    | none => s
    | some e =>
      if half && !(s.iTempCache.iTotalBytes > s.iTempCacheCapacity >>> 1) then s
      else if s.readsEntry e then s
      else trimTail half n s.releaseLast

/-- `TrimTempCache`. -/
def trimTempCache (s : WriteStream) (aTrimMode : MBDSCacheTrimMode) : WriteStream :=
  let s := if aTrimMode = .empty then s.releaseAll else s
  let s := if aTrimMode = .headAndTail ∨ aTrimMode = .headOnly then trimHead s.numEntries s else s
  if aTrimMode = .headAndTail ∨ aTrimMode = .tailOnly then trimTail (aTrimMode = .tailOnly) s.numEntries s else s

/-! ### Read pointers -/

/-- Whether a session is one that reads. -/
def validSession (s : WriteStream) (aSessionID : Nat) : Bool :=
  !(aSessionID = 0) && aSessionID ≤ maxNumberOfReadConnections + 1 &&
    (s.iReadFilePositions (aSessionID - 1)).iReadPositionStructValid

def setReadFilePosition (s : WriteStream) (i : Nat) (f : ReadFilePosition → ReadFilePosition) : WriteStream :=
  { s with iReadFilePositions := fun j => if j = i then f (s.iReadFilePositions i) else s.iReadFilePositions j }

/-- The search for the sessions of audio, video and text. -/
def findAVTSessions (s : WriteStream) : Nat × Nat × Nat :=
  (List.range maxNumberOfReadConnections).foldl
    (fun (avt : Nat × Nat × Nat) i =>
      if s.readsTempCache i then
        if avt.1 = 0 then (i, avt.2.1, avt.2.2)
        else if avt.2.1 = 0 then (avt.1, i, avt.2.2)
        else if avt.2.2 = 0 then (avt.1, avt.2.1, i)
        else avt
      else avt)
    (0, 0, 0)

def updateAVTSessions (s : WriteStream) : WriteStream :=
  let old := s.iAVTSessionID
  if s.iMadePersistent && (old.1 = 0 || old.2.1 = 0 || old.2.2 = 0) then
    let avt := s.findAVTSessions
    if avt.1 ≠ 0 ∧ avt.2.1 ≠ 0 then
      { s with iAVTSessionID := (avt.1, avt.2.1, if avt.2.2 ≠ 0 then avt.2.2 else old.2.2) }
    else s
  else s

/-- Two pointers compared, where the source takes the comparison for a difference. -/
def comparedPointers (a b : UInt32) : UInt32 := if a > b then 1 else if b > a then 1 else 0

/-- The largest delta of the read pointers of audio, video and text. -/
def avtOffsetDelta (s : WriteStream) : UInt32 :=
  let ptr := fun i => (s.iReadFilePositions i).iReadFilePtr
  let (first, second, third) := s.iAVTSessionID
  let delta := if ptr first > ptr second then ptr first - ptr second else ptr second - ptr first
  if third ≠ 0 then
    let delta := if comparedPointers (ptr second) (ptr third) > delta then comparedPointers (ptr second) (ptr third)
      else delta
    if comparedPointers (ptr first) (ptr third) > delta then comparedPointers (ptr first) (ptr third) else delta
  else delta

/-- `SetReadPointerPosition`. -/
def setReadPointerPosition (s : WriteStream) (aSessionID : Nat) (aFilePosition : UInt32) : WriteStream :=
  let s := s.updateAVTSessions
  if !s.validSession aSessionID then s
  else
    let index := aSessionID - 1
    let s := s.setReadFilePosition index fun position => { position with iReadFilePtr := aFilePosition }
    let (first, second, third) := s.iAVTSessionID
    if (s.iReadFilePositions index).iInTempCache && first ≠ 0 && second ≠ 0 &&
        (index = first || index = second || index = third) then
      { s with iAVTOffsetDelta := s.avtOffsetDelta }
    else s

/-- `SetReadPointerCacheLocation`. -/
def setReadPointerCacheLocation (s : WriteStream) (aSessionID : Nat) (aInTempCache : Bool) : WriteStream :=
  if !s.validSession aSessionID then s
  else s.setReadFilePosition (aSessionID - 1) fun position => { position with iInTempCache := aInTempCache }

/-- `QueryWriteCapacity`. -/
def queryWriteCapacity (s : WriteStream) : UInt32 :=
  if s.iTempCache.iTotalBytes ≥ s.iTempCacheCapacity then 0 else s.iTempCacheCapacity - s.iTempCache.iTotalBytes

/-! ### Repositioning -/

/-- Whether the data at an offset is on its way, and worth waiting for. -/
def enRoute (s : WriteStream) (aOffset : UInt32) : Bool :=
  let writeCap := s.queryWriteCapacity
  let smallest := s.smallestPointer
  aOffset ≥ s.iFilePtrPos && writeCap ≠ 0 && writeCap + s.iFilePtrPos > aOffset && !s.readPointers.isEmpty &&
    ((smallest < s.iFilePtrPos && aOffset - s.iTempCache.iLastByteFileOffset ≤ fwdSeekingNoGetRequestThreshold) ||
      (smallest ≥ s.iFilePtrPos && s.iFilePtrPos + fwdSeekingNoGetRequestThreshold > smallest &&
        smallest - s.iFilePtrPos < writeCap && s.iAVTOffsetDelta < s.iTempCacheCapacity))

/-- `Reposition`; `requestFails` is whether the request to the writer leaves. -/
def reposition (s : WriteStream) (aSessionID : Nat) (aOffset : UInt32) (aMode : MBDSRepositionMode)
    (requestFails : Bool) : PvmiDataStreamStatus × WriteStream :=
  if aSessionID = 0 ∨ aSessionID > maxNumberOfReadConnections + 1 then (.failure, s)
  else if s.enRoute aOffset then (.success, s)
  else if s.iRepositionRequest.iOutstanding then
    (if aOffset < s.iRepositionRequest.iNewFilePosition then .failure else .success, s)
  else
    let margin := if aOffset > tempCacheTrimMarginPS then aOffset - tempCacheTrimMarginPS else 0
    let position := if aMode = .exact then aOffset else margin
    let request : RepositionRequestStruct :=
      { iOutstanding := true
        iRequestCompleted := false
        iNewFilePosition := position
        iFlushCache := aMode = .withMargin
        iRepositionSessionID := aSessionID - 1 }
    let s := if aMode = .withMargin then s.setReadPointerPosition aSessionID position else s
    let s := { s with iRepositionRequest := request }
    if requestFails then (.failure, s) else (.success, { s with iThrowAwayData := true })

/-- `SourceRequestCompleted`. -/
def sourceRequestCompleted (s : WriteStream) (success : Bool) : WriteStream :=
  let s := { s with iRepositionRequest := { s.iRepositionRequest with iRequestCompleted := true } }
  if !success then s
  else
    let s := { s with
      iThrowAwayData := false
      iFilePtrPos := s.iRepositionRequest.iNewFilePosition }
    if s.iRepositionRequest.iFlushCache then s.trimTempCache .empty else s

/-! ### Writing -/

/-- In `Write`: with the first data after it, repositioning is finally done. -/
def repositionDone (s : WriteStream) : WriteStream :=
  if s.iRepositionRequest.iOutstanding && s.iRepositionRequest.iRequestCompleted then
    { s with iRepositionRequest := { s.iRepositionRequest with iOutstanding := false } }
  else s

/-- In `Write`: a cache that the fragment does not follow is emptied. -/
def flushGap (s : WriteStream) : WriteStream :=
  if s.iFilePtrPos ≠ s.iTempCache.iLastByteFileOffset + 1 then s.releaseAll else s

/-- `Write`. -/
def write (s : WriteStream) (aSessionID : Nat) (aFrag : MemFrag) (memory : Bool) :
    PvmiDataStreamStatus × WriteStream :=
  if !(aSessionID = 0 && s.iWriteSessionOpened) then (.failure, s)
  else if s.iThrowAwayData then (.success, s)
  else
    let s := s.repositionDone.flushGap
    let (status, cache) := s.iTempCache.addEntry aFrag s.iFilePtrPos memory
    let s := { s with iTempCache := cache }.manageCache
    if status = .success then (.pending, { s with iFilePtrPos := s.iFilePtrPos + aFrag.getMemFragSize })
    else (status, s)

/-- `Seek`. -/
def seek (s : WriteStream) (aSessionID : Nat) (aOffset : Int32) (aOrigin : PvmiDataStreamSeekType) :
    PvmiDataStreamStatus × WriteStream :=
  if !(aSessionID = 0 && s.iWriteSessionOpened) then (.success, s)
  else
    match aOrigin with
    | .seekSet => (.success, { s with iFilePtrPos := aOffset.toUInt32 })
    | .seekCur => (.success, { s with iFilePtrPos := s.iFilePtrPos + aOffset.toUInt32 })
    | .seekEnd =>
      if s.iContentLength = 0 then (.failure, s)
      else (.success, { s with iFilePtrPos := s.iContentLength - aOffset.toUInt32 - 1 })
    | _ => (.failure, s)

/-- `Flush`. -/
def flush (s : WriteStream) (aSessionID : Nat) : PvmiDataStreamStatus × WriteStream :=
  if aSessionID ≠ 0 ∨ !s.iWriteSessionOpened then (.failure, s) else (.success, s.trimTempCache .empty)

/-! ### Sessions -/

/-- `OpenSession` for writing. -/
def openWriteSession (s : WriteStream) : PvmiDataStreamStatus × WriteStream :=
  if s.iWriteSessionOpened then (.invalidRequest, s)
  else (.success, { s with iWriteSessionOpened := true, iFilePtrPos := 0 })

/-- `OpenSession` for reading, and the session if there is one. -/
def openReadSession (s : WriteStream) : PvmiDataStreamStatus × Nat × WriteStream :=
  if s.iNumReadSessions < UInt32.ofNat maxNumberOfReadConnections then
    let free := fun i => !(s.iReadFilePositions i).iReadPositionStructValid
    match (List.range maxNumberOfReadConnections).find? free with
    | none => (.invalidRequest, 0, s)
    | some i =>
      let s := s.setReadFilePosition i fun _ => ⟨true, 0, true⟩
      (.success, i + 1, { s with iNumReadSessions := s.iNumReadSessions + 1 })
  else (.invalidRequest, 0, s)

/-- The sessions of audio, video and text without one that is closed. -/
def withoutAVTSession (avt : Nat × Nat × Nat) (sessionId : Nat) : Nat × Nat × Nat :=
  if sessionId = avt.1 then (avt.2.1, avt.2.2, 0)
  else if sessionId = avt.2.1 then (avt.1, avt.2.2, 0)
  else if sessionId = avt.2.2 then (avt.1, avt.2.1, 0)
  else avt

/-- `CloseSession`. -/
def closeSession (s : WriteStream) (aSessionID : Nat) : PvmiDataStreamStatus × WriteStream :=
  if aSessionID = 0 then
    if !s.iWriteSessionOpened then (.failure, s)
    else (.success, { s with iWriteSessionOpened := false }.trimTempCache .empty)
  else if !s.validSession aSessionID then (.invalidSession, s)
  else
    let sessionId := aSessionID - 1
    let request := s.iRepositionRequest
    let s := s.setReadFilePosition sessionId fun position => { position with iReadPositionStructValid := false }
    (.success,
      { s with
        iRepositionRequest :=
          if sessionId = request.iRepositionSessionID then { request with iOutstanding := false } else request
        iNumReadSessions := s.iNumReadSessions - 1
        iAVTSessionID := withoutAVTSession s.iAVTSessionID sessionId })

/-- `SetContentLength`. -/
def setContentLength (s : WriteStream) (aContentLength : UInt32) : WriteStream :=
  { s with iContentLength := aContentLength }

/-- `MakePersistent`, with nothing to copy. -/
def makePersistent (s : WriteStream) : WriteStream := { s with iMadePersistent := true }

/-- `SetBufferingCapacityAndTrimMargin`. -/
def setBufferingCapacityAndTrimMargin (s : WriteStream) (aMinCapacity aTrimMargin : UInt32) : WriteStream :=
  { s with
    iTempCacheCapacity := aMinCapacity
    iTempCacheTrimThreshold := aMinCapacity * 2 / 3
    iTempCacheTrimMargin := if s.iStreamFormat = .shoutcast then tempCacheTrimMarginSC else aTrimMargin }

end WriteStream

/-! ## The read streams -/

/-- `PVMFMemoryBufferReadDataStreamImpl`. -/
structure ReadStream where
  iSessionID : Nat
  iFilePtrPos : UInt32
  iReadSessionOpened : Bool

/-- The write stream and its read streams. -/
structure Streams where
  writeStream : WriteStream
  readStreams : Nat → ReadStream

namespace Streams

def setReadStream (s : Streams) (r : Nat) (stream : ReadStream) : Streams :=
  { s with readStreams := fun i => if i = r then stream else s.readStreams i }

def setWriteStream (s : Streams) (writeStream : WriteStream) : Streams := { s with writeStream }

/-- `OpenSession` of a read stream. -/
def openSession (s : Streams) (r : Nat) : PvmiDataStreamStatus × Streams :=
  let stream := s.readStreams r
  if stream.iReadSessionOpened then (.invalidRequest, s)
  else
    let stream := { stream with
      iReadSessionOpened := true
      iFilePtrPos := 0 }
    if stream.iSessionID = 0 then
      let (status, session, writeStream) := s.writeStream.openReadSession
      (status, (s.setReadStream r { stream with iSessionID := session }).setWriteStream writeStream)
    else (.success, s.setReadStream r stream)

/-- `CloseSession` of a read stream. -/
def closeSession (s : Streams) (r : Nat) : PvmiDataStreamStatus × Streams :=
  let stream := s.readStreams r
  if !stream.iReadSessionOpened then (.invalidRequest, s)
  else
    (.success, (s.setReadStream r { stream with iReadSessionOpened := false }).setWriteStream
      (s.writeStream.closeSession stream.iSessionID).2)

/-- Whether the data at an offset outside of the cache has to be asked for. -/
def needsReposition (c : TempCache) (capacity firstByteToRead : UInt32) : Bool :=
  let first := c.iFirstByteFileOffset
  let last := c.iLastByteFileOffset
  firstByteToRead < first || firstByteToRead - last > bytesToWait ||
    (firstByteToRead - last ≤ bytesToWait && last - first + 1 ≥ capacity)

/-- `Read` of a read stream, with the bytes that it copies. -/
def read (s : Streams) (r : Nat) (aSize aNumElements : UInt32) (requestFails : Bool) :
    Option (PvmiDataStreamStatus × List UInt8 × Streams) :=
  let stream := s.readStreams r
  if !stream.iReadSessionOpened then some (.invalidRequest, [], s)
  else
    let cache := s.writeStream.iTempCache
    let bytesToRead := aSize * aNumElements
    let firstByteToRead := stream.iFilePtrPos
    let lastByteToRead := stream.iFilePtrPos + bytesToRead - 1
    if cache.iEntries.isEmpty || firstByteToRead < cache.iFirstByteFileOffset ||
        firstByteToRead > cache.iLastByteFileOffset then
      if needsReposition cache s.writeStream.iTempCacheCapacity firstByteToRead then
        let (status, writeStream) :=
          s.writeStream.reposition stream.iSessionID firstByteToRead .withMargin requestFails
        some (.failure, [],
          s.setWriteStream (if status = .success then writeStream.trimTempCache .headAndTail else writeStream))
      else some (.failure, [], s)
    else
      let aLastByte :=
        if cache.iLastByteFileOffset < lastByteToRead then cache.iLastByteFileOffset else lastByteToRead
      match cache.readBytes firstByteToRead aLastByte with
      | none => none
      | some (data, firstEntry) =>
        if aSize = 0 then none
        else
          let position := firstByteToRead + UInt32.ofNat data.length
          let writeStream := s.writeStream.setReadPointerCacheLocation stream.iSessionID true
          let writeStream := writeStream.setReadPointerPosition stream.iSessionID position
          let writeStream := if !data.isEmpty && firstEntry ≠ 0 then writeStream.manageCache else writeStream
          some (.success, data,
            (s.setReadStream r { stream with iFilePtrPos := position }).setWriteStream writeStream)

/-- Where a seek of a read stream leads to, if it does not fail. -/
def seekTarget (iFilePtrPos contentLength : UInt32) (aOffset : UInt32) : PvmiDataStreamSeekType → Option UInt32
  | .seekSet | .skipSet => if contentLength ≠ 0 ∧ aOffset ≥ contentLength then none else some aOffset
  | .seekCur | .skipCur =>
    if contentLength ≠ 0 ∧ iFilePtrPos + aOffset ≥ contentLength then none else some (iFilePtrPos + aOffset)
  | .seekEnd | .skipEnd =>
    if contentLength = 0 ∨ contentLength ≤ aOffset then none else some (contentLength - aOffset - 1)

def isSkip : PvmiDataStreamSeekType → Bool
  | .skipSet | .skipCur | .skipEnd => true
  | _ => false

/-- Whether the data that is skipped to is expected shortly. -/
def expectedShortly (w : WriteStream) (skipTo : UInt32) : Bool :=
  let first := w.iTempCache.iFirstByteFileOffset
  let last := w.iTempCache.iLastByteFileOffset
  let capacity := w.queryWriteCapacity
  skipTo ≥ first && last + fwdSeekingNoGetRequestThreshold ≥ skipTo && capacity > 64000 &&
    last + capacity > skipTo + bytesToWait

/-- `Seek` of a read stream. -/
def seek (s : Streams) (r : Nat) (aOffset : Int32) (aOrigin : PvmiDataStreamSeekType) (requestFails : Bool) :
    PvmiDataStreamStatus × Streams :=
  let stream := s.readStreams r
  if !stream.iReadSessionOpened then (.invalidRequest, s)
  else
    match seekTarget stream.iFilePtrPos s.writeStream.iContentLength aOffset.toUInt32 aOrigin with
    | none => (.failure, s)
    | some position =>
      if !isSkip aOrigin then
        (.success, (s.setReadStream r { stream with iFilePtrPos := position }).setWriteStream
          (s.writeStream.setReadPointerPosition stream.iSessionID position))
      else if expectedShortly s.writeStream position then (.success, s)
      else
        let (status, writeStream) := s.writeStream.reposition stream.iSessionID position .withMargin requestFails
        (status, s.setWriteStream writeStream)

end Streams

/-- The streams when they are made; the request is not initialised, but for `iOutstanding`. -/
def construct (aStreamFormat : MBDSStreamFormat) (aTempCacheCapacity : UInt32) (request : RepositionRequestStruct) :
    Streams where
  writeStream :=
    { iTempCache := .clear
      released := []
      iWriteSessionOpened := false
      iFilePtrPos := 0
      iContentLength := 0
      iThrowAwayData := false
      iMadePersistent := false
      iRepositionRequest := { request with iOutstanding := false }
      iReadFilePositions := fun _ => ⟨false, 0, false⟩
      iNumReadSessions := 0
      iAVTSessionID := (0, 0, 0)
      iAVTOffsetDelta := 0
      iStreamFormat := aStreamFormat
      iTempCacheCapacity := aTempCacheCapacity
      iTempCacheTrimThreshold :=
        if aStreamFormat = .shoutcast then aTempCacheCapacity / 6 else aTempCacheCapacity * 2 / 3
      iTempCacheTrimMargin := if aStreamFormat = .shoutcast then tempCacheTrimMarginSC else tempCacheTrimMarginPS }
  readStreams := fun _ => ⟨0, 0, false⟩

end Ftke.MemoryBuffer
