import Ftke.MemoryBuffer.Cache
import Ftke.Run

/-!
# Ftke.MemoryBuffer.Integrity

Calls of the streams in any order.

Every fragment that `Write` takes is in the cache or has gone back to the writer once, and every byte that `Read`
copies is the one that was written at its offset last (`Session.Good`).  Offsets have 32 bits, and nothing keeps a
fragment from going over their end, nor the last byte of a read: `Fits` says that neither happens, and
`cacheGood_of_run` that all is well then.
-/

namespace Ftke.MemoryBuffer

variable {written : Nat → Option UInt8} {accepted : List MemFrag}

namespace WriteStream

/-! ## The cache of the write stream -/

/-- The cache holds what was written, and every fragment is in it or has been released. -/
structure Intact (written : Nat → Option UInt8) (accepted : List MemFrag) (s : WriteStream) : Prop where
  cached : s.iTempCache.Cached written
  accounted : (s.released ++ s.iTempCache.iEntries.map TempCacheEntry.frag).Perm accepted

variable {s t : WriteStream}

theorem Intact.congr (h : s.Intact written accepted) (hcache : t.iTempCache = s.iTempCache)
    (hreleased : t.released = s.released) : t.Intact written accepted :=
  ⟨hcache ▸ h.cached, by rw [hreleased, hcache]; exact h.accounted⟩

theorem Intact.releaseFirst (h : s.Intact written accepted) : s.releaseFirst.Intact written accepted := by
  rw [WriteStream.releaseFirst]
  split
  · exact h
  · next frag cache hr =>
    obtain ⟨hcached, hfrags⟩ := h.cached.removeFirst hr
    refine ⟨hcached, ?_⟩
    have haccounted := h.accounted
    rw [hfrags] at haccounted
    simpa using haccounted

theorem Intact.releaseLast (h : s.Intact written accepted) : s.releaseLast.Intact written accepted := by
  rw [WriteStream.releaseLast]
  split
  · exact h
  · next frag cache hr =>
    obtain ⟨hcached, hfrags⟩ := h.cached.removeLast hr
    refine ⟨hcached, ?_⟩
    have haccounted := h.accounted
    rw [hfrags] at haccounted
    simp only [List.append_assoc]
    exact (List.Perm.append_left s.released List.perm_append_comm).trans haccounted

theorem Intact.releaseAll (h : s.Intact written accepted) : s.releaseAll.Intact written accepted := by
  have hiterate : ∀ n t, Intact written accepted t →
      (Nat.iterate WriteStream.releaseFirst n t).Intact written accepted := by
    intro n
    induction n with
    | zero => exact fun _ ht => ht
    | succ n ih => exact fun t ht => ih _ ht.releaseFirst
  exact hiterate _ s h

theorem Intact.manageLoop (smallest : UInt32) (n : Nat) (h : s.Intact written accepted) :
    (manageLoop smallest n s).Intact written accepted := by
  induction n generalizing s with
  | zero => exact h
  | succ n ih =>
    rw [WriteStream.manageLoop]
    split
    · exact h
    · split
      · exact ih h.releaseFirst
      · exact h

theorem Intact.manageCache (h : s.Intact written accepted) : s.manageCache.Intact written accepted := by
  rw [WriteStream.manageCache]
  split
  · exact h
  · split
    · split
      · exact h
      · exact h.manageLoop _ _
    · exact h.manageLoop _ _

theorem Intact.trimHead (n : Nat) (h : s.Intact written accepted) : (trimHead n s).Intact written accepted := by
  induction n generalizing s with
  | zero => exact h
  | succ n ih =>
    rw [WriteStream.trimHead]
    split
    · exact h
    · split
      · exact h
      · exact ih h.releaseFirst

theorem Intact.trimTail (half : Bool) (n : Nat) (h : s.Intact written accepted) :
    (trimTail half n s).Intact written accepted := by
  induction n generalizing s with
  | zero => exact h
  | succ n ih =>
    rw [WriteStream.trimTail]
    split
    · exact h
    · split
      · exact h
      · split
        · exact h
        · exact ih h.releaseLast

theorem Intact.trimTempCache (h : s.Intact written accepted) (aTrimMode : MBDSCacheTrimMode) :
    (s.trimTempCache aTrimMode).Intact written accepted := by
  cases aTrimMode with
  | none => exact h
  | headOnly => exact h.trimHead _
  | tailOnly => exact h.trimTail _ _
  | headAndTail => exact (h.trimHead _).trimTail _ _
  | empty => exact h.releaseAll

/-! ## Calls that leave the cache alone -/

theorem Intact.updateAVTSessions (h : s.Intact written accepted) : s.updateAVTSessions.Intact written accepted := by
  simp only [WriteStream.updateAVTSessions]
  split
  · split
    · exact h.congr rfl rfl
    · exact h
  · exact h

theorem Intact.setReadPointerPosition (h : s.Intact written accepted) (aSessionID : Nat) (aFilePosition : UInt32) :
    (s.setReadPointerPosition aSessionID aFilePosition).Intact written accepted := by
  simp only [WriteStream.setReadPointerPosition]
  split
  · exact h.updateAVTSessions
  · split
    · exact h.updateAVTSessions.congr rfl rfl
    · exact h.updateAVTSessions.congr rfl rfl

theorem Intact.setReadPointerCacheLocation (h : s.Intact written accepted) (aSessionID : Nat) (aInTempCache : Bool) :
    (s.setReadPointerCacheLocation aSessionID aInTempCache).Intact written accepted := by
  rw [WriteStream.setReadPointerCacheLocation]
  split
  · exact h
  · exact h.congr rfl rfl

theorem Intact.reposition (h : s.Intact written accepted) (aSessionID : Nat) (aOffset : UInt32)
    (aMode : MBDSRepositionMode) (requestFails : Bool) :
    (s.reposition aSessionID aOffset aMode requestFails).2.Intact written accepted := by
  simp only [WriteStream.reposition]
  split
  · exact h
  · split
    · exact h
    · split
      · exact h
      · have hmode : ∀ position, WriteStream.Intact written accepted
            (if aMode = .withMargin then s.setReadPointerPosition aSessionID position else s) := fun position => by
          split
          · exact h.setReadPointerPosition _ _
          · exact h
        split
        · exact (hmode _).congr rfl rfl
        · exact (hmode _).congr rfl rfl

theorem Intact.openReadSession (h : s.Intact written accepted) : s.openReadSession.2.2.Intact written accepted := by
  simp only [WriteStream.openReadSession]
  split
  · split
    · exact h
    · exact h.congr rfl rfl
  · exact h

/-! ## Calls that change it -/

theorem Intact.sourceRequestCompleted (h : s.Intact written accepted) (success : Bool) :
    (s.sourceRequestCompleted success).Intact written accepted := by
  simp only [WriteStream.sourceRequestCompleted]
  split
  · exact h.congr rfl rfl
  · split
    · refine Intact.trimTempCache ?_ .empty
      exact h.congr rfl rfl
    · exact h.congr rfl rfl

theorem Intact.seek (h : s.Intact written accepted) (aSessionID : Nat) (aOffset : Int32)
    (aOrigin : PvmiDataStreamSeekType) : (s.seek aSessionID aOffset aOrigin).2.Intact written accepted := by
  simp only [WriteStream.seek]
  split
  · exact h
  · split
    · exact h.congr rfl rfl
    · exact h.congr rfl rfl
    · split
      · exact h
      · exact h.congr rfl rfl
    · exact h

theorem Intact.flush (h : s.Intact written accepted) (aSessionID : Nat) :
    (s.flush aSessionID).2.Intact written accepted := by
  rw [WriteStream.flush]
  split
  · exact h
  · exact h.trimTempCache .empty

theorem Intact.openWriteSession (h : s.Intact written accepted) : s.openWriteSession.2.Intact written accepted := by
  rw [WriteStream.openWriteSession]
  split
  · exact h
  · exact h.congr rfl rfl

theorem Intact.closeSession (h : s.Intact written accepted) (aSessionID : Nat) :
    (s.closeSession aSessionID).2.Intact written accepted := by
  rw [WriteStream.closeSession]
  split
  · split
    · exact h
    · refine Intact.trimTempCache ?_ .empty
      exact h.congr rfl rfl
  · split
    · exact h
    · exact h.congr rfl rfl

/-- Whether a fragment for a session is put into the cache. -/
def accepts (s : WriteStream) (aSessionID : Nat) : Bool :=
  aSessionID = 0 && s.iWriteSessionOpened && !s.iThrowAwayData

@[simp] theorem iFilePtrPos_releaseAll (s : WriteStream) : s.releaseAll.iFilePtrPos = s.iFilePtrPos := by
  have hiterate : ∀ n t, (Nat.iterate WriteStream.releaseFirst n t).iFilePtrPos = t.iFilePtrPos := by
    intro n
    induction n with
    | zero => exact fun _ => rfl
    | succ n ih =>
      intro t
      rw [Function.iterate_succ_apply, ih, WriteStream.releaseFirst]
      split <;> rfl
  exact hiterate _ s

theorem Intact.repositionDone (h : s.Intact written accepted) : s.repositionDone.Intact written accepted := by
  rw [WriteStream.repositionDone]
  split
  · exact h.congr rfl rfl
  · exact h

theorem Intact.flushGap (h : s.Intact written accepted) : s.flushGap.Intact written accepted := by
  rw [WriteStream.flushGap]
  split
  · exact h.releaseAll
  · exact h

theorem iFilePtrPos_flushGap (s : WriteStream) : s.repositionDone.flushGap.iFilePtrPos = s.iFilePtrPos := by
  have hdone : s.repositionDone.iFilePtrPos = s.iFilePtrPos := by
    rw [WriteStream.repositionDone]
    split <;> rfl
  rw [WriteStream.flushGap]
  split
  · rw [iFilePtrPos_releaseAll, hdone]
  · exact hdone

theorem Intact.addEntry (h : s.Intact written accepted) (aFrag : MemFrag) (memory : Bool)
    (hfits : s.iFilePtrPos.toNat + aFrag.bytes.length < 2 ^ 32) :
    if (s.iTempCache.addEntry aFrag s.iFilePtrPos memory).1 = .success then
      WriteStream.Intact (overwritten written s.iFilePtrPos.toNat aFrag.bytes) (accepted ++ [aFrag])
        { s with iTempCache := (s.iTempCache.addEntry aFrag s.iFilePtrPos memory).2 }
    else
      WriteStream.Intact written accepted
        { s with iTempCache := (s.iTempCache.addEntry aFrag s.iFilePtrPos memory).2 } := by
  obtain ⟨hsuccess, hcached, hfrags⟩ | ⟨hfailure, hsame⟩ := h.cached.add (Prod.eta _).symm hfits
  · rw [if_pos hsuccess]
    refine ⟨hcached, ?_⟩
    rw [hfrags, ← List.append_assoc]
    exact h.accounted.append_right [aFrag]
  · rw [if_neg hfailure, hsame]
    exact h

theorem Intact.write (h : s.Intact written accepted) {aSessionID : Nat} {aFrag : MemFrag} (memory : Bool)
    (hfits : s.accepts aSessionID → s.iFilePtrPos.toNat + aFrag.bytes.length < 2 ^ 32) :
    if (s.write aSessionID aFrag memory).1 = .pending then
      (s.write aSessionID aFrag memory).2.Intact (overwritten written s.iFilePtrPos.toNat aFrag.bytes)
        (accepted ++ [aFrag])
    else (s.write aSessionID aFrag memory).2.Intact written accepted := by
  cases hopen : (aSessionID = 0 && s.iWriteSessionOpened : Bool) with
  | false =>
    rw [WriteStream.write, hopen]
    exact h
  | true =>
    cases hthrow : s.iThrowAwayData with
    | true =>
      rw [WriteStream.write, hopen, hthrow]
      exact h
    | false =>
      have hfits := hfits (by rw [accepts, hopen, hthrow]; rfl)
      have hadd := h.repositionDone.flushGap.addEntry aFrag memory
        (by rw [iFilePtrPos_flushGap]; exact hfits)
      simp only [WriteStream.write, hopen, hthrow, Bool.not_true, Bool.false_eq_true, if_false]
      split at hadd
      · next hsuccess =>
        simp only [hsuccess, if_true]
        rw [iFilePtrPos_flushGap] at hadd ⊢
        exact hadd.manageCache.congr rfl rfl
      · next hfailure =>
        simp only [hfailure, if_false]
        rw [if_neg (TempCache.addEntry_ne_pending _ _ _ _)]
        exact hadd.manageCache

end WriteStream

namespace Streams

/-! ## The read streams -/

variable {s : Streams}

theorem intact_openSession (h : s.writeStream.Intact written accepted) (r : Nat) :
    (s.openSession r).2.writeStream.Intact written accepted := by
  simp only [openSession]
  split
  · exact h
  · split
    · exact h.openReadSession
    · exact h

theorem intact_closeSession (h : s.writeStream.Intact written accepted) (r : Nat) :
    (s.closeSession r).2.writeStream.Intact written accepted := by
  simp only [closeSession]
  split
  · exact h
  · exact h.closeSession _

theorem intact_seek (h : s.writeStream.Intact written accepted) (r : Nat) (aOffset : Int32)
    (aOrigin : PvmiDataStreamSeekType) (requestFails : Bool) :
    (s.seek r aOffset aOrigin requestFails).2.writeStream.Intact written accepted := by
  simp only [seek]
  split
  · exact h
  · split
    · exact h
    · split
      · exact h.setReadPointerPosition _ _
      · split
        · exact h
        · exact h.reposition _ _ _ _

/-- Whether the first byte to be read is in the cache. -/
def hits (s : Streams) (r : Nat) : Bool :=
  (s.readStreams r).iReadSessionOpened && !s.writeStream.iTempCache.iEntries.isEmpty &&
    s.writeStream.iTempCache.iFirstByteFileOffset ≤ (s.readStreams r).iFilePtrPos &&
    (s.readStreams r).iFilePtrPos ≤ s.writeStream.iTempCache.iLastByteFileOffset

theorem le_lastByte {pos n last : UInt32} (hfits : pos.toNat + n.toNat ≤ 2 ^ 32) (hpos : pos ≤ last)
    (hlast : last.toNat + 1 < 2 ^ 32) :
    pos.toNat ≤ (if last < pos + n - 1 then last else pos + n - 1).toNat + 1 := by
  rw [UInt32.le_iff_toNat_le] at hpos
  split
  · omega
  · next hge =>
    rw [UInt32.lt_iff_toNat_lt] at hge
    rw [UInt32.toNat_sub, UInt32.toNat_add, UInt32.toNat_one] at hge ⊢
    omega

theorem read_spec (h : s.writeStream.Intact written accepted) {r : Nat} {aSize aNumElements : UInt32}
    (requestFails : Bool) (hfits : s.hits r →
      aSize ≠ 0 ∧ (s.readStreams r).iFilePtrPos.toNat + (aSize * aNumElements).toNat ≤ 2 ^ 32) :
    ∃ status data t, s.read r aSize aNumElements requestFails = some (status, data, t) ∧
      t.writeStream.Intact written accepted ∧ BytesAt written (s.readStreams r).iFilePtrPos.toNat data := by
  simp only [read]
  split
  · exact ⟨_, _, _, rfl, h, BytesAt.nil⟩
  · next hopen =>
    split
    · split
      · refine ⟨_, _, _, rfl, ?_, BytesAt.nil⟩
        simp only [setWriteStream]
        split
        · exact (h.reposition _ _ _ _).trimTempCache _
        · exact h.reposition _ _ _ _
      · exact ⟨_, _, _, rfl, h, BytesAt.nil⟩
    · next hmiss =>
      simp only [Bool.or_eq_true, decide_eq_true_eq, not_or, Bool.not_eq_true] at hmiss
      obtain ⟨⟨hne, hfirst⟩, hlast⟩ := hmiss
      have hpos : (s.readStreams r).iFilePtrPos ≤ s.writeStream.iTempCache.iLastByteFileOffset :=
        UInt32.not_lt.mp hlast
      have hhits : s.hits r = true := by
        simp only [hits, hne, hpos, UInt32.not_lt.mp hfirst, decide_true, Bool.not_false, Bool.and_true]
        simpa using hopen
      obtain ⟨hsize, hfits⟩ := hfits hhits
      obtain ⟨data, firstEntry, hread, hdata⟩ := h.cached.readBytes (le_lastByte hfits hpos h.cached.fits)
      simp only [hread, hsize, if_false]
      refine ⟨_, _, _, rfl, ?_, hdata⟩
      have hset := (h.setReadPointerCacheLocation (s.readStreams r).iSessionID true).setReadPointerPosition
        (s.readStreams r).iSessionID ((s.readStreams r).iFilePtrPos + UInt32.ofNat data.length)
      simp only [setWriteStream]
      split
      · exact hset.manageCache
      · exact hset

end Streams

/-! ## Sessions -/

/-- A call of one of the streams, with what the environment makes of it. -/
inductive Call
  | openSession
  | closeSession (aSessionID : Nat)
  | write (aSessionID : Nat) (aFrag : MemFrag) (memory : Bool)
  | seek (aSessionID : Nat) (aOffset : Int32) (aOrigin : PvmiDataStreamSeekType)
  | flush (aSessionID : Nat)
  | sourceRequestCompleted (success : Bool)
  | reposition (aSessionID : Nat) (aOffset : UInt32) (aMode : MBDSRepositionMode) (requestFails : Bool)
  | manageCache
  | trimTempCache (aTrimMode : MBDSCacheTrimMode)
  | makePersistent
  | setContentLength (aContentLength : UInt32)
  | setBufferingCapacityAndTrimMargin (aMinCapacity aTrimMargin : UInt32)
  | openReadSession (r : Nat)
  | closeReadSession (r : Nat)
  | seekRead (r : Nat) (aOffset : Int32) (aOrigin : PvmiDataStreamSeekType) (requestFails : Bool)
  | read (r : Nat) (aSize aNumElements : UInt32) (requestFails : Bool)

/-- The streams, the fragments that `Write` took, what was written where last, and the bytes that the last call read,
with the offset of the first one. -/
structure Session where
  streams : Streams
  accepted : List MemFrag
  written : Nat → Option UInt8
  lastRead : Option (UInt32 × List UInt8)
  failed : Bool

namespace Session

/-- A call that neither writes nor reads. -/
def move (s : Session) (streams : Streams) : Session := { s with
  streams := streams
  lastRead := none }

/-- The same, of the write stream. -/
def moveWrite (s : Session) (writeStream : WriteStream) : Session := s.move (s.streams.setWriteStream writeStream)

/-- A call of `Write`. -/
def write (s : Session) (aSessionID : Nat) (aFrag : MemFrag) (memory : Bool) : Session :=
  let stream := s.streams.writeStream
  let (status, writeStream) := stream.write aSessionID aFrag memory
  if status = .pending then
    { s.moveWrite writeStream with
      accepted := s.accepted ++ [aFrag]
      written := overwritten s.written stream.iFilePtrPos.toNat aFrag.bytes }
  else s.moveWrite writeStream

/-- A call of `Read`. -/
def read (s : Session) (r : Nat) (aSize aNumElements : UInt32) (requestFails : Bool) : Session :=
  match s.streams.read r aSize aNumElements requestFails with
  | some (_, data, streams) =>
    { s.move streams with lastRead := some ((s.streams.readStreams r).iFilePtrPos, data) }
  | none => { s.move s.streams with failed := true }

def step (s : Session) : Call → Session
  | .openSession => s.moveWrite s.streams.writeStream.openWriteSession.2
  | .closeSession aSessionID => s.moveWrite (s.streams.writeStream.closeSession aSessionID).2
  | .write aSessionID aFrag memory => s.write aSessionID aFrag memory
  | .seek aSessionID aOffset aOrigin => s.moveWrite (s.streams.writeStream.seek aSessionID aOffset aOrigin).2
  | .flush aSessionID => s.moveWrite (s.streams.writeStream.flush aSessionID).2
  | .sourceRequestCompleted success => s.moveWrite (s.streams.writeStream.sourceRequestCompleted success)
  | .reposition aSessionID aOffset aMode requestFails =>
    s.moveWrite (s.streams.writeStream.reposition aSessionID aOffset aMode requestFails).2
  | .manageCache => s.moveWrite s.streams.writeStream.manageCache
  | .trimTempCache aTrimMode => s.moveWrite (s.streams.writeStream.trimTempCache aTrimMode)
  | .makePersistent => s.moveWrite s.streams.writeStream.makePersistent
  | .setContentLength aContentLength => s.moveWrite (s.streams.writeStream.setContentLength aContentLength)
  | .setBufferingCapacityAndTrimMargin aMinCapacity aTrimMargin =>
    s.moveWrite (s.streams.writeStream.setBufferingCapacityAndTrimMargin aMinCapacity aTrimMargin)
  | .openReadSession r => s.move (s.streams.openSession r).2
  | .closeReadSession r => s.move (s.streams.closeSession r).2
  | .seekRead r aOffset aOrigin requestFails => s.move (s.streams.seek r aOffset aOrigin requestFails).2
  | .read r aSize aNumElements requestFails => s.read r aSize aNumElements requestFails

/-- The streams when they are made. -/
def start (aStreamFormat : MBDSStreamFormat) (aTempCacheCapacity : UInt32) (request : RepositionRequestStruct) :
    Session :=
  ⟨construct aStreamFormat aTempCacheCapacity request, [], fun _ => none, none, false⟩

/-- The cache is intact, and the bytes that were read are those that were written. -/
structure Good (s : Session) : Prop where
  intact : s.streams.writeStream.Intact s.written s.accepted
  read : ∀ p data, s.lastRead = some (p, data) → BytesAt s.written p.toNat data
  returned : s.failed = false

/-- A fragment that is taken ends before the last offset, and so does a read of what is in the cache. -/
def Fits (s : Session) : Call → Prop
  | .write aSessionID aFrag _ =>
    s.streams.writeStream.accepts aSessionID →
      s.streams.writeStream.iFilePtrPos.toNat + aFrag.bytes.length < 2 ^ 32
  | .read r aSize aNumElements _ =>
    s.streams.hits r →
      aSize ≠ 0 ∧ (s.streams.readStreams r).iFilePtrPos.toNat + (aSize * aNumElements).toNat ≤ 2 ^ 32
  | _ => True

theorem good_start (aStreamFormat : MBDSStreamFormat) (aTempCacheCapacity : UInt32)
    (request : RepositionRequestStruct) : (start aStreamFormat aTempCacheCapacity request).Good :=
  ⟨⟨TempCache.cached_clear _, List.Perm.refl _⟩, by simp [start], rfl⟩

variable {s : Session}

theorem Good.move (h : s.Good) {streams : Streams} (hintact : streams.writeStream.Intact s.written s.accepted) :
    (s.move streams).Good :=
  ⟨hintact, by simp [Session.move], h.returned⟩

theorem Good.write (h : s.Good) {aSessionID : Nat} {aFrag : MemFrag} {memory : Bool}
    (hfits : s.Fits (.write aSessionID aFrag memory)) : (s.write aSessionID aFrag memory).Good := by
  have hwrite := h.intact.write memory hfits
  simp only [Session.write]
  split at hwrite
  · next hpending =>
    rw [if_pos hpending]
    exact ⟨hwrite, by simp [moveWrite, Session.move], h.returned⟩
  · next hother =>
    rw [if_neg hother]
    exact h.move hwrite

theorem Good.read_spec (h : s.Good) {r : Nat} {aSize aNumElements : UInt32} {requestFails : Bool}
    (hfits : s.Fits (.read r aSize aNumElements requestFails)) :
    (s.read r aSize aNumElements requestFails).Good := by
  obtain ⟨status, data, streams, hread, hintact, hdata⟩ := Streams.read_spec h.intact requestFails hfits
  simp only [Session.read, hread]
  refine ⟨hintact, fun p data' heq => ?_, h.returned⟩
  obtain ⟨rfl, rfl⟩ := Prod.mk.inj (Option.some.inj heq)
  exact hdata

theorem Good.step (h : s.Good) {call : Call} (hfits : s.Fits call) : (s.step call).Good := by
  have hintact := h.intact
  cases call with
  | openSession => exact h.move hintact.openWriteSession
  | closeSession aSessionID => exact h.move (hintact.closeSession aSessionID)
  | write aSessionID aFrag memory => exact h.write hfits
  | seek aSessionID aOffset aOrigin => exact h.move (hintact.seek aSessionID aOffset aOrigin)
  | flush aSessionID => exact h.move (hintact.flush aSessionID)
  | sourceRequestCompleted success => exact h.move (hintact.sourceRequestCompleted success)
  | reposition aSessionID aOffset aMode requestFails => exact h.move (hintact.reposition _ _ _ _)
  | manageCache => exact h.move hintact.manageCache
  | trimTempCache aTrimMode => exact h.move (hintact.trimTempCache aTrimMode)
  | makePersistent => exact h.move (hintact.congr rfl rfl)
  | setContentLength aContentLength => exact h.move (hintact.congr rfl rfl)
  | setBufferingCapacityAndTrimMargin aMinCapacity aTrimMargin => exact h.move (hintact.congr rfl rfl)
  | openReadSession r => exact h.move (Streams.intact_openSession hintact r)
  | closeReadSession r => exact h.move (Streams.intact_closeSession hintact r)
  | seekRead r aOffset aOrigin requestFails => exact h.move (Streams.intact_seek hintact _ _ _ _)
  | read r aSize aNumElements requestFails => exact h.read_spec hfits

/-- **In every session in which no fragment and no read goes over the end of the offsets, the cache is intact and
reads give what was written last.** -/
theorem cacheGood_of_run {aStreamFormat : MBDSStreamFormat} {aTempCacheCapacity : UInt32}
    {request : RepositionRequestStruct} {calls : List Call}
    (h : Run (guarded Fits (stepOf fun s call => some (step s call)))
      (start aStreamFormat aTempCacheCapacity request) calls s) : s.Good := by
  refine h.invariant (good_start _ _ _) ?_
  intro a call b hgood hstep
  have heq := Option.some.inj hstep.2
  exact heq ▸ hgood.step hstep.1

/-- Two fragments, and a read of both. -/
theorem cacheGood_twoFragments : ∃ s, Run (guarded Fits (stepOf fun s call => some (step s call)))
    (start .progressivePlayback 128000 ⟨false, false, 0, false, 0⟩)
    [.openSession, .openReadSession 0, .write 0 ⟨0, [1, 2], by decide, by decide⟩ true,
      .write 0 ⟨1, [3], by decide, by decide⟩ true, .read 0 1 3 false] s ∧
      s.lastRead = some (0, [1, 2, 3]) ∧ s.Good := by
  have hrun : ∃ s, Run (guarded Fits (stepOf fun s call => some (step s call)))
      (start .progressivePlayback 128000 ⟨false, false, 0, false, 0⟩)
      [.openSession, .openReadSession 0, .write 0 ⟨0, [1, 2], by decide, by decide⟩ true,
        .write 0 ⟨1, [3], by decide, by decide⟩ true, .read 0 1 3 false] s ∧ s.lastRead = some (0, [1, 2, 3]) :=
    ⟨_, Run.cons ⟨trivial, rfl⟩ (Run.cons ⟨trivial, rfl⟩ (Run.cons ⟨fun _ => by decide, rfl⟩
      (Run.cons ⟨fun _ => by decide, rfl⟩ (Run.cons ⟨fun _ => by decide, rfl⟩ (Run.nil _))))), rfl⟩
  obtain ⟨s, hrun, hread⟩ := hrun
  exact ⟨s, hrun, hread, cacheGood_of_run hrun⟩

/-- Behind a fragment that ends at the last offset, another one is put at offset 0. -/
theorem offsets_wrap : ¬ ∀ aStreamFormat aTempCacheCapacity request calls s,
    Run (stepOf fun s call => some (step s call)) (start aStreamFormat aTempCacheCapacity request) calls s →
      s.Good := by
  intro h
  have hrun : ∃ s, [Call.openSession, .seek 0 0x7FFFFFFF .seekSet, .seek 0 0x7FFFFFFF .seekCur,
      .write 0 ⟨0, [1, 2], by decide, by decide⟩ true, .write 0 ⟨1, [3], by decide, by decide⟩ true].foldlM
        (fun s call => some (step s call)) (start .progressivePlayback 128000 ⟨false, false, 0, false, 0⟩) =
          some s ∧
      s.streams.writeStream.iTempCache.chunks = [⟨0xFFFFFFFE, 2⟩, ⟨0, 1⟩] :=
    ⟨_, rfl, rfl⟩
  obtain ⟨s, hs, hchunks⟩ := hrun
  have hcached := (h _ _ _ _ s (Run.of_foldlM hs)).intact.cached
  have htiles := hcached.tiles (fun hnil => by simp [TempCache.chunks, hnil] at hchunks)
  rw [hchunks] at htiles
  obtain ⟨-, hnext, -⟩ := htiles
  exact absurd hnext (by decide)

end Session

end Ftke.MemoryBuffer
