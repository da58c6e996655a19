import Ftke.MemoryBuffer.PermCache

/-!
# Ftke.MemoryBuffer.Records

Reading records from the caches.

`Read` moves the file pointer by the bytes that it has copied, but returns how many whole
elements they are: where the cached range ends within an element the rest of it is lost to
the reader.  `readsRecords_iff` has the exact condition, in 32-bit offsets.
-/

namespace Ftke.MemoryBuffer

/-- What `Read` leaves behind: the bytes in the buffer, and `aNumElements`. -/
structure ReadResult where
  status : PvmiDataStreamStatus
  data : List UInt8
  aNumElements : UInt32
  streams : Streams

/-- The last byte of a read that is cached. -/
def cutAt (last pos n : UInt32) : UInt32 := if last < pos + n - 1 then last else pos + n - 1

/-! ## Reading from a cache -/

/-- Entries that follow one another from `p` to `b`, with what was written there. -/
structure Filled (written : Nat → Option UInt8) (p b : Nat) (entries : List TempCacheEntry) : Prop where
  tiles : Tiles p (entries.map TempCacheEntry.chunk) b
  fits : b < 2 ^ 32
  content : ∀ e ∈ entries, BytesAt written e.fileOffset.toNat e.frag.bytes

/-- The bytes that a read of `n` bytes obtains; without any to read at offset 0 the last byte
wraps, and all of the cache is taken. -/
def obtained (cacheEnd : Nat) (pos n : UInt32) : Nat :=
  if n = 0 ∧ pos = 0 then cacheEnd else min n.toNat (cacheEnd - pos.toNat)

namespace Filled

variable {written : Nat → Option UInt8} {p b : Nat} {pos n last : UInt32} {entries : List TempCacheEntry}

theorem of_cons {e : TempCacheEntry} {rest : List TempCacheEntry} (h : Filled written p b (e :: rest)) :
    e.fileOffset.toNat = p ∧ e.fileOffset.toNat + e.frag.bytes.length ≤ b ∧
      (e.fileOffset + e.fragSize).toNat = e.fileOffset.toNat + e.frag.bytes.length ∧
      Filled written (e.fileOffset.toNat + e.frag.bytes.length) b rest := by
  obtain ⟨hptr, hrest⟩ := h.tiles
  have hend : e.chunk.fin ≤ b := by
    have hsum := (Packed.of_tiles hrest).total
    omega
  exact ⟨hptr, hend, TempCache.toNat_end hend h.fits, hrest, h.fits,
    fun e' he' => h.content e' (List.mem_cons_of_mem e he')⟩

/-- Behind the last entry there is nothing to read. -/
theorem readFrom_beyond (hb : b ≤ pos.toNat) : ∀ {entries : List TempCacheEntry} {p i : Nat},
    Filled written p b entries → TempCache.readFrom pos last i entries = some ([], 0)
  | [], _, _, _ => rfl
  | e :: rest, _, i, h => by
    obtain ⟨-, hend, htoNat, hrest⟩ := h.of_cons
    rw [TempCache.readFrom, if_neg, readFrom_beyond hb hrest]
    rw [UInt32.lt_iff_toNat_lt, htoNat]
    omega

/-- A read whose last byte wraps copies from outside of the entry. -/
theorem readFrom_wraps (hwraps : 2 ^ 32 < pos.toNat + n.toNat) (hb : pos.toNat < b) :
    ∀ {entries : List TempCacheEntry} {p i : Nat}, Filled written p b entries → p ≤ pos.toNat →
    TempCache.readFrom pos (pos + n - 1) i entries = none
  | [], p, _, h, hp => by
    have hend : p = b := h.tiles
    omega
  | e :: rest, _, i, h, hp => by
    have hn := n.toNat_lt
    have hlt := pos.toNat_lt
    obtain ⟨rfl, hend, htoNat, hrest⟩ := h.of_cons
    have hfits := h.fits
    have hlast : (pos + n - 1).toNat = pos.toNat + n.toNat - 1 - 2 ^ 32 := by
      rw [UInt32.toNat_sub, UInt32.toNat_add, UInt32.toNat_one]
      omega
    rw [TempCache.readFrom]
    split
    · next hin =>
      rw [UInt32.lt_iff_toNat_lt, htoNat] at hin
      have hcount : pos + n - 1 - pos + 1 = n := by grind
      rw [if_pos (by rw [UInt32.lt_iff_toNat_lt, htoNat]; omega), hcount, TempCache.copy, if_neg, Option.map_none]
      rw [UInt32.toNat_sub_of_le _ _ hin.1]
      omega
    · next hout =>
      rw [UInt32.le_iff_toNat_le, UInt32.lt_iff_toNat_lt, htoNat] at hout
      exact readFrom_wraps hwraps hb hrest (by omega)

theorem toNat_cutAt (hfits : pos.toNat + n.toNat ≤ 2 ^ 32) (hpos : pos ≤ last) :
    (cutAt last pos n).toNat + 1 =
      if n = 0 ∧ pos = 0 then last.toNat + 1 else min (last.toNat + 1) (pos.toNat + n.toNat) := by
  have hn : n = 0 ↔ n.toNat = 0 := UInt32.toNat_inj.symm
  have hp : pos = 0 ↔ pos.toNat = 0 := UInt32.toNat_inj.symm
  have hlt := last.toNat_lt
  rw [UInt32.le_iff_toNat_le] at hpos
  have hlastByte : (pos + n - 1).toNat = (2 ^ 32 - 1 + (pos.toNat + n.toNat) % 2 ^ 32) % 2 ^ 32 := by
    rw [UInt32.toNat_sub, UInt32.toNat_add, UInt32.toNat_one]
  simp only [cutAt, hn, hp, UInt32.lt_iff_toNat_lt]
  split <;> split <;> omega

/-- What is read of a cache, if its offsets do not wrap. -/
theorem readFrom_obtained (h : Filled written p b entries) (hp : p ≤ pos.toNat) (hpos : pos ≤ last)
    (hfits : pos.toNat + n.toNat ≤ 2 ^ 32 ∨ b ≤ pos.toNat) :
    ∃ data firstEntry, TempCache.readFrom pos (cutAt last pos n) 0 entries = some (data, firstEntry) ∧
      BytesAt written pos.toNat data ∧ data.length = obtained (min (last.toNat + 1) b) pos n := by
  have hle := UInt32.le_iff_toNat_le.mp hpos
  by_cases hb : b ≤ pos.toNat
  · refine ⟨[], 0, h.readFrom_beyond hb, BytesAt.nil, ?_⟩
    rw [obtained, List.length_nil]
    split
    · next hzero =>
      rw [hzero.2, UInt32.toNat_zero] at hb
      omega
    · omega
  · have hfits := hfits.resolve_right hb
    have hcut := toNat_cutAt hfits hpos
    have hcutLe : pos.toNat ≤ (cutAt last pos n).toNat + 1 := by split at hcut <;> omega
    obtain ⟨data, firstEntry, hread, hdata, hlen⟩ :=
      @TempCache.readFrom_spec written pos (cutAt last pos n) hcutLe entries 0 p b h.tiles h.fits h.content
    refine ⟨data, firstEntry, hread, hdata, ?_⟩
    rw [hlen hp, hcut, obtained]
    split
    · next hzero => rw [hzero.2, UInt32.toNat_zero, Nat.sub_zero]
    · omega

theorem readFrom_eq_none (h : Filled written p b entries) (hp : p ≤ pos.toNat) (hpos : pos ≤ last)
    (hfits : ¬ (pos.toNat + n.toNat ≤ 2 ^ 32 ∨ b ≤ pos.toNat)) :
    TempCache.readFrom pos (cutAt last pos n) 0 entries = none := by
  have hn := n.toNat_lt
  have hlt := pos.toNat_lt
  have hcut : cutAt last pos n = pos + n - 1 := by
    rw [UInt32.le_iff_toNat_le] at hpos
    rw [cutAt, if_neg]
    rw [UInt32.lt_iff_toNat_lt, UInt32.toNat_sub, UInt32.toNat_add, UInt32.toNat_one]
    omega
  rw [hcut]
  exact readFrom_wraps (by omega) (by omega) h hp

end Filled

/-- The entries of a cache follow one another, and hold what was written. -/
theorem TempCache.Cached.filled {written : Nat → Option UInt8} {c : TempCache} (h : c.Cached written)
    (hne : c.iEntries ≠ []) :
    Filled written c.iFirstByteFileOffset.toNat (c.iLastByteFileOffset.toNat + 1) c.iEntries :=
  ⟨h.tiles hne, h.fits, h.content⟩

namespace Streams

variable (s : Streams) (perm : PermCache) (r : Nat) (aSize aNumElements : UInt32) (requestFails : Bool)

/-- Whether the permanent cache has the byte at an offset; the last one is not taken from it. -/
def inPermCache (pos : UInt32) : Bool :=
  !(perm.iEntries.isEmpty || pos < perm.iFirstByteFileOffset || pos ≥ perm.iLastByteFileOffset)

/-- `Read` of a read stream, the permanent cache included. -/
def readRecords : Option ReadResult :=
  let stream := s.readStreams r
  if !stream.iReadSessionOpened then some ⟨.invalidRequest, [], aNumElements, s⟩
  else if !inPermCache perm stream.iFilePtrPos then
    (s.read r aSize aNumElements requestFails).map fun (status, data, t) =>
      ⟨status, data, if status = .success then UInt32.ofNat data.length / aSize else 0, t⟩
  else
    let aLastByte := cutAt perm.iLastByteFileOffset stream.iFilePtrPos (aSize * aNumElements)
    match perm.readBytes stream.iFilePtrPos aLastByte with
    | none => none
    | some data =>
      if aSize = 0 then none
      else
        let position := stream.iFilePtrPos + UInt32.ofNat data.length
        let writeStream := s.writeStream.setReadPointerCacheLocation stream.iSessionID false
        let writeStream := writeStream.setReadPointerPosition stream.iSessionID position
        some ⟨.success, data, UInt32.ofNat data.length / aSize,
          (s.setReadStream r { stream with iFilePtrPos := position }).setWriteStream writeStream⟩

variable {s perm r aSize aNumElements requestFails}

/-- A read outside of the temporary cache fails, and moves no read stream. -/
theorem read_miss (hopen : (s.readStreams r).iReadSessionOpened = true)
    (hmiss : (s.writeStream.iTempCache.iEntries.isEmpty ||
      (s.readStreams r).iFilePtrPos < s.writeStream.iTempCache.iFirstByteFileOffset ||
      (s.readStreams r).iFilePtrPos > s.writeStream.iTempCache.iLastByteFileOffset) = true) :
    ∃ t, s.read r aSize aNumElements requestFails = some (.failure, [], t) ∧ t.readStreams = s.readStreams := by
  simp only [read, hopen, hmiss, Bool.not_true, Bool.false_eq_true, if_false, if_true]
  split
  · exact ⟨_, rfl, rfl⟩
  · exact ⟨_, rfl, rfl⟩

/-- A read within the temporary cache is one of `ReadBytes`, cut at the end of the cache. -/
theorem read_hit (hopen : (s.readStreams r).iReadSessionOpened = true)
    (hhit : (s.writeStream.iTempCache.iEntries.isEmpty ||
      (s.readStreams r).iFilePtrPos < s.writeStream.iTempCache.iFirstByteFileOffset ||
      (s.readStreams r).iFilePtrPos > s.writeStream.iTempCache.iLastByteFileOffset) = false) :
    (TempCache.readFrom (s.readStreams r).iFilePtrPos (cutAt s.writeStream.iTempCache.iLastByteFileOffset
        (s.readStreams r).iFilePtrPos (aSize * aNumElements)) 0 s.writeStream.iTempCache.iEntries = none ∨
      aSize = 0 → s.read r aSize aNumElements requestFails = none) ∧
    ∀ data firstEntry,
      TempCache.readFrom (s.readStreams r).iFilePtrPos (cutAt s.writeStream.iTempCache.iLastByteFileOffset
        (s.readStreams r).iFilePtrPos (aSize * aNumElements)) 0 s.writeStream.iTempCache.iEntries =
          some (data, firstEntry) → aSize ≠ 0 →
      ∃ t, s.read r aSize aNumElements requestFails = some (.success, data, t) ∧
        (t.readStreams r).iFilePtrPos = (s.readStreams r).iFilePtrPos + UInt32.ofNat data.length := by
  simp only [read, hopen, hhit, Bool.not_true, Bool.false_eq_true, if_false, TempCache.readBytes, cutAt]
  constructor
  · intro hnone
    obtain hnone | hsize := hnone
    · rw [hnone]
    · simp only [hsize, if_true]
      split <;> rfl
  · intro data firstEntry hread hsize
    simp only [hread, hsize, if_false]
    exact ⟨_, rfl, by simp [setWriteStream, setReadStream]⟩

/-! ## What a reader asks for -/

variable (s perm r aSize aNumElements)

/-- The file pointer moves by whole elements, no more than were asked for, which are the bytes
of the file; where the read fails it stays. -/
def ReadsRecords (written : Nat → Option UInt8) : Option ReadResult → Prop
  | none => False
  | some x =>
    if x.status = .success then
      (x.streams.readStreams r).iFilePtrPos.toNat =
          (s.readStreams r).iFilePtrPos.toNat + aSize.toNat * x.aNumElements.toNat ∧
        x.data.length = aSize.toNat * x.aNumElements.toNat ∧ x.aNumElements.toNat ≤ aNumElements.toNat ∧
        BytesAt written (s.readStreams r).iFilePtrPos.toNat x.data
    else x.data = [] ∧ x.streams.readStreams = s.readStreams

/-- The caches hold what was written, without holes in between. -/
structure Holds (written : Nat → Option UInt8) : Prop where
  temp : s.writeStream.iTempCache.Cached written
  perm : Filled written perm.iFirstByteFileOffset.toNat perm.filledEnd (PermCache.filledEntries perm.iEntries)

/-- The end of the cache that the first byte of a read is in. -/
def cachedUpTo : Option Nat :=
  let pos := (s.readStreams r).iFilePtrPos
  let temp := s.writeStream.iTempCache
  if !(s.readStreams r).iReadSessionOpened then none
  else if inPermCache perm pos then some (min (perm.iLastByteFileOffset.toNat + 1) perm.filledEnd)
  else if temp.iEntries.isEmpty || pos < temp.iFirstByteFileOffset || pos > temp.iLastByteFileOffset then none
  else some (temp.iLastByteFileOffset.toNat + 1)

/-- What is obtained is whole elements, and the offsets of the read do not wrap. -/
def WholeElements : Prop :=
  ∀ cacheEnd, s.cachedUpTo perm r = some cacheEnd →
    let pos := (s.readStreams r).iFilePtrPos
    let n := aSize * aNumElements
    aSize ≠ 0 ∧ (pos.toNat + n.toNat ≤ 2 ^ 32 ∨ cacheEnd ≤ pos.toNat) ∧
      aSize.toNat ∣ obtained cacheEnd pos n ∧ obtained cacheEnd pos n ≤ aSize.toNat * aNumElements.toNat

variable {s perm r aSize aNumElements} {written : Nat → Option UInt8}

/-- A read that has copied data: whole elements is what its length is about. -/
theorem readsRecords_of_data {x : ReadResult} (hstatus : x.status = .success)
    (hmoved : (x.streams.readStreams r).iFilePtrPos = (s.readStreams r).iFilePtrPos + UInt32.ofNat x.data.length)
    (hcount : x.aNumElements = UInt32.ofNat x.data.length / aSize) (hsize : aSize ≠ 0)
    (hfits : (s.readStreams r).iFilePtrPos.toNat + x.data.length < 2 ^ 32)
    (hdata : BytesAt written (s.readStreams r).iFilePtrPos.toNat x.data) :
    s.ReadsRecords r aSize aNumElements written (some x) ↔
      aSize.toNat ∣ x.data.length ∧ x.data.length ≤ aSize.toNat * aNumElements.toNat := by
  have hpos : 0 < aSize.toNat := Nat.pos_of_ne_zero fun h => hsize (UInt32.toNat_inj.mp h)
  have hlen : (UInt32.ofNat x.data.length).toNat = x.data.length := by
    rw [UInt32.toNat_ofNat']
    exact Nat.mod_eq_of_lt (by omega)
  have hptr : (x.streams.readStreams r).iFilePtrPos.toNat = (s.readStreams r).iFilePtrPos.toNat + x.data.length := by
    rw [hmoved, UInt32.toNat_add, hlen]
    exact Nat.mod_eq_of_lt hfits
  have hcount : x.aNumElements.toNat = x.data.length / aSize.toNat := by rw [hcount, UInt32.toNat_div, hlen]
  simp only [ReadsRecords, hstatus, if_true, hptr, hcount, hdata, and_true, Nat.add_left_cancel_iff]
  constructor
  · intro ⟨hwhole, _, hle⟩
    exact ⟨⟨_, hwhole⟩, hwhole.trans_le (Nat.mul_le_mul_left _ hle)⟩
  · intro ⟨hdvd, hle⟩
    have hwhole : x.data.length = aSize.toNat * (x.data.length / aSize.toNat) := (Nat.mul_div_cancel' hdvd).symm
    exact ⟨hwhole, hwhole, Nat.div_le_of_le_mul hle⟩

theorem obtained_le (cacheEnd : Nat) (pos n : UInt32) :
    pos.toNat + obtained cacheEnd pos n ≤ max pos.toNat cacheEnd := by
  rw [obtained]
  split
  · next hzero =>
    rw [hzero.2, UInt32.toNat_zero]
    omega
  · omega

/-- A read of one of the caches, from the entries `p` to `b`. -/
theorem readsRecords_of_readFrom {p b : Nat} {last : UInt32} {entries : List TempCacheEntry}
    {result : Option ReadResult} (h : Filled written p b entries) (hp : p ≤ (s.readStreams r).iFilePtrPos.toNat)
    (hpos : (s.readStreams r).iFilePtrPos ≤ last) (hcached : s.cachedUpTo perm r = some (min (last.toNat + 1) b))
    (hnone : TempCache.readFrom (s.readStreams r).iFilePtrPos
        (cutAt last (s.readStreams r).iFilePtrPos (aSize * aNumElements)) 0 entries = none ∨ aSize = 0 →
      result = none)
    (hsome : ∀ data firstEntry, TempCache.readFrom (s.readStreams r).iFilePtrPos
        (cutAt last (s.readStreams r).iFilePtrPos (aSize * aNumElements)) 0 entries = some (data, firstEntry) →
      aSize ≠ 0 → ∃ x, result = some x ∧ x.status = .success ∧ x.data = data ∧
        (x.streams.readStreams r).iFilePtrPos = (s.readStreams r).iFilePtrPos + UInt32.ofNat data.length ∧
        x.aNumElements = UInt32.ofNat data.length / aSize) :
    s.ReadsRecords r aSize aNumElements written result ↔ s.WholeElements perm r aSize aNumElements := by
  have hle := UInt32.le_iff_toNat_le.mp hpos
  have hb := h.fits
  have hend : min (last.toNat + 1) b ≤ (s.readStreams r).iFilePtrPos.toNat ↔
      b ≤ (s.readStreams r).iFilePtrPos.toNat := by omega
  simp only [WholeElements, hcached, Option.some.injEq, forall_eq', hend]
  by_cases hsize : aSize = 0
  · simp [hnone (.inr hsize), hsize, ReadsRecords]
  · by_cases hfits : (s.readStreams r).iFilePtrPos.toNat + (aSize * aNumElements).toNat ≤ 2 ^ 32 ∨
        b ≤ (s.readStreams r).iFilePtrPos.toNat
    · obtain ⟨data, firstEntry, hread, hdata, hlen⟩ := h.readFrom_obtained hp hpos hfits
      obtain ⟨x, rfl, hstatus, rfl, hmoved, hcount⟩ := hsome data firstEntry hread hsize
      have hlt := (s.readStreams r).iFilePtrPos.toNat_lt
      have hobtained := obtained_le (min (last.toNat + 1) b) (s.readStreams r).iFilePtrPos (aSize * aNumElements)
      rw [readsRecords_of_data hstatus hmoved hcount hsize (by omega) hdata, hlen]
      simp only [hsize, ne_eq, not_false_eq_true, hfits, true_and]
    · rw [hnone (.inl (h.readFrom_eq_none hp hpos hfits))]
      simp only [hfits, ReadsRecords, false_and, and_false]

theorem readsRecords_iff (h : s.Holds perm written) :
    s.ReadsRecords r aSize aNumElements written (s.readRecords perm r aSize aNumElements requestFails) ↔
      s.WholeElements perm r aSize aNumElements := by
  obtain ⟨hcache, hperm⟩ := h
  cases hopen : (s.readStreams r).iReadSessionOpened with
  | false => simp [readRecords, hopen, ReadsRecords, WholeElements, cachedUpTo]
  | true =>
    cases hin : inPermCache perm (s.readStreams r).iFilePtrPos with
    | false =>
      cases hmiss : s.writeStream.iTempCache.iEntries.isEmpty ||
        (s.readStreams r).iFilePtrPos < s.writeStream.iTempCache.iFirstByteFileOffset ||
        (s.readStreams r).iFilePtrPos > s.writeStream.iTempCache.iLastByteFileOffset with
      | true =>
        obtain ⟨t, hread, hstreams⟩ := @read_miss s r aSize aNumElements requestFails hopen hmiss
        simp [readRecords, hopen, hin, hread, ReadsRecords, WholeElements, cachedUpTo, hmiss, hstreams]
      | false =>
        obtain ⟨hnone, hsome⟩ := @read_hit s r aSize aNumElements requestFails hopen hmiss
        have hcached : s.cachedUpTo perm r = some (s.writeStream.iTempCache.iLastByteFileOffset.toNat + 1) := by
          simp [cachedUpTo, hopen, hin, hmiss]
        simp only [Bool.or_eq_false_iff, decide_eq_false_iff_not, UInt32.not_lt, List.isEmpty_eq_false_iff] at hmiss
        obtain ⟨⟨hne, hfirst⟩, hlast⟩ := hmiss
        refine readsRecords_of_readFrom (hcache.filled hne) (UInt32.le_iff_toNat_le.mp hfirst) hlast
          (by rw [Nat.min_self, hcached]) ?_ ?_
        · intro h
          simp [readRecords, hopen, hin, hnone h]
        · intro data firstEntry hread hsize
          obtain ⟨t, hread, hmoved⟩ := hsome data firstEntry hread hsize
          simp [readRecords, hopen, hin, hread, hmoved]
    | true =>
      have hcached : s.cachedUpTo perm r = some (min (perm.iLastByteFileOffset.toNat + 1) perm.filledEnd) := by
        simp [cachedUpTo, hopen, hin]
      have hrange := hin
      simp only [inPermCache, Bool.not_eq_true', Bool.or_eq_false_iff, decide_eq_false_iff_not, UInt32.not_lt,
        ge_iff_le, UInt32.not_le] at hrange
      obtain ⟨⟨-, hfirst⟩, hlast⟩ := hrange
      refine readsRecords_of_readFrom hperm (UInt32.le_iff_toNat_le.mp hfirst) (UInt32.le_of_lt hlast) hcached ?_ ?_
      · intro h
        obtain hread | hsize := h
        · simp [readRecords, hopen, hin, PermCache.readBytes, hread]
        · simp only [readRecords, hopen, hin, hsize, if_true, Bool.not_true, Bool.false_eq_true, if_false]
          split <;> rfl
      · intro data firstEntry hread hsize
        simp [readRecords, hopen, hin, PermCache.readBytes, hread, hsize, setWriteStream, setReadStream]

/-! ## Reading in a loop -/

/-- A loop of reads that obtain whole elements; in between all but the read stream may change. -/
inductive Loop (written : Nat → Option UInt8) (r : Nat) (aSize : UInt32) : Streams → List UInt8 → Streams → Prop
  | done (s : Streams) : Loop written r aSize s [] s
  | wait {s t u : Streams} {data : List UInt8} : t.readStreams r = s.readStreams r → Loop written r aSize t data u →
      Loop written r aSize s data u
  | read {s u : Streams} {x : ReadResult} {data : List UInt8} {perm : PermCache} {n : UInt32} {fails : Bool} :
      s.Holds perm written → s.WholeElements perm r aSize n → s.readRecords perm r aSize n fails = some x →
      Loop written r aSize x.streams data u →
      Loop written r aSize s (x.data.take (aSize.toNat * x.aNumElements.toNat) ++ data) u

/-- Every byte that the loop passes is seen once. -/
theorem Loop.bytesAt {t : Streams} {data : List UInt8} (h : Loop written r aSize s data t) :
    BytesAt written (s.readStreams r).iFilePtrPos.toNat data ∧
      (t.readStreams r).iFilePtrPos.toNat = (s.readStreams r).iFilePtrPos.toNat + data.length := by
  induction h with
  | done s => exact ⟨BytesAt.nil, rfl⟩
  | wait hstream _ ih => rwa [← hstream]
  | @read s u x data perm n fails hholds hwhole hread _ ih =>
    obtain ⟨ihdata, ihpos⟩ := ih
    have hrecords := (@readsRecords_iff s perm r aSize n fails written hholds).mpr hwhole
    rw [hread, ReadsRecords] at hrecords
    split at hrecords
    · obtain ⟨hmoved, hlen, -, hdata⟩ := hrecords
      rw [← hlen, List.take_length]
      rw [hmoved, ← hlen] at ihdata ihpos
      exact ⟨hdata.append ihdata, by rw [ihpos, List.length_append, Nat.add_assoc]⟩
    · obtain ⟨hnil, hstreams⟩ := hrecords
      rw [hstreams] at ihdata ihpos
      rw [hnil, List.take_nil]
      exact ⟨ihdata, ihpos⟩

/-- **A read gives whole elements** if and only if what it obtains of the cache is whole elements,
and a loop of such reads sees every byte once. -/
theorem reads_wholeElements (h : s.Holds perm written) :
    (s.ReadsRecords r aSize aNumElements written (s.readRecords perm r aSize aNumElements requestFails) ↔
      s.WholeElements perm r aSize aNumElements) ∧
    ∀ data t, Loop written r aSize s data t →
      BytesAt written (s.readStreams r).iFilePtrPos.toNat data ∧
        (t.readStreams r).iFilePtrPos.toNat = (s.readStreams r).iFilePtrPos.toNat + data.length :=
  ⟨readsRecords_iff h, fun _ _ hloop => hloop.bytesAt⟩

/-! ## Three bytes in the cache -/

/-- A stream that reads from its start. -/
def readStream (aFrag : MemFrag) : Streams where
  writeStream := { (construct .unknown 1000 ⟨false, false, 0, false, 0⟩).writeStream with
    iTempCache := (TempCache.clear.addEntry aFrag 0 true).2 }
  readStreams := fun _ => ⟨1, 0, true⟩

def threeBytes : MemFrag := ⟨0, [7, 8, 9], by decide, by decide⟩

theorem holds_threeBytes : (readStream threeBytes).Holds .empty fun k => [7, 8, 9][k]? where
  temp := by
    constructor <;> simp [readStream, TempCache.addEntry, TempCache.clear, threeBytes, TempCache.chunks, Tiles,
      TempCacheEntry.chunk, Chunk.fin, MemFrag.getMemFragSize, BytesAt]
  perm := by
    constructor <;> simp [PermCache.empty, PermCache.filledEntries, PermCache.filledEnd, Tiles]

theorem reads_wholeElements_threeBytes :
    (readStream threeBytes).ReadsRecords 0 3 1 (fun k => [7, 8, 9][k]?)
      ((readStream threeBytes).readRecords .empty 0 3 1 false) :=
  (reads_wholeElements holds_threeBytes).1.mpr fun cacheEnd h => by
    have hend : cacheEnd = 3 := by
      have hcached : (readStream threeBytes).cachedUpTo .empty 0 = some 3 := by decide
      simpa [hcached] using h.symm
    rw [hend]
    decide

/-- Two elements of two bytes are asked for: three bytes are copied, and one element is returned. -/
theorem twoElements_torn : ¬ ∀ (s : Streams) perm r aSize aNumElements requestFails written, s.Holds perm written →
    s.ReadsRecords r aSize aNumElements written (s.readRecords perm r aSize aNumElements requestFails) := by
  intro h
  have hrecords := (readsRecords_iff holds_threeBytes).mp (h _ _ 0 2 2 false _ holds_threeBytes)
  have hwhole := hrecords 3 (by decide)
  exact absurd hwhole (by decide)

end Streams

end Ftke.MemoryBuffer
