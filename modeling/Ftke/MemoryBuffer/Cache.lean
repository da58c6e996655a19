import Ftke.MemoryBuffer
import Ftke.Tiling

/-!
# Ftke.MemoryBuffer.Cache

What the temporary cache holds.

The entries of a cache follow one another (`Cached.tiles`), and their bytes are those that were written at their
offsets last, where `written` says what was written where.  Entries are added behind the others and taken away at
either end, and what `ReadBytes` copies is what was written.
-/

namespace Ftke.MemoryBuffer

/-! ## Bytes at offsets -/

/-- The bytes are those at the offsets from `p` on. -/
def BytesAt (written : Nat → Option UInt8) (p : Nat) (data : List UInt8) : Prop :=
  ∀ k b, data[k]? = some b → written (p + k) = some b

namespace BytesAt

variable {written : Nat → Option UInt8} {p : Nat} {data more : List UInt8}

theorem nil : BytesAt written p [] := by simp [BytesAt]

theorem append (h : BytesAt written p data) (hmore : BytesAt written (p + data.length) more) :
    BytesAt written p (data ++ more) := by
  intro k b hk
  by_cases hlt : k < data.length
  · rw [List.getElem?_append_left hlt] at hk
    exact h k b hk
  · rw [List.getElem?_append_right (by omega)] at hk
    have hb := hmore _ b hk
    rwa [show p + data.length + (k - data.length) = p + k by omega] at hb

theorem drop (h : BytesAt written p data) (n : Nat) : BytesAt written (p + n) (data.drop n) := by
  intro k b hk
  rw [List.getElem?_drop] at hk
  rw [Nat.add_assoc]
  exact h _ b hk

theorem take (h : BytesAt written p data) (n : Nat) : BytesAt written p (data.take n) := by
  intro k b hk
  refine h k b ?_
  rw [List.getElem?_take] at hk
  split at hk
  · exact hk
  · simp at hk

end BytesAt

/-- A fragment is written at an offset. -/
def overwritten (written : Nat → Option UInt8) (p : Nat) (data : List UInt8) (q : Nat) : Option UInt8 :=
  if p ≤ q ∧ q < p + data.length then data[q - p]? else written q

theorem bytesAt_overwritten (written : Nat → Option UInt8) (p : Nat) (data : List UInt8) :
    BytesAt (overwritten written p data) p data := by
  intro k b hk
  have hlt : k < data.length := (List.getElem?_eq_some_iff.mp hk).1
  rw [overwritten, if_pos (by omega), show p + k - p = k by omega]
  exact hk

theorem BytesAt.overwritten {written : Nat → Option UInt8} {p q : Nat} {data new : List UInt8}
    (h : BytesAt written p data) (hle : p + data.length ≤ q) : BytesAt (overwritten written q new) p data := by
  intro k b hk
  have hlt : k < data.length := (List.getElem?_eq_some_iff.mp hk).1
  rw [MemoryBuffer.overwritten, if_neg (by omega)]
  exact h k b hk

/-! ## The cache -/

/-- The offsets of an entry. -/
def TempCacheEntry.chunk (e : TempCacheEntry) : Chunk := ⟨e.fileOffset.toNat, e.frag.bytes.length⟩

@[simp] theorem MemFrag.toNat_getMemFragSize (f : MemFrag) : f.getMemFragSize.toNat = f.bytes.length := by
  have hlt := f.length_lt
  rw [getMemFragSize, UInt32.toNat_ofNat']
  exact Nat.mod_eq_of_lt hlt

@[simp] theorem TempCacheEntry.toNat_fragSize (e : TempCacheEntry) : e.fragSize.toNat = e.frag.bytes.length :=
  e.frag.toNat_getMemFragSize

namespace TempCache

def chunks (c : TempCache) : List Chunk := c.iEntries.map TempCacheEntry.chunk

/-- The entries fill the offsets from the first byte to the last one, `iTotalBytes` is the sum of their sizes, and
their bytes are what was written there. -/
structure Cached (written : Nat → Option UInt8) (c : TempCache) : Prop where
  empty : c.iEntries = [] → c = clear
  tiles : c.iEntries ≠ [] → Tiles c.iFirstByteFileOffset.toNat c.chunks (c.iLastByteFileOffset.toNat + 1)
  fits : c.iLastByteFileOffset.toNat + 1 < 2 ^ 32
  total : c.iTotalBytes.toNat = (c.chunks.map Chunk.len).sum
  content : ∀ e ∈ c.iEntries, BytesAt written e.fileOffset.toNat e.frag.bytes

variable {written : Nat → Option UInt8} {c d : TempCache} {frag : MemFrag}

theorem cached_clear (written : Nat → Option UInt8) : clear.Cached written :=
  ⟨fun _ => rfl, fun h => absurd rfl h, by decide, rfl, by simp [clear]⟩

theorem Cached.removeFirst (h : c.Cached written) (hr : c.removeFirstEntry = some (frag, d)) :
    d.Cached written ∧ c.iEntries.map TempCacheEntry.frag = frag :: d.iEntries.map TempCacheEntry.frag := by
  rw [removeFirstEntry] at hr
  split at hr
  · contradiction
  · next e hentries =>
    obtain ⟨rfl, rfl⟩ := Prod.mk.inj (Option.some.inj hr)
    exact ⟨cached_clear written, by rw [hentries]; rfl⟩
  · next e next rest hentries =>
    obtain ⟨rfl, rfl⟩ := Prod.mk.inj (Option.some.inj hr)
    have htiles := h.tiles (by simp [hentries])
    have htotal := h.total
    simp only [chunks, hentries, List.map_cons, Tiles, List.sum_cons] at htiles htotal
    obtain ⟨hfirst, hnext, hrest⟩ := htiles
    have hsize : e.fragSize ≤ c.iTotalBytes := by
      rw [UInt32.le_iff_toNat_le, e.toNat_fragSize, htotal]
      exact Nat.le_add_right _ _
    refine ⟨⟨by simp, fun _ => ?_, h.fits, ?_, fun e' he' => ?_⟩, by rw [hentries]; rfl⟩
    · exact ⟨rfl, hrest⟩
    · rw [UInt32.toNat_sub_of_le _ _ hsize, htotal, e.toNat_fragSize]
      simp only [chunks, List.map_cons, List.sum_cons, TempCacheEntry.chunk]
      omega
    · refine h.content e' ?_
      rw [hentries]
      exact List.mem_cons_of_mem e he'

theorem Cached.removeLast (h : c.Cached written) (hr : c.removeLastEntry = some (frag, d)) :
    d.Cached written ∧ c.iEntries.map TempCacheEntry.frag = d.iEntries.map TempCacheEntry.frag ++ [frag] := by
  rw [removeLastEntry] at hr
  split at hr
  · contradiction
  · next e hlast =>
    obtain ⟨rfl, rfl⟩ := Prod.mk.inj (Option.some.inj hr)
    obtain ⟨init, hentries⟩ := List.getLast?_eq_some_iff.mp hlast
    have hinit : c.iEntries.dropLast = init := by rw [hentries, List.dropLast_concat]
    simp only [hinit]
    split
    · next hnil =>
      have hinit : init = [] := List.isEmpty_iff.mp hnil
      exact ⟨cached_clear written, by rw [hentries, hinit]; rfl⟩
    · next hne =>
      have hne : init ≠ [] := fun hnil => hne (by rw [hnil]; rfl)
      have htiles := h.tiles (by simp [hentries])
      have htotal := h.total
      simp only [chunks, hentries, List.map_append, List.map_cons, List.map_nil, List.sum_append, List.sum_cons,
        List.sum_nil] at htiles htotal
      obtain ⟨hfront, hend⟩ := htiles.of_concat
      have hpos : 0 < e.fileOffset.toNat := by
        obtain ⟨first, rest, hinit⟩ := List.exists_cons_of_ne_nil hne
        have hsum := (Packed.of_tiles hfront).total
        have hlen := first.frag.length_pos
        simp only [hinit, List.map_cons, List.sum_cons, TempCacheEntry.chunk] at hsum
        omega
      have hsize : e.fragSize ≤ c.iTotalBytes := by
        rw [UInt32.le_iff_toNat_le, e.toNat_fragSize, htotal]
        simp only [TempCacheEntry.chunk]
        omega
      have hone : (1 : UInt32) ≤ e.fileOffset := by
        rw [UInt32.le_iff_toNat_le]
        exact hpos
      have hoffset : (e.fileOffset - 1).toNat + 1 = e.fileOffset.toNat := by
        rw [UInt32.toNat_sub_of_le _ _ hone]
        simp only [UInt32.toNat_one]
        omega
      refine ⟨⟨fun hnil => absurd hnil hne, fun _ => ?_, ?_, ?_, fun e' he' => ?_⟩, by simp [hentries]⟩
      · rw [hoffset]
        exact hfront
      · have hlt := e.fileOffset.toNat_lt
        rw [hoffset]
        exact hlt
      · rw [UInt32.toNat_sub_of_le _ _ hsize, htotal, e.toNat_fragSize]
        simp only [chunks, TempCacheEntry.chunk]
        omega
      · refine h.content e' ?_
        rw [hentries]
        exact List.mem_append_left _ he'

theorem addEntry_ne_pending (c : TempCache) (aFrag : MemFrag) (aFileOffset : UInt32) (memory : Bool) :
    (c.addEntry aFrag aFileOffset memory).1 ≠ .pending := by
  simp only [addEntry]
  split
  · simp
  · split <;> simp

theorem Cached.add {aFrag : MemFrag} {aFileOffset : UInt32} {memory : Bool} {status : PvmiDataStreamStatus}
    (h : c.Cached written) (hr : c.addEntry aFrag aFileOffset memory = (status, d))
    (hfits : aFileOffset.toNat + aFrag.bytes.length < 2 ^ 32) :
    status = .success ∧ d.Cached (overwritten written aFileOffset.toNat aFrag.bytes) ∧
        d.iEntries.map TempCacheEntry.frag = c.iEntries.map TempCacheEntry.frag ++ [aFrag] ∨
      status ≠ .success ∧ d = c := by
  have hpos := aFrag.length_pos
  have hsize := aFrag.toNat_getMemFragSize
  simp only [addEntry] at hr
  split at hr
  · obtain ⟨rfl, rfl⟩ := Prod.mk.inj hr
    exact Or.inr ⟨by decide, rfl⟩
  · next hcontiguous =>
    split at hr
    · obtain ⟨rfl, rfl⟩ := Prod.mk.inj hr
      exact Or.inr ⟨by decide, rfl⟩
    · obtain ⟨rfl, rfl⟩ := Prod.mk.inj hr
      refine Or.inl ⟨rfl, ?_, by simp⟩
      cases hempty : c.iEntries.isEmpty with
      | true =>
        have hentries := List.isEmpty_iff.mp hempty
        have hclear := h.empty hentries
        have hlast : (aFileOffset + aFrag.getMemFragSize - 1).toNat + 1 =
            aFileOffset.toNat + aFrag.bytes.length := by
          rw [UInt32.toNat_sub, UInt32.toNat_add, hsize, UInt32.toNat_one]
          omega
        simp only [hentries, if_true, List.nil_append]
        refine ⟨by simp, fun _ => ?_, ?_, ?_, fun e he => ?_⟩
        · rw [hlast]
          exact ⟨rfl, rfl⟩
        · rw [hlast]
          exact hfits
        · rw [hclear, UInt32.toNat_add, hsize]
          simp only [chunks, clear, List.map_cons, List.map_nil, List.sum_cons, List.sum_nil, TempCacheEntry.chunk,
            UInt32.toNat_zero]
          omega
        · rw [List.mem_singleton.mp he]
          exact bytesAt_overwritten written _ _
      | false =>
        have htiles := h.tiles (by simpa using hempty)
        have hsum := (Packed.of_tiles htiles).total
        have htotal := h.total
        have hlast := h.fits
        have hoffset : aFileOffset.toNat = c.iLastByteFileOffset.toNat + 1 := by
          have heq : aFileOffset = c.iLastByteFileOffset + 1 := by simpa [hempty] using hcontiguous
          rw [heq, UInt32.toNat_add, UInt32.toNat_one]
          omega
        have hend : (c.iLastByteFileOffset + aFrag.getMemFragSize).toNat + 1 =
            (TempCacheEntry.chunk ⟨aFrag, aFileOffset⟩).fin := by
          rw [UInt32.toNat_add, hsize]
          simp only [Chunk.fin, TempCacheEntry.chunk]
          omega
        simp only [Bool.false_eq_true, if_false]
        refine ⟨by simp, fun _ => ?_, ?_, ?_, fun e' he' => ?_⟩
        · rw [hend, chunks, List.map_append]
          exact htiles.concat hoffset
        · rw [hend]
          exact hfits
        · rw [UInt32.toNat_add, hsize, htotal]
          simp only [chunks, List.map_append, List.sum_append, List.map_cons, List.map_nil, List.sum_cons,
            List.sum_nil, TempCacheEntry.chunk] at hsum ⊢
          omega
        · obtain he' | he' := List.mem_append.mp he'
          · have hin := ((Packed.of_tiles htiles).within e'.chunk (List.mem_map_of_mem he')).2
            refine (h.content e' he').overwritten ?_
            simp only [Chunk.fin, TempCacheEntry.chunk] at hin
            omega
          · rw [List.mem_singleton.mp he']
            exact bytesAt_overwritten written _ _

/-! ## Reading -/

theorem copy_spec {e : TempCacheEntry} {start n : UInt32} (hin : start.toNat + n.toNat ≤ e.frag.bytes.length)
    (hcontent : BytesAt written e.fileOffset.toNat e.frag.bytes) :
    ∃ data, copy e start n = some data ∧ data.length = n.toNat ∧
      BytesAt written (e.fileOffset.toNat + start.toNat) data := by
  refine ⟨_, if_pos hin, ?_, (hcontent.drop _).take _⟩
  rw [List.length_take, List.length_drop]
  omega

theorem toNat_end {e : TempCacheEntry} {b : Nat} (hle : e.chunk.fin ≤ b) (hb : b < 2 ^ 32) :
    (e.fileOffset + e.fragSize).toNat = e.fileOffset.toNat + e.frag.bytes.length := by
  simp only [Chunk.fin, TempCacheEntry.chunk] at hle
  rw [UInt32.toNat_add, e.toNat_fragSize]
  omega

theorem toNat_count {first last : UInt32} (hle : first.toNat ≤ last.toNat + 1) (hlast : last.toNat + 1 < 2 ^ 32) :
    (last - first + 1).toNat + first.toNat = last.toNat + 1 := by
  rw [UInt32.toNat_add, UInt32.toNat_sub, UInt32.toNat_one]
  omega

theorem readRest_spec {aLastByte : UInt32} : ∀ {entries : List TempCacheEntry} {p b : Nat},
    Tiles p (entries.map TempCacheEntry.chunk) b → b < 2 ^ 32 → p ≤ aLastByte.toNat + 1 →
    (∀ e ∈ entries, BytesAt written e.fileOffset.toNat e.frag.bytes) →
    ∃ data, readRest aLastByte entries = some data ∧ BytesAt written p data ∧
      p + data.length = min (aLastByte.toNat + 1) b
  | [], p, b, htiles, _, hp, _ => ⟨[], rfl, BytesAt.nil, by
      have hend : p = b := htiles
      rw [List.length_nil]
      omega⟩
  | e :: rest, p, b, ⟨hptr, hrest⟩, hb, hp, hcontent => by
    have hle : e.chunk.fin ≤ b := by
      have hsum := (Packed.of_tiles hrest).total
      omega
    have hptr : e.fileOffset.toNat = p := hptr
    have hhead := hcontent e List.mem_cons_self
    rw [readRest]
    split
    · next hlt =>
      rw [UInt32.lt_iff_toNat_lt, toNat_end hle hb] at hlt
      have hfin : e.fileOffset.toNat + e.frag.bytes.length ≤ b := hle
      have hcount := toNat_count (hptr ▸ hp) (by omega)
      obtain ⟨data, hcopy, hlen, hdata⟩ :=
        @copy_spec written e 0 (aLastByte - e.fileOffset + 1) (by rw [UInt32.toNat_zero]; omega) hhead
      exact ⟨data, hcopy, hptr ▸ hdata, by omega⟩
    · next hge =>
      rw [UInt32.lt_iff_toNat_lt, toNat_end hle hb] at hge
      obtain ⟨data, hcopy, hlen, hdata⟩ :=
        @copy_spec written e 0 e.fragSize (by rw [UInt32.toNat_zero, e.toNat_fragSize]; omega) hhead
      have hrestLe : e.chunk.fin ≤ aLastByte.toNat + 1 := by
        simp only [Chunk.fin, TempCacheEntry.chunk]
        omega
      obtain ⟨more, hmore, hmoreAt, hmoreLen⟩ := readRest_spec hrest hb hrestLe
        fun e' he' => hcontent e' (List.mem_cons_of_mem e he')
      rw [hcopy, hmore]
      rw [e.toNat_fragSize] at hlen
      refine ⟨data ++ more, rfl, (hptr ▸ hdata : BytesAt written p data).append ?_, ?_⟩
      · rw [hlen, ← hptr]
        exact hmoreAt
      · simp only [Chunk.fin, TempCacheEntry.chunk] at hmoreLen
        rw [List.length_append]
        omega

theorem readFrom_spec {aFirstByte aLastByte : UInt32} (hle : aFirstByte.toNat ≤ aLastByte.toNat + 1) :
    ∀ {entries : List TempCacheEntry} {i p b : Nat}, Tiles p (entries.map TempCacheEntry.chunk) b → b < 2 ^ 32 →
    (∀ e ∈ entries, BytesAt written e.fileOffset.toNat e.frag.bytes) →
    ∃ data firstEntry, readFrom aFirstByte aLastByte i entries = some (data, firstEntry) ∧
      BytesAt written aFirstByte.toNat data ∧
      (p ≤ aFirstByte.toNat → data.length = min (aLastByte.toNat + 1) b - aFirstByte.toNat)
  | [], _, p, b, htiles, _, _ => ⟨[], 0, rfl, BytesAt.nil, fun hp => by
    have hend : p = b := htiles
    rw [List.length_nil]
    omega⟩
  | e :: rest, i, p, b, ⟨hptr, hrest⟩, hb, hcontent => by
    have hend : e.chunk.fin ≤ b := by
      have hsum := (Packed.of_tiles hrest).total
      omega
    have hhead := hcontent e List.mem_cons_self
    have htail : ∀ e' ∈ rest, BytesAt written e'.fileOffset.toNat e'.frag.bytes := fun e' he' =>
      hcontent e' (List.mem_cons_of_mem e he')
    rw [readFrom]
    split
    · next hin =>
      rw [UInt32.le_iff_toNat_le, UInt32.lt_iff_toNat_lt, toNat_end hend hb] at hin
      have hfin : e.fileOffset.toNat + e.frag.bytes.length ≤ b := hend
      have hstart : (aFirstByte - e.fileOffset).toNat = aFirstByte.toNat - e.fileOffset.toNat :=
        UInt32.toNat_sub_of_le _ _ (UInt32.le_iff_toNat_le.mpr hin.1)
      have hfirst : e.fileOffset.toNat + (aFirstByte - e.fileOffset).toNat = aFirstByte.toNat := by omega
      split
      · next hlt =>
        rw [UInt32.lt_iff_toNat_lt, toNat_end hend hb] at hlt
        have hcount := toNat_count hle (by omega)
        obtain ⟨data, hcopy, hlen, hdata⟩ :=
          @copy_spec written e (aFirstByte - e.fileOffset) (aLastByte - aFirstByte + 1) (by omega) hhead
        exact ⟨data, i, by rw [hcopy]; rfl, hfirst ▸ hdata, fun _ => by omega⟩
      · next hge =>
        rw [UInt32.lt_iff_toNat_lt, toNat_end hend hb] at hge
        have hsize : (e.fragSize - (aFirstByte - e.fileOffset)).toNat =
            e.frag.bytes.length - (aFirstByte.toNat - e.fileOffset.toNat) := by
          rw [UInt32.toNat_sub_of_le _ _ (by rw [UInt32.le_iff_toNat_le, e.toNat_fragSize]; omega),
            e.toNat_fragSize, hstart]
        obtain ⟨data, hcopy, hlen, hdata⟩ :=
          @copy_spec written e (aFirstByte - e.fileOffset) (e.fragSize - (aFirstByte - e.fileOffset)) (by omega)
            hhead
        have hrestLe : e.chunk.fin ≤ aLastByte.toNat + 1 := by
          simp only [Chunk.fin, TempCacheEntry.chunk]
          omega
        obtain ⟨more, hmore, hmoreAt, hmoreLen⟩ := readRest_spec hrest hb hrestLe htail
        rw [hcopy, hmore]
        simp only [Chunk.fin, TempCacheEntry.chunk] at hmoreLen
        refine ⟨data ++ more, i, rfl, (hfirst ▸ hdata : BytesAt written aFirstByte.toNat data).append ?_, ?_⟩
        · rw [hlen, hsize,
            show aFirstByte.toNat + (e.frag.bytes.length - (aFirstByte.toNat - e.fileOffset.toNat)) = e.chunk.fin by
              simp only [Chunk.fin, TempCacheEntry.chunk]; omega]
          exact hmoreAt
        · intro _
          rw [List.length_append]
          omega
    · next hout =>
      rw [UInt32.le_iff_toNat_le, UInt32.lt_iff_toNat_lt, toNat_end hend hb] at hout
      obtain ⟨data, firstEntry, hread, hdata, hlen⟩ := readFrom_spec hle (i := i + 1) hrest hb htail
      have hptr : e.fileOffset.toNat = _ := hptr
      simp only [Chunk.fin, TempCacheEntry.chunk] at hlen
      exact ⟨data, firstEntry, hread, hdata, fun hp => hlen (by omega)⟩

/-- **`ReadBytes` copies what was written**, from its first byte on. -/
theorem Cached.readBytes {aFirstByte aLastByte : UInt32} (h : c.Cached written)
    (hle : aFirstByte.toNat ≤ aLastByte.toNat + 1) :
    ∃ data firstEntry, c.readBytes aFirstByte aLastByte = some (data, firstEntry) ∧
      BytesAt written aFirstByte.toNat data := by
  by_cases hne : c.iEntries = []
  · rw [TempCache.readBytes, hne]
    exact ⟨[], 0, rfl, BytesAt.nil⟩
  · obtain ⟨data, firstEntry, hread, hdata, -⟩ := readFrom_spec hle (i := 0) (h.tiles hne) h.fits h.content
    exact ⟨data, firstEntry, hread, hdata⟩

end TempCache

end Ftke.MemoryBuffer
