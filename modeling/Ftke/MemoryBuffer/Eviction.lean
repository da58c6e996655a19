import Ftke.MemoryBuffer.Cache
import Ftke.MemoryBuffer.PermCache

/-!
# Ftke.MemoryBuffer.Eviction

Which fragments `ManageCache` gives back to the writer.

The limit is the smallest read pointer less a margin, in 32 bits, and may wrap; but each
fragment is also checked against every pointer before it goes.  That check is made with the
32-bit end of the fragment, so it fails for a fragment that reaches 2^32 and for no other
(`managed_iff`).
-/

namespace Ftke.MemoryBuffer

namespace WriteStream

variable (s : WriteStream) (p : PermCache)

/-- While nothing is persistent, session 0 at offset 0 is ignored. -/
def ignores (i : Nat) : Bool :=
  i = 0 && p.iFirstPermByteOffset = 0 && p.iLastPermByteOffset = 0 && (s.iReadFilePositions i).iReadFilePtr = 0

/-- The read pointers in the temporary cache. -/
def pointers : List UInt32 :=
  (List.range maxNumberOfReadConnections).filterMap fun i =>
    if s.readsTempCache i && !s.ignores p i then some (s.iReadFilePositions i).iReadFilePtr else none

/-- `smallest`, after the search for read pointers. -/
def smallest : UInt32 :=
  (s.pointers p).foldl (fun smallest ptr => if ptr < smallest then ptr else smallest) 0xFFFFFFFF

/-- `ManageCache` up to its loop: whether duplicated data is trimmed and up to where fragments
may go, or nothing where it returns. -/
def plan : Option (Bool × UInt32) :=
  if s.iTempCache.iEntries.isEmpty || !s.iMadePersistent then none
  else if (s.pointers p).isEmpty && !p.iEntries.isEmpty then
    -- the data has just been made persistent, and is in both caches
    if p.iFirstByteFileOffset = s.iTempCache.iFirstByteFileOffset ∧
        p.iLastByteFileOffset ≤ s.iTempCache.iLastByteFileOffset then
      some (true, p.iLastByteFileOffset + 1)
    else none
  else if s.smallest p ≠ 0xFFFFFFFF then
    if s.smallest p - s.iTempCache.iFirstByteFileOffset ≤ s.iTempCacheTrimMargin then none
    else some (false, s.smallest p - s.iTempCacheTrimMargin)
  else some (false, s.smallest p)

/-- What a turn of the loop asks of a fragment, with so many bytes in the cache. -/
def Evictable (trim : Bool) (limit total : UInt32) (e : TempCacheEntry) : Prop :=
  (trim = true ∨ total > s.iTempCacheTrimThreshold) ∧ e.fileOffset + e.fragSize ≤ limit ∧
    ∀ ptr ∈ s.pointers p, ¬ptr < e.fileOffset + e.fragSize

instance (trim : Bool) (limit total : UInt32) (e : TempCacheEntry) : Decidable (s.Evictable p trim limit total e) :=
  @instDecidableAnd _ _ inferInstance (@instDecidableAnd _ _ inferInstance (List.decidableBAll _ _))

/-- A turn of the loop, if there is one. -/
def evictTurn (trim : Bool) (limit : UInt32) : Option WriteStream :=
  match s.iTempCache.iEntries with
  | [] => none
  | e :: _ => if s.Evictable p trim limit s.iTempCache.iTotalBytes e then some s.releaseFirst else none

/-- The loop, for so many turns. -/
def evictLoop (trim : Bool) (limit : UInt32) : Nat → WriteStream → WriteStream
  | 0, s => s
  | n + 1, s =>
    match s.evictTurn p trim limit with
    | none => s
    | some t => evictLoop trim limit n t

/-- `ManageCache`. -/
def manageCacheWith : WriteStream :=
  match s.plan p with
  | none => s
  | some (trim, limit) => evictLoop p trim limit s.numEntries s

/-! ## What it is for -/

/-- Fragments have gone from the front only, none with a byte that a reader has still to come
to, and the loop is at its end. -/
structure Managed (t : WriteStream) : Prop where
  kept : ∃ k ≤ s.numEntries, t.iTempCache.iEntries = s.iTempCache.iEntries.drop k ∧
    ∀ e ∈ s.iTempCache.iEntries.take k, ∀ ptr ∈ s.pointers p,
      e.fileOffset.toNat + e.frag.bytes.length ≤ ptr.toNat
  ended : ∀ trim limit, s.plan p = some (trim, limit) → t.evictTurn p trim limit = none

/-- The bytes in the cache without its first `k` fragments. -/
def totalAfter (k : Nat) : UInt32 :=
  (s.iTempCache.iEntries.take k).foldl (fun total e => total - e.fragSize) s.iTempCache.iTotalBytes

/-- The turn of fragment `k` comes: this one and those in front of it may go. -/
def GetsTurn (trim : Bool) (limit : UInt32) (k : Nat) : Prop :=
  ∀ j ≤ k, ∃ e, s.iTempCache.iEntries[j]? = some e ∧ s.Evictable p trim limit (s.totalAfter j) e

/-- No fragment that reaches 2^32 gets its turn while a session reads from the cache. -/
def EndsBelow : Prop :=
  s.pointers p ≠ [] → ∀ trim limit, s.plan p = some (trim, limit) → ∀ k e,
    s.iTempCache.iEntries[k]? = some e → s.GetsTurn p trim limit k →
      e.fileOffset.toNat + e.frag.bytes.length < 2 ^ 32

/-! ## Turns -/

variable {s p} {trim : Bool} {limit : UInt32}

theorem evictTurn_eq {t : WriteStream} (h : s.evictTurn p trim limit = some t) :
    t = s.releaseFirst ∧ 0 < s.numEntries := by
  rw [evictTurn] at h
  split at h
  · contradiction
  · next heq =>
    split at h
    · exact ⟨(Option.some.inj h).symm, by simp [numEntries, heq]⟩
    · contradiction

/-- Where a fragment goes, the pointers and the settings stay, and the bytes are counted down. -/
theorem releaseFirst_iterate (s : WriteStream) (k : Nat) :
    (releaseFirst^[k] s).iTempCache.iEntries = s.iTempCache.iEntries.drop k ∧
      (releaseFirst^[k] s).iReadFilePositions = s.iReadFilePositions ∧
      (releaseFirst^[k] s).iTempCacheTrimThreshold = s.iTempCacheTrimThreshold ∧
      (k < s.numEntries → (releaseFirst^[k] s).iTempCache.iTotalBytes = s.totalAfter k) := by
  induction k with
  | zero => exact ⟨rfl, rfl, rfl, fun _ => rfl⟩
  | succ k ih =>
    obtain ⟨hentries, hpositions, hthreshold, htotal⟩ := ih
    rw [Function.iterate_succ_apply']
    generalize releaseFirst^[k] s = t at hentries hpositions hthreshold htotal
    have hdrop : s.iTempCache.iEntries.drop (k + 1) = t.iTempCache.iEntries.tail := by
      rw [hentries, List.tail_drop]
    rw [releaseFirst, TempCache.removeFirstEntry, hdrop]
    rcases heq : t.iTempCache.iEntries with _ | ⟨e, _ | ⟨next, rest⟩⟩
    · refine ⟨by simp [heq], hpositions, hthreshold, fun hlt => ?_⟩
      have hlen := congrArg List.length (hentries.symm.trans heq)
      simp only [List.length_drop, List.length_nil, numEntries] at hlen hlt
      omega
    · refine ⟨rfl, hpositions, hthreshold, fun hlt => ?_⟩
      have hlen := congrArg List.length (hentries.symm.trans heq)
      simp only [List.length_drop, List.length_singleton, numEntries] at hlen hlt
      omega
    · refine ⟨rfl, hpositions, hthreshold, fun hlt => ?_⟩
      have hget : s.iTempCache.iEntries[k]? = some e := by
        rw [← List.head?_drop, ← hentries, heq]
        rfl
      simp only
      rw [htotal (by omega), totalAfter, totalAfter, List.take_add_one, hget, Option.toList_some,
        List.foldl_append]
      rfl

theorem pointers_congr {t : WriteStream} (h : t.iReadFilePositions = s.iReadFilePositions) :
    t.pointers p = s.pointers p := by
  have hreads : ∀ i, t.readsTempCache i = s.readsTempCache i := fun i => by rw [readsTempCache, readsTempCache, h]
  have hignores : ∀ i, t.ignores p i = s.ignores p i := fun i => by rw [ignores, ignores, h]
  simp only [pointers, hreads, hignores, h]

theorem evictable_iterate (k : Nat) (total : UInt32) (e : TempCacheEntry) :
    (releaseFirst^[k] s).Evictable p trim limit total e ↔ s.Evictable p trim limit total e := by
  obtain ⟨-, hpositions, hthreshold, -⟩ := releaseFirst_iterate s k
  rw [Evictable, Evictable, pointers_congr hpositions, hthreshold]

theorem evictTurn_iterate (k : Nat) :
    (releaseFirst^[k] s).evictTurn p trim limit ≠ none ↔
      ∃ e, s.iTempCache.iEntries[k]? = some e ∧ s.Evictable p trim limit (s.totalAfter k) e := by
  obtain ⟨hentries, -, -, htotal⟩ := releaseFirst_iterate s k
  rw [evictTurn, ← List.head?_drop, ← hentries]
  split
  · next heq => simp [heq]
  · next e rest heq =>
    have hlt : k < s.numEntries := by
      have hlen := congrArg List.length (hentries.symm.trans heq)
      simp only [List.length_drop, List.length_cons] at hlen
      rw [numEntries]
      omega
    simp only [heq, List.head?_cons, evictable_iterate, htotal hlt, Option.some.injEq, exists_eq_left']
    split <;> simp_all

/-- **The loop ends, and every turn takes the first fragment.** -/
theorem evictLoop_spec : ∀ (n : Nat) (s : WriteStream), s.numEntries ≤ n →
    ∃ k ≤ s.numEntries, evictLoop p trim limit n s = releaseFirst^[k] s ∧
      (∀ j < k, (releaseFirst^[j] s).evictTurn p trim limit ≠ none) ∧
      (releaseFirst^[k] s).evictTurn p trim limit = none
  | 0, s, hn => by
    refine ⟨0, Nat.zero_le _, rfl, by simp, ?_⟩
    have hnil : s.iTempCache.iEntries = [] := List.length_eq_zero_iff.mp (Nat.le_zero.mp hn)
    rw [Function.iterate_zero_apply, evictTurn, hnil]
  | n + 1, s, hn => by
    rw [evictLoop]
    split
    · next hnone => exact ⟨0, Nat.zero_le _, rfl, by simp, hnone⟩
    · next t hturn =>
      obtain ⟨rfl, hpos⟩ := evictTurn_eq hturn
      have hlen : s.releaseFirst.numEntries = s.numEntries - 1 := by
        have hentries := (releaseFirst_iterate s 1).1
        rw [Function.iterate_one] at hentries
        rw [numEntries, hentries, List.length_drop]
        rfl
      obtain ⟨k, hk, heq, hturns, hend⟩ := evictLoop_spec n s.releaseFirst (by omega)
      refine ⟨k + 1, by omega, heq, fun j hj => ?_, hend⟩
      cases j with
      | zero => simp [hturn]
      | succ j => exact hturns j (by omega)

/-- The 32-bit end of a fragment that ends below 2^32. -/
theorem toNat_end_of_lt {e : TempCacheEntry} (h : e.fileOffset.toNat + e.frag.bytes.length < 2 ^ 32) :
    (e.fileOffset + e.fragSize).toNat = e.fileOffset.toNat + e.frag.bytes.length := by
  rw [UInt32.toNat_add, TempCacheEntry.toNat_fragSize, Nat.mod_eq_of_lt h]

/-- **`ManageCache` keeps what readers need exactly where no fragment that reaches 2^32 gets its turn.** -/
theorem managed_iff (s : WriteStream) (p : PermCache) : s.Managed p (s.manageCacheWith p) ↔ s.EndsBelow p := by
  rw [manageCacheWith]
  rcases hplan : s.plan p with _ | ⟨trim, limit⟩
  · have hkept : s.Managed p s := ⟨⟨0, Nat.zero_le _, rfl, by simp⟩, by simp [hplan]⟩
    simp [hkept, EndsBelow, hplan]
  · obtain ⟨k, hk, heq, hturns, hend⟩ := @evictLoop_spec p trim limit _ s le_rfl
    have hentries := (releaseFirst_iterate s k).1
    have hgets : ∀ j, s.GetsTurn p trim limit j ↔ j < k := by
      intro j
      constructor
      · intro hturn
        by_contra hle
        exact (evictTurn_iterate k).mpr (hturn k (Nat.not_lt.mp hle)) hend
      · intro hlt i hi
        exact (evictTurn_iterate i).mp (hturns i (by omega))
    simp only [heq]
    constructor
    · intro hmanaged hreads trim' limit' hplan' j e he hturn
      obtain ⟨rfl, rfl⟩ : trim = trim' ∧ limit = limit' := by simpa [hplan] using hplan'
      obtain ⟨k', hk', hentries', hpast⟩ := hmanaged.kept
      have hlen := congrArg List.length (hentries.symm.trans hentries')
      simp only [List.length_drop, numEntries] at hlen hk hk'
      have hmem : e ∈ s.iTempCache.iEntries.take k' := by
        have hjk := (hgets j).mp hturn
        refine List.mem_of_getElem? (i := j) ?_
        rwa [List.getElem?_take_of_lt (by omega)]
      obtain ⟨ptr, hptr⟩ := List.exists_mem_of_ne_nil _ hreads
      exact Nat.lt_of_le_of_lt (hpast e hmem ptr hptr) ptr.toNat_lt
    · intro hends
      refine ⟨⟨k, hk, hentries, fun e he ptr hptr => ?_⟩, fun trim' limit' hplan' => ?_⟩
      · obtain ⟨j, hj⟩ := List.mem_iff_getElem?.mp he
        rw [List.getElem?_take] at hj
        split at hj
        · next hjk =>
          have hturn := (hgets j).mpr hjk
          obtain ⟨e', he', -, -, hcheck⟩ := hturn j le_rfl
          obtain rfl : e = e' := Option.some.inj (hj.symm.trans he')
          have hend32 := toNat_end_of_lt (hends (List.ne_nil_of_mem hptr) trim limit hplan j e hj hturn)
          have hle := UInt32.le_iff_toNat_le.mp (UInt32.not_lt.mp (hcheck ptr hptr))
          rwa [hend32] at hle
        · contradiction
      · obtain ⟨rfl, rfl⟩ : trim = trim' ∧ limit = limit' := by simpa [hplan] using hplan'
        exact hend

/-! ## With nothing persistent -/

theorem pointers_empty (s : WriteStream) : s.pointers .empty = s.readPointers := by
  simp [pointers, readPointers, ignores, PermCache.empty]

theorem manageLoop_eq (limit : UInt32) : ∀ (n : Nat) (s : WriteStream),
    manageLoop limit n s = evictLoop .empty false limit n s
  | 0, _ => rfl
  | n + 1, s => by
    rw [manageLoop, evictLoop, evictTurn]
    rcases s.iTempCache.iEntries with _ | ⟨e, rest⟩
    · rfl
    · have hcheck : (s.iTempCache.iTotalBytes > s.iTempCacheTrimThreshold ∧ e.fileOffset + e.fragSize ≤ limit ∧
          (!s.readPointers.any fun ptr => ptr < e.fileOffset + e.fragSize) = true) ↔
            s.Evictable .empty false limit s.iTempCache.iTotalBytes e := by
        simp [Evictable, pointers_empty]
      by_cases h : s.Evictable .empty false limit s.iTempCache.iTotalBytes e
      · simp only [List.head?_cons]
        rw [if_pos (hcheck.mpr h), if_pos h, manageLoop_eq limit n]
      · simp only [List.head?_cons]
        rw [if_neg (fun hc => h (hcheck.mp hc)), if_neg h]

/-- The permanent cache of `manageCache` is empty. -/
theorem manageCache_eq (s : WriteStream) : s.manageCache = s.manageCacheWith .empty := by
  have hsmallest : s.smallest .empty = s.smallestPointer := by rw [smallest, pointers_empty, smallestPointer]
  have hentries : PermCache.empty.iEntries.isEmpty = true := rfl
  simp only [manageCache, manageCacheWith, plan, hsmallest, hentries, Bool.not_true, Bool.and_false]
  split
  · rfl
  · simp only [Bool.false_eq_true, if_false]
    split
    · split
      · rfl
      · exact manageLoop_eq _ _ _
    · exact manageLoop_eq _ _ _

/-- A fragment up to the last offset, which session 1 has read half of. -/
def lastFragment : WriteStream :=
  { (construct .progressivePlayback 3 ⟨false, false, 0, false, 0⟩).writeStream with
    iTempCache := ⟨4, 0xFFFFFFFC, 0xFFFFFFFF, [⟨⟨0, [1, 2, 3, 4], by decide, by decide⟩, 0xFFFFFFFC⟩]⟩
    iMadePersistent := true
    iTempCacheTrimMargin := 1
    iReadFilePositions := fun i => ⟨i = 0, 0xFFFFFFFE, i = 0⟩ }

/-- It is given back, though two of its bytes are still to be read. -/
theorem lastFragment_not_managed : ¬lastFragment.Managed .empty (lastFragment.manageCacheWith .empty) := by
  intro h
  obtain ⟨k, hk, hentries, hpast⟩ := h.kept
  have hlen := congrArg List.length hentries
  have hnone : (lastFragment.manageCacheWith .empty).iTempCache.iEntries.length = 0 := by decide
  have hone : lastFragment.iTempCache.iEntries.length = 1 := rfl
  rw [List.length_drop] at hlen
  obtain rfl : k = 1 := by
    rw [numEntries] at hk
    omega
  exact absurd (hpast _ List.mem_cons_self 0xFFFFFFFE (by decide)) (by decide)

end WriteStream

end Ftke.MemoryBuffer
