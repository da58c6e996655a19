import Ftke.KeyValueStore

/-!
# Ftke.KeyValueStore.Lookup

Comparison of keys and looking them up.

Keys are compared by checksum, length and characters; that is the same as comparing them
in lower case (`isCIEquivalentTo_iff`).  `Table` says what the slots hold as long as a
store is sound: a key is in the slot of its checksum or in the overflow area, in one
place only, and then it is found there (`find_of_mem`).
-/

namespace Ftke.KeyValueStore

/-! ## Comparing keys -/

theorem lower_flip : ∀ n < 256, isLetter (UInt8.ofNat n) →
    lower (UInt8.ofNat n ^^^ 0x20) = lower (UInt8.ofNat n) ∧
      (UInt8.ofNat n = lower (UInt8.ofNat n) ∨ UInt8.ofNat n = lower (UInt8.ofNat n) ^^^ 0x20) ∧
      isLetter (lower (UInt8.ofNat n)) := by decide +kernel

theorem magicBit : ∀ n < 256, UInt8.ofNat n ||| 0x20 = 0x20 → UInt8.ofNat n = 0 ∨ UInt8.ofNat n = 0x20 := by
  decide +kernel

theorem lower_letter {a : UInt8} (h : isLetter a) : lower (a ^^^ 0x20) = lower a ∧
    (a = lower a ∨ a = lower a ^^^ 0x20) ∧ isLetter (lower a) := by
  have hflip := lower_flip a.toNat a.toNat_lt
  rw [UInt8.ofNat_toNat] at hflip
  exact hflip h

theorem lower_of_not_letter {a : UInt8} (h : ¬isLetter a) : lower a = a := if_neg h

theorem compare_iff {a b : UInt8} :
    (a = b ∨ (isLetter a ∧ (a ^^^ b) ||| 0x20 = 0x20)) ↔ lower a = lower b := by
  constructor
  · rintro (rfl | ⟨hletter, hbit⟩)
    · rfl
    · have hcases := magicBit (a ^^^ b).toNat (UInt8.toNat_lt _)
      rw [UInt8.ofNat_toNat] at hcases
      rcases hcases hbit with hzero | hcase
      · rw [UInt8.xor_eq_zero_iff.mp hzero]
      · have hb : b = a ^^^ 0x20 := by rw [← hcase, ← UInt8.xor_assoc, UInt8.xor_self, UInt8.zero_xor]
        rw [hb, (lower_letter hletter).1]
  · intro h
    by_cases ha : isLetter a
    · obtain ⟨-, hcasea, hlower⟩ := lower_letter ha
      have hb : isLetter b := by
        by_contra hb
        rw [h, lower_of_not_letter hb] at hlower
        exact hb hlower
      obtain ⟨-, hcaseb, -⟩ := lower_letter hb
      rw [← h] at hcaseb
      by_cases hab : a = b
      · exact .inl hab
      · refine .inr ⟨ha, ?_⟩
        have hxor : a ^^^ b = 0x20 := by
          rcases hcasea with ha | ha <;> rcases hcaseb with hb | hb
          · exact absurd (ha.trans hb.symm) hab
          · rw [hb, ← ha, ← UInt8.xor_assoc, UInt8.xor_self, UInt8.zero_xor]
          · rw [← hb] at ha
            rw [ha, UInt8.xor_comm b, UInt8.xor_assoc, UInt8.xor_self, UInt8.xor_zero]
          · exact absurd (ha.trans hb.symm) hab
        rw [hxor]
        rfl
    · by_cases hb : isLetter b
      · obtain ⟨-, -, hlower⟩ := lower_letter hb
        rw [← h, lower_of_not_letter ha] at hlower
        exact absurd hlower ha
      · rw [lower_of_not_letter ha, lower_of_not_letter hb] at h
        exact .inl h

theorem isCIPrefixOf_iff : ∀ {s t : Str}, s.length = t.length → (isCIPrefixOf s t = true ↔ fold s = fold t)
  | [], [], _ => iff_of_true rfl rfl
  | a :: s, b :: t, h => by
    have ih := isCIPrefixOf_iff (s := s) (t := t) (Nat.succ.inj h)
    have hchar := compare_iff (a := a) (b := b)
    rw [isCIPrefixOf, fold, fold, List.map_cons, List.map_cons, List.cons.injEq, ← hchar, ← fold, ← fold,
      Bool.and_eq_true, ih]
    simp

theorem checkSum_eq (s : Str) : checkSum s = (fold s).foldl (fun sum c => sum + c.toInt8.toInt16) 0 := by
  rw [checkSum, fold, List.foldl_map]

/-- **Keys are compared ignoring case.** -/
theorem isCIEquivalentTo_iff {s t : Str} : isCIEquivalentTo s t = true ↔ fold s = fold t := by
  rw [isCIEquivalentTo, Bool.and_eq_true, Bool.and_eq_true, beq_iff_eq, beq_iff_eq]
  constructor
  · rintro ⟨-, hlen, hprefix⟩
    exact (isCIPrefixOf_iff hlen).mp hprefix
  · intro h
    have hlen : s.length = t.length := by simpa [fold] using congrArg List.length h
    exact ⟨by rw [checkSum_eq, checkSum_eq, h], hlen, (isCIPrefixOf_iff hlen).mpr h⟩

theorem isCIEquivalentTo_eq_false {s t : Str} (h : fold s ≠ fold t) : isCIEquivalentTo s t = false :=
  Bool.eq_false_iff.mpr (mt isCIEquivalentTo_iff.mp h)

theorem getChecksum_congr {s t : Str} (h : fold s = fold t) : getChecksum s = getChecksum t := by
  rw [getChecksum, getChecksum, checkSum_eq, checkSum_eq, h]

theorem getChecksum_lt (s : Str) : getChecksum s < 500 := by
  rw [getChecksum, tableSize]
  omega

/-! ## Looking up -/

/-- A slot holds a key. -/
def Occupied (s : Store) (i : Nat) : Prop := (s.iFieldKeys i).iStr ≠ []

/-- What the slots hold. -/
structure Table (s : Store) : Prop where
  free : ∀ i, ¬Occupied s i → s.iFieldKeys i = noWrapper
  slot : ∀ i, Occupied s i → i = getChecksum (s.iFieldKeys i).iStr ∨ (500 ≤ i ∧ i < 500 + s.iNumConflicts)
  overflow : ∀ i < s.iNumConflicts, Occupied s (500 + i)
  conflicts : s.iNumConflicts < 500
  unique : ∀ i j, Occupied s i → Occupied s j →
    fold (s.iFieldKeys i).iStr = fold (s.iFieldKeys j).iStr → i = j

variable {s : Store}

theorem empty_iff (h : Table s) (i : Nat) : (s.iFieldKeys i).empty = true ↔ ¬Occupied s i := by
  constructor
  · intro hempty hocc
    rw [Wrapper.empty, Bool.and_eq_true, beq_iff_eq] at hempty
    exact hocc (List.eq_nil_of_length_eq_zero hempty.2)
  · intro hfree
    rw [h.free i hfree]
    rfl

theorem query_of_mem (h : Table s) {aKey : Str} {i : Nat} (hi : Occupied s i) (hle : 500 ≤ i)
    (hkey : fold (s.iFieldKeys i).iStr = fold aKey) : query aKey s = i := by
  have hlt := getChecksum_lt (s.iFieldKeys i).iStr
  have hslot : i < 500 + s.iNumConflicts := by
    rcases h.slot i hi with heq | hover
    · omega
    · exact hover.2
  cases hfind : (List.range s.iNumConflicts).find? fun i =>
      isCIEquivalentTo (s.iFieldKeys (tableSize / 2 + i)).iStr aKey with
  | none =>
    have hnone := List.find?_eq_none.mp hfind (i - 500) (List.mem_range.mpr (by omega))
    rw [show tableSize / 2 + (i - 500) = i from by simp only [tableSize]; omega] at hnone
    exact absurd (isCIEquivalentTo_iff.mpr hkey) hnone
  | some j =>
    have hj := List.mem_range.mp (List.mem_of_find?_eq_some hfind)
    have hsome := List.find?_some hfind
    have hfound := isCIEquivalentTo_iff.mp hsome
    have hocc : Occupied s (500 + j) := h.overflow j hj
    have heq : 500 + j = i := h.unique _ _ hocc hi (hfound.trans hkey.symm)
    rw [query, hfind]
    simp only [tableSize]
    omega

theorem query_of_not_mem {aKey : Str} (hkey : ∀ i, 500 ≤ i → i < 500 + s.iNumConflicts →
    fold (s.iFieldKeys i).iStr ≠ fold aKey) : query aKey s = -1 := by
  have hnone : ((List.range s.iNumConflicts).find? fun i =>
      isCIEquivalentTo (s.iFieldKeys (tableSize / 2 + i)).iStr aKey) = none := by
    refine List.find?_eq_none.mpr fun i hi => ?_
    have hi := List.mem_range.mp hi
    rw [isCIEquivalentTo_iff]
    exact hkey _ (by simp only [tableSize]; omega) (by simp only [tableSize]; omega)
  rw [query, hnone]

/-- **A key that is there is found**, for searching. -/
theorem find_of_mem (h : Table s) {aKey : Str} {i : Nat} (hi : Occupied s i)
    (hkey : fold (s.iFieldKeys i).iStr = fold aKey) : (getHashTableIndex aKey true s).1 = i := by
  have hsum := getChecksum_congr hkey
  rw [getHashTableIndex]
  simp only [Bool.not_true, Bool.false_eq_true, if_false, if_true]
  by_cases hprimary : Occupied s (getChecksum aKey)
  · rw [if_neg (fun hempty => (empty_iff h _).mp hempty hprimary)]
    by_cases hsame : fold (s.iFieldKeys (getChecksum aKey)).iStr = fold aKey
    · rw [if_pos (isCIEquivalentTo_iff.mpr hsame), h.unique _ _ hprimary hi (hsame.trans hkey.symm)]
    · rw [if_neg (mt isCIEquivalentTo_iff.mp hsame)]
      rcases h.slot i hi with heq | ⟨hle, -⟩
      · rw [hsum] at heq
        rw [heq] at hkey
        exact absurd hkey hsame
      · exact query_of_mem h hi hle hkey
  · rw [if_pos ((empty_iff h _).mpr hprimary)]
    rcases h.slot i hi with heq | ⟨hle, -⟩
    · rw [hsum] at heq
      rw [heq] at hi
      exact absurd hi hprimary
    · exact query_of_mem h hi hle hkey

/-- **A key that is not there is not found.** -/
theorem find_of_not_mem (h : Table s) {aKey : Str}
    (hkey : ∀ i, Occupied s i → fold (s.iFieldKeys i).iStr ≠ fold aKey) :
    (getHashTableIndex aKey true s).1 = -1 := by
  have hquery : query aKey s = -1 := query_of_not_mem fun i hle hlt => hkey i (by
    have hocc := h.overflow (i - 500) (by omega)
    rwa [Nat.add_sub_cancel' hle] at hocc)
  rw [getHashTableIndex]
  simp only [Bool.not_true, Bool.false_eq_true, if_false, if_true]
  by_cases hprimary : Occupied s (getChecksum aKey)
  · rw [if_neg (fun hempty => (empty_iff h _).mp hempty hprimary),
      if_neg (mt isCIEquivalentTo_iff.mp (hkey _ hprimary))]
    exact hquery
  · rw [if_pos ((empty_iff h _).mpr hprimary)]
    exact hquery

end Ftke.KeyValueStore
