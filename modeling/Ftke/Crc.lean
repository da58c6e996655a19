import Ftke.MediaData
import Mathlib.Logic.Function.Iterate

/-!
# Ftke.Crc

The two checksums of `CRC` (`crccheck.cpp`) over a packet.

Both walk through the fragments with one loop, which fetches the next fragment
when its count has run down to nothing.  The count is decremented before it is
looked at, so the loop would take a byte from an empty fragment; over a packet
without empty fragments in front of its end it is a fold over the bytes, however
they are cut.
-/

namespace Ftke.Crc

open MediaData

/-! ## The routines of the source -/

/-- An entry of `CrcTbl8`: eight turns with the polynomial `CRC_X8`. -/
def crcTbl8 (i : UInt8) : UInt8 :=
  (fun crc : UInt8 => if crc &&& 1 = 1 then (crc >>> 1) ^^^ 0xe0 else crc >>> 1)^[8] i

/-- An entry of `CrcTbl16`, with `CRC_X`. -/
def crcTbl16 (n : UInt8) : UInt16 :=
  (fun crc : UInt16 => if crc &&& 1 = 1 then (crc >>> 1) ^^^ 0x8408 else crc >>> 1)^[8] n.toUInt16

/-- A turn of `Crc8Check`; the eight bits of `crc` are all shifted out. -/
def crc8Step (crc b : UInt8) : UInt8 := crcTbl8 (crc ^^^ b)

/-- A turn of `Crc16Check`. -/
def crc16Step (crc : UInt16) (b : UInt8) : UInt16 := (crc >>> 8) ^^^ crcTbl16 (crc.toUInt8 ^^^ b)

/-- The loop of both: `dataSize` bytes are left, `m` are the fragments not yet
fetched, `curSize` and `pData` belong to the one that is. -/
def crcLoop {σ : Type} (step : σ → UInt8 → σ) :
    Nat → MediaData → Int → List UInt8 → σ → Option σ
  | 0, _, _, _, crc => some crc
  | dataSize + 1, m, curSize, pData, crc =>
    if curSize - 1 ≤ 0 then
      match m with
      | [] => none
      | frag :: m =>
        match frag.ptr with
        | [] => none
        | b :: pData => crcLoop step dataSize m frag.len pData (step crc b)
    else
      match pData with
      | [] => none
      | b :: pData => crcLoop step dataSize m (curSize - 1) pData (step crc b)

/-- `Crc8Check` of a packet; with `hasCRC` the last byte is left out. -/
def crc8Check (mediaData : MediaData) (hasCRC : Bool) : Option UInt8 :=
  crcLoop crc8Step (getFilledSize mediaData - if hasCRC then 1 else 0) mediaData 0 [] 0

/-- `Crc16Check` of a packet; with `hasCRC` the last two bytes are left out. -/
def crc16Check (mediaData : MediaData) (hasCRC : Bool) : Option UInt16 :=
  (crcLoop crc16Step (getFilledSize mediaData - if hasCRC then 2 else 0) mediaData 0 [] 0xffff).map
    fun crc => crc ^^^ 0xffff

/-! ## The checksum of a byte string -/

/-- The checksum of eight bits. -/
def crc8 (bytes : List UInt8) : UInt8 := bytes.foldl crc8Step 0

/-- The checksum of sixteen bits. -/
def crc16 (bytes : List UInt8) : UInt16 := bytes.foldl crc16Step 0xffff ^^^ 0xffff

variable {σ : Type} {step : σ → UInt8 → σ}

theorem crcLoop_inside {m : MediaData} : ∀ (l rest : List UInt8) (n : Nat) (crc : σ),
    crcLoop step (l.length + n) m (l.length + 1) (l ++ rest) crc =
      crcLoop step n m 1 rest (l.foldl step crc)
  | [], rest, n, crc => by
    rw [List.length_nil, Nat.zero_add, List.nil_append, List.foldl_nil]
    rfl
  | b :: l, rest, n, crc => by
    have hsize : ((b :: l).length : Int) + 1 - 1 = l.length + 1 := by simp
    have hpos : ¬ (l.length : Int) + 1 ≤ 0 := by omega
    rw [show (b :: l).length + n = l.length + n + 1 by rw [List.length_cons]; omega,
      List.cons_append]
    simp only [crcLoop, hsize, if_neg hpos]
    exact crcLoop_inside l rest n (step crc b)

theorem crcLoop_fragment {f : MemFrag} (m : MediaData) (pData : List UInt8) (n : Nat) (crc : σ)
    {s : Int} (hs : s ≤ 1) (hf : 0 < f.len) : ∃ pData', crcLoop step (f.len + n) (f :: m) s pData crc =
      crcLoop step n m 1 pData' (f.bytes.foldl step crc) := by
  have hlen := f.length_bytes
  have hptr : f.ptr = f.bytes ++ f.ptr.drop f.len := (List.take_append_drop _ _).symm
  match hb : f.bytes with
  | [] =>
    rw [hb, List.length_nil] at hlen
    omega
  | b :: l =>
    rw [hb, List.length_cons] at hlen
    rw [hb, List.cons_append] at hptr
    generalize f.ptr.drop f.len = rest at hptr
    refine ⟨rest, ?_⟩
    rw [show f.len + n = (l.length + n) + 1 by omega]
    simp only [crcLoop, if_pos (show s - 1 ≤ 0 by omega), hptr]
    rw [← hlen, List.foldl_cons]
    exact crcLoop_inside l rest n (step crc b)

/-- **The loop is a fold over the bytes**, over fragments none of which is
empty and whatever comes behind them. -/
theorem crcLoop_eq : ∀ {m rest : MediaData} {pData : List UInt8} {crc : σ} {s : Int}, s ≤ 1 →
    (∀ f ∈ m, 0 < f.len) →
    crcLoop step (getFilledSize m) (m ++ rest) s pData crc = some ((contents m).foldl step crc)
  | [], _, _, _, _, _, _ => rfl
  | f :: m, rest, pData, crc, s, hs, hm => by
    have hsize : getFilledSize (f :: m) = f.len + getFilledSize m := rfl
    have hfrag : ∃ pData', crcLoop step (f.len + getFilledSize m) (f :: (m ++ rest)) s pData crc =
        crcLoop step (getFilledSize m) (m ++ rest) 1 pData' (f.bytes.foldl step crc) :=
      crcLoop_fragment (m ++ rest) pData (getFilledSize m) crc hs (hm f List.mem_cons_self)
    obtain ⟨pData', hfrag⟩ := hfrag
    rw [hsize, List.cons_append, hfrag, crcLoop_eq (Int.le_refl 1) fun g hg =>
      hm g (List.mem_cons_of_mem f hg), contents_cons, List.foldl_append]

theorem getFilledSize_append (l m : MediaData) :
    getFilledSize (l ++ m) = getFilledSize l + getFilledSize m := by
  rw [getFilledSize, List.map_append, List.sum_append]
  rfl

variable {m rest : MediaData}

theorem crc8Check_eq (hm : ∀ f ∈ m, 0 < f.len) (hrest : getFilledSize rest = 0) :
    crc8Check (m ++ rest) false = some (crc8 (contents m)) := by
  have hloop : crcLoop crc8Step (getFilledSize m) (m ++ rest) 0 [] 0 =
      some ((contents m).foldl crc8Step 0) := crcLoop_eq (by decide) hm
  simp only [crc8Check, getFilledSize_append, hrest, Bool.false_eq_true, if_false, Nat.add_zero,
    Nat.sub_zero, hloop, crc8]

theorem crc16Check_eq (hm : ∀ f ∈ m, 0 < f.len) (hrest : getFilledSize rest = 0) :
    crc16Check (m ++ rest) false = some (crc16 (contents m)) := by
  have hloop : crcLoop crc16Step (getFilledSize m) (m ++ rest) 0 [] 0xffff =
      some ((contents m).foldl crc16Step 0xffff) := crcLoop_eq (by decide) hm
  simp only [crc16Check, getFilledSize_append, hrest, Bool.false_eq_true, if_false, Nat.add_zero,
    Nat.sub_zero, hloop, crc16, Option.map_some]

end Ftke.Crc
