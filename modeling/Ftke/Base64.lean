import Ftke.Memory
import Mathlib.Tactic.IntervalCases

/-!
# Ftke.Base64

`PVBase64Codec` (`base64_codec.cpp`): the tables its constructor fills, `Encode`
and `Decode`.

The input is the list of its bytes, `aInBufLen` its length.  The output is a
`Buffer`: what the call has written, and where.  A routine that keeps reading
behind the end of its input answers `none`.
-/

namespace Ftke.Base64

/-- Truncation to `uint32`. -/
def wrap32 (n : Nat) : Nat := n % 2 ^ 32

/-! ## The tables -/

/-- The two tables of a `PVBase64Codec`. -/
structure PVBase64Codec where
  etable : Nat → UInt8
  dtable : UInt8 → UInt8

/-- `for (i = 0; i < count; i++) table[first + i] = v(i)`. -/
def fill (table : Nat → UInt8) (first count : Nat) (v : Nat → UInt8) : Nat → UInt8 := fun k =>
  if first ≤ k ∧ k < first + count then v (k - first) else table k

/-- `base + i`, as a character. -/
def char (base : Char) (i : Nat) : UInt8 := UInt8.ofNat (base.toNat + i)

/-- The encoder table over what the memory held before. -/
def encodeTable (table : Nat → UInt8) : Nat → UInt8 :=
  let table := fill table 0 9 (char 'A')
  let table := fill table 9 9 (char 'J')
  let table := fill table 26 9 (char 'a')
  let table := fill table 35 9 (char 'j')
  let table := fill table 18 8 (char 'S')
  let table := fill table 44 8 (char 's')
  let table := fill table 52 10 (char '0')
  let table := fill table 62 1 fun _ => char '+' 0
  fill table 63 1 fun _ => char '/' 0

/-- The decoder table over what the memory held before; the first loop stops
before entry 255. -/
def decodeTable (table : Nat → UInt8) : Nat → UInt8 :=
  let table := fill table 0 255 fun _ => 0x80
  let table := fill table 'A'.toNat 9 fun i => UInt8.ofNat i
  let table := fill table 'J'.toNat 9 fun i => UInt8.ofNat (9 + i)
  let table := fill table 'S'.toNat 8 fun i => UInt8.ofNat (18 + i)
  let table := fill table 'a'.toNat 9 fun i => UInt8.ofNat (26 + i)
  let table := fill table 'j'.toNat 9 fun i => UInt8.ofNat (35 + i)
  let table := fill table 's'.toNat 8 fun i => UInt8.ofNat (44 + i)
  let table := fill table '0'.toNat 10 fun i => UInt8.ofNat (52 + i)
  let table := fill table '+'.toNat 1 fun _ => 62
  let table := fill table '/'.toNat 1 fun _ => 63
  fill table '='.toNat 1 fun _ => 0

/-- The constructor; `emem` and `dmem` are what the memory of the two tables
held before. -/
def construct (emem dmem : Nat → UInt8) : PVBase64Codec where
  etable := encodeTable emem
  dtable c := decodeTable dmem c.toNat

/-- The padding character. -/
def pad : UInt8 := char '=' 0

/-- The characters of a base64 text: letters, digits, `+`, `/` and the padding. -/
def inAlphabet (c : UInt8) : Bool :=
  char 'A' 0 ≤ c && c ≤ char 'Z' 0 || char 'a' 0 ≤ c && c ≤ char 'z' 0 ||
    char '0' 0 ≤ c && c ≤ char '9' 0 || c = char '+' 0 || c = char '/' 0 || c = pad

theorem fill_congr {t u : Nat → UInt8} {k : Nat} (h : t k = u k) (first count : Nat)
    (v : Nat → UInt8) : fill t first count v k = fill u first count v k := by
  unfold fill
  rw [h]

theorem fill_inside {t u : Nat → UInt8} {first count k : Nat} (h : first ≤ k ∧ k < first + count)
    (v : Nat → UInt8) : fill t first count v k = fill u first count v k := by
  unfold fill
  rw [if_pos h, if_pos h]

theorem decodeTable_eq (t u : Nat → UInt8) {k : Nat} (hk : k < 255) :
    decodeTable t k = decodeTable u k := by
  unfold decodeTable
  exact fill_congr (fill_congr (fill_congr (fill_congr (fill_congr (fill_congr (fill_congr
    (fill_congr (fill_congr (fill_congr (fill_inside ⟨Nat.zero_le k, by omega⟩ _)
      _ _ _) _ _ _) _ _ _) _ _ _) _ _ _) _ _ _) _ _ _) _ _ _) _ _ _) _ _ _

theorem encodeTable_eq (t u : Nat → UInt8) {k : Nat} (hk : k < 64) :
    encodeTable t k = encodeTable u k := by
  interval_cases k <;> rfl

/-- Whether the decoder takes a character for one of its own. -/
def PVBase64Codec.accepts (codec : PVBase64Codec) (c : UInt8) : Bool :=
  codec.dtable c &&& 0x80 = 0

theorem accepts_iff (emem dmem : Nat → UInt8) {c : UInt8} (hc : c ≠ 255) :
    (construct emem dmem).accepts c = inAlphabet c := by
  have htable : ∀ k < 255, (decodeTable (fun _ => 0) k &&& 0x80 = 0 : Bool) =
      inAlphabet (UInt8.ofNat k) := by decide +kernel
  have hlt : c.toNat < 255 := by
    have hle := c.toNat_lt
    have hne : c.toNat ≠ 255 := fun h => hc (UInt8.toNat_inj.mp h)
    omega
  have h := htable c.toNat hlt
  rw [UInt8.ofNat_toNat] at h
  rw [← h, decodeTable_eq _ dmem hlt]
  rfl

theorem accepts_255 (emem dmem : Nat → UInt8) :
    (construct emem dmem).accepts 255 = decide (dmem 255 &&& 0x80 = 0) := rfl

theorem dtable_etable (emem dmem : Nat → UInt8) {v : UInt8} (hv : v < 64) :
    (construct emem dmem).dtable ((construct emem dmem).etable v.toNat) = v := by
  have htable : ∀ k < 64, decodeTable (fun _ => 0) (encodeTable (fun _ => 0) k).toNat =
      UInt8.ofNat k ∧ (encodeTable (fun _ => 0) k).toNat < 255 := by decide +kernel
  obtain ⟨h, hlt⟩ := htable v.toNat hv
  rw [UInt8.ofNat_toNat] at h
  show decodeTable dmem (encodeTable emem v.toNat).toNat = v
  rw [encodeTable_eq emem (fun _ => 0) (show v.toNat < 64 from hv), decodeTable_eq dmem (fun _ => 0) hlt, h]

theorem etable_mem (emem dmem : Nat → UInt8) {v : UInt8} (hv : v < 64) :
    inAlphabet ((construct emem dmem).etable v.toNat) ∧
      (construct emem dmem).etable v.toNat ≠ pad := by
  have htable : ∀ k < 64, inAlphabet (encodeTable (fun _ => 0) k) ∧
      encodeTable (fun _ => 0) k ≠ pad := by decide +kernel
  show inAlphabet (encodeTable emem v.toNat) ∧ encodeTable emem v.toNat ≠ pad
  rw [encodeTable_eq emem (fun _ => 0) (show v.toNat < 64 from hv)]
  exact htable v.toNat hv

/-! ## Encode -/

/-- What a call returns, its length argument and what it wrote. -/
structure Result where
  ret : Bool
  aOutBufLen : Nat
  aOutBuf : Buffer UInt8

namespace PVBase64Codec

/-- The four characters of a group of `n` bytes. -/
def ogroup (codec : PVBase64Codec) (n : Nat) (x y z : UInt8) : List UInt8 :=
  [codec.etable (x >>> 2).toNat,
    codec.etable (((x &&& 3) <<< 4) ||| (y >>> 4)).toNat,
    if n < 2 then pad else codec.etable (((y &&& 0xF) <<< 2) ||| (z >>> 6)).toNat,
    if n < 3 then pad else codec.etable (z &&& 0x3F).toNat]

/-- The loop that writes a group, one character and one check at a time; `false`
when it left the routine. -/
def writeGroup (aMaxOutBufLen : Nat) :
    List UInt8 → Buffer UInt8 → Nat → Bool × Buffer UInt8 × Nat
  | [], out, write_count => (true, out, write_count)
  | c :: cs, out, write_count =>
    let out := out.store write_count c
    let write_count := wrap32 (write_count + 1)
    if write_count > aMaxOutBufLen then (false, out, write_count)
    else writeGroup aMaxOutBufLen cs out write_count

/-- The `while` loop of `Encode`.  A group cut short by the end of the input is
the last one: `read_count` is then `aInBufLen + 1`, which does not wrap because
`2^32 - 1` is a multiple of three. -/
def encodeLoop (codec : PVBase64Codec) (aOutBufLen aMaxOutBufLen : Nat) :
    List UInt8 → Buffer UInt8 → Nat → Result
  | [], out, write_count => ⟨true, write_count, out⟩
  | [x], out, write_count =>
    let (ok, out, write_count) := writeGroup aMaxOutBufLen (codec.ogroup 1 x 0 0) out write_count
    if ok then ⟨true, write_count, out⟩ else ⟨false, aOutBufLen, out⟩
  | [x, y], out, write_count =>
    let (ok, out, write_count) := writeGroup aMaxOutBufLen (codec.ogroup 2 x y 0) out write_count
    if ok then ⟨true, write_count, out⟩ else ⟨false, aOutBufLen, out⟩
  | x :: y :: z :: aInBuf, out, write_count =>
    let (ok, out, write_count) := writeGroup aMaxOutBufLen (codec.ogroup 3 x y z) out write_count
    if ok then encodeLoop codec aOutBufLen aMaxOutBufLen aInBuf out write_count
    else ⟨false, aOutBufLen, out⟩

/-- `Encode`; `aOutBufLen` keeps its value unless the routine succeeds. -/
def encode (codec : PVBase64Codec) (aInBuf : List UInt8) (aOutBufLen aMaxOutBufLen : Nat) : Result :=
  encodeLoop codec aOutBufLen aMaxOutBufLen aInBuf Buffer.empty 0

/-! ## Decode -/

/-- The next character that is not skipped, and the input behind it. -/
def readChar (codec : PVBase64Codec) : List UInt8 → Option (UInt8 × List UInt8)
  | [] => none
  | c :: aInBuf => if codec.accepts c then some (c, aInBuf) else readChar codec aInBuf

/-- The `for` loop that collects a group; `none` when the input ends first. -/
def readGroup (codec : PVBase64Codec) (aInBuf : List UInt8) :
    Option ((UInt8 × UInt8 × UInt8 × UInt8) × List UInt8) := do
  let (a0, aInBuf) ← readChar codec aInBuf
  let (a1, aInBuf) ← readChar codec aInBuf
  let (a2, aInBuf) ← readChar codec aInBuf
  let (a3, aInBuf) ← readChar codec aInBuf
  return ((a0, a1, a2, a3), aInBuf)

/-- The bytes a group stands for: one or two when it is padded. -/
def ogroupBytes (codec : PVBase64Codec) (a0 a1 a2 a3 : UInt8) : List UInt8 :=
  let b0 := codec.dtable a0
  let b1 := codec.dtable a1
  let b2 := codec.dtable a2
  let b3 := codec.dtable a3
  let o := [(b0 <<< 2) ||| (b1 >>> 4), (b1 <<< 4) ||| (b2 >>> 2), (b2 <<< 6) ||| b3]
  o.take (if a2 = pad then 1 else if a3 = pad then 2 else 3)

/-- The `while` loop of `Decode`, for at most `fuel` groups.  When the input ends
inside a group, `read_count` is `aInBufLen + 1`; if that wraps, the end goes
unnoticed.  (`write_count` stays below three quarters of the input length.) -/
def decodeLoop (codec : PVBase64Codec) (aInBufLen aMaxOutBufLen : Nat) :
    Nat → List UInt8 → Buffer UInt8 → Nat → Option Result
  | _, [], out, write_count => some ⟨true, write_count, out⟩
  | 0, _ :: _, _, _ => none
  | fuel + 1, c :: aInBuf, out, write_count =>
    match codec.readGroup (c :: aInBuf) with
    | none => if wrap32 (aInBufLen + 1) > aInBufLen then some ⟨false, 0, out⟩ else none
    | some ((a0, a1, a2, a3), aInBuf) =>
      let o := codec.ogroupBytes a0 a1 a2 a3
      let out := out.memcpy write_count o
      let write_count := write_count + o.length
      if write_count > aMaxOutBufLen then some ⟨false, 0, out⟩
      else if o.length < 3 then some ⟨true, write_count, out⟩
      else decodeLoop codec aInBufLen aMaxOutBufLen fuel aInBuf out write_count

/-- `Decode`; a group takes at least one character, so the length of the input
is fuel enough. -/
def decode (codec : PVBase64Codec) (aInBuf : List UInt8) (aMaxOutBufLen : Nat) : Option Result :=
  decodeLoop codec aInBuf.length aMaxOutBufLen aInBuf.length aInBuf
    (Buffer.empty.memset 0 aMaxOutBufLen) 0

end PVBase64Codec

end Ftke.Base64
