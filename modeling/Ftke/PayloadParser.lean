import Ftke.Bits

/-!
# Ftke.PayloadParser

What the payload parsers have in common (`payload_parser.h`): their status, the fragments
of memory that they are given and give, and the packets.
-/

namespace Ftke.PayloadParser

open Bits (or_of_lt)

inductive PayloadParserStatus where
  | failure
  | success
  | inputNotExhausted
  | memorAllocFail
  | dataNotReady
  | emptyQueue
deriving DecidableEq

/-- `OsclRefCounterMemFrag`: where the fragment is and its length, with the memory from
there on. -/
structure RefMemFrag where
  ptr : Nat
  len : UInt32
  memory : List UInt8
deriving DecidableEq

namespace RefMemFrag

/-- An octet of the memory. -/
def octet (m : RefMemFrag) (i : Nat) : UInt8 := m.memory.getD i 0

/-- Two octets of the memory, as a number. -/
def octets2 (m : RefMemFrag) (i : Nat) : Nat := ((m.octet i).toNat <<< 8) ||| (m.octet (i + 1)).toNat

/-- The octets of the fragment. -/
def bytes (m : RefMemFrag) : List UInt8 := (List.range m.len.toNat).map m.octet

/-- A fragment of the same memory. -/
def part (m : RefMemFrag) (start : Nat) (len : UInt32) : RefMemFrag := ⟨m.ptr + start, len, m.memory.drop start⟩

end RefMemFrag

/-- `IPayloadParser::Payload`, as far as the parser reads or writes it. -/
structure Payload where
  stream : UInt32
  timestamp : UInt32
  sequence : UInt32
  marker : Bool
  randAccessPt : Bool
  endOfNAL : Bool
  vfragments : List RefMemFrag
deriving DecidableEq

/-- The packet with its memory as it is now. -/
def Payload.withFrag (p : Payload) (frag : RefMemFrag) : Payload :=
  { p with vfragments := frag :: p.vfragments.tail }

/-- The octets of an output. -/
def Payload.octets (p : Payload) : List UInt8 := p.vfragments.flatMap RefMemFrag.bytes

/-! ## The octets of a fragment -/

namespace RefMemFrag

variable {m : RefMemFrag} {rest : List UInt8} {b : UInt8} {i n : Nat}

@[simp] theorem length_bytes (m : RefMemFrag) : m.bytes.length = m.len.toNat := by
  rw [bytes, List.length_map, List.length_range]

theorem getElem?_bytes (h : i < m.len.toNat) : m.bytes[i]? = some (m.octet i) := by
  rw [bytes, List.getElem?_map, List.getElem?_range h, Option.map_some]

theorem octet_of_drop (h : m.bytes.drop i = b :: rest) : m.octet i = b := by
  have hlen := congrArg List.length h
  rw [List.length_drop, length_bytes, List.length_cons] at hlen
  have hget := congrArg List.head? h
  rw [List.head?_drop, getElem?_bytes (by omega), List.head?_cons] at hget
  exact Option.some.inj hget

theorem drop_bytes (h : i < m.len.toNat) : m.bytes.drop i = m.octet i :: m.bytes.drop (i + 1) := by
  obtain ⟨hlt, hget⟩ := List.getElem?_eq_some_iff.mp (getElem?_bytes h)
  rw [List.drop_eq_getElem_cons hlt, hget]

@[simp] theorem octet_part (start : Nat) (len : UInt32) (i : Nat) :
    (m.part start len).octet i = m.octet (start + i) := by
  rw [octet, part, octet, List.getD_eq_getElem?_getD, List.getElem?_drop, List.getD_eq_getElem?_getD]

theorem bytes_part {start : Nat} {len : UInt32} (h : start + len.toNat ≤ m.len.toNat) :
    (m.part start len).bytes = (m.bytes.drop start).take len.toNat := by
  refine List.ext_getElem? fun i => ?_
  by_cases hi : i < len.toNat
  · rw [getElem?_bytes hi, List.getElem?_take_of_lt hi, List.getElem?_drop, getElem?_bytes (by omega), octet_part]
  · have hout : (m.part start len).bytes.length ≤ i := by
      rw [length_bytes]
      exact Nat.not_lt.mp hi
    rw [List.getElem?_eq_none hout, List.getElem?_eq_none]
    rw [List.length_take]
    omega

end RefMemFrag

/-! ## Numbers in two octets -/

/-- A number in two octets. -/
def word (n : Nat) : List UInt8 := [UInt8.ofNat (n / 256), UInt8.ofNat n]

theorem RefMemFrag.octets2_of_drop {m : RefMemFrag} {rest : List UInt8} {i n : Nat} (hn : n < 65536)
    (h : m.bytes.drop i = word n ++ rest) : m.octets2 i = n := by
  have hhigh := RefMemFrag.octet_of_drop h
  have hlow : m.bytes.drop (i + 1) = UInt8.ofNat n :: rest := by
    rw [← List.drop_drop, h]
    rfl
  rw [RefMemFrag.octets2, hhigh, RefMemFrag.octet_of_drop hlow, UInt8.toNat_ofNat', UInt8.toNat_ofNat',
    or_of_lt (by omega)]
  omega

theorem RefMemFrag.octets2_lt (m : RefMemFrag) (i : Nat) : m.octets2 i < 65536 := by
  have hhigh := (m.octet i).toNat_lt
  have hlow := (m.octet (i + 1)).toNat_lt
  rw [RefMemFrag.octets2, or_of_lt (by omega)]
  omega

theorem RefMemFrag.drop_octets2 {m : RefMemFrag} {i : Nat} (h : i + 1 < m.len.toNat) :
    m.bytes.drop i = word (m.octets2 i) ++ m.bytes.drop (i + 2) := by
  have hhigh := (m.octet i).toNat_lt
  have hlow := (m.octet (i + 1)).toNat_lt
  have hword : word (m.octets2 i) = [m.octet i, m.octet (i + 1)] := by
    have hdiv : ((m.octet i).toNat * 256 + (m.octet (i + 1)).toNat) / 256 = (m.octet i).toNat := by omega
    rw [word, RefMemFrag.octets2, or_of_lt (by omega), show 2 ^ 8 = 256 by decide, hdiv, UInt8.ofNat_toNat]
    have hmod : UInt8.ofNat ((m.octet i).toNat * 256 + (m.octet (i + 1)).toNat) = m.octet (i + 1) := by
      apply UInt8.toNat_inj.mp
      rw [UInt8.toNat_ofNat']
      omega
    rw [hmod]
  rw [hword, RefMemFrag.drop_bytes (by omega), RefMemFrag.drop_bytes (i := i + 1) h]
  rfl

theorem bytes_piece {m : RefMemFrag} {start : Nat} (hsmall : start < 2 ^ 32) (h : start ≤ m.len.toNat) :
    (m.part start (m.len - UInt32.ofNat start)).bytes = m.bytes.drop start := by
  have hlen : (m.len - UInt32.ofNat start).toNat = m.len.toNat - start := by
    have hle : UInt32.ofNat start ≤ m.len := by
      rw [UInt32.le_iff_toNat_le, UInt32.toNat_ofNat_of_lt' hsmall]
      exact h
    rw [UInt32.toNat_sub_of_le _ _ hle, UInt32.toNat_ofNat_of_lt' hsmall]
  rw [RefMemFrag.bytes_part (by omega), hlen]
  refine List.take_of_length_le ?_
  rw [List.length_drop, RefMemFrag.length_bytes]

theorem bytes_set {m : RefMemFrag} {b : UInt8} {i : Nat} (h : i < m.memory.length) :
    ({ m with memory := m.memory.set i b } : RefMemFrag).bytes = m.bytes.set i b := by
  have hoctet (j : Nat) : ({ m with memory := m.memory.set i b } : RefMemFrag).octet j =
      if i = j then b else m.octet j := by
    rw [RefMemFrag.octet, List.getD_eq_getElem?_getD, List.getElem?_set, if_pos h]
    split
    · rfl
    · rw [RefMemFrag.octet, List.getD_eq_getElem?_getD]
  refine List.ext_getElem? fun j => ?_
  rw [List.getElem?_set, RefMemFrag.length_bytes]
  by_cases hj : j < m.len.toNat
  · rw [RefMemFrag.getElem?_bytes (m := { m with memory := m.memory.set i b }) hj, hoctet,
      RefMemFrag.getElem?_bytes hj]
    by_cases hij : i = j
    · rw [if_pos hij, if_pos hij, if_pos (hij ▸ hj)]
    · rw [if_neg hij, if_neg hij]
  · have hout (n : RefMemFrag) (hn : n.len = m.len) : n.bytes[j]? = none := by
      rw [List.getElem?_eq_none]
      rw [RefMemFrag.length_bytes, hn]
      exact Nat.not_lt.mp hj
    rw [hout m rfl, hout { m with memory := m.memory.set i b } rfl]
    by_cases hij : i = j
    · rw [if_pos hij, if_neg (hij ▸ hj)]
    · rw [if_neg hij]

end Ftke.PayloadParser
