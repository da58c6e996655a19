import Ftke.AdaptationLayer

/-!
# Ftke.AdaptationLayer.Parse

What the two layers make of an SDU and of a PDU.

A PDU is the header, the SDU and the checksum of both (`Kind.pdu`), and a
received packet is any cut of it into fragments (`Kind.Cut`).  Taking the
checksum off shortens the last one or two fragments, possibly to nothing, and
taking the header off the first one; `Trimmed` is what the packet is in between.
-/

namespace Ftke.AdaptationLayer

open MediaData Crc

/-! ## PDUs -/

namespace Kind

/-- The header with sequence number `n`. -/
def header : Kind → Nat → List UInt8
  | al2, n => [UInt8.ofNat n]
  | al3Short, n => [UInt8.ofNat ((n <<< 1) ||| 1)]
  | al3Long, n => [UInt8.ofNat ((n >>> 7) ||| 1), UInt8.ofNat (n &&& 0xff)]

/-- The checksum, as it is sent. -/
def trailer : Kind → List UInt8 → List UInt8
  | al2, bytes => [crc8 bytes]
  | al3Short, bytes | al3Long, bytes =>
    [(crc16 bytes &&& 0xff).toUInt8, (crc16 bytes >>> 8).toUInt8]

/-- The PDU with sequence number `n`. -/
def pdu (k : Kind) (n : Nat) (sdu : List UInt8) : List UInt8 :=
  k.header n ++ sdu ++ k.trailer (k.header n ++ sdu)

/-- The layer with sequence number `n`. -/
def atNum (k : Kind) (n : Nat) : Layer := ⟨k.start.iSNPos, n⟩

@[simp] theorem length_header (k : Kind) (n : Nat) : (k.header n).length = k.start.iSNPos := by
  cases k <;> rfl

theorem modulus_pos (k : Kind) : 0 < k.modulus := by cases k <;> decide

end Kind

/-! ## Packets without empty fragments -/

/-- Empty fragments stand at the end only. -/
def Packed (pkt : MediaData) : Prop :=
  ∃ m rest, pkt = m ++ rest ∧ (∀ f ∈ m, 0 < f.len) ∧ getFilledSize rest = 0

theorem contents_of_size_zero {rest : MediaData} (h : getFilledSize rest = 0) : contents rest = [] := by
  rw [← List.length_eq_zero_iff, length_contents, h]

theorem Packed.crc8Check {pkt : MediaData} (h : Packed pkt) :
    crc8Check pkt false = some (crc8 (contents pkt)) := by
  obtain ⟨m, rest, rfl, hm, hrest⟩ := h
  rw [crc8Check_eq hm hrest, contents_append, contents_of_size_zero hrest, List.append_nil]

theorem Packed.crc16Check {pkt : MediaData} (h : Packed pkt) :
    crc16Check pkt false = some (crc16 (contents pkt)) := by
  obtain ⟨m, rest, rfl, hm, hrest⟩ := h
  rw [crc16Check_eq hm hrest, contents_append, contents_of_size_zero hrest, List.append_nil]

variable {m : MediaData} {f g : MemFrag}

theorem packed_of_pos (hm : ∀ f ∈ m, 0 < f.len) : Packed m := ⟨m, [], by simp, hm, rfl⟩

theorem packed_last (hm : ∀ f ∈ m, 0 < f.len) (f : MemFrag) : Packed (m ++ [f]) := by
  rcases Nat.eq_zero_or_pos f.len with h0 | hpos
  · exact ⟨m, [f], rfl, hm, by simp [getFilledSize, h0]⟩
  · refine packed_of_pos fun g hg => ?_
    rcases List.mem_append.mp hg with hg | hg
    · exact hm g hg
    · rwa [List.mem_singleton.mp hg]

/-! ## Sending -/

theorem pos_ofChunks {sdu : List (List UInt8)} (h : ∀ c ∈ sdu, c ≠ []) : ∀ f ∈ ofChunks sdu, 0 < f.len := by
  intro f hf
  obtain ⟨c, hc, rfl⟩ := List.mem_map.mp hf
  exact List.length_pos_iff.mpr (h c hc)

theorem packed_header (hdr : MemFrag) (hhdr : 0 < hdr.len) {sdu : List (List UInt8)}
    (hsdu : ∀ c ∈ sdu, c ≠ []) : Packed (hdr :: ofChunks sdu) :=
  packed_of_pos fun f hf => (List.mem_cons.mp hf).elim (fun he => he ▸ hhdr) (pos_ofChunks hsdu f)

theorem contents_complete {k : Kind} {n : Nat} (hdr : MemFrag) (hhdr : hdr.bytes = k.header n)
    (sdu : List (List UInt8)) :
    contents ((hdr :: ofChunks sdu) ++
        [.ofBytes (k.trailer (contents (hdr :: ofChunks sdu)))]) = k.pdu n sdu.flatten := by
  have hcontents : contents (hdr :: ofChunks sdu) = k.header n ++ sdu.flatten := by
    rw [contents_cons, hhdr, contents_ofChunks]
  rw [contents_append, hcontents, contents_cons, MemFrag.bytes_ofBytes, contents_nil, List.append_nil]
  rfl

/-- **`CompletePacket`** makes the PDU, and the next number is the next one
modulo the number of sequence numbers. -/
theorem send_eq (k : Kind) {n : Nat} (hn : n < k.modulus) {sdu : List (List UInt8)}
    (hsdu : ∀ c ∈ sdu, c ≠ []) : ∃ m, k.send (k.atNum n) sdu = some (m, k.atNum ((n + 1) % k.modulus)) ∧
      contents m = k.pdu n sdu.flatten := by
  cases k with
  | al2 =>
    have hnext : (if n ≠ 0xff then n + 1 else 0) = (n + 1) % 256 := by
      have hlt : n < 256 := hn
      split <;> omega
    let hdr := (MemFrag.ofBytes [0]).store 0 (UInt8.ofNat n)
    have hcrc := (packed_header hdr Nat.one_pos hsdu).crc8Check
    refine ⟨_, ?_, contents_complete (k := .al2) (n := n) hdr rfl sdu⟩
    show AL2.completePacket ⟨1, n⟩ (.ofBytes [0] :: ofChunks sdu) = _
    have hone : (1 : Nat) ≠ 0 := Nat.one_ne_zero
    simp only [AL2.completePacket, if_pos hone, storeHeader, hnext]
    rw [show crc8Check (MemFrag.store (MemFrag.ofBytes [0]) 0 (UInt8.ofNat n) :: ofChunks sdu) false = _
      from hcrc]
    rfl
  | al3Short =>
    have hnext : AL3.next 1 n = (n + 1) % 128 := by
      have hlt : n < 128 := hn
      simp only [AL3.next, AL3.vrMax, if_true]
      split <;> omega
    let hdr := (MemFrag.ofBytes [0]).store 0 (UInt8.ofNat ((n <<< 1) ||| 1))
    have hcrc := (packed_header hdr Nat.one_pos hsdu).crc16Check
    refine ⟨_, ?_, contents_complete (k := .al3Short) (n := n) hdr rfl sdu⟩
    show AL3.completePacket ⟨1, n⟩ (.ofBytes [0] :: ofChunks sdu) = _
    simp only [AL3.completePacket, storeHeader, hnext]
    rw [show crc16Check (MemFrag.store (MemFrag.ofBytes [0]) 0 (UInt8.ofNat ((n <<< 1) ||| 1)) ::
      ofChunks sdu) false = _ from hcrc]
    rfl
  | al3Long =>
    have hnext : AL3.next 2 n = (n + 1) % 32768 := by
      have hlt : n < 32768 := hn
      have hmax : AL3.vrMax 2 = 0x7fff := rfl
      simp only [AL3.next, hmax]
      split <;> omega
    let hdr := ((MemFrag.ofBytes [0, 0]).store 0 (UInt8.ofNat ((n >>> 7) ||| 1))).store 1
      (UInt8.ofNat (n &&& 0xff))
    have hcrc := (packed_header hdr Nat.two_pos hsdu).crc16Check
    refine ⟨_, ?_, contents_complete (k := .al3Long) (n := n) hdr rfl sdu⟩
    show AL3.completePacket ⟨2, n⟩ (.ofBytes [0, 0] :: ofChunks sdu) = _
    simp only [AL3.completePacket, storeHeader, hnext]
    rw [show crc16Check (((MemFrag.ofBytes [0, 0]).store 0 (UInt8.ofNat ((n >>> 7) ||| 1))).store 1
      (UInt8.ofNat (n &&& 0xff)) :: ofChunks sdu) false = _ from hcrc]
    rfl

/-! ## Receiving -/

/-- The number that the receiver reads in a header. -/
def Kind.seqNum : Kind → MemFrag → Option Nat
  | .al2, first_frag => first_frag.bytes[0]?.map UInt8.toNat
  | .al3Short, first_frag => AL3.seqNum 1 first_frag
  | .al3Long, first_frag => AL3.seqNum 2 first_frag

theorem decode_long {n : Nat} (hn : n < 32768) :
    ((UInt8.ofNat ((n >>> 7) ||| 1)).toNat >>> 1) <<< 8 ||| (UInt8.ofNat (n &&& 0xff)).toNat = n := by
  have hand : n &&& 0xff = n % 256 := Nat.and_two_pow_sub_one_eq_mod n 8
  have hhigh : (UInt8.ofNat ((n >>> 7) ||| 1)).toNat >>> 1 = n / 256 := by
    have hlt : (n >>> 7) ||| 1 < 2 ^ 8 := Nat.or_lt_two_pow
      (by rw [Nat.shiftRight_eq_div_pow]; omega) (by decide)
    rw [UInt8.toNat_ofNat', Nat.mod_eq_of_lt hlt, Nat.shiftRight_or_distrib, ← Nat.shiftRight_add,
      Nat.shiftRight_eq_div_pow]
    exact Nat.or_zero _
  have hlow : (UInt8.ofNat (n &&& 0xff)).toNat = n % 256 := by
    rw [hand, UInt8.toNat_ofNat']
    omega
  rw [hhigh, hlow, ← Nat.shiftLeft_add_eq_or_of_lt (i := 8) (by omega), Nat.shiftLeft_eq]
  omega

theorem decode_short {n : Nat} (hn : n < 128) : (UInt8.ofNat ((n <<< 1) ||| 1)).toNat >>> 1 = n := by
  have hlt : (n <<< 1) ||| 1 < 2 ^ 8 := Nat.or_lt_two_pow
    (by rw [Nat.shiftLeft_eq]; omega) (by decide)
  rw [UInt8.toNat_ofNat', Nat.mod_eq_of_lt hlt, Nat.shiftRight_or_distrib, Nat.shiftLeft_shiftRight]
  exact Nat.or_zero n

theorem seqNum_header (k : Kind) {n : Nat} (hn : n < k.modulus) {first_frag : MemFrag} {l : List UInt8}
    (h : first_frag.bytes = k.header n ++ l) : k.seqNum first_frag = some n := by
  cases k with
  | al2 =>
    have hlt : n < 2 ^ 8 := hn
    have hread : (UInt8.ofNat n).toNat = n := by rw [UInt8.toNat_ofNat', Nat.mod_eq_of_lt hlt]
    simp only [Kind.seqNum, h, Kind.header, List.cons_append, List.getElem?_cons_zero, Option.map_some,
      hread]
  | al3Short =>
    simp only [Kind.seqNum, AL3.seqNum, h, Kind.header, List.cons_append, List.getElem?_cons_zero,
      Option.bind_eq_bind, Option.bind_some, Option.pure_def, decode_short hn]
  | al3Long =>
    simp only [Kind.seqNum, AL3.seqNum, h, Kind.header, List.cons_append, List.getElem?_cons_zero,
      List.getElem?_cons_succ, Option.bind_eq_bind, Option.bind_some, Option.pure_def, decode_long hn]

theorem crc_of_bytes (crc : UInt16) :
    (((crc >>> 8).toUInt8.toUInt16 <<< 8) ||| (crc &&& 0xff).toUInt8.toUInt16) = crc := by
  have hlt := crc.toNat_lt
  apply UInt16.toNat_inj.mp
  have hlow : (crc.toNat % 256) &&& 255 = crc.toNat % 256 := by
    rw [show 255 = 2 ^ 8 - 1 from rfl, Nat.and_two_pow_sub_one_eq_mod]
    exact Nat.mod_mod _ _
  have hhigh : crc.toNat / 256 % 256 * 256 % 65536 = (crc.toNat / 256) <<< 8 := by
    rw [Nat.shiftLeft_eq]
    omega
  have hor : crc.toNat / 256 % 256 * 256 % 65536 ||| crc.toNat % 256 &&& 255 = crc.toNat := by
    rw [hlow, hhigh, ← Nat.shiftLeft_add_eq_or_of_lt (i := 8) (by omega), Nat.shiftLeft_eq]
    omega
  simpa [Nat.shiftRight_eq_div_pow, Nat.shiftLeft_eq] using hor

/-! ## Received packets -/

/-- The first fragment holds the whole header. -/
def HeaderIn (hdrSize : Nat) (pkt : MediaData) : Prop := ∃ f rest, pkt = f :: rest ∧ hdrSize ≤ f.len

/-- A received packet: the bytes of a PDU, cut into fragments that are not empty
and none of which ends inside the header. -/
structure Kind.Cut (k : Kind) (pdu : List UInt8) (pkt : MediaData) : Prop where
  contents : contents pkt = pdu
  pos : ∀ f ∈ pkt, 0 < f.len
  header : HeaderIn k.start.iSNPos pkt

/-- A packet from which the checksum has been taken. -/
structure Trimmed (hdrSize : Nat) (body : List UInt8) (pkt : MediaData) : Prop where
  contents : contents pkt = body
  packed : Packed pkt
  header : HeaderIn hdrSize pkt

theorem HeaderIn.trim {hdrSize : Nat} {rest t : MediaData} {f : MemFrag} (h : HeaderIn hdrSize (m ++ rest))
    (ht : getFilledSize t = 0) (hsize : hdrSize ≤ getFilledSize (m ++ f :: t)) :
    HeaderIn hdrSize (m ++ f :: t) := by
  cases m with
  | nil =>
    have hsum : getFilledSize (f :: t) = f.len + getFilledSize t := rfl
    rw [List.nil_append, hsum, ht, Nat.add_zero] at hsize
    exact ⟨f, t, rfl, hsize⟩
  | cons f0 m =>
    obtain ⟨g, l, hl, hlen⟩ := h
    obtain ⟨rfl, -⟩ := List.cons.inj hl
    exact ⟨f0, m ++ f :: t, rfl, hlen⟩

theorem contents_strip (hdr : List UInt8) {sdu : List UInt8} {rest : MediaData} (hlen : hdr.length ≤ f.len)
    (h : contents (f :: rest) = hdr ++ sdu) : contents (f.advance hdr.length :: rest) = sdu := by
  have hle : hdr.length ≤ f.bytes.length := by rwa [f.length_bytes]
  rw [contents_cons, f.bytes_advance, ← List.drop_append_of_le_length hle, ← contents_cons, h,
    List.drop_left]

theorem bytes_of_header (hdr sdu : List UInt8) {rest : MediaData} (hlen : hdr.length ≤ f.len)
    (h : contents (f :: rest) = hdr ++ sdu) : ∃ l, f.bytes = hdr ++ l := by
  have hle : hdr.length ≤ f.bytes.length := by rwa [f.length_bytes]
  have happend : (f.bytes ++ contents rest).take hdr.length = f.bytes.take hdr.length :=
    List.take_append_of_le_length hle
  have htake : f.bytes.take hdr.length = hdr := by
    rw [← happend, ← contents_cons, h, List.take_left]
  refine ⟨f.bytes.drop hdr.length, ?_⟩
  calc f.bytes = f.bytes.take hdr.length ++ f.bytes.drop hdr.length := (List.take_append_drop _ _).symm
    _ = hdr ++ f.bytes.drop hdr.length := by rw [htake]

theorem bytes_shorten {l t : List UInt8} (h : f.bytes = l ++ t) (hle : l.length ≤ f.ptr.length) :
    MemFrag.bytes ⟨f.ptr, l.length, hle⟩ = l := by
  have hlen : l.length ≤ f.len := by
    rw [← f.length_bytes, h, List.length_append]
    omega
  have htake : f.ptr.take l.length = f.bytes.take l.length := by
    rw [MemFrag.bytes, List.take_take, Nat.min_eq_left hlen]
  show f.ptr.take l.length = l
  rw [htake, h, List.take_left]

theorem len_eq_of_bytes {l t : List UInt8} (h : f.bytes = l ++ t) : f.len = l.length + t.length := by
  rw [← f.length_bytes, h, List.length_append]

/-- **The end of a packet cut off**: `t` from the fragment `f`, and what comes
behind it made empty. -/
theorem trimmed {hdrSize : Nat} {body l t : List UInt8} (rest : MediaData) {rest' : MediaData}
    (hcontents : contents m ++ l = body) (hbody : hdrSize ≤ body.length) (hm : ∀ f ∈ m, 0 < f.len)
    (hhdr : HeaderIn hdrSize (m ++ f :: rest)) (hf : f.bytes = l ++ t) (hle : l.length ≤ f.ptr.length)
    (hrest : getFilledSize rest' = 0) : Trimmed hdrSize body (m ++ ⟨f.ptr, l.length, hle⟩ :: rest') := by
  have hc : contents (m ++ ⟨f.ptr, l.length, hle⟩ :: rest') = body := by
    rw [contents_append, contents_cons, bytes_shorten hf hle, contents_of_size_zero hrest,
      List.append_nil, hcontents]
  refine ⟨hc, ?_, hhdr.trim hrest (by rw [← length_contents, hc]; exact hbody)⟩
  obtain ⟨p, q, hpq, hp, hq⟩ := packed_last hm ⟨f.ptr, l.length, hle⟩
  refine ⟨p, q ++ rest', ?_, hp, by rw [getFilledSize_append, hq, hrest]⟩
  rw [← List.append_assoc, ← hpq, List.append_assoc]
  rfl

theorem exists_last {hdrSize : Nat} {pkt : MediaData} (hhdr : HeaderIn hdrSize pkt) :
    ∃ m f, pkt = m ++ [f] := by
  obtain ⟨f0, l0, hne, -⟩ := hhdr
  exact ⟨_, _, (List.dropLast_append_getLast (by rw [hne]; exact List.cons_ne_nil _ _)).symm⟩

theorem exists_last_byte (h : 0 < f.len) : ∃ l b, f.bytes = l ++ [b] := by
  have hne : f.bytes ≠ [] := List.length_pos_iff.mp (by rwa [f.length_bytes])
  exact ⟨_, _, (List.dropLast_append_getLast hne).symm⟩

theorem seqNumError_eq (modulus e n : Nat) (info : IncomingALPduInfo) :
    seqNumError modulus e n info = { info with seq_num_error := (n : Int) - e } := by
  simp only [seqNumError]
  split <;> rfl

/-! ## `AdaptationLayer2::ParsePacket` -/

namespace AL2

variable {pkt : MediaData} {body : List UInt8}

theorem takeCrc_eq {crc : UInt8} (hcontents : contents pkt = body ++ [crc]) (hpos : ∀ f ∈ pkt, 0 < f.len)
    (hhdr : HeaderIn 1 pkt) (hbody : 1 ≤ body.length) :
    ∃ last_frag, pkt.getLast? = some last_frag ∧ last_frag.bytes.getLast? = some crc ∧
      Trimmed 1 body (setMediaFragFilledLen pkt (pkt.length - 1) (last_frag.len - 1)) := by
  obtain ⟨m, f, rfl⟩ := exists_last hhdr
  obtain ⟨l, b, hb⟩ := exists_last_byte (hpos f (by simp))
  have hlen : f.len = l.length + 1 := len_eq_of_bytes hb
  rw [contents_append, contents_cons, hb, contents_nil, List.append_nil, ← List.append_assoc] at hcontents
  obtain ⟨hl, hcrc⟩ := List.append_inj' hcontents rfl
  refine ⟨f, by simp, by rw [hb, List.getLast?_concat, (List.cons.inj hcrc).1], ?_⟩
  have hle : l.length ≤ f.ptr.length := Nat.le_trans (by omega) f.le
  have hset : setMediaFragFilledLen (m ++ [f]) ((m ++ [f]).length - 1) (f.len - 1) =
      m ++ [⟨f.ptr, l.length, hle⟩] := by
    rw [List.length_append, List.length_singleton, Nat.add_sub_cancel, hlen, Nat.add_sub_cancel]
    exact setMediaFragFilledLen_last m f (by omega : l.length ≤ f.len)
  rw [hset]
  exact trimmed [] hl hbody (fun g hg => hpos g (by simp [hg])) hhdr hb hle rfl

theorem checkSeqNum_eq {first_frag : MemFrag} {n e : Nat} (size : Int)
    (hn : first_frag.bytes[0]?.map UInt8.toNat = some n) :
    checkSeqNum ⟨1, e⟩ first_frag ⟨size, false, 0⟩ =
      some (⟨size, false, (n : Int) - e⟩, first_frag.advance 1, ⟨1, (n + 1) % 256⟩) := by
  obtain ⟨b, hb, rfl⟩ := Option.map_eq_some_iff.mp hn
  simp only [checkSeqNum, if_true, hb, Option.bind_eq_bind, Option.bind_some, Option.pure_def,
    seqNumError_eq]
  split
  · next h => rw [h, Int.sub_self]
  · rfl

/-- **`AdaptationLayer2::ParsePacket`** of a PDU with sequence number `n`. -/
theorem parsePacket_eq {n e : Nat} (hn : n < 256) {sdu : List UInt8} (hcut : Kind.al2.Cut (Kind.al2.pdu n sdu) pkt)
    (hsized : 0 < int16 sdu.length) : ∃ f rest, 1 ≤ f.len ∧ contents (f :: rest) = Kind.al2.header n ++ sdu ∧
      parsePacket ⟨1, e⟩ pkt = some (⟨int16 sdu.length, false, (n : Int) - e⟩,
        if pkt.length ≤ maxPacketMemFrag then f.advance 1 :: rest else f :: rest, ⟨1, (n + 1) % 256⟩) := by
  have hsize : (getFilledSize pkt : Int) - (1 : Nat) - 1 = sdu.length := by
    rw [← length_contents, hcut.contents, Kind.pdu, List.length_append, List.length_append,
      Kind.length_header]
    simp only [Kind.trailer, Kind.start, List.length_singleton]
    omega
  obtain ⟨last_frag, hlast, hcrc, htrim⟩ := takeCrc_eq
    (show contents pkt = (Kind.al2.header n ++ sdu) ++ [crc8 (Kind.al2.header n ++ sdu)] from hcut.contents)
    hcut.pos hcut.header (by simp [Kind.start])
  have hlength : (setMediaFragFilledLen pkt (pkt.length - 1) (last_frag.len - 1)).length = pkt.length :=
    length_setMediaFragFilledLen _ _ _
  generalize hpkt : setMediaFragFilledLen pkt (pkt.length - 1) (last_frag.len - 1) = pkt' at htrim hlength
  have hcheck := htrim.packed.crc8Check
  obtain ⟨f, rest, rfl, hhdr⟩ := htrim.header
  rw [htrim.contents] at hcheck
  obtain ⟨l, hl⟩ := bytes_of_header (Kind.al2.header n) sdu hhdr htrim.contents
  have hseq := checkSeqNum_eq (e := e) (int16 sdu.length) (seqNum_header .al2 hn hl)
  refine ⟨f, rest, hhdr, htrim.contents, ?_⟩
  simp only [parsePacket, hsize, if_neg (Int.not_le.mpr hsized), hlast, hcrc, Option.bind_eq_bind,
    Option.bind_some, hpkt, List.head?_cons, hcheck, ne_eq, not_true_eq_false, if_false, hseq, hlength]
  by_cases hle : pkt.length ≤ maxPacketMemFrag
  · simp [hle, replaceFirst]
  · simp [hle]

end AL2

/-! ## `AdaptationLayer3::ParsePacket` -/

namespace AL3

variable {pkt : MediaData} {body : List UInt8}

theorem takeCrc_eq {hdrSize : Nat} {crc : UInt16}
    (hcontents : contents pkt = body ++ [(crc &&& 0xff).toUInt8, (crc >>> 8).toUInt8])
    (hpos : ∀ f ∈ pkt, 0 < f.len) (hhdr : HeaderIn hdrSize pkt) (hbody : hdrSize ≤ body.length) :
    ∃ pkt', takeCrc pkt = some (crc, pkt') ∧ Trimmed hdrSize body pkt' ∧ pkt'.length = pkt.length := by
  obtain ⟨m, g, rfl⟩ := exists_last hhdr
  obtain ⟨l, hi, hb⟩ := exists_last_byte (hpos g (by simp))
  have hlen : g.len = l.length + 1 := len_eq_of_bytes hb
  have hm : ∀ f ∈ m, 0 < f.len := fun f hf => hpos f (by simp [hf])
  have hsplit : [(crc &&& 0xff).toUInt8, (crc >>> 8).toUInt8] =
    [(crc &&& 0xff).toUInt8] ++ [(crc >>> 8).toUInt8] := rfl
  rw [contents_append, contents_cons, hb, contents_nil, List.append_nil, ← List.append_assoc, hsplit,
    ← List.append_assoc] at hcontents
  obtain ⟨hl, hcrc⟩ := List.append_inj' hcontents rfl
  obtain rfl : hi = (crc >>> 8).toUInt8 := (List.cons.inj hcrc).1
  rcases List.eq_nil_or_concat' l with rfl | ⟨l', lo, hl'⟩
  · -- only the last byte lies in the last fragment
    rw [List.append_nil] at hl
    rcases List.eq_nil_or_concat' m with rfl | ⟨m', f, rfl⟩
    · exact absurd hl (by simp)
    obtain ⟨l', lo, hf⟩ := exists_last_byte (hm f (by simp))
    have hflen : f.len = l'.length + 1 := len_eq_of_bytes hf
    have hle : l'.length ≤ f.ptr.length := Nat.le_trans (by omega) f.le
    rw [contents_append, contents_cons, hf, contents_nil, List.append_nil, ← List.append_assoc] at hl
    obtain ⟨hl', hcrc'⟩ := List.append_inj' hl rfl
    obtain rfl : lo = (crc &&& 0xff).toUInt8 := (List.cons.inj hcrc').1
    have hset : setMediaFragFilledLen (setMediaFragFilledLen (m' ++ [f] ++ [g])
        ((m' ++ [f] ++ [g]).length - 1) 0) ((m' ++ [f] ++ [g]).length - 2) l'.length =
          m' ++ [⟨f.ptr, l'.length, hle⟩, ⟨g.ptr, 0, Nat.zero_le _⟩] := by
      rw [List.length_append, List.length_singleton, Nat.add_sub_cancel,
        setMediaFragFilledLen_last _ g (Nat.zero_le _), List.append_assoc, List.length_append,
        List.length_singleton]
      exact setMediaFragFilledLen_second m' f _ (by omega : l'.length ≤ f.len)
    refine ⟨m' ++ [⟨f.ptr, l'.length, hle⟩, ⟨g.ptr, 0, Nat.zero_le _⟩], ?_, ?_, by simp⟩
    · have hone : ¬ (0 + 1 ≥ 2) := by decide
      simp only [takeCrc, List.getLast?_concat, List.dropLast_concat, Option.bind_eq_bind,
        Option.bind_some, Option.pure_def, hlen, hb, hf, List.length_nil, if_neg hone, List.nil_append,
        List.getElem?_cons_zero, hflen, Nat.add_sub_cancel, hset, crc_of_bytes]
    · refine trimmed [g] hl' hbody (fun f' hf' => hm f' (by simp [hf'])) ?_ hf hle rfl
      rwa [List.append_assoc] at hhdr
  · -- both bytes lie in the last fragment
    subst hl'
    rw [← List.append_assoc] at hl
    obtain ⟨hl', hcrc'⟩ := List.append_inj' hl rfl
    obtain rfl : lo = (crc &&& 0xff).toUInt8 := (List.cons.inj hcrc').1
    have hlen' : g.len = l'.length + 2 := by rw [hlen, List.length_append]; rfl
    have hle : l'.length ≤ g.ptr.length := Nat.le_trans (by omega) g.le
    have hset : setMediaFragFilledLen (m ++ [g]) ((m ++ [g]).length - 1) l'.length =
        m ++ [⟨g.ptr, l'.length, hle⟩] := by
      rw [List.length_append, List.length_singleton, Nat.add_sub_cancel]
      exact setMediaFragFilledLen_last m g (by omega : l'.length ≤ g.len)
    rw [List.append_assoc] at hb
    refine ⟨m ++ [⟨g.ptr, l'.length, hle⟩], ?_, trimmed [] hl' hbody hm hhdr hb hle rfl, by simp⟩
    have htwo : l'.length + 2 ≥ 2 := by omega
    have hhi : (l' ++ ([(crc &&& 0xff).toUInt8] ++ [(crc >>> 8).toUInt8]))[l'.length + 2 - 1]? =
        some (crc >>> 8).toUInt8 := by
      rw [List.getElem?_append_right (by omega), show l'.length + 2 - 1 - l'.length = 1 by omega]
      rfl
    have hlo : (l' ++ ([(crc &&& 0xff).toUInt8] ++ [(crc >>> 8).toUInt8]))[l'.length]? =
        some (crc &&& 0xff).toUInt8 := by
      rw [List.getElem?_append_right (Nat.le_refl _), Nat.sub_self]
      rfl
    simp only [takeCrc, List.getLast?_concat, Option.bind_eq_bind, Option.bind_some, Option.pure_def,
      hlen', if_pos htwo, hb, hhi, hlo, Nat.add_sub_cancel, hset, crc_of_bytes]

theorem next_eq {k : Kind} (hk : k ≠ .al2) {n : Nat} (hn : n < k.modulus) :
    next k.start.iSNPos n = (n + 1) % k.modulus := by
  cases k with
  | al2 => exact absurd rfl hk
  | al3Short =>
    have hlt : n < 128 := hn
    show (if n = 0x7f then 0 else n + 1) = (n + 1) % 128
    split <;> omega
  | al3Long =>
    have hlt : n < 32768 := hn
    show (if n = 0x7fff then 0 else n + 1) = (n + 1) % 32768
    split <;> omega

theorem vrMax_eq {k : Kind} (hk : k ≠ .al2) : vrMax k.start.iSNPos + 1 = k.modulus := by
  cases k with
  | al2 => exact absurd rfl hk
  | al3Short => rfl
  | al3Long => rfl

theorem checkSeqNum_eq {k : Kind} (hk : k ≠ .al2) {n e : Nat} (he : e < k.modulus) (size : Int) :
    checkSeqNum (k.atNum e) n ⟨size, false, 0⟩ =
      (⟨size, false, (n : Int) - e⟩, k.atNum ((n + 1) % k.modulus)) := by
  simp only [checkSeqNum, Kind.atNum, seqNumError_eq, vrMax_eq hk, next_eq hk he]
  split
  · next h => rw [h, Int.sub_self]
  · rfl

/-- **`AdaptationLayer3::ParsePacket`** of a PDU with sequence number `n`. -/
theorem parsePacket_eq {k : Kind} (hk : k ≠ .al2) {n e : Nat} (hn : n < k.modulus) (he : e < k.modulus)
    {sdu : List UInt8} (hcut : k.Cut (k.pdu n sdu) pkt) (hsized : 0 < int16 sdu.length) :
    ∃ f rest, k.start.iSNPos ≤ f.len ∧ contents (f :: rest) = k.header n ++ sdu ∧
      parsePacket (k.atNum e) pkt =
        if pkt.length ≤ maxPacketMemFrag then
          some (⟨int16 sdu.length, false, (n : Int) - e⟩, f.advance k.start.iSNPos :: rest,
            k.atNum ((n + 1) % k.modulus))
        else none := by
  have htrailer : k.trailer (k.header n ++ sdu) = [(crc16 (k.header n ++ sdu) &&& 0xff).toUInt8,
      (crc16 (k.header n ++ sdu) >>> 8).toUInt8] := by
    cases k with
    | al2 => exact absurd rfl hk
    | al3Short => rfl
    | al3Long => rfl
  have hcontents := hcut.contents
  rw [Kind.pdu, htrailer] at hcontents
  have hsize : (getFilledSize pkt : Int) - k.start.iSNPos - 2 = sdu.length := by
    rw [← length_contents, hcontents, List.length_append, List.length_append, Kind.length_header]
    simp only [List.length_cons, List.length_nil]
    omega
  obtain ⟨pkt', htake, htrim, hlength⟩ := takeCrc_eq hcontents
    hcut.pos hcut.header (by simp)
  have hcheck := htrim.packed.crc16Check
  obtain ⟨f, rest, rfl, hhdr⟩ := htrim.header
  rw [htrim.contents] at hcheck
  obtain ⟨f0, rest0, rfl, hhdr0⟩ := hcut.header
  obtain ⟨l, hl⟩ := bytes_of_header (k.header n) (sdu ++ k.trailer (k.header n ++ sdu))
    (by rwa [Kind.length_header]) (by rw [hcut.contents, Kind.pdu, List.append_assoc])
  have hseq : seqNum k.start.iSNPos f0 = some n := by
    have hread := seqNum_header k hn hl
    cases k with
    | al2 => exact absurd rfl hk
    | al3Short => exact hread
    | al3Long => exact hread
  have hzero : k.start.iSNPos ≠ 0 := by cases k <;> decide
  refine ⟨f, rest, hhdr, htrim.contents, ?_⟩
  have hpos : (k.atNum e).iSNPos = k.start.iSNPos := rfl
  simp only [parsePacket, hpos, hsize, if_neg (Int.not_le.mpr hsized), List.head?_cons, Option.bind_eq_bind,
    Option.bind_some, hseq, htake, hcheck, ne_eq, not_true_eq_false, if_false, checkSeqNum_eq hk he,
    hlength]
  exact if_pos hzero

end AL3

/-! ## What is right of a delivered PDU -/

/-- The SDU comes back, without an error, and with the number of losses before. -/
def Right (lost : Nat) (sdu : List UInt8) : Option (IncomingALPduInfo × MediaData × Layer) → Prop
  | none => False
  | some (info, m, _) => info.crc_error = false ∧ info.seq_num_error = lost ∧ contents m = sdu

/-- The receiver sees that there is an SDU: its size, as an `int16`, is positive. -/
def Sized (sdu : List UInt8) : Prop := 0 < int16 sdu.length

instance (sdu : List UInt8) : Decidable (Sized sdu) := inferInstanceAs (Decidable (0 < int16 sdu.length))

namespace Kind

variable (k : Kind) {pkt : MediaData} {sdu : List UInt8} {n e : Nat}

theorem parsePacket_eq (hn : n < k.modulus) (he : e < k.modulus) (hcut : k.Cut (k.pdu n sdu) pkt)
    (hsized : Sized sdu) (hfrags : pkt.length ≤ maxPacketMemFrag) : ∃ m, contents m = sdu ∧
      k.parsePacket (k.atNum e) pkt =
        some (⟨int16 sdu.length, false, (n : Int) - e⟩, m, k.atNum ((n + 1) % k.modulus)) := by
  by_cases hk : k = .al2
  · subst hk
    obtain ⟨f, rest, hlen, hcontents, hparse⟩ := AL2.parsePacket_eq (e := e) hn hcut hsized
    rw [if_pos hfrags] at hparse
    exact ⟨_, contents_strip (Kind.al2.header n) hlen hcontents, hparse⟩
  · obtain ⟨f, rest, hlen, hcontents, hparse⟩ := AL3.parsePacket_eq hk hn he hcut hsized
    rw [if_pos hfrags] at hparse
    refine ⟨f.advance k.start.iSNPos :: rest, ?_, ?_⟩
    · have hstrip := contents_strip (k.header n) (by rwa [length_header]) hcontents
      rwa [length_header] at hstrip
    · cases k with
      | al2 => exact absurd rfl hk
      | al3Short => exact hparse
      | al3Long => exact hparse

theorem not_right_of_many {lost : Nat} (hn : n < k.modulus) (he : e < k.modulus)
    (hcut : k.Cut (k.pdu n sdu) pkt) (hsized : Sized sdu) (hfrags : ¬ pkt.length ≤ maxPacketMemFrag) :
    ¬ Right lost sdu (k.parsePacket (k.atNum e) pkt) := by
  by_cases hk : k = .al2
  · subst hk
    obtain ⟨f, rest, -, hcontents, hparse⟩ := AL2.parsePacket_eq (e := e) hn hcut hsized
    rw [if_neg hfrags] at hparse
    intro hright
    rw [show Kind.al2.parsePacket (Kind.al2.atNum e) pkt = _ from hparse] at hright
    have hlen := congrArg List.length (hcontents.symm.trans hright.2.2)
    rw [List.length_append, length_header] at hlen
    have hone : Kind.al2.start.iSNPos = 1 := rfl
    omega
  · obtain ⟨f, rest, -, -, hparse⟩ := AL3.parsePacket_eq hk hn he hcut hsized
    rw [if_neg hfrags] at hparse
    have hnone : k.parsePacket (k.atNum e) pkt = none := by
      cases k with
      | al2 => exact absurd rfl hk
      | al3Short => exact hparse
      | al3Long => exact hparse
    rw [hnone]
    exact fun h => h

theorem not_right_of_not_sized {lost : Nat} (hcut : k.Cut (k.pdu n sdu) pkt) (hsized : ¬ Sized sdu) :
    ¬ Right lost sdu (k.parsePacket (k.atNum e) pkt) := by
  have hle : int16 sdu.length ≤ 0 := Int.not_lt.mp hsized
  have hpdu : (k.pdu n sdu).length = k.start.iSNPos + sdu.length + (k.trailer (k.header n ++ sdu)).length := by
    rw [pdu, List.length_append, List.length_append, length_header]
  have hsize : getFilledSize pkt = (k.pdu n sdu).length := by rw [← length_contents, hcut.contents]
  have hparse : k.parsePacket (k.atNum e) pkt =
      some (⟨int16 sdu.length, false, 0⟩, pkt, k.atNum e) := by
    cases k with
    | al2 =>
      have hsdu : (getFilledSize pkt : Int) - (1 : Nat) - 1 = sdu.length := by
        rw [hsize, hpdu]
        simp only [trailer, start, List.length_singleton]
        omega
      show AL2.parsePacket ⟨1, e⟩ pkt = _
      simp only [AL2.parsePacket, hsdu, if_pos hle]
      rfl
    | al3Short =>
      have hsdu : (getFilledSize pkt : Int) - (1 : Nat) - 2 = sdu.length := by
        rw [hsize, hpdu]
        simp only [trailer, start, List.length_cons, List.length_nil]
        omega
      show AL3.parsePacket ⟨1, e⟩ pkt = _
      simp only [AL3.parsePacket, hsdu, if_pos hle]
      rfl
    | al3Long =>
      have hsdu : (getFilledSize pkt : Int) - (2 : Nat) - 2 = sdu.length := by
        rw [hsize, hpdu]
        simp only [trailer, start, List.length_cons, List.length_nil]
        omega
      show AL3.parsePacket ⟨2, e⟩ pkt = _
      simp only [AL3.parsePacket, hsdu, if_pos hle]
      rfl
  rw [hparse]
  intro hright
  have hlen := congrArg List.length hright.2.2
  have hpos : 0 < k.start.iSNPos := by cases k <;> decide
  rw [hcut.contents] at hlen
  omega

/-- **A delivered PDU is parsed right** if and only if the receiver sees its
SDU, has room for its fragments, and the losses before it do not pass the wrap. -/
theorem right_iff {lost : Nat} (he : e < k.modulus) (hlost : lost < k.modulus)
    (hcut : k.Cut (k.pdu ((e + lost) % k.modulus) sdu) pkt) :
    Right lost sdu (k.parsePacket (k.atNum e) pkt) ↔
      Sized sdu ∧ pkt.length ≤ maxPacketMemFrag ∧ e + lost < k.modulus := by
  have hn := Nat.mod_lt (e + lost) k.modulus_pos
  by_cases hsized : Sized sdu
  · by_cases hfrags : pkt.length ≤ maxPacketMemFrag
    · obtain ⟨m, hm, hparse⟩ := k.parsePacket_eq hn he hcut hsized hfrags
      have hiff : (((e + lost) % k.modulus : Nat) : Int) - e = lost ↔ e + lost < k.modulus := by
        constructor
        · intro h
          by_contra hge
          rw [Nat.mod_eq_sub_mod (by omega), Nat.mod_eq_of_lt (by omega)] at h
          omega
        · intro h
          rw [Nat.mod_eq_of_lt h]
          omega
      rw [hparse]
      simp only [Right, hm, true_and, and_true, hiff, hsized, hfrags]
    · simp only [k.not_right_of_many hn he hcut hsized hfrags, hfrags, false_and, and_false]
  · simp only [k.not_right_of_not_sized hcut hsized, hsized, false_and]

end Kind

end Ftke.AdaptationLayer
