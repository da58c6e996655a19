import Ftke.LatmParser.Compose

/-!
# Ftke.LatmParser.Accesses

Where the composers read and write.

The loop over the sub-frames looks at the last length only, and at no place for the end of
what is collected, so that a length that is declared leads out of it; the accesses are
safe exactly when the octets collected are sub-frames that are there in full, and the
output has room for them (`frameAccesses_safe_iff`).
-/

namespace Ftke.LatmParser

/-! ## Accesses -/

/-- Octets that are read or written: from a place on, so many. -/
inductive Access where
  /-- of the packet -/
  | readPacket (pos n : Nat)
  /-- of `multiFrameBuf`, for the element -/
  | readBuffer (pos n : Nat)
  /-- of `multiFrameBuf`, for a larger one -/
  | copyBuffer (n : Nat)
  | writeOutput (pos n : Nat)

/-- The bounds of a call. -/
structure Bounds where
  packet : Nat
  bytesRead : Nat
  currSize : Nat
  output : Nat

/-- The access is inside of the packet, of what is collected, or of the output. -/
def Access.Safe (b : Bounds) : Access → Prop
  | .readPacket pos n => pos + n ≤ b.packet
  | .readBuffer pos n => pos + n ≤ b.bytesRead
  | .copyBuffer n => n ≤ b.currSize
  | .writeOutput pos n => pos + n ≤ b.output

/-- How many octets are read for a length; one more than there are when it does not end. -/
def lengthOctets (myData : List UInt8) : Nat :=
  match readLength myData with
  | none => myData.length + 1
  | some r => myData.length - r.2.length

/-- The accesses of `composeSingleFrame`. -/
def singleAccesses (p : Packet) (s : Parser) : List Access :=
  if s.firstBlock then
    .readPacket 0 (lengthOctets p.payload) ::
      match readLength p.payload with
      | none => []
      | some r =>
        if wrongSize s.sMC p.marker ((s.framesize + r.1 : Nat) : Int) r.2.length then []
        else [.readPacket (p.payload.length - r.2.length) r.2.length, .writeOutput 0 r.2.length]
  else if wrongSize s.sMC p.marker s.framesize (p.payload.length + (s.bytesRead - 1)) then []
  else [.readPacket 0 p.payload.length, .writeOutput s.bytesRead p.payload.length]

/-- The accesses of the loop over the sub-frames, up to the first one that leads out of the
buffer. -/
def frameAccesses (sMC : StreamMuxConfig) (bufLen bytesRead : Nat) : Nat → List UInt8 → Nat → List Access
  | remaining, myData, outPtrPos =>
    .readBuffer (bufLen - myData.length) (lengthOctets myData) ::
      match readLength myData with
      | none => []
      | some r =>
        if remaining = 0 ∧ !sMC.otherDataPresent ∧
            (r.1 : Int) ≠ (bytesRead : Int) - ((bufLen : Int) - r.2.length) then []
        else
          .readBuffer (bufLen - r.2.length) r.1 :: .writeOutput outPtrPos r.1 ::
            match remaining with
            | 0 => []
            | remaining + 1 =>
              if r.2.length < r.1 then []
              else frameAccesses sMC bufLen bytesRead remaining (r.2.drop r.1) (outPtrPos + r.1)

/-- The accesses of `composeMultipleFrame`. -/
def multipleAccesses (p : Packet) (buffer : Bool) (s : Parser) : List Access :=
  match grow p.payload.length buffer s with
  | none => []
  | some t =>
    (if s.bytesRead + p.payload.length > s.multiFrameBuf.length then [.copyBuffer s.bytesRead] else []) ++
      .readPacket 0 p.payload.length ::
        if p.marker then
          frameAccesses s.sMC t.multiFrameBuf.length (s.bytesRead + p.payload.length) s.sMC.numSubFrames
            (overwrite t.multiFrameBuf s.bytesRead p.payload) 0
        else []

/-- The packet gets to a composer: there is an output buffer, and no frames are dropped. -/
def Composed (p : Packet) (alloc : Alloc) (s : Parser) : Prop :=
  alloc.output.isSome = true ∧
    ((s.dropFrames || (!s.firstPacket && decide (p.seqNum - s.last_sequence_num > 1))) && !p.marker) = false

/-- The packet gets to `composeMultipleFrame`. -/
def Several (p : Packet) (s : Parser) : Prop :=
  s.sMC.numSubFrames > 0 ∨ (s.sMC.cpresent ∧ p.payload.headD 0 &&& 0x80 ≠ 0)

instance (p : Packet) (alloc : Alloc) (s : Parser) : Decidable (Composed p alloc s) :=
  inferInstanceAs (Decidable (_ ∧ _))

instance (p : Packet) (s : Parser) : Decidable (Several p s) := inferInstanceAs (Decidable (_ ∨ _))

/-- The accesses of a call. -/
def accesses (p : Packet) (alloc : Alloc) (s : Parser) : List Access :=
  if Composed p alloc s then
    if Several p s then multipleAccesses p alloc.buffer s else singleAccesses p s
  else []

def bounds (p : Packet) (s : Parser) : Bounds :=
  ⟨p.payload.length, s.bytesRead + p.payload.length, s.multiFrameBuf.length, capacity p.payload.length⟩

/-- All accesses of the call are safe. -/
def CallSafe (call : Call) (s : Parser) : Prop := ∀ a ∈ accesses call.1 call.2 s, a.Safe (bounds call.1 s)

/-- The calls are safe and none is at fault. -/
def RunSafe : List Call → Parser → Prop
  | [], _ => True
  | call :: calls, s => CallSafe call s ∧ ∃ r, compose call.1 call.2 s = some r ∧ RunSafe calls r.2.2

/-! ## When they are safe -/

/-- The octets are as many sub-frames as there are to come and another length; the output has
room for them, and for the last one when it is there, which it has to be with other data. -/
def ElementFits (sMC : StreamMuxConfig) (room remaining : Nat) (octets : List UInt8) : Prop :=
  ∃ payloads n rest, payloads.length = remaining ∧ octets = element payloads ++ (lengthCode n ++ rest) ∧
    payloads.flatten.length ≤ room ∧
    ((sMC.otherDataPresent = false ∧ n ≠ rest.length) ∨ (n ≤ rest.length ∧ payloads.flatten.length + n ≤ room))

/-- One sub-frame: its length ends in the packet; a block behind the first one has a wrong size,
or fits behind the octets before it, in an output of its own size. -/
def SingleFits (p : Packet) (s : Parser) : Prop :=
  if s.firstBlock then ∃ b ∈ p.payload, b ≠ 0xff
  else wrongSize s.sMC p.marker s.framesize (p.payload.length + (s.bytesRead - 1)) = true ∨
    s.bytesRead + p.payload.length ≤ capacity p.payload.length

/-- More sub-frames: there is no memory for them, or they are collected in the buffer, and with
the marker they fit. -/
def MultipleFits (p : Packet) (buffer : Bool) (s : Parser) : Prop :=
  (buffer = false ∧ s.multiFrameBuf.length < s.bytesRead + p.payload.length) ∨
    (s.bytesRead ≤ s.multiFrameBuf.length ∧
      (p.marker = true → ElementFits s.sMC (capacity p.payload.length) s.sMC.numSubFrames
        (s.multiFrameBuf.take s.bytesRead ++ p.payload)))

def CallFits (call : Call) (s : Parser) : Prop :=
  Composed call.1 call.2 s →
    if Several call.1 s then MultipleFits call.1 call.2.buffer s else SingleFits call.1 s

/-- Each call of the run fits. -/
def RunFits : List Call → Parser → Prop
  | [], _ => True
  | call :: calls, s => CallFits call s ∧ ∀ r, compose call.1 call.2 s = some r → RunFits calls r.2.2

/-! ## Lengths -/

theorem eq_of_readLength : ∀ {l : List UInt8} {r : Nat × List UInt8}, readLength l = some r →
    l = lengthCode r.1 ++ r.2
  | [], _, h => by simp [readLength] at h
  | tmp :: l, r, h => by
    rw [readLength] at h
    by_cases htmp : tmp = 0xff
    · rw [if_pos htmp] at h
      obtain ⟨r', hr', rfl⟩ := Option.map_eq_some_iff.mp h
      have hdiv : (255 + r'.1) / 255 = r'.1 / 255 + 1 := by omega
      have hmod : (255 + r'.1) % 255 = r'.1 % 255 := by omega
      rw [eq_of_readLength hr', htmp, lengthCode, lengthCode]
      simp only [hdiv, hmod, List.replicate_succ, List.cons_append]
    · rw [if_neg htmp] at h
      obtain rfl := Option.some.inj h
      have hlt : tmp.toNat < 255 := by
        have hlt := tmp.toNat_lt
        have hne : tmp.toNat ≠ 255 := fun heq => htmp (UInt8.toNat_inj.mp heq)
        omega
      simp only [lengthCode, Nat.div_eq_of_lt hlt, Nat.mod_eq_of_lt hlt, List.replicate_zero, List.nil_append,
        UInt8.ofNat_toNat, List.singleton_append]

variable {l tail multiFrameBuf : List UInt8} {r : Nat × List UInt8}

theorem length_of_readLength (h : readLength l = some r) :
    r.2.length < l.length := by
  have hlen := congrArg List.length (eq_of_readLength h)
  rw [lengthCode, List.length_append, List.length_append, List.length_singleton] at hlen
  omega

theorem readLength_append (h : readLength l = some r) (junk : List UInt8) :
    readLength (l ++ junk) = some (r.1, r.2 ++ junk) := by
  rw [eq_of_readLength h, List.append_assoc, readLength_lengthCode]

theorem rest_lt_of_none : ∀ {l junk : List UInt8} {r : Nat × List UInt8}, readLength l = none →
    readLength (l ++ junk) = some r → r.2.length < junk.length
  | [], _, _, _, hr => length_of_readLength hr
  | tmp :: l, junk, r, h, hr => by
    rw [List.cons_append, readLength] at hr
    rw [readLength] at h
    by_cases htmp : tmp = 0xff
    · rw [if_pos htmp] at h hr
      obtain ⟨r', hr', rfl⟩ := Option.map_eq_some_iff.mp hr
      exact rest_lt_of_none (l := l) (r := r') (Option.map_eq_none_iff.mp h) hr'
    · rw [if_neg htmp] at h
      contradiction

theorem lengthOctets_of_none (junk : List UInt8) (h : readLength l = none) :
    l.length < lengthOctets (l ++ junk) := by
  cases hread : readLength (l ++ junk) with
  | none =>
    simp only [lengthOctets, hread, List.length_append]
    omega
  | some r =>
    have hrest := rest_lt_of_none h hread
    simp only [lengthOctets, hread, List.length_append]
    omega

theorem lengthOctets_of_some (junk : List UInt8)
    (h : readLength l = some r) : lengthOctets (l ++ junk) = l.length - r.2.length := by
  simp only [lengthOctets, readLength_append h, List.length_append]
  omega

theorem readLength_isSome_iff : ∀ {l : List UInt8}, (readLength l).isSome = true ↔ ∃ b ∈ l, b ≠ 0xff
  | [] => by simp [readLength]
  | tmp :: l => by
    rw [readLength]
    by_cases htmp : tmp = 0xff
    · rw [if_pos htmp, Option.isSome_map, readLength_isSome_iff]
      simp [htmp]
    · rw [if_neg htmp]
      simp [htmp]

/-! ## The loop over the sub-frames -/

theorem elementFits_succ {sMC : StreamMuxConfig} {room remaining : Nat} :
    ElementFits sMC room (remaining + 1) tail ↔
      ∃ n rest, readLength tail = some (n, rest) ∧ n ≤ rest.length ∧ n ≤ room ∧
        ElementFits sMC (room - n) remaining (rest.drop n) := by
  constructor
  · rintro ⟨payloads, n, rest, hlen, htail, hroom, hlast⟩
    obtain ⟨payload, payloads, rfl⟩ := List.exists_cons_of_length_eq_add_one hlen
    rw [List.flatten_cons, List.length_append] at hroom hlast
    rw [element_cons, List.append_assoc, List.append_assoc] at htail
    refine ⟨payload.length, payload ++ (element payloads ++ (lengthCode n ++ rest)), ?_, ?_, by omega, ?_⟩
    · rw [htail, readLength_lengthCode]
    · rw [List.length_append]
      omega
    · rw [List.drop_left]
      exact ⟨payloads, n, rest, Nat.succ.inj hlen, rfl, by omega, hlast.imp_right fun h => ⟨h.1, by omega⟩⟩
  · rintro ⟨m, tail', hread, hm, hroom, payloads, n, rest, hlen, htail, hpayloads, hlast⟩
    have hpayload : (tail'.take m).length = m := by
      rw [List.length_take]
      omega
    have hflat : (tail'.take m :: payloads).flatten.length = m + payloads.flatten.length := by
      rw [List.flatten_cons, List.length_append, hpayload]
    refine ⟨tail'.take m :: payloads, n, rest, congrArg (· + 1) hlen, ?_, by omega,
      hlast.imp_right fun h => ⟨h.1, by omega⟩⟩
    rw [element_cons, hpayload, List.append_assoc, List.append_assoc, ← htail, List.take_append_drop]
    exact eq_of_readLength hread

theorem elementFits_zero {sMC : StreamMuxConfig} {room : Nat} :
    ElementFits sMC room 0 tail ↔
      ∃ n rest, readLength tail = some (n, rest) ∧
        ((sMC.otherDataPresent = false ∧ n ≠ rest.length) ∨ (n ≤ rest.length ∧ n ≤ room)) := by
  constructor
  · rintro ⟨payloads, n, rest, hlen, htail, -, hlast⟩
    obtain rfl := List.length_eq_zero_iff.mp hlen
    refine ⟨n, rest, ?_, by simpa using hlast⟩
    rw [htail, show element [] = [] from rfl, List.nil_append, readLength_lengthCode]
  · rintro ⟨n, rest, hread, hlast⟩
    exact ⟨[], n, rest, rfl, eq_of_readLength hread, Nat.zero_le _, by simpa using hlast⟩

variable {sMC : StreamMuxConfig} {b : Bounds} {bufLen : Nat} {junk : List UInt8}

/-- The octets of a length are read inside of what is collected exactly when it ends there. -/
theorem lengthRead_safe_iff (hbuf : bufLen = b.bytesRead + junk.length) (htail : tail.length ≤ b.bytesRead) :
    Access.Safe b (.readBuffer (bufLen - (tail ++ junk).length) (lengthOctets (tail ++ junk))) ↔
      (readLength tail).isSome = true := by
  simp only [Access.Safe, List.length_append]
  cases hread : readLength tail with
  | none =>
    have hlong := lengthOctets_of_none junk hread
    simp only [Option.isSome_none, Bool.false_eq_true, iff_false]
    omega
  | some r =>
    have hrest := length_of_readLength hread
    rw [lengthOctets_of_some junk hread]
    simp only [Option.isSome_some, iff_true]
    omega

theorem left_eq (hbuf : bufLen = b.bytesRead + junk.length) (rest : List UInt8) :
    (b.bytesRead : Int) - ((bufLen : Int) - (rest ++ junk).length) = rest.length := by
  rw [List.length_append]
  omega

/-- The octets of a sub-frame are read inside of what is collected exactly when they are there. -/
theorem payloadRead_safe_iff (hbuf : bufLen = b.bytesRead + junk.length) {rest : List UInt8}
    (hrest : rest.length ≤ b.bytesRead) (n : Nat) :
    Access.Safe b (.readBuffer (bufLen - (rest ++ junk).length) n) ↔ n ≤ rest.length := by
  simp only [Access.Safe, List.length_append]
  omega

theorem write_safe_iff {outPtrPos : Nat} (hpos : outPtrPos ≤ b.output) (n : Nat) :
    Access.Safe b (.writeOutput outPtrPos n) ↔ n ≤ b.output - outPtrPos := by
  simp only [Access.Safe]
  omega

/-- **The accesses of the loop** are safe exactly when the octets that are left fit. -/
theorem frameAccesses_safe_iff (hbuf : bufLen = b.bytesRead + junk.length) : ∀ (remaining : Nat)
    {tail : List UInt8} {outPtrPos : Nat}, tail.length ≤ b.bytesRead → outPtrPos ≤ b.output →
    ((∀ a ∈ frameAccesses sMC bufLen b.bytesRead remaining (tail ++ junk) outPtrPos, a.Safe b) ↔
      ElementFits sMC (b.output - outPtrPos) remaining tail) := by
  intro remaining
  induction remaining with
  | zero =>
    intro tail outPtrPos htail hpos
    rw [frameAccesses, elementFits_zero, List.forall_mem_cons, lengthRead_safe_iff hbuf htail]
    cases hread : readLength tail with
    | none => simp
    | some r =>
      have hrest := length_of_readLength hread
      simp only [readLength_append hread, left_eq hbuf, Option.isSome_some, true_and, Bool.not_eq_true', ne_eq,
        Nat.cast_inj, Option.some.injEq]
      by_cases hstop : sMC.otherDataPresent = false ∧ r.1 ≠ r.2.length
      · rw [if_pos hstop]
        exact iff_of_true (List.forall_mem_nil _) ⟨r.1, r.2, rfl, .inl hstop⟩
      · rw [if_neg hstop, List.forall_mem_cons, List.forall_mem_cons,
          payloadRead_safe_iff hbuf (by omega), write_safe_iff hpos]
        constructor
        · rintro ⟨hn, hroom, -⟩
          exact ⟨r.1, r.2, rfl, .inr ⟨hn, hroom⟩⟩
        · rintro ⟨n, rest, rfl, hlast⟩
          have hfits := hlast.resolve_left hstop
          exact ⟨hfits.1, hfits.2, List.forall_mem_nil _⟩
  | succ remaining ih =>
    intro tail outPtrPos htail hpos
    rw [frameAccesses, elementFits_succ, List.forall_mem_cons, lengthRead_safe_iff hbuf htail]
    cases hread : readLength tail with
    | none => simp
    | some r =>
      have hrest := length_of_readLength hread
      simp only [readLength_append hread, Option.isSome_some, true_and, Option.some.injEq,
        Nat.add_one_ne_zero, false_and, if_false]
      rw [List.forall_mem_cons, List.forall_mem_cons, payloadRead_safe_iff hbuf (by omega), write_safe_iff hpos]
      have hnext (hn : r.1 ≤ r.2.length) (hroom : r.1 ≤ b.output - outPtrPos) :
          (∀ a ∈ if (r.2 ++ junk).length < r.1 then [] else frameAccesses sMC bufLen b.bytesRead remaining
            ((r.2 ++ junk).drop r.1) (outPtrPos + r.1), a.Safe b) ↔
            ElementFits sMC (b.output - outPtrPos - r.1) remaining (r.2.drop r.1) := by
        have hlen : ¬(r.2 ++ junk).length < r.1 := by
          rw [List.length_append]
          omega
        have hdrop : (r.2.drop r.1).length ≤ b.bytesRead := by
          rw [List.length_drop]
          omega
        rw [if_neg hlen, List.drop_append_of_le_length hn, ih hdrop (by omega), Nat.sub_sub]
      constructor
      · rintro ⟨hn, hroom, htail⟩
        exact ⟨r.1, r.2, rfl, hn, hroom, (hnext hn hroom).mp htail⟩
      · rintro ⟨n, rest, rfl, hn, hroom, htail⟩
        exact ⟨hn, hroom, (hnext hn hroom).mpr htail⟩

/-- **The loop gets to its end** when the octets fit. -/
theorem composeFrames_isSome (hbuf : bufLen = b.bytesRead + junk.length) : ∀ (remaining : Nat)
    {tail : List UInt8} {outPtrPos : Nat} (out : MediaData), outPtrPos ≤ out.memory.length →
    ElementFits sMC (out.memory.length - outPtrPos) remaining tail →
      (composeFrames sMC bufLen b.bytesRead remaining (tail ++ junk) outPtrPos out).isSome = true := by
  intro remaining
  induction remaining with
  | zero =>
    intro tail outPtrPos out hpos hfits
    obtain ⟨n, rest, hread, hlast⟩ := elementFits_zero.mp hfits
    rw [composeFrames, readLength_append hread, Option.bind_some]
    simp only [left_eq hbuf, true_and, Bool.not_eq_true', ne_eq, Nat.cast_inj]
    by_cases hstop : sMC.otherDataPresent = false ∧ n ≠ rest.length
    · rw [if_pos hstop]
      rfl
    · obtain ⟨hn, hroom⟩ := hlast.resolve_left hstop
      have hlen : ¬(rest ++ junk).length < n := by
        rw [List.length_append]
        omega
      have htake : ((rest ++ junk).take n).length = n := by
        rw [List.length_take]
        omega
      rw [if_neg hstop, if_neg hlen, blit_of_le (by omega)]
      rfl
  | succ remaining ih =>
    intro tail outPtrPos out hpos hfits
    obtain ⟨n, rest, hread, hn, hroom, hfits⟩ := elementFits_succ.mp hfits
    have hlen : ¬(rest ++ junk).length < n := by
      rw [List.length_append]
      omega
    have htake : ((rest ++ junk).take n).length = n := by
      rw [List.length_take]
      omega
    have hblit : outPtrPos + ((rest ++ junk).take n).length ≤ out.memory.length := by omega
    have hmemory := length_overwrite hblit
    rw [composeFrames, readLength_append hread, Option.bind_some]
    simp only [Nat.add_one_ne_zero, false_and, if_false]
    rw [if_neg hlen, blit_of_le hblit, Option.bind_some, List.drop_append_of_le_length hn]
    refine ih { out with memory := _ } ?_ ?_
    · simp only [hmemory]
      omega
    · simp only [hmemory]
      rw [Nat.sub_sub] at hfits
      exact hfits

/-! ## The composers -/

variable {p : Packet} {s : Parser} {buffer : Bool}

theorem singleAccesses_safe_iff : (∀ a ∈ singleAccesses p s, a.Safe (bounds p s)) ↔ SingleFits p s := by
  have hcapacity := le_capacity p.payload.length
  rw [singleAccesses, SingleFits]
  by_cases hfirst : s.firstBlock = true
  · rw [if_pos hfirst, if_pos hfirst, List.forall_mem_cons, ← readLength_isSome_iff]
    simp only [Access.Safe, bounds, Nat.zero_add]
    cases hread : readLength p.payload with
    | none =>
      simp only [lengthOctets, hread, Option.isSome_none]
      refine iff_of_false (fun h => ?_) Bool.false_ne_true
      have hlong := h.1
      omega
    | some r =>
      have hrest := length_of_readLength hread
      simp only [lengthOctets, hread, Option.isSome_some, iff_true]
      refine ⟨by omega, ?_⟩
      by_cases hsize : wrongSize s.sMC p.marker ((s.framesize + r.1 : Nat) : Int) r.2.length = true
      · rw [if_pos hsize]
        exact List.forall_mem_nil _
      · rw [if_neg hsize, List.forall_mem_cons, List.forall_mem_singleton]
        exact ⟨by show _ + _ ≤ _; omega, by show _ + _ ≤ _; omega⟩
  · rw [if_neg hfirst, if_neg hfirst]
    by_cases hsize : wrongSize s.sMC p.marker s.framesize (p.payload.length + (s.bytesRead - 1)) = true
    · rw [if_pos hsize]
      exact iff_of_true (List.forall_mem_nil _) (.inl hsize)
    · rw [if_neg hsize, List.forall_mem_cons, List.forall_mem_singleton, or_iff_right hsize]
      simp only [Access.Safe, bounds, Nat.zero_add, Nat.le_refl, true_and]

theorem composeSingleFrame_isSome (h : SingleFits p s) {out : MediaData}
    (hout : out.memory.length = capacity p.payload.length) : (composeSingleFrame p out s).isSome = true := by
  have hcapacity := le_capacity p.payload.length
  rw [SingleFits] at h
  rw [composeSingleFrame]
  by_cases hfirst : s.firstBlock = true
  · rw [if_pos hfirst, ← readLength_isSome_iff] at h
    obtain ⟨r, hread⟩ := Option.isSome_iff_exists.mp h
    have hrest := length_of_readLength hread
    rw [if_pos hfirst, hread, Option.bind_some]
    simp only
    by_cases hsize : wrongSize s.sMC p.marker ((s.framesize + r.1 : Nat) : Int) r.2.length = true
    · rw [if_pos hsize]
      rfl
    · rw [if_neg hsize, blit_of_le (by omega)]
      rfl
  · rw [if_neg hfirst] at h
    rw [if_neg hfirst]
    simp only
    by_cases hsize : wrongSize s.sMC p.marker s.framesize (p.payload.length + (s.bytesRead - 1)) = true
    · rw [if_pos hsize]
      rfl
    · have hroom := h.resolve_left hsize
      rw [if_neg hsize, blit_of_le (by omega)]
      rfl

/-- The buffer that the packet is copied to, with the octets collected and the others in it. -/
theorem grow_cases (p : Packet) (s : Parser) (buffer : Bool) :
    grow p.payload.length buffer s = none ∧ buffer = false ∧
      s.multiFrameBuf.length < s.bytesRead + p.payload.length ∨
    ∃ multiFrameBuf, grow p.payload.length buffer s = some { s with multiFrameBuf } ∧
      ¬(buffer = false ∧ s.multiFrameBuf.length < s.bytesRead + p.payload.length) ∧
      (s.bytesRead ≤ s.multiFrameBuf.length → s.bytesRead + p.payload.length ≤ multiFrameBuf.length ∧
        multiFrameBuf.take s.bytesRead = s.multiFrameBuf.take s.bytesRead) := by
  rw [grow]
  by_cases hlarge : s.bytesRead + p.payload.length > s.multiFrameBuf.length
  · rw [if_pos hlarge]
    by_cases hbuffer : buffer = true
    · rw [if_pos hbuffer]
      refine .inr ⟨_, rfl, fun h => ?_, fun hle => ⟨?_, ?_⟩⟩
      · rw [hbuffer] at h
        exact absurd h.1 Bool.noConfusion
      · rw [List.length_append, List.length_take, List.length_replicate]
        omega
      · have hlen : (s.multiFrameBuf.take s.bytesRead).length = s.bytesRead := by
          rw [List.length_take]
          omega
        rw [List.take_append_of_le_length (by omega), List.take_take, Nat.min_self]
    · rw [if_neg hbuffer]
      exact .inl ⟨rfl, Bool.eq_false_iff.mpr hbuffer, hlarge⟩
  · rw [if_neg hlarge]
    exact .inr ⟨s.multiFrameBuf, rfl, fun h => hlarge h.2, fun _ => ⟨by omega, rfl⟩⟩

theorem overwrite_eq (hlen : s.bytesRead + p.payload.length ≤ multiFrameBuf.length)
    (htake : multiFrameBuf.take s.bytesRead = s.multiFrameBuf.take s.bytesRead) :
    ∃ junk, overwrite multiFrameBuf s.bytesRead p.payload = s.multiFrameBuf.take s.bytesRead ++ p.payload ++ junk ∧
      multiFrameBuf.length = s.bytesRead + p.payload.length + junk.length := by
  refine ⟨multiFrameBuf.drop (s.bytesRead + p.payload.length), ?_, ?_⟩
  · rw [overwrite, htake]
  · rw [List.length_drop]
    omega

theorem copyBuffer_safe_iff {size : Nat} :
    (∀ a ∈ if s.bytesRead + size > s.multiFrameBuf.length then [Access.copyBuffer s.bytesRead] else [],
      a.Safe (bounds p s)) ↔ s.bytesRead ≤ s.multiFrameBuf.length := by
  by_cases hlarge : s.bytesRead + size > s.multiFrameBuf.length
  · rw [if_pos hlarge, List.forall_mem_singleton]
    rfl
  · rw [if_neg hlarge]
    exact iff_of_true (List.forall_mem_nil _) (by omega)

theorem collectedAccesses_safe_iff (hlen : s.bytesRead + p.payload.length ≤ multiFrameBuf.length)
    (htake : multiFrameBuf.take s.bytesRead = s.multiFrameBuf.take s.bytesRead) :
    (∀ a ∈ frameAccesses s.sMC multiFrameBuf.length (s.bytesRead + p.payload.length) s.sMC.numSubFrames
      (overwrite multiFrameBuf s.bytesRead p.payload) 0, a.Safe (bounds p s)) ↔
      ElementFits s.sMC (capacity p.payload.length) s.sMC.numSubFrames
        (s.multiFrameBuf.take s.bytesRead ++ p.payload) := by
  obtain ⟨junk, hjunk, hbuf⟩ := overwrite_eq hlen htake
  have htail : (s.multiFrameBuf.take s.bytesRead ++ p.payload).length ≤ s.bytesRead + p.payload.length := by
    rw [List.length_append, List.length_take]
    omega
  rw [hjunk]
  exact frameAccesses_safe_iff (b := bounds p s) hbuf s.sMC.numSubFrames htail (Nat.zero_le _)

theorem multipleAccesses_safe_iff :
    (∀ a ∈ multipleAccesses p buffer s, a.Safe (bounds p s)) ↔ MultipleFits p buffer s := by
  rw [multipleAccesses, MultipleFits]
  rcases grow_cases p s buffer with ⟨hgrow, hnone⟩ | ⟨multiFrameBuf, hgrow, hmem, hbuf⟩
  · rw [hgrow]
    exact iff_of_true (List.forall_mem_nil _) (.inl hnone)
  · rw [hgrow, or_iff_right hmem]
    simp only
    rw [List.forall_mem_append, copyBuffer_safe_iff, List.forall_mem_cons]
    refine and_congr_right fun hle => ?_
    have hpacket : Access.Safe (bounds p s) (.readPacket 0 p.payload.length) := Nat.le_of_eq (Nat.zero_add _)
    obtain ⟨hlen, htake⟩ := hbuf hle
    rw [and_iff_right hpacket]
    by_cases hmarker : p.marker = true
    · rw [if_pos hmarker, collectedAccesses_safe_iff hlen htake]
      exact ⟨fun h _ => h, fun h => h hmarker⟩
    · rw [if_neg hmarker]
      exact iff_of_true (List.forall_mem_nil _) fun h => absurd h hmarker

theorem composeMultipleFrame_isSome (h : MultipleFits p buffer s) {out : MediaData}
    (hout : out.memory.length = capacity p.payload.length) :
    (composeMultipleFrame p buffer out s).isSome = true := by
  rw [composeMultipleFrame]
  rcases grow_cases p s buffer with ⟨hgrow, _⟩ | ⟨multiFrameBuf, hgrow, hmem, hbuf⟩
  · simp only [hgrow, Option.isSome_some]
  · obtain ⟨hle, hfits⟩ := h.resolve_left hmem
    obtain ⟨hlen, htake⟩ := hbuf hle
    simp only [hgrow]
    rw [blit_of_le hlen, Option.bind_some, finishMultiple]
    simp only
    by_cases hmarker : p.marker = true
    · obtain ⟨junk, hjunk, hjunklen⟩ := overwrite_eq hlen htake
      rw [if_pos hmarker, Option.isSome_map, length_overwrite hlen, hjunk]
      refine composeFrames_isSome (b := bounds p s) hjunklen s.sMC.numSubFrames _ (Nat.zero_le _) ?_
      simp only [setFilledLen_memory, hout]
      exact hfits hmarker
    · rw [if_neg hmarker]
      rfl

/-! ## Calls -/

theorem callSafe_iff (call : Call) (s : Parser) : CallSafe call s ↔ CallFits call s := by
  rw [CallSafe, accesses, CallFits]
  by_cases hcomposed : Composed call.1 call.2 s
  · rw [if_pos hcomposed, forall_prop_of_true hcomposed]
    by_cases hseveral : Several call.1 s
    · rw [if_pos hseveral, if_pos hseveral, multipleAccesses_safe_iff]
    · rw [if_neg hseveral, if_neg hseveral, singleAccesses_safe_iff]
  · rw [if_neg hcomposed]
    exact iff_of_true (List.forall_mem_nil _) fun h => absurd h hcomposed

theorem compose_isSome {call : Call} (h : CallFits call s) : ∃ r, compose call.1 call.2 s = some r := by
  obtain ⟨p, alloc⟩ := call
  cases houtput : alloc.output with
  | none => exact ⟨_, by rw [compose, houtput]⟩
  | some fresh =>
    by_cases hdrop : ((s.dropFrames || (!s.firstPacket && decide (p.seqNum - s.last_sequence_num > 1))) &&
        !p.marker) = true
    · exact ⟨_, by rw [compose, houtput]; exact if_pos hdrop⟩
    · have hfits := h ⟨by rw [houtput]; rfl, Bool.eq_false_iff.mpr hdrop⟩
      have hout := length_createMediaData fresh p.payload.length
      have hsome : (compose p alloc s).isSome = true := by
        rw [compose, houtput]
        simp only
        rw [if_neg hdrop, Option.isSome_map]
        by_cases hseveral : Several p s
        · rw [if_pos hseveral] at hfits
          rw [Several] at hseveral
          rw [if_pos hseveral]
          have hseen : MultipleFits p alloc.buffer { s.seen p with dropFrames := false } := hfits
          exact composeMultipleFrame_isSome hseen hout
        · rw [if_neg hseveral] at hfits
          rw [Several] at hseveral
          rw [if_neg hseveral]
          have hseen : SingleFits p { s.seen p with dropFrames := false } := hfits
          exact composeSingleFrame_isSome hseen hout
      exact Option.isSome_iff_exists.mp hsome

/-- **Packet after packet is read and written inside of the buffers exactly when each of
them fits**: a first length ends in its packet, blocks fit into the output of one packet,
and the sub-frames that are collected are there in full. -/
theorem runSafe_iff (calls : List Call) (s : Parser) : RunSafe calls s ↔ RunFits calls s := by
  induction calls generalizing s with
  | nil => exact Iff.rfl
  | cons call calls ih =>
    rw [RunSafe, RunFits, callSafe_iff]
    refine and_congr_right fun hfits => ?_
    obtain ⟨r, hr⟩ := compose_isSome hfits
    constructor
    · rintro ⟨r', hr', hrun⟩ r'' hr''
      obtain rfl := Option.some.inj (hr'.symm.trans hr'')
      exact (ih _).mp hrun
    · intro hrun
      exact ⟨r, hr, (ih _).mpr (hrun r hr)⟩

/-- A packet of one octet that does not end the length, and an element of two sub-frames, whose
first one is longer than the packet. -/
theorem lengths_lead_out :
    ¬RunSafe [(⟨[0xff], 0, 0, true⟩, ⟨some fun _ => 0, true⟩)] (newParser ⟨false, 0, false⟩) ∧
      ¬RunSafe [(⟨[200, 7, 8], 0, 0, true⟩, ⟨some fun _ => 0, true⟩)] (newParser ⟨false, 1, false⟩) := by
  constructor
  · intro ⟨hsafe, _⟩
    have hfits := (callSafe_iff _ _).mp hsafe ⟨rfl, rfl⟩
    rw [if_neg (by decide)] at hfits
    obtain ⟨b, hb, hne⟩ : ∃ b ∈ [0xff], b ≠ (0xff : UInt8) := hfits
    exact hne (List.mem_singleton.mp hb)
  · intro ⟨hsafe, _⟩
    have hfits := (callSafe_iff _ _).mp hsafe ⟨rfl, rfl⟩
    rw [if_pos (by decide)] at hfits
    have helement := (hfits.resolve_left fun h => absurd h.1 (by decide)).2 rfl
    obtain ⟨n, rest, hread, hn, _⟩ := elementFits_succ.mp helement
    have heq : (200, [7, 8]) = (n, rest) := Option.some.inj hread
    rw [← (Prod.mk.inj heq).1, ← (Prod.mk.inj heq).2] at hn
    exact absurd hn (by decide)

end Ftke.LatmParser
