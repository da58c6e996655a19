import Ftke.LatmParser

/-!
# Ftke.LatmParser.Compose

When the packets of an element are composed.

`composeFrames_eq` says what the loop over the sub-frames copies, and when that does not fit
the output.  An element of more sub-frames is collected packet after packet (`Collecting`),
one of a single sub-frame is lost with its second packet (`Partial`).  `composes_iff` puts
the two together.
-/

namespace Ftke.LatmParser

/-! ## Payload lengths -/

theorem readLength_replicate {r : Nat} (hr : r < 255) (rest : List UInt8) : ∀ k : Nat,
    readLength (List.replicate k 0xff ++ UInt8.ofNat r :: rest) = some (255 * k + r, rest)
  | 0 => by
    have hne : UInt8.ofNat r ≠ 0xff := fun heq => by
      have hnat := congrArg UInt8.toNat heq
      rw [UInt8.toNat_ofNat'] at hnat
      have h255 : (0xff : UInt8).toNat = 255 := rfl
      omega
    rw [List.replicate_zero, List.nil_append, readLength, if_neg hne, UInt8.toNat_ofNat']
    simp only [Nat.mul_zero, Nat.zero_add]
    rw [Nat.mod_eq_of_lt (by omega)]
  | k + 1 => by
    rw [List.replicate_succ, List.cons_append, readLength, if_pos rfl, readLength_replicate hr rest k,
      Option.map_some, Nat.mul_add, Nat.mul_one]
    congr 2
    omega

theorem readLength_lengthCode (n : Nat) (rest : List UInt8) :
    readLength (lengthCode n ++ rest) = some (n, rest) := by
  rw [lengthCode, List.append_assoc, List.singleton_append, readLength_replicate (Nat.mod_lt n (by decide)),
    Nat.div_add_mod]

theorem element_cons (payload : List UInt8) (payloads : List (List UInt8)) :
    element (payload :: payloads) = lengthCode payload.length ++ (payload ++ element payloads) := by
  rw [element, List.flatMap_cons, List.append_assoc]
  rfl

theorem flatten_le_element : ∀ payloads : List (List UInt8), payloads.flatten.length ≤ (element payloads).length
  | [] => Nat.le_refl 0
  | payload :: payloads => by
    have ih := flatten_le_element payloads
    rw [element_cons, List.flatten_cons]
    simp only [List.length_append]
    omega

/-! ## Copying -/

section blit

variable {memory data : List UInt8} {offset : Nat}

theorem blit_of_le (h : offset + data.length ≤ memory.length) :
    blit memory offset data = some (overwrite memory offset data) := if_pos h

theorem blit_of_lt (h : memory.length < offset + data.length) : blit memory offset data = none :=
  if_neg (Nat.not_le.mpr h)

end blit

/-! ## The loop over the sub-frames -/

variable {sMC : StreamMuxConfig}

variable {junk content rest : List UInt8}

/-- **The sub-frames are copied** one behind the other. -/
theorem composeFrames_eq (hother : sMC.otherDataPresent = false) {bufLen bytesRead : Nat}
    (hjunk : bytesRead + junk.length = bufLen) : ∀ {remaining : Nat} {payloads : List (List UInt8)}
    (outPtrPos : Nat) (out : MediaData), payloads.length = remaining + 1 →
    outPtrPos + payloads.flatten.length ≤ out.memory.length → ∃ framesize,
      composeFrames sMC bufLen bytesRead remaining (element payloads ++ junk) outPtrPos out =
        some (some (outPtrPos + payloads.flatten.length), framesize,
          { out with memory := overwrite out.memory outPtrPos payloads.flatten })
  | _, [], _, _, hlen, _ => absurd hlen (by simp)
  | 0, [payload], outPtrPos, out, _, hfit => by
    rw [List.flatten_singleton] at hfit ⊢
    have hsize : ¬(True ∧ (!sMC.otherDataPresent) = true ∧ ((payload.length : Nat) : Int) ≠
        (bytesRead : Int) - ((bufLen : Int) - ((payload ++ junk).length : Nat))) := by
      rw [List.length_append]
      omega
    have hlong : ¬(payload ++ junk).length < payload.length := by
      rw [List.length_append]
      omega
    rw [composeFrames, element_cons, List.append_assoc, readLength_lengthCode]
    simp only [Option.bind_some, element, List.flatMap_nil, List.append_nil]
    rw [if_neg hsize, if_neg hlong, List.take_left, blit_of_le hfit]
    exact ⟨_, rfl⟩
  | remaining + 1, payload :: payloads, outPtrPos, out, hlen, hfit => by
    rw [List.flatten_cons, List.length_append] at hfit
    have hlen : payloads.length = remaining + 1 := by simpa using hlen
    have hsize : ¬(remaining + 1 = 0 ∧ (!sMC.otherDataPresent) = true ∧ ((payload.length : Nat) : Int) ≠
        (bytesRead : Int) - ((bufLen : Int) - ((payload ++ (element payloads ++ junk)).length : Nat))) := by
      omega
    have hlong : ¬(payload ++ (element payloads ++ junk)).length < payload.length := by
      rw [List.length_append]
      omega
    have hfirst : outPtrPos + payload.length ≤ out.memory.length := by omega
    obtain ⟨framesize, ih⟩ := composeFrames_eq hother hjunk (outPtrPos + payload.length)
      { out with memory := overwrite out.memory outPtrPos payload } hlen
      (by rw [length_overwrite hfirst]; omega)
    rw [composeFrames, element_cons]
    simp only [List.append_assoc, readLength_lengthCode, Option.bind_some]
    rw [if_neg hsize, if_neg hlong, List.take_left, List.drop_left, blit_of_le hfirst]
    simp only [Option.bind_some, ih]
    refine ⟨framesize, ?_⟩
    rw [overwrite_overwrite (by omega), List.flatten_cons, List.length_append, Nat.add_assoc]
  | 0, _ :: _ :: _, _, _, hlen, _ => absurd hlen (by simp)

theorem composeFrames_eq_none (hother : sMC.otherDataPresent = false) {bufLen bytesRead : Nat}
    (hjunk : bytesRead + junk.length = bufLen) : ∀ {remaining : Nat}
    {payloads : List (List UInt8)} (outPtrPos : Nat) (out : MediaData), payloads.length = remaining + 1 →
    out.memory.length < outPtrPos + payloads.flatten.length → outPtrPos ≤ out.memory.length →
      composeFrames sMC bufLen bytesRead remaining (element payloads ++ junk) outPtrPos out = none
  | _, [], _, _, hlen, _, _ => absurd hlen (by simp)
  | 0, [payload], outPtrPos, out, _, hlong, _ => by
    rw [List.flatten_singleton] at hlong
    have hsize : ¬(True ∧ (!sMC.otherDataPresent) = true ∧ ((payload.length : Nat) : Int) ≠
        (bytesRead : Int) - ((bufLen : Int) - ((payload ++ junk).length : Nat))) := by
      rw [List.length_append]
      omega
    have henough : ¬(payload ++ junk).length < payload.length := by
      rw [List.length_append]
      omega
    rw [composeFrames, element_cons, List.append_assoc, readLength_lengthCode]
    simp only [Option.bind_some, element, List.flatMap_nil, List.append_nil]
    rw [if_neg hsize, if_neg henough, List.take_left, blit_of_lt hlong]
    rfl
  | remaining + 1, payload :: payloads, outPtrPos, out, hlen, hlong, hpos => by
    rw [List.flatten_cons, List.length_append] at hlong
    have hlen : payloads.length = remaining + 1 := by simpa using hlen
    have hsize : ¬(remaining + 1 = 0 ∧ (!sMC.otherDataPresent) = true ∧ ((payload.length : Nat) : Int) ≠
        (bytesRead : Int) - ((bufLen : Int) - ((payload ++ (element payloads ++ junk)).length : Nat))) := by
      omega
    have henough : ¬(payload ++ (element payloads ++ junk)).length < payload.length := by
      rw [List.length_append]
      omega
    rw [composeFrames, element_cons]
    simp only [List.append_assoc, readLength_lengthCode, Option.bind_some]
    rw [if_neg hsize, if_neg henough, List.take_left, List.drop_left]
    by_cases hfirst : outPtrPos + payload.length ≤ out.memory.length
    · have hmemory := length_overwrite hfirst
      rw [blit_of_le hfirst]
      simp only [Option.bind_some]
      exact composeFrames_eq_none hother hjunk _ _ hlen (by simp only [hmemory]; omega) (by simp only [hmemory]; omega)
    · rw [blit_of_lt (Nat.lt_of_not_le hfirst)]
      rfl
  | 0, _ :: _ :: _, _, _, hlen, _, _ => absurd hlen (by simp)

/-! ## One packet -/

/-- The packet is in order, or the last of its element. -/
def InOrder (last : Option UInt32) (p : Packet) : Prop := p.marker = true ∨ ∀ seq ∈ last, p.seqNum - seq ≤ 1

/-- The number of the packet before, if there has been one. -/
def Parser.last (s : Parser) : Option UInt32 := if s.firstPacket then none else some s.last_sequence_num

/-- No sequence is being dropped, and the configuration is out of band. -/
structure Tidy (s : Parser) : Prop where
  dropFrames : s.dropFrames = false
  cpresent : s.sMC.cpresent = false
  otherDataPresent : s.sMC.otherDataPresent = false

/-- The parser with the packet's number. -/
def Parser.seen (s : Parser) (p : Packet) : Parser :=
  { s with firstPacket := false, last_sequence_num := p.seqNum }

/-- `composeSingleFrame` or `composeMultipleFrame`. -/
def composeEither (p : Packet) (buffer : Bool) (out : MediaData) (s : Parser) :
    Option (Status × MediaData × Parser) :=
  if s.sMC.numSubFrames > 0 then composeMultipleFrame p buffer out s else composeSingleFrame p out s

variable {s : Parser} {p : Packet} {alloc : Alloc}

variable {fresh : Nat → UInt8}

theorem compose_eq (h : Tidy s) (halloc : alloc.output = some fresh)
    (horder : InOrder s.last p) : compose p alloc s =
      (composeEither p alloc.buffer (createMediaData fresh p.payload.length) (s.seen p)).map fun r =>
        if r.1 = .frameError then
          (.frameError, some (r.2.1.setFilledLen 0), { r.2.2.reset with dropFrames := true, firstBlock := true })
        else (r.1, some r.2.1, r.2.2) := by
  have hgap : ((!s.firstPacket && decide (p.seqNum - s.last_sequence_num > 1)) && !p.marker) = false := by
    rcases horder with hmarker | hseq
    · rw [hmarker, Bool.not_true, Bool.and_false]
    · by_cases hfirst : s.firstPacket = true
      · rw [hfirst]
        rfl
      · have hle : p.seqNum - s.last_sequence_num ≤ 1 := hseq _ (by rw [Parser.last, if_neg hfirst]; rfl)
        have hnot : decide (p.seqNum - s.last_sequence_num > 1) = false :=
          decide_eq_false (UInt32.not_lt.mpr hle)
        rw [hnot, Bool.and_false, Bool.false_and]
  rw [compose, halloc]
  simp only [h.dropFrames, h.cpresent, Bool.false_or, hgap, Bool.false_eq_true, if_false, false_and, or_false]
  have hseen : ({ s with dropFrames := false, firstPacket := false, last_sequence_num := p.seqNum } : Parser) =
      s.seen p := by
    rw [Parser.seen, ← h.dropFrames]
  rw [hseen]
  rfl

theorem compose_refused (h : Tidy s) (hrefused : ¬(alloc.output.isSome = true ∧ InOrder s.last p)) :
    ∀ r, compose p alloc s = some r → r.1 ≠ .frameIncomplete ∧ r.1 ≠ .frameComplete := by
  intro r hr
  cases halloc : alloc.output with
  | none =>
    rw [compose, halloc] at hr
    rw [← Option.some.inj hr]
    exact ⟨Status.noConfusion, Status.noConfusion⟩
  | some fresh =>
    rw [halloc, InOrder] at hrefused
    obtain ⟨hmarker, hseq⟩ : p.marker = false ∧ ∃ seq ∈ s.last, ¬p.seqNum - seq ≤ 1 := by
      simpa using hrefused
    obtain ⟨seq, hlast, hgap⟩ := hseq
    have hfirst : s.firstPacket = false ∧ s.last_sequence_num = seq := by
      rw [Parser.last] at hlast
      cases hp : s.firstPacket with
      | true => simp [hp] at hlast
      | false =>
        rw [hp] at hlast
        exact ⟨rfl, Option.some.inj hlast⟩
    have hdrop : ((!s.firstPacket && decide (p.seqNum - s.last_sequence_num > 1)) && !p.marker) = true := by
      rw [hfirst.1, hfirst.2, hmarker, decide_eq_true (UInt32.not_le.mp hgap)]
      rfl
    rw [compose, halloc] at hr
    simp only [h.dropFrames, Bool.false_or, hdrop, if_true] at hr
    rw [← Option.some.inj hr]
    exact ⟨Status.noConfusion, Status.noConfusion⟩

theorem setFilledLen_memory (m : MediaData) (len : Nat) : (m.setFilledLen len).memory = m.memory := by
  rw [MediaData.setFilledLen]
  split <;> rfl

theorem content_setFilledLen {m : MediaData} {len : Nat} (h : len ≤ m.memory.length) :
    (m.setFilledLen len).content = m.memory.take len := by
  rw [MediaData.setFilledLen, if_neg (Nat.not_lt.mpr h)]
  rfl

theorem length_createMediaData (fresh : Nat → UInt8) (size : Nat) :
    (createMediaData fresh size).memory.length = capacity size := by
  rw [createMediaData, List.length_map, List.length_range]

theorem le_capacity (size : Nat) : size ≤ capacity size := by
  rw [capacity]
  split <;> omega

/-! ## Packets and runs -/

/-- The length of the last packet. -/
def lastLength (calls : List Call) : Nat := (calls.getLast?.map fun call => call.1.payload.length).getD 0

variable {calls : List Call}

theorem marker_cons {call next : Call} (h : (call :: next :: calls).map (fun call => call.1.marker) =
      List.replicate ((call :: next :: calls).length - 1) false ++ [true]) :
    call.1.marker = false ∧ (next :: calls).map (fun call => call.1.marker) =
      List.replicate ((next :: calls).length - 1) false ++ [true] := by
  simpa [List.replicate_succ] using h

theorem composes_singleton {call : Call} : Composes [call] content s ↔
    ∃ out t, compose call.1 call.2 s = some (.frameComplete, some out, t) ∧ out.content = content := by
  have hall : composeAll [call] s = (compose call.1 call.2 s).map fun r => ([r.1], r.2.1, r.2.2) := by
    rw [composeAll, Option.map_eq_bind]
    rfl
  constructor
  · intro ⟨out, t, hrun, hout⟩
    rw [hall] at hrun
    obtain ⟨r, hr, heq⟩ := Option.map_eq_some_iff.mp hrun
    have hstatus : r.1 = .frameComplete := (List.cons.inj (Prod.mk.inj heq).1).1
    have hrest := (Prod.mk.inj heq).2
    exact ⟨out, t, by rw [hr, ← hrest, ← hstatus], hout⟩
  · intro ⟨out, t, hr, hout⟩
    exact ⟨out, t, by rw [hall, hr]; rfl, hout⟩

theorem composes_cons {call next : Call} :
    Composes (call :: next :: calls) content s ↔ ∃ r, compose call.1 call.2 s = some r ∧
      r.1 = .frameIncomplete ∧ Composes (next :: calls) content r.2.2 := by
  have hlen : List.replicate ((call :: next :: calls).length - 1) Status.frameIncomplete ++ [.frameComplete] =
      .frameIncomplete :: (List.replicate ((next :: calls).length - 1) .frameIncomplete ++ [.frameComplete]) := by
    simp [List.replicate_succ]
  rw [Composes, hlen]
  constructor
  · intro ⟨out, t, hrun, hout⟩
    rw [composeAll] at hrun
    obtain ⟨r, hr, hrest⟩ := Option.bind_eq_some_iff.mp hrun
    rw [List.isEmpty_cons, if_neg Bool.false_ne_true] at hrest
    obtain ⟨rest, hrun, heq⟩ := Option.map_eq_some_iff.mp hrest
    have hcons := List.cons.inj (Prod.mk.inj heq).1
    refine ⟨r, hr, hcons.1, out, t, ?_, hout⟩
    rw [hrun, ← hcons.2, ← (Prod.mk.inj heq).2]
  · intro ⟨r, hr, hstatus, out, t, hrun, hout⟩
    refine ⟨out, t, ?_, hout⟩
    rw [composeAll, hr, Option.bind_some, List.isEmpty_cons, if_neg Bool.false_ne_true, hrun, hstatus]
    rfl

/-! ## More sub-frames -/

/-- What the packets need, by the last sequence number, the size of the collecting buffer
and what is in it: output buffers, the order, and with more sub-frames (`multi`) a
collecting buffer that is large enough or can be had. -/
def Fits (multi : Prop) : Option UInt32 → Nat → Nat → List Call → Prop
  | _, _, _, [] => True
  | last, size, read, call :: calls =>
    (call.2.output.isSome = true ∧ InOrder last call.1 ∧
      (multi → read + call.1.payload.length ≤ size ∨ call.2.buffer = true)) ∧
    Fits multi (some call.1.seqNum) (max size (read + call.1.payload.length)) (read + call.1.payload.length) calls

/-- These octets of the element are collected, from as many packets. -/
structure Collecting (pre : List UInt8) (packets : Nat) (s : Parser) : Prop extends Tidy s where
  numSubFrames : 0 < s.sMC.numSubFrames
  read : s.bytesRead = pre.length
  collected : s.multiFrameBuf.take pre.length = pre
  frames : s.compositenumframes = packets

variable {pre : List UInt8} {packets : Nat}

theorem Collecting.le (h : Collecting pre packets s) : pre.length ≤ s.multiFrameBuf.length := by
  have hlen := congrArg List.length h.collected
  rw [List.length_take] at hlen
  omega

theorem Collecting.seen (h : Collecting pre packets s) (p : Packet) : Collecting pre packets (s.seen p) :=
  ⟨⟨h.dropFrames, h.cpresent, h.otherDataPresent⟩, h.numSubFrames, h.read, h.collected, h.frames⟩

theorem grow_eq (h : Collecting pre packets s) {size : Nat} {buffer : Bool}
    (hfits : pre.length + size ≤ s.multiFrameBuf.length ∨ buffer = true) : ∃ multiFrameBuf,
      grow size buffer s = some { s with multiFrameBuf } ∧ multiFrameBuf.take pre.length = pre ∧
        multiFrameBuf.length = max s.multiFrameBuf.length (pre.length + size) := by
  have hle := h.le
  by_cases hlarge : s.bytesRead + size > s.multiFrameBuf.length
  · have hbuffer : buffer = true := hfits.resolve_left (by rw [← h.read]; omega)
    refine ⟨s.multiFrameBuf.take s.bytesRead ++ List.replicate size 0, ?_, ?_, ?_⟩
    · rw [grow, if_pos hlarge, if_pos hbuffer]
    · rw [h.read, h.collected, List.take_left]
    · rw [h.read] at hlarge
      rw [h.read, h.collected, List.length_append, List.length_replicate]
      omega
  · refine ⟨s.multiFrameBuf, ?_, h.collected, ?_⟩
    · rw [grow, if_neg hlarge]
    · rw [h.read] at hlarge
      omega

/-- **A packet is collected** behind the others. -/
theorem composeMultipleFrame_eq (h : Collecting pre packets s)
    (hfits : pre.length + p.payload.length ≤ s.multiFrameBuf.length ∨ alloc.buffer = true) (out : MediaData) :
    ∃ t, composeMultipleFrame p alloc.buffer out s = finishMultiple p out t ∧
      Collecting (pre ++ p.payload) packets t ∧ t.last = s.last ∧ t.sMC = s.sMC ∧
      t.multiFrameBuf.length = max s.multiFrameBuf.length (pre.length + p.payload.length) := by
  obtain ⟨multiFrameBuf, hgrow, hcollected, hlen⟩ := grow_eq h hfits
  have hle : pre.length + p.payload.length ≤ multiFrameBuf.length := by omega
  refine ⟨{ s with
    multiFrameBuf := overwrite multiFrameBuf pre.length p.payload
    bytesRead := pre.length + p.payload.length }, ?_, ?_, rfl, rfl, ?_⟩
  · rw [composeMultipleFrame, hgrow]
    simp only [h.read]
    rw [blit_of_le hle]
    rfl
  · refine ⟨⟨h.dropFrames, h.cpresent, h.otherDataPresent⟩, h.numSubFrames, ?_, ?_, h.frames⟩
    · rw [List.length_append]
    · rw [List.length_append, take_overwrite (by omega), hcollected]
  · rw [length_overwrite hle, hlen]

/-- **The last packet** gives the element, if that is not longer than its output buffer. -/
theorem finishMultiple_marker {payloads : List (List UInt8)} (h : Collecting (element payloads) packets s)
    (hlen : payloads.length = s.sMC.numSubFrames + 1) (hmarker : p.marker = true) (out : MediaData) :
    if payloads.flatten.length ≤ out.memory.length then
      ∃ done : MediaData, finishMultiple p out s = some (.frameComplete, done, s.reset) ∧
        done.content = payloads.flatten
    else finishMultiple p out s = none := by
  obtain ⟨junk, hjunk⟩ : ∃ junk, s.multiFrameBuf = element payloads ++ junk :=
    ⟨_, by rw [← List.take_append_drop (element payloads).length s.multiFrameBuf, h.collected]⟩
  have hbytes : s.bytesRead + junk.length = s.multiFrameBuf.length := by
    rw [h.read, hjunk, List.length_append]
  rw [finishMultiple, if_pos hmarker]
  split
  · rename_i hfit
    obtain ⟨framesize, hframes⟩ := composeFrames_eq h.otherDataPresent hbytes 0
      { out.setFilledLen s.bytesRead with seqNum := p.seqNum, timestamp := p.timestamp } hlen
      (by simp only [setFilledLen_memory]; omega)
    rw [hjunk] at hframes ⊢
    rw [hframes]
    refine ⟨_, rfl, ?_⟩
    have hmemory : 0 + payloads.flatten.length ≤ (out.setFilledLen s.bytesRead).memory.length := by
      rw [setFilledLen_memory]
      omega
    rw [content_setFilledLen (by simp only [length_overwrite hmemory]; exact hmemory)]
    simp only
    rw [take_overwrite (Nat.zero_le _), List.take_zero, List.nil_append]
  · rename_i hlong
    rw [hjunk] at hbytes ⊢
    rw [composeFrames_eq_none h.otherDataPresent hbytes 0 _ hlen (by simp only [setFilledLen_memory]; omega)
      (Nat.zero_le _)]
    rfl

theorem Collecting.compose_eq (h : Collecting pre packets s)
    (halloc : alloc.output = some fresh) (horder : InOrder s.last p)
    (hfits : pre.length + p.payload.length ≤ s.multiFrameBuf.length ∨ alloc.buffer = true) : ∃ t,
      compose p alloc s = ((finishMultiple p (createMediaData fresh p.payload.length) t).map fun r =>
        if r.1 = .frameError then
          (.frameError, some (r.2.1.setFilledLen 0), { r.2.2.reset with dropFrames := true, firstBlock := true })
        else (r.1, some r.2.1, r.2.2)) ∧
      Collecting (pre ++ p.payload) packets t ∧ t.last = some p.seqNum ∧ t.sMC = s.sMC ∧
      t.multiFrameBuf.length = max s.multiFrameBuf.length (pre.length + p.payload.length) := by
  obtain ⟨t, heq, ht, hlast, hsMC, hbuf⟩ := composeMultipleFrame_eq (h.seen p) hfits
    (createMediaData fresh p.payload.length)
  refine ⟨t, ?_, ht, hlast, hsMC, hbuf⟩
  have hmulti : (s.seen p).sMC.numSubFrames > 0 := h.numSubFrames
  rw [LatmParser.compose_eq h.toTidy halloc horder, composeEither, if_pos hmulti, heq]

theorem Collecting.compose_incomplete (h : Collecting pre packets s) (hpackets : packets + 1 < maxNumCompositeFrames)
    (hmarker : p.marker = false) (halloc : alloc.output = some fresh) (horder : InOrder s.last p)
    (hfits : pre.length + p.payload.length ≤ s.multiFrameBuf.length ∨ alloc.buffer = true) : ∃ out t,
      compose p alloc s = some (.frameIncomplete, out, t) ∧ Collecting (pre ++ p.payload) (packets + 1) t ∧
      t.last = some p.seqNum ∧ t.sMC = s.sMC ∧
      t.multiFrameBuf.length = max s.multiFrameBuf.length (pre.length + p.payload.length) := by
  obtain ⟨t, heq, ht, hlast, hsMC, hbuf⟩ := h.compose_eq halloc horder hfits
  have hframes : t.compositenumframes + 1 < maxNumCompositeFrames := by rw [ht.frames]; exact hpackets
  rw [finishMultiple, hmarker, if_neg Bool.false_ne_true] at heq
  simp only [hframes, if_true, Option.map_some] at heq
  rw [if_neg (fun herror => Status.noConfusion herror)] at heq
  refine ⟨_, _, heq, ?_, hlast, hsMC, hbuf⟩
  exact ⟨⟨ht.dropFrames, ht.cpresent, ht.otherDataPresent⟩, ht.numSubFrames, ht.read, ht.collected,
    congrArg (· + 1) ht.frames⟩

theorem Collecting.compose_refused (h : Collecting pre packets s)
    (hrefused : ¬(alloc.output.isSome = true ∧ InOrder s.last p ∧
      (pre.length + p.payload.length ≤ s.multiFrameBuf.length ∨ alloc.buffer = true))) :
    ∀ r, compose p alloc s = some r → r.1 ≠ .frameIncomplete ∧ r.1 ≠ .frameComplete := by
  by_cases hother : alloc.output.isSome = true ∧ InOrder s.last p
  · intro r hr
    obtain ⟨fresh, halloc⟩ := Option.isSome_iff_exists.mp hother.1
    obtain ⟨hlarge, hbuffer⟩ : s.multiFrameBuf.length < pre.length + p.payload.length ∧ alloc.buffer = false := by
      constructor
      · by_contra hle
        exact hrefused ⟨hother.1, hother.2, Or.inl (Nat.not_lt.mp hle)⟩
      · by_contra hbuffer
        exact hrefused ⟨hother.1, hother.2, Or.inr (Bool.not_eq_false _ ▸ hbuffer)⟩
    have hmulti : (s.seen p).sMC.numSubFrames > 0 := h.numSubFrames
    have hgrow : grow p.payload.length alloc.buffer (s.seen p) = none := by
      have hread : (s.seen p).bytesRead + p.payload.length > (s.seen p).multiFrameBuf.length := by
        rw [(h.seen p).read]
        exact hlarge
      rw [grow, if_pos hread, hbuffer, if_neg Bool.false_ne_true]
    rw [LatmParser.compose_eq h.toTidy halloc hother.2, composeEither, if_pos hmulti, composeMultipleFrame,
      hgrow] at hr
    rw [← Option.some.inj hr]
    exact ⟨Status.noConfusion, Status.noConfusion⟩
  · exact LatmParser.compose_refused h.toTidy hother

/-- **An element of more sub-frames** is composed when every packet fits, and the last is not
shorter than the payloads. -/
theorem composes_collecting {payloads : List (List UInt8)} : ∀ {calls : List Call} {pre : List UInt8}
    {packets : Nat} {s : Parser}, Collecting pre packets s → payloads.length = s.sMC.numSubFrames + 1 →
    calls ≠ [] → packets + calls.length < maxNumCompositeFrames →
    pre ++ (calls.flatMap fun call => call.1.payload) = element payloads →
    calls.map (fun call => call.1.marker) = List.replicate (calls.length - 1) false ++ [true] →
    (Composes calls payloads.flatten s ↔
      Fits (0 < s.sMC.numSubFrames) s.last s.multiFrameBuf.length pre.length calls ∧
        payloads.flatten.length ≤ capacity (lastLength calls))
  | [], _, _, _, _, _, hne, _, _, _ => absurd rfl hne
  | [(p, alloc)], pre, packets, s, h, hlen, _, _, hoctets, hmarker => by
    have hmarker : p.marker = true := by simpa using hmarker
    have hoctets : pre ++ p.payload = element payloads := by simpa using hoctets
    have hlast : lastLength [(p, alloc)] = p.payload.length := rfl
    simp only [Fits, h.numSubFrames, true_imp_iff, and_true]
    by_cases hfits : alloc.output.isSome = true ∧ InOrder s.last p ∧
        (pre.length + p.payload.length ≤ s.multiFrameBuf.length ∨ alloc.buffer = true)
    · obtain ⟨fresh, halloc⟩ := Option.isSome_iff_exists.mp hfits.1
      obtain ⟨t, heq, ht, _, hsMC, _⟩ := h.compose_eq halloc hfits.2.1 hfits.2.2
      rw [hoctets] at ht
      have hfinish := finishMultiple_marker (p := p) ht (by rw [hsMC]; exact hlen) hmarker
        (createMediaData fresh p.payload.length)
      rw [length_createMediaData] at hfinish
      rw [composes_singleton, heq, hlast]
      split at hfinish
      · rename_i hcapacity
        obtain ⟨done, hdone, hcontent⟩ := hfinish
        rw [hdone, Option.map_some, if_neg (fun herror => Status.noConfusion herror)]
        exact ⟨fun _ => ⟨hfits, hcapacity⟩, fun _ => ⟨_, _, rfl, hcontent⟩⟩
      · rename_i hcapacity
        rw [hfinish, Option.map_none]
        exact ⟨fun ⟨_, _, hnone, _⟩ => absurd hnone (by simp), fun hboth => absurd hboth.2 hcapacity⟩
    · rw [composes_singleton]
      constructor
      · intro ⟨out, t, hr, _⟩
        exact absurd rfl (h.compose_refused hfits _ hr).2
      · exact fun hboth => absurd hboth.1 hfits
  | (p, alloc) :: next :: calls, pre, packets, s, h, hlen, _, hfew, hoctets, hmarker => by
    obtain ⟨hmarker, hmarkers⟩ := marker_cons hmarker
    rw [List.length_cons] at hfew
    have hlast : lastLength ((p, alloc) :: next :: calls) = lastLength (next :: calls) := by
      rw [lastLength, List.getLast?_cons_cons]
      rfl
    rw [composes_cons, Fits, hlast]
    simp only [h.numSubFrames, true_imp_iff]
    by_cases hfits : alloc.output.isSome = true ∧ InOrder s.last p ∧
        (pre.length + p.payload.length ≤ s.multiFrameBuf.length ∨ alloc.buffer = true)
    · obtain ⟨fresh, halloc⟩ := Option.isSome_iff_exists.mp hfits.1
      obtain ⟨out, t, heq, ht, hseq, hsMC, hbuf⟩ := h.compose_incomplete
        (by rw [List.length_cons] at hfew; omega) hmarker halloc hfits.2.1 hfits.2.2
      have ih := composes_collecting ht (by rw [hsMC]; exact hlen) (List.cons_ne_nil next calls)
        (by omega) (by rw [List.append_assoc]; exact hoctets) hmarkers
      rw [hseq, hsMC, hbuf, List.length_append] at ih
      simp only [h.numSubFrames] at ih
      rw [heq]
      constructor
      · intro ⟨r, hr, _, hrest⟩
        rw [← Option.some.inj hr] at hrest
        have hboth := ih.mp hrest
        exact ⟨⟨hfits, hboth.1⟩, hboth.2⟩
      · intro ⟨hall, hcapacity⟩
        exact ⟨_, rfl, rfl, ih.mpr ⟨hall.2, hcapacity⟩⟩
    · constructor
      · intro ⟨r, hr, hstatus, _⟩
        exact absurd hstatus (h.compose_refused hfits r hr).1
      · exact fun hboth => absurd hboth.1.1 hfits

/-! ## One sub-frame -/

variable {payload : List UInt8}

/-- These octets of an element have come, in packets that did not complete it; the output
of each was its own. -/
structure Partial (payload pre : List UInt8) (s : Parser) : Prop extends Tidy s where
  numSubFrames : s.sMC.numSubFrames = 0
  firstBlock : s.firstBlock = false
  framesize : s.framesize = payload.length
  read : s.bytesRead + (lengthCode payload.length).length = pre.length

/-- The state between two elements. -/
structure Ready (s : Parser) : Prop extends Tidy s where
  firstBlock : s.firstBlock = true
  framesize : s.framesize = 0
  bytesRead : s.bytesRead = 0
  compositenumframes : s.compositenumframes = 0

theorem compose_single_eq (h : Tidy s) (hsingle : s.sMC.numSubFrames = 0)
    (halloc : alloc.output = some fresh) (horder : InOrder s.last p) : compose p alloc s =
      (composeSingleFrame p (createMediaData fresh p.payload.length) (s.seen p)).map fun r =>
        if r.1 = .frameError then
          (.frameError, some (r.2.1.setFilledLen 0), { r.2.2.reset with dropFrames := true, firstBlock := true })
        else (r.1, some r.2.1, r.2.2) := by
  have hmulti : ¬(s.seen p).sMC.numSubFrames > 0 := by
    rw [Parser.seen, hsingle]
    omega
  rw [compose_eq h halloc horder, composeEither, if_neg hmulti]

variable {r : Status × Option MediaData × Parser}

theorem accepted (h : Tidy s) (hr : compose p alloc s = some r)
    (hstatus : r.1 = .frameIncomplete ∨ r.1 = .frameComplete) :
    (∃ fresh, alloc.output = some fresh) ∧ InOrder s.last p := by
  by_contra hnot
  have hrefused := compose_refused h (by rw [Option.isSome_iff_exists]; exact hnot) r hr
  exact hstatus.elim hrefused.1 hrefused.2

theorem finishSingle_incomplete {out : MediaData} (hstatus : (finishSingle p out s).1 = .frameIncomplete) :
    (finishSingle p out s).2.2 =
      { s with firstBlock := false, compositenumframes := s.compositenumframes + 1 } := by
  cases hmarker : p.marker with
  | true =>
    rw [finishSingle, hmarker] at hstatus
    exact Status.noConfusion hstatus
  | false =>
    rw [finishSingle, hmarker]
    rfl

theorem Ready.compose_incomplete (h : Ready s) (hsingle : s.sMC.numSubFrames = 0)
    (hfirst : p.payload = lengthCode payload.length ++ rest)
    (hr : compose p alloc s = some r) (hstatus : r.1 = .frameIncomplete) :
    Partial payload p.payload r.2.2 := by
  obtain ⟨⟨fresh, halloc⟩, horder⟩ := accepted h.toTidy hr (Or.inl hstatus)
  rw [compose_single_eq h.toTidy hsingle halloc horder] at hr
  obtain ⟨single, hcompose, heq⟩ := Option.map_eq_some_iff.mp hr
  have hblock : (s.seen p).firstBlock = true := h.firstBlock
  rw [composeSingleFrame, if_pos hblock, hfirst, readLength_lengthCode, Option.bind_some] at hcompose
  simp only at hcompose
  split at hcompose
  · rw [← Option.some.inj hcompose, if_pos rfl] at heq
    rw [← heq] at hstatus
    exact Status.noConfusion hstatus
  · obtain ⟨memory, -, hfinish⟩ := Option.map_eq_some_iff.mp hcompose
    rw [← hfinish] at heq
    split at heq
    · rw [← heq] at hstatus
      exact Status.noConfusion hstatus
    · rw [← heq] at hstatus ⊢
      simp only
      rw [finishSingle_incomplete hstatus]
      refine ⟨⟨h.dropFrames, h.cpresent, h.otherDataPresent⟩, hsingle, rfl, ?_, ?_⟩
      · simp only [Parser.seen, h.framesize, Nat.zero_add]
      · simp only [hfirst, List.length_append]
        omega

theorem Partial.compose_incomplete (h : Partial payload pre s)
    (hr : compose p alloc s = some r) (hstatus : r.1 = .frameIncomplete) :
    Partial payload (pre ++ p.payload) r.2.2 := by
  obtain ⟨⟨fresh, halloc⟩, horder⟩ := accepted h.toTidy hr (Or.inl hstatus)
  rw [compose_single_eq h.toTidy h.numSubFrames halloc horder] at hr
  obtain ⟨single, hcompose, heq⟩ := Option.map_eq_some_iff.mp hr
  have hblock : ¬(s.seen p).firstBlock = true := by
    rw [Parser.seen, h.firstBlock]
    exact Bool.false_ne_true
  rw [composeSingleFrame, if_neg hblock] at hcompose
  simp only at hcompose
  split at hcompose
  · rw [← Option.some.inj hcompose, if_pos rfl] at heq
    rw [← heq] at hstatus
    exact Status.noConfusion hstatus
  · obtain ⟨memory, -, hfinish⟩ := Option.map_eq_some_iff.mp hcompose
    rw [← hfinish] at heq
    split at heq
    · rw [← heq] at hstatus
      exact Status.noConfusion hstatus
    · rw [← heq] at hstatus ⊢
      simp only
      rw [finishSingle_incomplete hstatus]
      refine ⟨⟨h.dropFrames, h.cpresent, h.otherDataPresent⟩, h.numSubFrames, rfl, h.framesize, ?_⟩
      have hread := h.read
      simp only [Parser.seen, List.length_append]
      omega

/-- **The second packet loses the element**: its length is compared to one less than what has come. -/
theorem Partial.compose_last (h : Partial payload pre s) (hmarker : p.marker = true)
    (hoctets : pre ++ p.payload = element [payload])
    (hr : compose p alloc s = some r) : r.1 ≠ .frameComplete := by
  intro hstatus
  obtain ⟨⟨fresh, halloc⟩, horder⟩ := accepted h.toTidy hr (Or.inr hstatus)
  rw [compose_single_eq h.toTidy h.numSubFrames halloc horder] at hr
  obtain ⟨single, hcompose, heq⟩ := Option.map_eq_some_iff.mp hr
  have hblock : ¬(s.seen p).firstBlock = true := by
    rw [Parser.seen, h.firstBlock]
    exact Bool.false_ne_true
  have hlen : s.bytesRead + p.payload.length = payload.length := by
    have hall := congrArg List.length hoctets
    have hread := h.read
    rw [element_cons, element, List.flatMap_nil, List.append_nil, List.length_append, List.length_append] at hall
    omega
  have hcheck : wrongSize (s.seen p).sMC p.marker (s.seen p).framesize
      (p.payload.length + ((s.seen p).bytesRead - 1)) = true := by
    simp only [wrongSize, Parser.seen, h.otherDataPresent, h.framesize, hmarker, if_true, Bool.not_false,
      Bool.true_and, bne_iff_ne, ne_eq]
    omega
  rw [composeSingleFrame, if_neg hblock] at hcompose
  simp only [hcheck, if_true] at hcompose
  rw [← Option.some.inj hcompose, if_pos rfl] at heq
  rw [← heq] at hstatus
  exact Status.noConfusion hstatus

theorem not_composes_blocks : ∀ {calls : List Call} {pre : List UInt8} {s : Parser}, Partial payload pre s →
    pre ++ (calls.flatMap fun call => call.1.payload) = element [payload] → calls ≠ [] →
    calls.map (fun call => call.1.marker) = List.replicate (calls.length - 1) false ++ [true] →
    ¬Composes calls payload s
  | [], _, _, _, _, hne, _ => absurd rfl hne
  | [(p, alloc)], pre, s, h, hoctets, _, hmarker => by
    have hmarker : p.marker = true := by simpa using hmarker
    have hoctets : pre ++ p.payload = element [payload] := by simpa using hoctets
    rw [composes_singleton]
    intro ⟨out, t, hr, _⟩
    exact h.compose_last hmarker hoctets hr rfl
  | (p, alloc) :: next :: calls, pre, s, h, hoctets, _, hmarker => by
    rw [composes_cons]
    intro ⟨r, hr, hstatus, hrest⟩
    have hoctets : (pre ++ p.payload) ++ ((next :: calls).flatMap fun call => call.1.payload) = element [payload] := by
      rw [List.append_assoc]
      exact hoctets
    exact not_composes_blocks (h.compose_incomplete hr hstatus) hoctets (List.cons_ne_nil next calls)
      (marker_cons hmarker).2 hrest

theorem Ready.compose_whole (h : Ready s) (hsingle : s.sMC.numSubFrames = 0) (hmarker : p.marker = true)
    (hoctets : p.payload = element [payload]) (halloc : alloc.output = some fresh) :
    ∃ out t, compose p alloc s = some (.frameComplete, some out, t) ∧ out.content = payload := by
  have hpayload : p.payload = lengthCode payload.length ++ payload := by
    rw [hoctets, element_cons, element, List.flatMap_nil, List.append_nil]
  have hblock : (s.seen p).firstBlock = true := h.firstBlock
  have hfit : 0 + payload.length ≤ (createMediaData fresh p.payload.length).memory.length := by
    have hcapacity := le_capacity p.payload.length
    have hlen := congrArg List.length hpayload
    rw [List.length_append] at hlen
    rw [length_createMediaData]
    omega
  have hcheck : wrongSize (s.seen p).sMC p.marker ((s.seen p).framesize + payload.length : Nat) payload.length =
      false := by
    simp only [wrongSize, Parser.seen, h.framesize, hmarker, if_true, Nat.zero_add, bne_self_eq_false,
      Bool.and_false]
  rw [compose_single_eq h.toTidy hsingle halloc (Or.inl hmarker), composeSingleFrame, if_pos hblock]
  have hread : readLength p.payload = some (payload.length, payload) := by
    rw [hpayload, readLength_lengthCode]
  rw [hread, Option.bind_some]
  simp only [hcheck, Bool.false_eq_true, if_false]
  rw [blit_of_le hfit, Option.map_some, Option.map_some, finishSingle, if_pos hmarker]
  rw [if_neg (fun herror => Status.noConfusion herror)]
  refine ⟨_, _, rfl, ?_⟩
  have htake : (overwrite (createMediaData fresh p.payload.length).memory 0 payload).take (0 + payload.length) = _ :=
    take_overwrite (Nat.zero_le _)
  rw [List.take_zero, List.nil_append, Nat.zero_add] at htake
  refine Eq.trans ?_ htake
  exact content_setFilledLen (by simp only [length_overwrite hfit]; omega)

theorem first_length {p : Packet} {octets : List UInt8}
    (hoctets : p.payload ++ octets = lengthCode payload.length ++ rest)
    (hfirst : (lengthCode payload.length).length ≤ p.payload.length) :
    ∃ more, p.payload = lengthCode payload.length ++ more := by
  refine ⟨p.payload.drop (lengthCode payload.length).length, ?_⟩
  have htake := congrArg (List.take (lengthCode payload.length).length) hoctets
  rw [List.take_left, List.take_append_of_le_length hfirst] at htake
  rw [← htake, List.length_take, Nat.min_eq_left hfirst, List.take_append_drop]

/-- **An element of one sub-frame** is composed when it is in one packet. -/
theorem composes_single (h : Ready s) (hsingle : s.sMC.numSubFrames = 0)
    (hp : Packets [payload] calls) : Composes calls payload s ↔
      Fits (0 < s.sMC.numSubFrames) s.last s.multiFrameBuf.length 0 calls ∧ calls.length = 1 := by
  have hnone : ¬0 < s.sMC.numSubFrames := by omega
  obtain ⟨call, calls, rfl⟩ := List.exists_cons_of_ne_nil hp.some_packet
  obtain ⟨p, alloc⟩ := call
  cases calls with
  | nil =>
    have hmarker : p.marker = true := by simpa using hp.marker
    have hoctets : p.payload = element [payload] := by simpa using hp.octets
    simp only [Fits, hnone, false_imp_iff, and_true, List.length_singleton, InOrder, hmarker, true_or]
    rw [composes_singleton]
    constructor
    · intro ⟨out, t, hr, _⟩
      obtain ⟨fresh, halloc⟩ := (accepted h.toTidy hr (Or.inr rfl)).1
      exact Option.isSome_iff_exists.mpr ⟨fresh, halloc⟩
    · intro hsome
      obtain ⟨fresh, halloc⟩ := Option.isSome_iff_exists.mp hsome
      exact h.compose_whole hsingle hmarker hoctets halloc
  | cons next calls =>
    constructor
    · intro hcomposes
      obtain ⟨r, hr, hstatus, hrest⟩ := composes_cons.mp hcomposes
      have hoctets : p.payload ++ ((next :: calls).flatMap fun call => call.1.payload) = element [payload] := hp.octets
      obtain ⟨more, hmore⟩ := first_length (hoctets.trans (element_cons payload [])) hp.first
      have hblocks := h.compose_incomplete hsingle hmore hr hstatus
      exact absurd hrest (not_composes_blocks hblocks hoctets (List.cons_ne_nil next calls)
        (marker_cons hp.marker).2)
    · intro ⟨_, hone⟩
      simp at hone

/-! ## Any element -/

theorem Ready.collecting (h : Ready s) (hmulti : 0 < s.sMC.numSubFrames) : Collecting [] 0 s :=
  ⟨h.toTidy, hmulti, h.bytesRead, rfl, h.compositenumframes⟩

theorem ready_newParser {sMC : StreamMuxConfig} (hcpresent : sMC.cpresent = false)
    (hother : sMC.otherDataPresent = false) : Ready (newParser sMC) :=
  ⟨⟨rfl, hcpresent, hother⟩, rfl, rfl, rfl, rfl⟩

/-- **When an element is composed.**  Its packets have to fit, and it is in one packet, or has
more sub-frames with payloads that are no longer than the output buffer of the last packet. -/
theorem composes_iff {payloads : List (List UInt8)} {calls : List Call} (h : Ready s)
    (hlen : payloads.length = s.sMC.numSubFrames + 1) (hp : Packets payloads calls) :
    Composes calls payloads.flatten s ↔
      Fits (0 < s.sMC.numSubFrames) s.last s.multiFrameBuf.length 0 calls ∧
        (calls.length = 1 ∨ 0 < s.sMC.numSubFrames ∧ payloads.flatten.length ≤ capacity (lastLength calls)) := by
  by_cases hmulti : 0 < s.sMC.numSubFrames
  · have hfew := hp.few
    rw [composes_collecting (h.collecting hmulti) hlen hp.some_packet (by omega) hp.octets hp.marker]
    refine and_congr Iff.rfl ⟨fun hcapacity => Or.inr ⟨hmulti, hcapacity⟩, ?_⟩
    rintro (hone | ⟨_, hcapacity⟩)
    · obtain ⟨call, rfl⟩ := List.length_eq_one_iff.mp hone
      have hoctets : call.1.payload = element payloads := by simpa using hp.octets
      have hle := flatten_le_element payloads
      rw [← hoctets] at hle
      exact Nat.le_trans hle (le_capacity call.1.payload.length)
    · exact hcapacity
  · have hsingle : s.sMC.numSubFrames = 0 := by omega
    obtain ⟨payload, rfl⟩ := List.length_eq_one_iff.mp (hsingle ▸ hlen)
    rw [List.flatten_singleton, composes_single h hsingle hp]
    exact and_congr Iff.rfl ⟨Or.inl, fun hor => hor.resolve_right fun hboth => hmulti hboth.1⟩

/-- Calls with these packets, one sequence number behind the other; every allocation succeeds. -/
def packetCalls (payloads : List (List UInt8)) : List Call :=
  payloads.zipIdx.map fun payload =>
    (⟨payload.1, UInt32.ofNat payload.2, 0, payload.2 + 1 = payloads.length⟩, ⟨some fun _ => 0, true⟩)

theorem composes_iff_twoSubFrames :
    Composes (packetCalls [[1], [7, 1, 8]]) [7, 8] (newParser ⟨false, 1, false⟩) := by
  have hpackets : Packets [[7], [8]] (packetCalls [[1], [7, 1, 8]]) :=
    ⟨List.cons_ne_nil _ _, by decide, by decide, by decide, by decide⟩
  refine (composes_iff (ready_newParser rfl rfl) rfl hpackets).mpr
    ⟨⟨⟨rfl, Or.inr ?_, ?_⟩, ⟨rfl, Or.inl rfl, ?_⟩, trivial⟩, ?_⟩
  · exact fun seq hseq => absurd hseq (Option.not_mem_none seq)
  · exact fun _ => Or.inr rfl
  · exact fun _ => Or.inr rfl
  · exact Or.inr ⟨by decide, by decide⟩

/-- An element of one sub-frame in two packets, and one of two sub-frames with a last packet
that is shorter than the payloads: the first is not composed, the second is copied behind
the output buffer. -/
theorem one_late_packet :
    (Packets [[7, 8]] (packetCalls [[2, 7], [8]]) ∧
      ¬Composes (packetCalls [[2, 7], [8]]) [7, 8] (newParser ⟨false, 0, false⟩)) ∧
    (Packets [[7, 8], [9]] (packetCalls [[2, 7, 8, 1], [9]]) ∧
      ¬Composes (packetCalls [[2, 7, 8, 1], [9]]) [7, 8, 9] (newParser ⟨false, 1, false⟩)) := by
  have hsingle : Packets [[7, 8]] (packetCalls [[2, 7], [8]]) :=
    ⟨List.cons_ne_nil _ _, by decide, by decide, by decide, by decide⟩
  have hseveral : Packets [[7, 8], [9]] (packetCalls [[2, 7, 8, 1], [9]]) :=
    ⟨List.cons_ne_nil _ _, by decide, by decide, by decide, by decide⟩
  refine ⟨⟨hsingle, ?_⟩, hseveral, ?_⟩
  · rw [composes_single (ready_newParser rfl rfl) rfl hsingle]
    exact fun h => absurd h.2 (by decide)
  · have hready : Ready (newParser ⟨false, 1, false⟩) := ready_newParser rfl rfl
    intro h
    have hfits := (composes_collecting (hready.collecting Nat.one_pos) rfl hseveral.some_packet (by decide)
      hseveral.octets hseveral.marker).mp h
    exact absurd hfits.2 (by decide)

end Ftke.LatmParser
