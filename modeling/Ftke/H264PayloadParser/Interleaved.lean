import Ftke.H264PayloadParser.Aggregation
import Ftke.H264PayloadParser.Counter
import Ftke.H264PayloadParser.Fragmentation

/-!
# Ftke.H264PayloadParser.Interleaved

Streams of the interleaved mode: what the calls of `Parse` with their packets, and those of
the flush at the end, push to `vParsedPayloads`.

`parseRTPPayload_For_InterleavedMode` pushes each output as it is made, and it is the packet
that it queues; the packets that are dequeued are pushed too.
-/

namespace Ftke.H264PayloadParser

open PayloadParser

/-! ## Streams -/

/-- The packets of the interleaved mode. -/
inductive Group where
  /-- a STAP-B -/
  | stapB (nri : UInt8) (don : UInt16) (nals : List NalUnit) (ne : nals ≠ [])
  /-- a MTAP16 or MTAP24 -/
  | mtap (nri : UInt8) (is24 : Bool) (donBase : UInt16) (units : List TimedUnit) (ne : units ≠ [])
      (full : ∀ u ∈ units, u.octets ≠ [])
  /-- a FU-B and FU-As of one NAL unit -/
  | fu (header : UInt8) (don : UInt16) (first : List UInt8) (inner : List (List UInt8)) (last : List UInt8)

namespace Group

/-- The octets of the packets. -/
def packets : Group → List (List UInt8)
  | .stapB nri don nals _ =>
    [indicator nri H264_RTP_PAYLOAD_STAP_B :: (word don.toNat ++ nals.flatMap NalUnit.entry)]
  | .mtap nri is24 donBase units _ _ =>
    [indicator nri (mtapType is24) :: (word donBase.toNat ++ units.flatMap (TimedUnit.entry is24))]
  | .fu header don first inner last => unitPackets header (some don) first inner last

/-- The NAL units, with their decoding order numbers. -/
def units : Group → List (UInt16 × List UInt8)
  | .stapB _ don nals _ => nals.zipIdx.map fun e => (don + UInt16.ofNat e.2, e.1.octets)
  | .mtap _ _ donBase units _ _ => units.map fun u => (donBase + u.dond.toUInt16, u.octets)
  | .fu header don first inner last => [(don, header :: (first ++ inner.flatten ++ last))]

/-- How many outputs are made of the packets. -/
def outputs : Group → Nat
  | .stapB .. => 1
  | .mtap _ _ _ units _ _ => units.length
  | .fu _ _ _ inner _ => inner.length + 2

end Group

/-- A stream: groups and the packets that hold them. -/
abbrev Stream := List (Group × List Received)

namespace Stream

def received (stream : Stream) : List Received := stream.flatMap Prod.snd

def units (stream : Stream) : List (UInt16 × List UInt8) := stream.flatMap fun e => e.1.units

end Stream

/-- The packet that is given to `Parse`. -/
def Received.packet (r : Received) : Payload := { r.1 with vfragments := [r.2] }

/-- A packet is at another place than the one before it. -/
def Apart : Option Nat → List Received → Prop
  | _, [] => True
  | last, r :: received => last ≠ some r.2.ptr ∧ Apart (some r.2.ptr) received

/-- The decoding order numbers lie in a window. -/
def InWindow (units : List (UInt16 × List UInt8)) : Prop :=
  ∃ base : UInt16, ∀ u ∈ units, (u.1 - base).toNat < 32768

/-! ## Runs -/

/-- The calls with a packet, as long as it is not exhausted. -/
inductive Parses : H264PayloadParser → Payload → H264PayloadParser → List Payload → Prop where
  | done {s p c} : parse s p = some c → c.status ≠ .inputNotExhausted → Parses s p c.parser c.pushed
  | again {s p c t out} : parse s p = some c → c.status = .inputNotExhausted → Parses c.parser c.packet t out →
      Parses s p t (c.pushed ++ out)

/-- The calls with packet after packet. -/
inductive Feeds : H264PayloadParser → List Received → H264PayloadParser → List Payload → Prop where
  | nil {s} : Feeds s [] s []
  | cons {s r received t u out rest} : Parses s r.packet t out → Feeds t received u rest →
      Feeds s (r :: received) u (out ++ rest)

/-- An input without fragments. -/
def noInput : Payload := ⟨0, 0, 0, false, false, false, []⟩

/-- The calls without input, as long as they succeed. -/
inductive Flushes : H264PayloadParser → List Payload → Prop where
  | stop {s c} : parse s noInput = some c → c.status ≠ .success → Flushes s c.pushed
  | again {s c out} : parse s noInput = some c → c.status = .success → Flushes c.parser out →
      Flushes s (c.pushed ++ out)

/-- The NAL units in outputs: the fragments of one whose end it is, put behind what is
waiting for an end. -/
def assemble : List UInt8 → List Payload → List (List UInt8)
  | waiting, [] => if waiting = [] then [] else [waiting]
  | waiting, out :: outs =>
    if out.endOfNAL then
      (if waiting = [] then out.vfragments.map RefMemFrag.bytes else [waiting ++ out.octets]) ++ assemble [] outs
    else assemble (waiting ++ out.octets) outs

/-- These are the NAL units, each once, in the order of their decoding order numbers. -/
def InOrder (nals : List (List UInt8)) (units : List (UInt16 × List UInt8)) : Prop :=
  ∃ l : List (UInt16 × List UInt8), l.Perm units ∧ l.Pairwise (fun a b => (b.1 - a.1).toNat < 32768) ∧
    nals = l.map Prod.snd

/-- The calls end, and what they push are the NAL units of the stream in order. -/
def Delivers (d : UInt32) (stream : Stream) : Prop :=
  ∃ t out flushed, Feeds (init d) stream.received t out ∧ Flushes t flushed ∧
    InOrder (assemble [] (out ++ flushed)) stream.units

/-! ## Octets -/

/-- How many octets are pushed. -/
def weight (out : List Payload) : Nat := (out.flatMap Payload.octets).length

@[simp] theorem weight_nil : weight [] = 0 := rfl

@[simp] theorem weight_append (out rest : List Payload) : weight (out ++ rest) = weight out + weight rest := by
  rw [weight, List.flatMap_append, List.length_append]
  rfl

theorem weight_cons (p : Payload) (out : List Payload) : weight (p :: out) = p.octets.length + weight out := by
  rw [weight, List.flatMap_cons, List.length_append]
  rfl

theorem flatten_assemble (waiting : List UInt8) (out : List Payload) :
    (assemble waiting out).flatten = waiting ++ out.flatMap Payload.octets := by
  induction out generalizing waiting with
  | nil =>
    rw [assemble, List.flatMap_nil, List.append_nil]
    by_cases hnil : waiting = []
    · rw [if_pos hnil, hnil]
      rfl
    · rw [if_neg hnil, List.flatten_singleton]
  | cons p out ih =>
    rw [assemble, List.flatMap_cons]
    by_cases hend : p.endOfNAL = true
    · rw [if_pos hend, List.flatten_append, ih, List.nil_append, ← List.append_assoc]
      by_cases hnil : waiting = []
      · rw [if_pos hnil, hnil, List.nil_append, ← List.flatMap_def]
        rfl
      · rw [if_neg hnil, List.flatten_singleton]
    · rw [if_neg hend, ih, List.append_assoc]

/-- The octets of the NAL units. -/
def size (units : List (UInt16 × List UInt8)) : Nat := (units.map Prod.snd).flatten.length

theorem size_append (units rest : List (UInt16 × List UInt8)) : size (units ++ rest) = size units + size rest := by
  rw [size, List.map_append, List.flatten_append, List.length_append]
  rfl

theorem InOrder.weight {out : List Payload} {units : List (UInt16 × List UInt8)}
    (h : InOrder (assemble [] out) units) : weight out = size units := by
  obtain ⟨l, hperm, -, hout⟩ := h
  have hflat := flatten_assemble [] out
  rw [hout, List.nil_append] at hflat
  rw [H264PayloadParser.weight, ← hflat, size]
  exact (hperm.map Prod.snd).flatten.length_eq

/-! ## One output -/

variable {s t : H264PayloadParser} {frag : RefMemFrag} {nal_type : UInt8} {offset : Nat} {p : Payload}

/-- What is left as it is by the making of an output. -/
structure Keeps (s t : H264PayloadParser) : Prop where
  depth : t.iInterleaveDepth = s.iInterleaveDepth
  queue : t.iIMP.iOutputMediaDataQueue = s.iIMP.iOutputMediaDataQueue
  counter : t.iIMP.iNALUnitsCounter = s.iIMP.iNALUnitsCounter
  prev : t.iIMP.iPrevNALType = s.iIMP.iPrevNALType
  ptr : t.iIMP.iRtpPayloadPtr = s.iIMP.iRtpPayloadPtr

theorem Keeps.refl (s : H264PayloadParser) : Keeps s s := ⟨rfl, rfl, rfl, rfl, rfl⟩

variable {u : H264PayloadParser}

theorem Keeps.trans (h : Keeps s t) (h' : Keeps t u) : Keeps s u :=
  ⟨h'.depth.trans h.depth, h'.queue.trans h.queue, h'.counter.trans h.counter, h'.prev.trans h.prev,
    h'.ptr.trans h.ptr⟩

/-- The packet is at the same place, as long as it was and of the same type. -/
structure SamePacket (frag frag' : RefMemFrag) : Prop where
  ptr : frag'.ptr = frag.ptr
  len : frag'.len = frag.len
  type : frag'.octet 0 = frag.octet 0

theorem SamePacket.refl (frag : RefMemFrag) : SamePacket frag frag := ⟨rfl, rfl, rfl⟩

theorem keeps_setMarkerInfo (s : H264PayloadParser) (u : Utility) (frag : RefMemFrag) (nal_type : UInt8) :
    Keeps s (setMarkerInfo s u frag nal_type).2 := by
  cases u <;> exact ⟨rfl, rfl, rfl, rfl, rfl⟩

theorem keeps_setMediaDataTimestamp (s : H264PayloadParser) (u : Utility) (rtp_timestamp : UInt32) :
    Keeps s (setMediaDataTimestamp s u rtp_timestamp).2 := by
  cases u with
  | fu =>
    simp only [setMediaDataTimestamp]
    split <;> split <;> exact ⟨rfl, rfl, rfl, rfl, rfl⟩
  | stap => exact ⟨rfl, rfl, rfl, rfl, rfl⟩
  | mtap => exact ⟨rfl, rfl, rfl, rfl, rfl⟩
  | nalu => exact ⟨rfl, rfl, rfl, rfl, rfl⟩

theorem keeps_generateStap : Keeps s (generateStap s frag nal_type offset).parser ∧
    (generateStap s frag nal_type offset).frag = frag := by
  simp only [generateStap]
  by_cases hb : nal_type = H264_RTP_PAYLOAD_STAP_B
  · simp only [if_pos hb]
    split <;> exact ⟨⟨rfl, rfl, rfl, rfl, rfl⟩, rfl⟩
  · simp only [if_neg hb]
    split <;> exact ⟨Keeps.refl s, rfl⟩

theorem keeps_generateMtap : Keeps s (generateMtap s frag nal_type offset).parser ∧
    (generateMtap s frag nal_type offset).frag = frag := by
  simp only [generateMtap]
  split
  · exact ⟨Keeps.refl s, rfl⟩
  · split
    · exact ⟨Keeps.refl s, rfl⟩
    · exact ⟨⟨rfl, rfl, rfl, rfl, rfl⟩, rfl⟩

theorem samePacket_set {i : Nat} (hi : 0 < i) (b : UInt8) :
    SamePacket frag { frag with memory := frag.memory.set i b } := by
  refine ⟨rfl, rfl, ?_⟩
  simp only [RefMemFrag.octet, List.getD_eq_getElem?_getD]
  rw [List.getElem?_set_ne (Nat.ne_of_gt hi)]

theorem keeps_generateFu : Keeps s (generateFu s frag nal_type offset).parser ∧
    SamePacket frag (generateFu s frag nal_type offset).frag := by
  simp only [generateFu]
  by_cases hrefused : nal_type = H264_RTP_PAYLOAD_FU_B ∧ frag.octet 1 &&& FU_S_BIT_MASK = 0
  · rw [if_pos hrefused]
    exact ⟨Keeps.refl s, SamePacket.refl frag⟩
  · rw [if_neg hrefused]
    have hsame (fu_type : UInt32) (b : UInt8) : SamePacket frag (if fu_type = 1 then
        { frag with memory := frag.memory.set (fuOffset fu_type nal_type) b } else frag) := by
      split
      · exact samePacket_set (fuOffset_le fu_type nal_type).1 b
      · exact SamePacket.refl frag
    by_cases hb : nal_type = H264_RTP_PAYLOAD_FU_B
    · simp only [if_pos hb]
      exact ⟨⟨rfl, rfl, rfl, rfl, rfl⟩, hsame _ _⟩
    · simp only [if_neg hb]
      exact ⟨Keeps.refl s, hsame _ _⟩

theorem keeps_generateMemFrag (u : Utility) : Keeps s (generateMemFrag s u frag nal_type offset).parser ∧
    SamePacket frag (generateMemFrag s u frag nal_type offset).frag := by
  cases u with
  | stap => exact ⟨keeps_generateStap.1, keeps_generateStap.2 ▸ SamePacket.refl frag⟩
  | mtap => exact ⟨keeps_generateMtap.1, keeps_generateMtap.2 ▸ SamePacket.refl frag⟩
  | fu => exact keeps_generateFu
  | nalu => exact ⟨Keeps.refl s, SamePacket.refl frag⟩

/-- The parser with the packet's place. -/
def placed (s : H264PayloadParser) (frag : RefMemFrag) : H264PayloadParser :=
  { s with iIMP := { s.iIMP with iRtpPayloadPtr := some frag.ptr } }

/-- **The making of an output** leaves the queue and the packet; it pushes one output when it
succeeds, and none otherwise. -/
structure Makes (s : H264PayloadParser) (frag : RefMemFrag) (offset : Nat) (r : Parsed) : Prop where
  packet : SamePacket frag r.frag
  keeps : Keeps (s.placed frag) r.parser ∨ (0 < offset ∧ r.parser = s)
  pushed : r.status = .success → ∃ out, r.pushed = [out]
  nothing : r.status ≠ .success → r.pushed = []

theorem makes_parseSingle (s : H264PayloadParser) (p : Payload) (frag : RefMemFrag) (nal_type : UInt8)
    (offset : Nat) :
    Makes s frag offset (parseSingle s p frag nal_type offset) := by
  rw [parseSingle]
  by_cases hsetup : offset > 0 ∧ offset + 5 ≥ frag.len.toNat
  · rw [if_pos hsetup]
    exact ⟨SamePacket.refl frag, .inr ⟨hsetup.1, rfl⟩, fun h => PayloadParserStatus.noConfusion h, fun _ => rfl⟩
  · rw [if_neg hsetup]
    have hmarker := keeps_setMarkerInfo (s.placed frag) (utilityOf nal_type) frag nal_type
    obtain ⟨hkeeps, hsame⟩ := @keeps_generateMemFrag
      (setMarkerInfo (s.placed frag) (utilityOf nal_type) frag nal_type).2 frag nal_type offset (utilityOf nal_type)
    have hboth := hmarker.trans hkeeps
    simp only
    split
    · next hstatus => exact ⟨hsame, .inl hboth, fun h => absurd h hstatus, fun _ => rfl⟩
    · exact ⟨hsame, .inl (hboth.trans (keeps_setMediaDataTimestamp _ _ _)), fun _ => ⟨_, rfl⟩, fun h => absurd rfl h⟩

/-! ## The loop over a packet -/

/-- The payloads that wait have octets. -/
def Full (queue : List OutputMediaData) : Prop := ∀ e ∈ queue, 0 < e.data.octets.length

theorem Full.append {queue rest : List OutputMediaData} (h : Full queue) (h' : Full rest) : Full (queue ++ rest) :=
  fun e he => (List.mem_append.mp he).elim (h e) (h' e)

/-- The queue of the parser. -/
def waiting (s : H264PayloadParser) : List OutputMediaData := s.iIMP.iOutputMediaDataQueue

/-- **The loop** queues as many packets as it pushes outputs. -/
structure Generates (s : H264PayloadParser) (frag : RefMemFrag) (r : Parsed) : Prop where
  packet : SamePacket frag r.frag
  depth : r.parser.iInterleaveDepth = s.iInterleaveDepth
  ptr : r.parser.iIMP.iRtpPayloadPtr = some frag.ptr
  queue : ∃ new, new.length = r.pushed.length ∧ Full new ∧ r.parser.waiting.Perm (s.waiting ++ new)

theorem queue_ptr (q : InterleaveModeProcessing) (p : Payload) (nal_type : UInt8) (mask : UInt32) :
    (q.queue p nal_type mask).iRtpPayloadPtr = q.iRtpPayloadPtr := by
  simp only [InterleaveModeProcessing.queue, InterleaveModeProcessing.updateWhenQueuingData]
  split <;> split <;> rfl

theorem full_entryOf (q : InterleaveModeProcessing) (p : Payload) (mask : UInt32) (h : 0 < frag.len.toNat) :
    Full [q.entryOf (p.withFrag frag) mask] := by
  intro e he
  rw [List.mem_singleton.mp he, InterleaveModeProcessing.entryOf]
  simp only [Payload.withFrag, Payload.octets, List.flatMap_cons, List.length_append, RefMemFrag.length_bytes]
  omega

theorem generates_generate (p : Payload) (nal_type : UInt8) : ∀ (fuel : Nat) (s : H264PayloadParser)
    (frag : RefMemFrag) (offset : Nat), 0 < frag.len.toNat →
    (offset = 0 ∧ 0 < fuel) ∨ s.iIMP.iRtpPayloadPtr = some frag.ptr →
    Generates s frag (generate p nal_type fuel s frag offset) := by
  intro fuel
  induction fuel with
  | zero =>
    intro s frag offset _ hptr
    have hptr := hptr.resolve_left fun h => Nat.lt_irrefl 0 h.2
    exact ⟨SamePacket.refl frag, rfl, hptr, [], rfl, fun _ h => absurd h List.not_mem_nil, by simp [generate]⟩
  | succ fuel ih =>
    intro s frag offset hlen hptr
    have hmakes := makes_parseSingle s p frag nal_type offset
    rw [generate]
    generalize parseSingle s p frag nal_type offset = r at hmakes
    have hkept : r.parser.iInterleaveDepth = s.iInterleaveDepth ∧
        r.parser.iIMP.iRtpPayloadPtr = some frag.ptr ∧ r.parser.waiting = s.waiting := by
      rcases hmakes.keeps with hkeeps | ⟨hpos, heq⟩
      · exact ⟨hkeeps.depth, hkeeps.ptr, hkeeps.queue⟩
      · rw [heq]
        exact ⟨rfl, hptr.resolve_left fun h => Nat.ne_of_gt hpos h.1, rfl⟩
    obtain ⟨hdepth, hplace, hqueue⟩ := hkept
    have hstay (hstatus : r.status ≠ .success) : Generates s frag r := by
      refine ⟨hmakes.packet, hdepth, hplace, [], ?_, fun _ h => absurd h List.not_mem_nil, ?_⟩
      · rw [hmakes.nothing hstatus]
        rfl
      · rw [hqueue, List.append_nil]
    simp only
    by_cases hready : r.status = .dataNotReady
    · rw [if_pos hready]
      have hstay := hstay (hready ▸ PayloadParserStatus.noConfusion)
      exact ⟨hstay.packet, hstay.depth, hstay.ptr, hstay.queue⟩
    · rw [if_neg hready]
      by_cases hstatus : r.status = .success
      · rw [if_neg (not_not.mpr hstatus)]
        obtain ⟨out, hout⟩ := hmakes.pushed hstatus
        have hperm := InterleaveModeProcessing.queue_perm (p := r.parser.iIMP) (p.withFrag r.frag) nal_type
          r.parser.iIsFragmentedBitMask
        have hlen' : 0 < r.frag.len.toNat := by
          rw [hmakes.packet.len]
          exact hlen
        have hnew := full_entryOf r.parser.iIMP p r.parser.iIsFragmentedBitMask hlen'
        generalize r.parser.iIMP.entryOf (p.withFrag r.frag) r.parser.iIsFragmentedBitMask = e at hperm hnew
        have hpushed : ({ r.parser with
            iIMP := r.parser.iIMP.queue (p.withFrag r.frag) nal_type r.parser.iIsFragmentedBitMask } :
            H264PayloadParser).waiting.Perm (s.waiting ++ [e]) := by
          rw [← hqueue]
          exact hperm
        by_cases hmtap : isMTAPType nal_type = true
        · rw [if_pos hmtap]
          have hrest := ih { r.parser with
            iIMP := r.parser.iIMP.queue (p.withFrag r.frag) nal_type r.parser.iIsFragmentedBitMask } r.frag
            r.offset
            hlen' (.inr (by rw [queue_ptr, hmakes.packet.ptr, hplace]))
          obtain ⟨new, hcount, hfull, hafter⟩ := hrest.queue
          refine ⟨⟨hrest.packet.ptr.trans hmakes.packet.ptr, hrest.packet.len.trans hmakes.packet.len,
            hrest.packet.type.trans hmakes.packet.type⟩, hrest.depth.trans hdepth, ?_, e :: new, ?_, ?_, ?_⟩
          · rw [hrest.ptr, hmakes.packet.ptr]
          · rw [hout, List.length_cons, hcount, List.length_append, List.length_singleton, Nat.add_comm]
          · exact hnew.append hfull
          · refine hafter.trans ?_
            have happend := hpushed.append_right new
            rwa [List.append_assoc, List.singleton_append] at happend
        · rw [if_neg hmtap]
          exact ⟨hmakes.packet, hdepth, (queue_ptr _ _ _ _).trans hplace, [e], by rw [hout]; rfl, hnew, hpushed⟩
      · rw [if_pos hstatus]
        exact hstay hstatus

theorem generate_single (hmtap : isMTAPType nal_type = false) (hlen : 0 < frag.len.toNat)
    {out : Payload} {frag' : RefMemFrag} {o : Nat}
    (h : parseSingle s p frag nal_type 0 = ⟨.success, t, frag', [out], o⟩) :
    generate p nal_type frag.len.toNat s frag 0 =
      ⟨.success, { t with iIMP := t.iIMP.queue (p.withFrag frag') nal_type t.iIsFragmentedBitMask },
        frag', [out], o⟩ := by
  obtain ⟨fuel, hfuel⟩ : ∃ fuel, frag.len.toNat = fuel + 1 := ⟨frag.len.toNat - 1, by omega⟩
  rw [hfuel, generate, h]
  simp only [reduceCtorEq, if_false, ne_eq, not_true_eq_false, hmtap, Bool.false_eq_true]

/-! ## Calls -/

/-- What a call makes of a packet, before it looks at the queue. -/
def generated (s : H264PayloadParser) (p : Payload) (frag : RefMemFrag) : Parsed :=
  if isCurrRTPPacketIgnored s frag (nalType frag) then ⟨.success, s, frag, [], 0⟩
  else generate p (nalType frag) frag.len.toNat s frag 0

/-- **The account of the outputs**: what is not pushed waits. -/
structure Accounts (g : Parsed) (t : H264PayloadParser) (out : List Payload) : Prop where
  depth : t.iInterleaveDepth = g.parser.iInterleaveDepth
  prev : t.iIMP.iPrevNALType = g.parser.iIMP.iPrevNALType
  ptr : t.iIMP.iRtpPayloadPtr = g.parser.iIMP.iRtpPayloadPtr
  full : Full g.parser.waiting → Full t.waiting
  weight : Full g.parser.waiting → weight g.pushed + g.parser.waiting.length ≤ weight out + t.waiting.length

theorem updateWhenDequeuingData_prev (q : InterleaveModeProcessing) (fuType : UInt32) :
    (q.updateWhenDequeuingData fuType).iPrevNALType = q.iPrevNALType ∧
      (q.updateWhenDequeuingData fuType).iRtpPayloadPtr = q.iRtpPayloadPtr := by
  simp only [InterleaveModeProcessing.updateWhenDequeuingData]
  split
  · split <;> exact ⟨rfl, rfl⟩
  · split <;> exact ⟨rfl, rfl⟩

theorem dequeue_perm {q : InterleaveModeProcessing} {d : Payload × InterleaveModeProcessing}
    (h : q.dequeue = some d) : ∃ top : OutputMediaData, d.1 = top.data ∧
      q.iOutputMediaDataQueue.Perm (top :: d.2.iOutputMediaDataQueue) ∧
      d.2.iPrevNALType = q.iPrevNALType ∧ d.2.iRtpPayloadPtr = q.iRtpPayloadPtr := by
  obtain ⟨top, htop, hdata, hd⟩ := InterleaveModeProcessing.dequeue_eq_some h
  refine ⟨top, hdata, ?_, ?_⟩
  · rw [hd, InterleaveModeProcessing.updateWhenDequeuingData_queue, InterleaveModeProcessing.popped]
    exact PriQueue.pop_perm compareLess htop
  · rw [hd]
    exact updateWhenDequeuingData_prev _ _

theorem accounts_dequeue {g : Parsed} {d : Payload × InterleaveModeProcessing} (h : g.parser.iIMP.dequeue = some d) :
    Accounts g { g.parser with iIMP := d.2 } (g.pushed ++ [d.1]) := by
  obtain ⟨top, hdata, hperm, hprev, hptr⟩ := dequeue_perm h
  refine ⟨rfl, hprev, hptr, fun hfull e he => hfull e (hperm.mem_iff.mpr (List.mem_cons_of_mem _ he)),
    fun hfull => ?_⟩
  have htop := hfull top (hperm.mem_iff.mpr List.mem_cons_self)
  have hlen := hperm.length_eq
  rw [List.length_cons] at hlen
  rw [weight_append, weight_cons, weight_nil, hdata]
  simp only [waiting] at hlen ⊢
  omega

theorem Accounts.refl (g : Parsed) : Accounts g g.parser g.pushed :=
  ⟨rfl, rfl, rfl, id, fun _ => Nat.le_refl _⟩

/-- The packets of the interleaved mode. -/
def Required (nal_type : UInt8) : Prop :=
  nal_type = H264_RTP_PAYLOAD_STAP_B ∨ nal_type = H264_RTP_PAYLOAD_MTAP16 ∨ nal_type = H264_RTP_PAYLOAD_MTAP24 ∨
    nal_type = H264_RTP_PAYLOAD_FU_B ∨ nal_type = H264_RTP_PAYLOAD_FU_A

theorem parse_eq (hdepth : s.iInterleaveDepth ≠ 0) (hp : p.vfragments = [frag])
    (hrequired : Required (nalType frag)) :
    parse s p = (parseInterleaved s p frag (nalType frag)).map fun r =>
      ⟨r.status, r.parser, p.withFrag r.frag, r.pushed⟩ := by
  have hmode : s.isInterleaveMode = true := by simpa [isInterleaveMode] using hdepth
  have htype : s.isRequiredType (nalType frag) = true := by
    rw [isRequiredType, hmode]
    rcases hrequired with h | h | h | h | h <;> rw [h] <;> rfl
  rw [nalType] at htype
  simp only [parse, hp, nalType, htype, if_true]

/-- **A call** pushes what it makes of its packet, and maybe one of those that wait. -/
theorem accounts_parse (hdepth : s.iInterleaveDepth ≠ 0) (hp : p.vfragments = [frag])
    (hrequired : Required (nalType frag)) {c : Call} (h : parse s p = some c) :
    Accounts (generated s p frag) c.parser c.pushed ∧ c.packet = p.withFrag (generated s p frag).frag ∧
      ((generated s p frag).status = .success → s.iInterleaveDepth + 1 = 0 → c.status = .inputNotExhausted) := by
  rw [parse_eq hdepth hp hrequired, parseInterleaved, if_neg hdepth] at h
  rw [generated]
  generalize (if isCurrRTPPacketIgnored s frag (nalType frag) = true then ⟨.success, s, frag, [], 0⟩
    else generate p (nalType frag) frag.len.toNat s frag 0 : Parsed) = g at h ⊢
  simp only at h
  by_cases hstatus : g.status = .success
  · rw [if_neg (not_not.mpr hstatus)] at h
    by_cases hcounter : g.parser.iIMP.iNALUnitsCounter < s.iInterleaveDepth + 1
    · rw [if_pos hcounter, Option.map_some] at h
      obtain rfl := Option.some.inj h
      refine ⟨Accounts.refl g, rfl, fun _ hzero => ?_⟩
      rw [hzero] at hcounter
      exact absurd hcounter UInt32.not_lt_zero
    · rw [if_neg hcounter, Option.map_map] at h
      obtain ⟨d, hd, rfl⟩ := Option.map_eq_some_iff.mp h
      refine ⟨accounts_dequeue hd, rfl, fun _ hzero => ?_⟩
      simp only [Function.comp_apply]
      rw [hzero]
      exact if_pos UInt32.zero_le
  · rw [if_pos hstatus, Option.map_some] at h
    obtain rfl := Option.some.inj h
    exact ⟨Accounts.refl g, rfl, fun hok => absurd hok hstatus⟩

theorem generated_of_ptr (h : s.iIMP.iRtpPayloadPtr = some frag.ptr) :
    generated s p frag = ⟨.success, s, frag, [], 0⟩ := by
  rw [generated, if_pos]
  rw [isCurrRTPPacketIgnored, h]
  simp

/-- A call with a packet that is of the interleaved mode. -/
structure Turn (s : H264PayloadParser) (p : Payload) (frag : RefMemFrag) : Prop where
  fragments : p.vfragments = [frag]
  depth : s.iInterleaveDepth ≠ 0
  required : Required (nalType frag)
  packet : SamePacket frag (generated s p frag).frag
  kept : (generated s p frag).parser.iInterleaveDepth = s.iInterleaveDepth
  ptr : (generated s p frag).parser.iIMP.iRtpPayloadPtr = some frag.ptr

theorem Turn.again (h : Turn s p frag) {c : Call} (hparse : parse s p = some c) :
    generated c.parser c.packet (generated s p frag).frag = ⟨.success, c.parser, (generated s p frag).frag, [], 0⟩ ∧
      c.parser.iInterleaveDepth = s.iInterleaveDepth ∧ Turn c.parser c.packet (generated s p frag).frag := by
  obtain ⟨hcall, hpacket, -⟩ := accounts_parse h.depth h.fragments h.required hparse
  have hplace : c.parser.iIMP.iRtpPayloadPtr = some (generated s p frag).frag.ptr := by
    rw [hcall.ptr, h.ptr, h.packet.ptr]
  have hignored : generated c.parser c.packet (generated s p frag).frag =
      ⟨.success, c.parser, (generated s p frag).frag, [], 0⟩ := generated_of_ptr hplace
  have hdepth : c.parser.iInterleaveDepth = s.iInterleaveDepth := hcall.depth.trans h.kept
  refine ⟨hignored, hdepth, ?_, ?_, ?_, ?_, ?_, ?_⟩
  · rw [hpacket, Payload.withFrag, h.fragments, List.tail_cons]
  · rw [hdepth]
    exact h.depth
  · rw [nalType, h.packet.type]
    exact h.required
  · rw [hignored]
    exact SamePacket.refl _
  · rw [hignored]
  · rw [hignored]
    exact hplace

/-- **The calls with a packet**: behind the first one it is ignored. -/
theorem accounts_parses {out : List Payload} (h : Parses s p t out) :
    ∀ {frag : RefMemFrag}, Turn s p frag → Accounts (generated s p frag) t out := by
  induction h with
  | done hparse hstatus => exact fun hturn => (accounts_parse hturn.depth hturn.fragments hturn.required hparse).1
  | @again s p c t out hparse hstatus hmore ih =>
    intro frag hturn
    obtain ⟨hcall, -, -⟩ := accounts_parse hturn.depth hturn.fragments hturn.required hparse
    obtain ⟨hignored, -, hnext⟩ := hturn.again hparse
    have hrest := ih hnext
    rw [hignored] at hrest
    refine ⟨hrest.depth.trans hcall.depth, hrest.prev.trans hcall.prev, hrest.ptr.trans hcall.ptr,
      fun hfull => hrest.full (hcall.full hfull), fun hfull => ?_⟩
    have hfirst := hcall.weight hfull
    have hlater := hrest.weight (hcall.full hfull)
    simp only [weight_nil, Nat.zero_add] at hlater
    rw [weight_append]
    omega

theorem parses_ends {out : List Payload} (h : Parses s p t out) : ∀ {frag : RefMemFrag}, Turn s p frag →
    (generated s p frag).status = .success → s.iInterleaveDepth + 1 ≠ 0 := by
  induction h with
  | done hparse hstatus =>
    intro frag hturn hok hzero
    exact hstatus ((accounts_parse hturn.depth hturn.fragments hturn.required hparse).2.2 hok hzero)
  | @again s p c t out hparse hstatus hmore ih =>
    intro frag hturn _
    obtain ⟨hignored, hdepth, hnext⟩ := hturn.again hparse
    rw [← hdepth]
    exact ih hnext (by rw [hignored])

/-! ## The flush -/

/-- **The flush** pushes all that wait but the last. -/
theorem flushes_weight {out : List Payload} (h : Flushes s out) : s.iInterleaveDepth ≠ 0 → Full s.waiting →
    s.waiting.length ≤ weight out + 1 := by
  have hparse (s : H264PayloadParser) (hdepth : s.iInterleaveDepth ≠ 0) (c : Call) (hc : parse s noInput = some c) :
      (s.waiting = [] ∧ c.status ≠ .success) ∨ ∃ d, s.iIMP.dequeue = some d ∧
        (d.2.iOutputMediaDataQueue = [] ∧ c.status ≠ .success ∧ c.pushed = [] ∨
          c.status = .success ∧ c.pushed = [d.1] ∧ c.parser = { s with iIMP := d.2 }) := by
    have hmode : s.isInterleaveMode ≠ false := by simpa [isInterleaveMode] using hdepth
    by_cases hnil : s.iIMP.iOutputMediaDataQueue = []
    · refine .inl ⟨hnil, ?_⟩
      simp only [parse, noInput, hnil, or_true, if_true] at hc
      rw [← Option.some.inj hc]
      exact PayloadParserStatus.noConfusion
    · refine .inr ?_
      simp only [parse, noInput, hmode, hnil, parseFlush] at hc
      obtain ⟨d, hd, rfl⟩ := Option.map_eq_some_iff.mp hc
      refine ⟨d, hd, ?_⟩
      by_cases hlast : d.2.iOutputMediaDataQueue = []
      · rw [if_pos hlast]
        exact .inl ⟨hlast, PayloadParserStatus.noConfusion, rfl⟩
      · rw [if_neg hlast]
        exact .inr ⟨rfl, rfl, rfl⟩
  induction h with
  | @stop s c hc hstatus =>
    intro hdepth _
    rcases hparse s hdepth c hc with ⟨hnil, -⟩ | ⟨d, hd, ⟨hlast, -⟩ | ⟨hok, -⟩⟩
    · rw [hnil]
      exact Nat.zero_le _
    · obtain ⟨top, -, hperm, -⟩ := dequeue_perm hd
      have hlen := hperm.length_eq
      rw [hlast, List.length_singleton] at hlen
      rw [waiting, hlen]
      exact Nat.le_add_left 1 _
    · exact absurd hok hstatus
  | @again s c out hc hstatus hmore ih =>
    intro hdepth hfull
    rcases hparse s hdepth c hc with ⟨-, hno⟩ | ⟨d, hd, ⟨-, hno, -⟩ | ⟨-, hpushed, hparser⟩⟩
    · exact absurd hstatus hno
    · exact absurd hstatus hno
    · obtain ⟨top, hdata, hperm, -⟩ := dequeue_perm hd
      have hlen := hperm.length_eq
      rw [List.length_cons] at hlen
      have htop := hfull top (hperm.mem_iff.mpr List.mem_cons_self)
      have hrest : Full c.parser.waiting := by
        rw [hparser]
        exact fun e he => hfull e (hperm.mem_iff.mpr (List.mem_cons_of_mem _ he))
      have ih := ih (by rw [hparser]; exact hdepth) hrest
      rw [hparser] at ih
      rw [hpushed, weight_append, weight_cons, weight_nil, hdata]
      simp only [waiting] at hlen ih ⊢
      omega

/-! ## Packets -/

/-- A FU-A is not ignored: it follows a FU-B. -/
def Follows (s : H264PayloadParser) : Prop := (s.iIMP.iPrevNALType >>> 2) &&& 0x01 ≠ 0

/-- The parser that packets are fed to. -/
structure Ready (s : H264PayloadParser) (received : List Received) : Prop where
  depth : s.iInterleaveDepth ≠ 0
  full : Full s.waiting
  apart : Apart s.iIMP.iRtpPayloadPtr received

/-- What is fed has been pushed or waits. -/
structure Fed (s t : H264PayloadParser) (more : List Received) (out : List Payload) (made count : Nat) : Prop where
  depth : t.iInterleaveDepth = s.iInterleaveDepth
  ready : Ready t more
  weight : made + s.waiting.length + count ≤ weight out + t.waiting.length

theorem Fed.trans {more rest : List Received} {out outs : List Payload} {m n j k : Nat}
    (h : Fed s t more out m n) (h' : Fed t u rest outs j k) : Fed s u rest (out ++ outs) (m + j) (n + k) := by
  refine ⟨h'.depth.trans h.depth, h'.ready, ?_⟩
  have hfirst := h.weight
  have hlater := h'.weight
  rw [weight_append]
  omega

/-- The outputs of a packet that is not ignored. -/
def fresh (s : H264PayloadParser) (r : Received) : Parsed :=
  generate r.packet (nalType r.2) r.2.len.toNat s r.2 0

/-- **The calls with one packet.** -/
theorem fed_packet {r : Received} {more : List Received} {out : List Payload} (h : Parses s r.packet t out)
    (hready : Ready s (r :: more)) (hlen : 0 < r.2.len.toNat) (hrequired : Required (nalType r.2))
    (hfollows : nalType r.2 = H264_RTP_PAYLOAD_FU_A → Follows s) :
    Fed s t more out (weight (fresh s r).pushed) (fresh s r).pushed.length ∧
      t.iIMP.iPrevNALType = (fresh s r).parser.iIMP.iPrevNALType ∧
      ((fresh s r).status = .success → s.iInterleaveDepth + 1 ≠ 0) := by
  have hignored : ¬isCurrRTPPacketIgnored s r.2 (nalType r.2) = true := by
    rw [isCurrRTPPacketIgnored, decide_eq_true_eq]
    rintro (⟨htype, hprev⟩ | hptr)
    · exact hfollows htype hprev
    · exact hready.apart.1 hptr
  have hfresh : generated s r.packet r.2 = fresh s r := by rw [generated, if_neg hignored, fresh]
  have hgen : Generates s r.2 (fresh s r) :=
    generates_generate r.packet (nalType r.2) r.2.len.toNat s r.2 0 hlen (.inl ⟨rfl, hlen⟩)
  have hturn : Turn s r.packet r.2 := by
    refine ⟨rfl, hready.depth, hrequired, ?_, ?_, ?_⟩
    · rw [hfresh]
      exact hgen.packet
    · rw [hfresh]
      exact hgen.depth
    · rw [hfresh]
      exact hgen.ptr
  have haccounts := accounts_parses h hturn
  have hends := parses_ends h hturn
  rw [hfresh] at haccounts hends
  obtain ⟨new, hcount, hnew, hperm⟩ := hgen.queue
  have hfull : Full (fresh s r).parser.waiting := fun e he =>
    (hready.full.append hnew) e (hperm.mem_iff.mp he)
  have hweight := haccounts.weight hfull
  have hlength := hperm.length_eq
  rw [List.length_append, hcount] at hlength
  refine ⟨⟨haccounts.depth.trans hgen.depth, ⟨?_, haccounts.full hfull, ?_⟩, by omega⟩, haccounts.prev, hends⟩
  · rw [haccounts.depth, hgen.depth]
    exact hready.depth
  · rw [haccounts.ptr, hgen.ptr]
    exact hready.apart.2

/-! ## Groups -/

variable {r : Received} {more : List Received} {out : List Payload}

theorem weight_eq (out : List Payload) :
    weight out = ((out.flatMap Payload.vfragments).map RefMemFrag.bytes).flatten.length := by
  rw [weight, ← List.flatMap_def, List.flatMap_assoc]
  rfl

variable {octets : List UInt8}

theorem length_pos_of_holds {b : UInt8} (h : Holds r.2 (b :: octets)) : 0 < r.2.len.toNat := by
  have hlen := congrArg List.length h.1
  rw [RefMemFrag.length_bytes, List.length_cons] at hlen
  omega

theorem nalType_of_holds {nri nal_type : UInt8}
    (h : Holds r.2 (indicator nri nal_type :: octets)) (htype : nal_type &&& NAL_TYPE_BIT_MASK = nal_type) :
    nalType r.2 = nal_type := by
  have hzero : r.2.octet 0 = indicator nri nal_type := RefMemFrag.octet_of_drop h.1
  rw [nalType, hzero, indicator_type htype]

theorem endOfNAL_parseSingle (hu : utilityOf nal_type ≠ .fu) :
    ∀ o ∈ (parseSingle s p frag nal_type offset).pushed, o.endOfNAL = true := by
  have hmarker (s : H264PayloadParser) : (setMarkerInfo s (utilityOf nal_type) frag nal_type).1 = true := by
    cases h : utilityOf nal_type with
    | fu => exact absurd h hu
    | stap => rfl
    | mtap => rfl
    | nalu => rfl
  simp only [parseSingle]
  split
  · exact fun _ h => absurd h List.not_mem_nil
  · split
    · exact fun _ h => absurd h List.not_mem_nil
    · intro o ho
      rw [List.mem_singleton.mp ho]
      exact hmarker _

variable {don donBase : UInt16} {nals : List NalUnit} {nri header : UInt8}

theorem fresh_stapB (hne : nals ≠ [])
    (h : Holds r.2 (indicator nri H264_RTP_PAYLOAD_STAP_B :: (word don.toNat ++ nals.flatMap NalUnit.entry))) :
    ∃ t out, Made s t r.2 0 ∧ out.vfragments.map RefMemFrag.bytes = nals.map NalUnit.octets ∧ out.endOfNAL = true ∧
      fresh s r = ⟨.success, { t with
        iIMP := t.iIMP.queue (r.packet.withFrag r.2) H264_RTP_PAYLOAD_STAP_B t.iIsFragmentedBitMask },
          r.2, [out], 0⟩ := by
  have htype : nalType r.2 = H264_RTP_PAYLOAD_STAP_B := nalType_of_holds h (by decide)
  have hbytes : r.2.bytes.drop 3 = nals.flatMap NalUnit.entry := by
    rw [h.1]
    rfl
  have hnals := bytes_stapFragments hbytes
  have hparse := parseSingle_stap (s := s) r.2 (rfl : utilityOf H264_RTP_PAYLOAD_STAP_B = .stap) r.packet
  have hstart : stapStart H264_RTP_PAYLOAD_STAP_B = 3 := rfl
  rw [hstart] at hparse
  have hsome : stapFragments r.2 r.2.len.toNat 3 ≠ [] := by
    intro hnil
    rw [hnil, List.map_nil] at hnals
    exact hne (List.map_eq_nil_iff.mp hnals.symm)
  rw [if_neg hsome] at hparse
  obtain ⟨t, out, hparse, hout, hmade⟩ := hparse
  have hend : ∀ o ∈ (parseSingle s r.packet r.2 H264_RTP_PAYLOAD_STAP_B 0).pushed, o.endOfNAL = true :=
    endOfNAL_parseSingle (by decide)
  rw [hparse] at hend
  refine ⟨t, out, hmade, by rw [hout, hnals], hend out (List.mem_singleton_self out), ?_⟩
  rw [fresh, htype, generate_single rfl (length_pos_of_holds h) hparse]

variable {is24 : Bool}

theorem fresh_mtap {units : List TimedUnit} (hfull : ∀ u ∈ units, u.octets ≠ [])
    (h : Holds r.2 (indicator nri (mtapType is24) :: (word donBase.toNat ++ units.flatMap (TimedUnit.entry is24)))) :
    ((fresh s r).pushed.flatMap Payload.vfragments).map RefMemFrag.bytes = units.map TimedUnit.octets := by
  have htype : nalType r.2 = mtapType is24 := nalType_of_holds h (by cases is24 <;> decide)
  have hbytes : r.2.bytes.drop 3 = units.flatMap (TimedUnit.entry is24) := by
    rw [h.1]
    rfl
  rw [fresh, htype]
  exact bytes_fragmentsOf_mtap (s := s) r.packet hfull hbytes

theorem length_vfragments_mtap (is24 : Bool) (fuel : Nat) (s : H264PayloadParser) (frag : RefMemFrag)
    (offset : Nat) :
    ∀ out ∈ (generate p (mtapType is24) fuel s frag offset).pushed, out.vfragments.length = 1 := by
  induction fuel generalizing s frag offset with
  | zero => exact fun _ h => absurd h List.not_mem_nil
  | succ fuel ih =>
    by_cases hentry : HasEntry frag offset
    · obtain ⟨t, out, hparse, hfrags, -⟩ := parseSingle_mtap (s := s) is24 hentry p
      intro o ho
      simp only [generate, hparse, reduceCtorEq, if_false, ne_eq, not_true_eq_false, isMTAPType_mtapType, if_true,
        List.singleton_append, List.mem_cons] at ho
      rcases ho with rfl | ho
      · rw [hfrags]
        rfl
      · exact ih _ _ _ o ho
    · rw [generate_mtap_stops hentry]
      exact fun _ h => absurd h List.not_mem_nil

theorem length_flatMap_vfragments (h : ∀ o ∈ out, o.vfragments.length = 1) :
    (out.flatMap Payload.vfragments).length = out.length := by
  induction out with
  | nil => rfl
  | cons o out ih =>
    rw [List.forall_mem_cons] at h
    rw [List.flatMap_cons, List.length_append, h.1, ih h.2, List.length_cons, Nat.add_comm]

/-! ## Fragmentation units -/

theorem shift_and_one (x : UInt32) : (x >>> 2) &&& 0x01 ≠ 0 ↔ x.toNat.testBit 2 = true := by
  have htwo : (2 : UInt32).toNat % 32 = 2 := rfl
  have hone : (1 : UInt32).toNat = 1 := rfl
  rw [ne_eq, ← UInt32.toNat_inj, UInt32.toNat_and, UInt32.toNat_shiftRight, htwo, hone, Nat.testBit, Nat.and_comm]
  simp

theorem queue_prev (q : InterleaveModeProcessing) (p : Payload) (nal_type : UInt8) (mask : UInt32) :
    (q.queue p nal_type mask).iPrevNALType = if nal_type ≠ H264_RTP_PAYLOAD_FU_A then mask &&& 0x07
      else ((q.iPrevNALType >>> 2) <<< 2) ||| (mask &&& 0x03) := by
  simp only [InterleaveModeProcessing.queue, InterleaveModeProcessing.updateWhenQueuingData]
  split <;> split <;> rfl

theorem mask_parseSingle (hu : utilityOf nal_type = .fu) (hok : ¬Refused frag nal_type) :
    (parseSingle s p frag nal_type 0).parser.iIsFragmentedBitMask = fuBitMask s frag nal_type := by
  have hbit : (s.placed frag).fuBitMask frag nal_type = fuBitMask s frag nal_type := rfl
  obtain ⟨t, hgen, -, hmask⟩ := generateFu_eq
    (s := { s.placed frag with iIsFragmentedBitMask := fuBitMask s frag nal_type }) fuBitMask_type hok 0
  have hstamp (t : H264PayloadParser) (rtp_timestamp : UInt32) :
      (setMediaDataTimestamp t .fu rtp_timestamp).2.iIsFragmentedBitMask = t.iIsFragmentedBitMask := by
    simp only [setMediaDataTimestamp]
    split <;> split <;> rfl
  rw [placed] at hgen hbit
  simp only [parseSingle, hu, setMarkerInfo, generateMemFrag, hbit, hgen, gt_iff_lt, Nat.lt_irrefl, false_and,
    if_false, ne_eq, not_true_eq_false, hstamp, hmask]

variable {x d : UInt32}

theorem testBit_or_left (h : x.toNat.testBit 2 = true) (y : UInt32) :
    (x ||| y).toNat.testBit 2 = true := by
  rw [UInt32.toNat_or, Nat.testBit_or, h, Bool.true_or]

theorem testBit_fuBitMask : (fuBitMask s frag H264_RTP_PAYLOAD_FU_B).toNat.testBit 2 = true := by
  have hfour : (fuType frag ||| 4).toNat.testBit 2 = true := by
    rw [UInt32.toNat_or, Nat.testBit_or]
    exact Bool.or_true _
  have hmask := testBit_or_left hfour ((frag.octet 1).toUInt32 <<< 3)
  simp only [fuBitMask, if_true]
  split
  · exact testBit_or_left hmask _
  · exact hmask

theorem testBit_and_seven (h : x.toNat.testBit 2 = true) : (x &&& 0x07).toNat.testBit 2 = true := by
  rw [UInt32.toNat_and, Nat.testBit_and, h]
  rfl

theorem testBit_kept (h : x.toNat.testBit 2 = true) (y : UInt32) :
    (((x >>> 2) <<< 2) ||| y).toNat.testBit 2 = true := by
  have htwo : (2 : UInt32).toNat % 32 = 2 := rfl
  refine testBit_or_left ?_ y
  rw [UInt32.toNat_shiftLeft, UInt32.toNat_shiftRight, htwo, Nat.testBit_mod_two_pow, Nat.testBit_shiftLeft,
    Nat.testBit_shiftRight, h]
  rfl

theorem fresh_start {first : List UInt8} (h : Holds r.2 (startPacket header (some don) first)) :
    nalType r.2 = H264_RTP_PAYLOAD_FU_B ∧ (fresh s r).status = .success ∧ (fresh s r).pushed.length = 1 ∧
      weight (fresh s r).pushed = 1 + first.length ∧ Follows (fresh s r).parser := by
  obtain ⟨hzero, hone⟩ := octet_startPacket h.1
  have htype : nalType r.2 = H264_RTP_PAYLOAD_FU_B := by
    rw [nalType, hzero, indicator_type (startType_mask _).1]
    rfl
  have hlen : 0 < r.2.len.toNat := length_pos_of_holds (r := r) h
  have hok : ¬Refused r.2 H264_RTP_PAYLOAD_FU_B := by
    rw [Refused, hone, fuHeader_bit (by decide)]
    decide
  obtain ⟨t, out, hparse, hoctets, -⟩ := parseSingle_start (s := s) r.packet h
  have hmask := mask_parseSingle (s := s) (p := r.packet) (rfl : utilityOf H264_RTP_PAYLOAD_FU_B = .fu) hok
  rw [htype] at hparse
  rw [hparse] at hmask
  have hgen := generate_single rfl hlen hparse
  rw [fresh, htype, hgen]
  refine ⟨rfl, rfl, rfl, ?_, ?_⟩
  · rw [weight_cons, weight_nil, hoctets, List.length_cons, Nat.add_zero, Nat.add_comm]
  · rw [Follows, shift_and_one, queue_prev, if_pos (by decide)]
    simp only at hmask
    rw [hmask]
    exact testBit_and_seven testBit_fuBitMask

theorem fresh_fuA {header bit : UInt8} (hbit : bit = 0 ∨ bit = FU_E_BIT_MASK)
    (h : Holds r.2 (fuAPacket bit header octets)) (hfollows : Follows s) :
    nalType r.2 = H264_RTP_PAYLOAD_FU_A ∧ (fresh s r).pushed.length = 1 ∧
      weight (fresh s r).pushed = octets.length ∧ Follows (fresh s r).parser := by
  have hzero : r.2.octet 0 = indicator header H264_RTP_PAYLOAD_FU_A := RefMemFrag.octet_of_drop h.1
  have htype : nalType r.2 = H264_RTP_PAYLOAD_FU_A := by rw [nalType, hzero, indicator_type (by decide)]
  have hlen : 0 < r.2.len.toNat := length_pos_of_holds (r := r) h
  obtain ⟨t, out, hparse, hoctets, -⟩ := parseSingle_fuA (s := s) r.packet bit hbit h.1
  have hmakes := makes_parseSingle s r.packet r.2 H264_RTP_PAYLOAD_FU_A 0
  rw [htype] at hparse
  rw [hparse] at hmakes
  have hprev : t.iIMP.iPrevNALType = s.iIMP.iPrevNALType :=
    hmakes.keeps.elim (fun hkeeps => hkeeps.prev) fun hpos => absurd hpos.1 (Nat.lt_irrefl 0)
  have hgen := generate_single rfl hlen hparse
  rw [fresh, htype, hgen]
  refine ⟨rfl, rfl, ?_, ?_⟩
  · rw [weight_cons, weight_nil, hoctets, Nat.add_zero]
  · rw [Follows, shift_and_one] at hfollows ⊢
    rw [queue_prev, if_neg (by decide), hprev]
    exact testBit_kept hfollows _

/-! ## Groups in runs -/

theorem Fed.of_le {m n j k : Nat} (h : Fed s t more out m n) (hm : j ≤ m) (hn : k ≤ n) : Fed s t more out j k := by
  refine ⟨h.depth, h.ready, ?_⟩
  have hweight := h.weight
  omega

theorem Feeds.append {received rest : List Received} (h : Feeds s (received ++ rest) u out) :
    ∃ t o o', Feeds s received t o ∧ Feeds t rest u o' ∧ out = o ++ o' := by
  induction received generalizing s out with
  | nil => exact ⟨s, [], out, .nil, h, rfl⟩
  | cons r received ih =>
    rw [List.cons_append] at h
    cases h with
    | cons hparse hrest =>
      obtain ⟨t, o, o', ho, ho', rfl⟩ := ih hrest
      exact ⟨t, _, o', .cons hparse ho, ho', (List.append_assoc _ _ _).symm⟩

theorem Feeds.singleton (h : Feeds s [r] t out) : Parses s r.packet t out := by
  cases h with
  | cons hparse hrest =>
    cases hrest
    rw [List.append_nil]
    exact hparse

theorem fed_rest {inner : List (List UInt8)} {last : List UInt8} {received : List Received}
    (h : Feeds s received t out) (hcarry : Carry received (restPackets header inner last))
    (hready : Ready s (received ++ more)) (hfollows : Follows s) :
    Fed s t more out (inner.flatten ++ last).length (inner.length + 1) := by
  induction inner generalizing s received out with
  | nil =>
    obtain ⟨r, received, hr, hnil, rfl⟩ := List.forall₂_cons_right_iff.mp hcarry
    obtain rfl := List.forall₂_nil_right_iff.mp hnil
    obtain ⟨htype, hcount, hweight, -⟩ := fresh_fuA (.inr rfl) hr hfollows
    have hfed := (fed_packet h.singleton hready (length_pos_of_holds hr) (by simp [Required, htype])
      fun _ => hfollows).1
    rw [hcount, hweight] at hfed
    exact hfed
  | cons octets inner ih =>
    obtain ⟨r, received, hr, hrest, rfl⟩ := List.forall₂_cons_right_iff.mp hcarry
    cases h with
    | cons hparse hlater =>
      obtain ⟨htype, hcount, hweight, hnext⟩ := fresh_fuA (.inl rfl) hr hfollows
      obtain ⟨hfed, hprev, -⟩ := fed_packet hparse hready (length_pos_of_holds hr) (by simp [Required, htype])
        fun _ => hfollows
      rw [hcount, hweight] at hfed
      have hmore := ih hlater hrest hfed.ready (by rw [Follows, hprev]; exact hnext)
      refine (hfed.trans hmore).of_le ?_ ?_
      · rw [List.flatten_cons, List.append_assoc, List.length_append]
      · rw [List.length_cons, Nat.add_comm]

theorem generate_mtap_done {fuel : Nat} (hpos : 0 < offset) (h : ¬HasEntry frag offset) :
    generate p (mtapType is24) fuel s frag offset = ⟨.success, s, frag, [], offset⟩ := by
  cases fuel with
  | zero => rfl
  | succ fuel =>
    rw [generate, (parseSingle_mtap_end (s := s) is24 h p).2.2 (Nat.ne_of_gt hpos)]
    rfl

theorem status_mtap (fuel : Nat) (s : H264PayloadParser) (frag : RefMemFrag) (offset : Nat)
    (hpos : 0 < offset) : (generate p (mtapType is24) fuel s frag offset).status = .success := by
  induction fuel generalizing s offset with
  | zero => rfl
  | succ fuel ih =>
    by_cases hentry : HasEntry frag offset
    · obtain ⟨t, out, hparse, -⟩ := parseSingle_mtap (s := s) is24 hentry p
      simp only [generate, hparse, reduceCtorEq, if_false, ne_eq, not_true_eq_false, isMTAPType_mtapType, if_true]
      exact ih _ _ (Nat.add_pos_left (Nat.add_pos_left (by rw [entryAt]; split <;> omega) _) _)
    · rw [generate_mtap_done hpos hentry]

theorem hasEntry_mtap {units : List TimedUnit} (hne : units ≠ []) (hfull : ∀ u ∈ units, u.octets ≠ [])
    (h : Holds r.2 (indicator nri (mtapType is24) :: (word donBase.toNat ++ units.flatMap (TimedUnit.entry is24)))) :
    HasEntry r.2 0 := by
  obtain ⟨u, us, rfl⟩ := List.exists_cons_of_ne_nil hne
  have hlen := congrArg List.length h.1
  have hcases := headerSize_cases is24
  have hpos : 0 < u.octets.length := List.length_pos_of_ne_nil (hfull u List.mem_cons_self)
  rw [RefMemFrag.length_bytes, List.length_cons, List.length_append, List.flatMap_cons, List.length_append,
    TimedUnit.length_entry, show (word donBase.toNat).length = 2 from rfl] at hlen
  rw [HasEntry, if_pos rfl]
  omega

theorem status_fresh_mtap {units : List TimedUnit} (hne : units ≠ []) (hfull : ∀ u ∈ units, u.octets ≠ [])
    (h : Holds r.2 (indicator nri (mtapType is24) :: (word donBase.toNat ++ units.flatMap (TimedUnit.entry is24)))) :
    (fresh s r).status = .success := by
  have htype : nalType r.2 = mtapType is24 := nalType_of_holds h (by cases is24 <;> decide)
  obtain ⟨fuel, hfuel⟩ : ∃ fuel, r.2.len.toNat = fuel + 1 :=
    ⟨r.2.len.toNat - 1, by have := length_pos_of_holds h; omega⟩
  obtain ⟨t, out, hparse, -⟩ := parseSingle_mtap (s := s) is24 (hasEntry_mtap hne hfull h) r.packet
  rw [fresh, htype, hfuel]
  simp only [generate, hparse, reduceCtorEq, if_false, ne_eq, not_true_eq_false, isMTAPType_mtapType, if_true]
  exact status_mtap _ _ _ _ (Nat.add_pos_left (Nat.add_pos_left (by decide) _) _)

theorem units_stapB (nri : UInt8) (don : UInt16) (nals : List NalUnit) (hne : nals ≠ []) :
    (Group.stapB nri don nals hne).units.map Prod.snd = nals.map NalUnit.octets := by
  rw [Group.units, List.map_map]
  have hfst := congrArg (List.map NalUnit.octets) (List.zipIdx_map_fst 0 nals)
  rw [List.map_map] at hfst
  exact hfst

theorem units_mtap (nri : UInt8) (is24 : Bool) (donBase : UInt16) (units : List TimedUnit) (hne : units ≠ [])
    (hfull : ∀ u ∈ units, u.octets ≠ []) :
    (Group.mtap nri is24 donBase units hne hfull).units.map Prod.snd = units.map TimedUnit.octets := by
  rw [Group.units, List.map_map]
  rfl

/-- **The calls with the packets of a group.** -/
theorem fed_group {g : Group} {received : List Received} (h : Feeds s received t out)
    (hcarry : Carry received g.packets) (hready : Ready s (received ++ more)) :
    Fed s t more out (size g.units) g.outputs ∧ s.iInterleaveDepth + 1 ≠ 0 := by
  cases g with
  | stapB nri don nals hne =>
    obtain ⟨r, received, hr, hnil, rfl⟩ := List.forall₂_cons_right_iff.mp hcarry
    obtain rfl := List.forall₂_nil_right_iff.mp hnil
    have htype : nalType r.2 = H264_RTP_PAYLOAD_STAP_B := nalType_of_holds hr (by decide)
    obtain ⟨hfed, -, hends⟩ := fed_packet h.singleton hready (length_pos_of_holds hr) (by simp [Required, htype])
      fun hfu => absurd (htype.symm.trans hfu) (by decide)
    obtain ⟨u, o, -, hbytes, -, hfresh⟩ := fresh_stapB (s := s) hne hr
    rw [hfresh] at hfed hends
    refine ⟨hfed.of_le (Nat.le_of_eq ?_) (Nat.le_refl _), hends rfl⟩
    rw [weight_eq, List.flatMap_singleton, hbytes, size, units_stapB]
  | mtap nri is24 donBase units hne hfull =>
    obtain ⟨r, received, hr, hnil, rfl⟩ := List.forall₂_cons_right_iff.mp hcarry
    obtain rfl := List.forall₂_nil_right_iff.mp hnil
    have htype : nalType r.2 = mtapType is24 := nalType_of_holds hr (by cases is24 <;> decide)
    have hrequired : Required (nalType r.2) := by
      rw [htype]
      cases is24 <;> simp [Required, mtapType]
    obtain ⟨hfed, -, hends⟩ := fed_packet h.singleton hready (length_pos_of_holds hr) hrequired
      fun hfu => absurd (htype.symm.trans hfu) (by cases is24 <;> decide)
    have hbytes := fresh_mtap (s := s) hfull hr
    have hcount : (fresh s r).pushed.length = units.length := by
      have hlen := congrArg List.length hbytes
      rw [List.length_map, List.length_map, length_flatMap_vfragments] at hlen
      · exact hlen
      · rw [fresh, htype]
        exact length_vfragments_mtap is24 _ _ _ _
    have hweight : weight (fresh s r).pushed = size (Group.mtap nri is24 donBase units hne hfull).units := by
      rw [weight_eq, hbytes, size, units_mtap]
    rw [hcount, hweight] at hfed
    exact ⟨hfed, hends (status_fresh_mtap hne hfull hr)⟩
  | fu header don first inner last =>
    obtain ⟨r, received, hr, hrest, rfl⟩ := List.forall₂_cons_right_iff.mp hcarry
    cases h with
    | cons hparse hlater =>
      obtain ⟨htype, hok, hcount, hweight, hnext⟩ := fresh_start (s := s) hr
      obtain ⟨hfed, hprev, hends⟩ := fed_packet hparse hready (length_pos_of_holds hr)
        (by simp [Required, htype])
        fun hfu => absurd (htype.symm.trans hfu) (by decide)
      rw [hcount, hweight] at hfed
      have hmore := fed_rest hlater hrest hfed.ready (by rw [Follows, hprev]; exact hnext)
      refine ⟨(hfed.trans hmore).of_le ?_ ?_, hends hok⟩
      · simp only [size, Group.units, List.map_cons, List.map_nil, List.flatten_singleton, List.length_cons,
          List.length_append]
        omega
      · rw [Group.outputs]
        omega

namespace Stream

/-- How many outputs are made of the packets. -/
def outputs (stream : Stream) : Nat := (stream.map fun e => e.1.outputs).sum

end Stream

theorem outputs_pos (g : Group) : 0 < g.outputs := by
  cases g with
  | stapB => exact Nat.one_pos
  | mtap _ _ _ units hne => exact List.length_pos_of_ne_nil hne
  | fu => exact Nat.succ_pos _

/-- **The calls with the packets of a stream.** -/
theorem fed_stream {stream : Stream} (h : Feeds s stream.received t out)
    (hcarry : ∀ e ∈ stream, Carry e.2 e.1.packets) (hready : Ready s stream.received) :
    Fed s t [] out (size stream.units) stream.outputs ∧ (stream ≠ [] → s.iInterleaveDepth + 1 ≠ 0) := by
  induction stream generalizing s out with
  | nil =>
    cases h
    exact ⟨⟨rfl, hready, Nat.le_of_eq (by rw [weight_nil]; rfl)⟩, fun h => absurd rfl h⟩
  | cons e stream ih =>
    rw [List.forall_mem_cons] at hcarry
    obtain ⟨u, o, o', hgroup, hlater, rfl⟩ := Feeds.append h
    obtain ⟨hfed, hends⟩ := fed_group hgroup hcarry.1 hready
    have hmore := (ih hlater hcarry.2 hfed.ready).1
    refine ⟨(hfed.trans hmore).of_le (Nat.le_of_eq ?_) (Nat.le_of_eq ?_), fun _ => hends⟩
    · rw [Stream.units, List.flatMap_cons, size_append]
      rfl
    · rw [Stream.outputs, List.map_cons, List.sum_cons]
      rfl

theorem outputs_of_delivers (hd : d ≠ 0) {stream : Stream}
    (hcarry : ∀ e ∈ stream, Carry e.2 e.1.packets) (hapart : Apart none stream.received) (h : Delivers d stream) :
    stream = [] ∨ (stream.outputs = 1 ∧ d + 1 ≠ 0) := by
  obtain ⟨t, out, flushed, hfeeds, hflushes, horder⟩ := h
  obtain ⟨hfed, hends⟩ := fed_stream hfeeds hcarry ⟨hd, fun _ h => absurd h List.not_mem_nil, hapart⟩
  have hflush := flushes_weight hflushes hfed.ready.depth hfed.ready.full
  have hweight := hfed.weight
  have hall := horder.weight
  rw [weight_append] at hall
  rw [show (init d).waiting = [] from rfl, List.length_nil, Nat.add_zero] at hweight
  cases stream with
  | nil => exact .inl rfl
  | cons e stream =>
    have hpos := outputs_pos e.1
    have hsum : Stream.outputs (e :: stream) = e.1.outputs + Stream.outputs stream := by
      rw [Stream.outputs, List.map_cons, List.sum_cons]
      rfl
    exact .inr ⟨by omega, hends (List.cons_ne_nil _ _)⟩

/-! ## Streams of one output -/

/-- All NAL units of a packet are in one output, which ends them. -/
structure Single (s : H264PayloadParser) (r : Received) (nals : List (List UInt8)) : Prop where
  required : Required (nalType r.2)
  other : nalType r.2 ≠ H264_RTP_PAYLOAD_FU_A
  len : 0 < r.2.len.toNat
  status : (fresh s r).status = .success
  counter : (fresh s r).parser.iIMP.iNALUnitsCounter = s.iIMP.iNALUnitsCounter + 1
  pushed : ∃ out, (fresh s r).pushed = [out] ∧ out.endOfNAL = true ∧ out.vfragments.map RefMemFrag.bytes = nals

theorem queue_counter_zero (q : InterleaveModeProcessing) (p : Payload) (nal_type : UInt8) :
    (q.queue p nal_type 0).iNALUnitsCounter = q.iNALUnitsCounter + 1 := by
  rw [InterleaveModeProcessing.queue_counter]
  exact if_pos (.inl rfl)

theorem single_stapB (hne : nals ≠ [])
    (h : Holds r.2 (indicator nri H264_RTP_PAYLOAD_STAP_B :: (word don.toNat ++ nals.flatMap NalUnit.entry))) :
    Single s r (nals.map NalUnit.octets) := by
  have htype : nalType r.2 = H264_RTP_PAYLOAD_STAP_B := nalType_of_holds h (by decide)
  obtain ⟨t, out, hmade, hbytes, hend, hfresh⟩ := fresh_stapB (s := s) hne h
  refine ⟨by simp [Required, htype], by rw [htype]; decide, length_pos_of_holds h, by rw [hfresh], ?_, out, ?_, hend,
    hbytes⟩
  · simp only [hfresh, hmade.mask, queue_counter_zero, hmade.counter]
  · rw [hfresh]

theorem single_mtap {u : TimedUnit} (hfull : u.octets ≠ [])
    (h : Holds r.2 (indicator nri (mtapType is24) :: (word donBase.toNat ++ [u].flatMap (TimedUnit.entry is24)))) :
    Single s r [u.octets] := by
  have hunits : ∀ u' ∈ [u], u'.octets ≠ [] := fun u' hu' => by
    rw [List.mem_singleton.mp hu']
    exact hfull
  have htype : nalType r.2 = mtapType is24 := nalType_of_holds h (by cases is24 <;> decide)
  have hlen := length_pos_of_holds h
  have hentry := hasEntry_mtap (List.cons_ne_nil u []) hunits h
  have hbytes : r.2.bytes.drop 3 = u.entry is24 ++ [] := by
    rw [h.1, List.flatMap_singleton, List.append_nil]
    rfl
  obtain ⟨hsize, -, -⟩ := drop_timedEntry hbytes
  obtain ⟨fuel, hfuel⟩ : ∃ fuel, r.2.len.toNat = fuel + 1 := ⟨r.2.len.toNat - 1, by omega⟩
  obtain ⟨t, out, hparse, hout, hmade⟩ := parseSingle_mtap (s := s) is24 hentry r.packet
  have hend : ∀ o ∈ (parseSingle s r.packet r.2 (mtapType is24) 0).pushed, o.endOfNAL = true :=
    endOfNAL_parseSingle (by rw [utilityOf_mtapType]; exact Utility.noConfusion)
  rw [hparse] at hend
  have hdone : ¬HasEntry r.2 (entryAt 0 + headerSize is24 + sizeAt r.2 0) := by
    have hoctets := length_drop_bytes hbytes
    rw [List.append_nil, TimedUnit.length_entry] at hoctets
    have hentryAt : entryAt 0 = 3 := rfl
    rw [sizeAt, hentryAt, hsize, HasEntry, if_neg (by omega)]
    omega
  have hfresh : fresh s r = ⟨.success, { t with
      iIMP := t.iIMP.queue (r.packet.withFrag r.2) (mtapType is24) t.iIsFragmentedBitMask }, r.2, [out],
      entryAt 0 + headerSize is24 + sizeAt r.2 0⟩ := by
    rw [fresh, htype, hfuel]
    simp only [generate, hparse, reduceCtorEq, if_false, ne_eq, not_true_eq_false, isMTAPType_mtapType, if_true,
      generate_mtap_done (Nat.add_pos_left (Nat.add_pos_left (by decide : 0 < entryAt 0) _) _) hdone,
      List.append_nil]
  have hnals := fresh_mtap (s := s) hunits h
  rw [hfresh, List.flatMap_singleton] at hnals
  refine ⟨?_, ?_, hlen, by rw [hfresh], ?_, out, by rw [hfresh], hend out (List.mem_singleton_self out), hnals⟩
  · rw [htype]
    cases is24 <;> simp [Required, mtapType]
  · rw [htype]
    cases is24 <;> decide
  · simp only [hfresh, hmade.mask, queue_counter_zero, hmade.counter]

/-! ## Delivery -/

theorem one_lt_add_one (hd : d ≠ 0) (hmax : d + 1 ≠ 0) : 1 < d + 1 := by
  have hone : (1 : UInt32).toNat = 1 := rfl
  have hzero : (0 : UInt32).toNat = 0 := rfl
  have hlt := d.toNat_lt
  rw [ne_eq, ← UInt32.toNat_inj, UInt32.toNat_add, hone, hzero] at hmax
  rw [ne_eq, ← UInt32.toNat_inj, hzero] at hd
  rw [UInt32.lt_iff_toNat_lt, UInt32.toNat_add, hone]
  omega

/-- **A stream of one output is delivered**: the flush does not push the last of the queue. -/
theorem delivers_single (hd : d ≠ 0) (hmax : d + 1 ≠ 0) {g : Group}
    (h : Single (init d) r (g.units.map Prod.snd))
    (horder : g.units.Pairwise fun a b => (b.1 - a.1).toNat < 32768) : Delivers d [(g, [r])] := by
  obtain ⟨out, hpushed, hend, hnals⟩ := h.pushed
  have hgen : Generates (init d) r.2 (fresh (init d) r) :=
    generates_generate r.packet (nalType r.2) r.2.len.toNat (init d) r.2 0 h.len (.inl ⟨rfl, h.len⟩)
  have hignored : ¬isCurrRTPPacketIgnored (init d) r.2 (nalType r.2) = true := by
    rw [isCurrRTPPacketIgnored, decide_eq_true_eq]
    rintro (⟨htype, -⟩ | hptr)
    · exact h.other htype
    · exact absurd hptr (Option.some_ne_none _).symm
  have hcounter : (fresh (init d) r).parser.iIMP.iNALUnitsCounter < (init d).iInterleaveDepth + 1 := by
    rw [h.counter]
    exact one_lt_add_one hd hmax
  have hparse : parse (init d) r.packet = some ⟨.dataNotReady, (fresh (init d) r).parser,
      r.packet.withFrag (fresh (init d) r).frag, [out]⟩ := by
    have hdepth : (init d).iInterleaveDepth ≠ 0 := hd
    have hfresh : generate r.packet (nalType r.2) r.2.len.toNat (init d) r.2 0 = fresh (init d) r := rfl
    rw [parse_eq hdepth rfl h.required, parseInterleaved, if_neg hdepth]
    simp only [hignored, Bool.false_eq_true, if_false, hfresh]
    rw [if_neg (not_not.mpr h.status), if_pos hcounter, hpushed]
    rfl
  obtain ⟨new, hcount, -, hperm⟩ := hgen.queue
  have hone : (fresh (init d) r).parser.iIMP.iOutputMediaDataQueue.length = 1 := by
    have hlen := hperm.length_eq
    rw [List.length_append, hcount, hpushed] at hlen
    exact hlen
  obtain ⟨e, he⟩ := List.length_eq_one_iff.mp hone
  obtain ⟨last, hlast⟩ : ∃ last, (fresh (init d) r).parser.iIMP.dequeue = some last := by
    rw [InterleaveModeProcessing.dequeue, he]
    exact ⟨_, rfl⟩
  have hempty : last.2.iOutputMediaDataQueue = [] := by
    obtain ⟨top, -, hrest, -⟩ := dequeue_perm hlast
    have hlen := hrest.length_eq
    rw [hone, List.length_cons] at hlen
    exact List.eq_nil_of_length_eq_zero (by omega)
  have hflush : parse (fresh (init d) r).parser noInput =
      some ⟨.emptyQueue, { (fresh (init d) r).parser with iIMP := last.2 }, noInput, []⟩ := by
    have hmode : (fresh (init d) r).parser.isInterleaveMode = true := by
      rw [isInterleaveMode, hgen.depth]
      exact decide_eq_true hd
    have hwaits : (fresh (init d) r).parser.iIMP.iOutputMediaDataQueue ≠ [] := by
      rw [he]
      exact List.cons_ne_nil e []
    simp only [parse, noInput, hmode, hwaits, Bool.true_eq_false, or_self, if_false, parseFlush, hlast,
      Option.map_some, hempty, if_true]
  refine ⟨_, _, _, .cons (.done hparse PayloadParserStatus.noConfusion) .nil,
    .stop hflush PayloadParserStatus.noConfusion, g.units, ?_, horder, ?_⟩
  · rw [Stream.units, List.flatMap_singleton]
  · rw [← hnals]
    simp [assemble, hend]

theorem pairwise_stapB (h : InWindow (nals.zipIdx.map fun e => (don + UInt16.ofNat e.2, e.1.octets))) :
    (nals.zipIdx.map fun e => (don + UInt16.ofNat e.2, e.1.octets)).Pairwise
      fun a b => (b.1 - a.1).toNat < 32768 := by
  obtain ⟨base, hbase⟩ := h
  have hdon (i : Nat) (hi : i < nals.length) : (don + UInt16.ofNat i - base).toNat < 32768 :=
    hbase (don + UInt16.ofNat i, nals[i].octets) (List.mem_map.mpr
      ⟨(nals[i], i), List.mk_mem_zipIdx_iff_getElem?.mpr (List.getElem?_eq_getElem hi), rfl⟩)
  have hstart := don.toNat_lt
  have hlow := base.toNat_lt
  have hlen : nals.length ≤ 32768 := by
    by_contra hlong
    have hfirst := hdon 0 (by omega)
    have hlast := hdon (32768 - (don - base).toNat) (by omega)
    rw [UInt16.toNat_sub, UInt16.toNat_add, UInt16.toNat_ofNat'] at hfirst hlast
    rw [UInt16.toNat_sub] at hlast
    omega
  rw [List.pairwise_map, List.pairwise_iff_getElem]
  intro i j hi hj hij
  rw [List.length_zipIdx] at hi hj
  simp only [List.getElem_zipIdx, Nat.zero_add]
  rw [UInt16.toNat_sub, UInt16.toNat_add, UInt16.toNat_add, UInt16.toNat_ofNat', UInt16.toNat_ofNat']
  omega

/-- **When the NAL units are delivered in order**: if one output is made of the whole stream. -/
theorem delivers_iff (d : UInt32) (hd : d ≠ 0) (stream : Stream) (hcarry : ∀ e ∈ stream, Carry e.2 e.1.packets)
    (hapart : Apart none stream.received) (hwindow : InWindow stream.units) :
    Delivers d stream ↔ stream = [] ∨ (stream.outputs = 1 ∧ d + 1 ≠ 0) := by
  refine ⟨outputs_of_delivers hd hcarry hapart, ?_⟩
  rintro (rfl | ⟨hone, hmax⟩)
  · have hflush : parse (init d) noInput = some ⟨.failure, init d, noInput, []⟩ := by
      simp only [parse, noInput]
      exact if_pos (.inr rfl)
    exact ⟨_, _, _, .nil, .stop hflush PayloadParserStatus.noConfusion, [], List.Perm.refl _, List.Pairwise.nil, rfl⟩
  · cases stream with
    | nil => exact absurd hone Nat.zero_ne_one
    | cons e stream =>
      obtain ⟨g, received⟩ := e
      have hsum : Stream.outputs ((g, received) :: stream) = g.outputs + Stream.outputs stream := by
        rw [Stream.outputs, List.map_cons, List.sum_cons]
        rfl
      have hpos := outputs_pos g
      have hrest : stream = [] := by
        cases stream with
        | nil => rfl
        | cons e stream =>
          have hnext := outputs_pos e.1
          have hmore : Stream.outputs (e :: stream) = e.1.outputs + Stream.outputs stream := by
            rw [Stream.outputs, List.map_cons, List.sum_cons]
            rfl
          omega
      subst hrest
      have hg : Carry received g.packets := hcarry _ (List.mem_singleton_self _)
      rw [Stream.units, List.flatMap_singleton] at hwindow
      cases g with
      | stapB nri don nals hne =>
        obtain ⟨r, received, hr, hnil, rfl⟩ := List.forall₂_cons_right_iff.mp hg
        obtain rfl := List.forall₂_nil_right_iff.mp hnil
        have hsingle := single_stapB (s := init d) hne hr
        rw [← units_stapB nri don nals hne] at hsingle
        exact delivers_single hd hmax hsingle (pairwise_stapB hwindow)
      | mtap nri is24 donBase units hne hfull =>
        obtain ⟨r, received, hr, hnil, rfl⟩ := List.forall₂_cons_right_iff.mp hg
        obtain rfl := List.forall₂_nil_right_iff.mp hnil
        obtain ⟨u, rfl⟩ : ∃ u, units = [u] := List.length_eq_one_iff.mp (hsum.symm.trans hone)
        exact delivers_single hd hmax (single_mtap (hfull u (List.mem_singleton_self u)) hr)
          (List.pairwise_singleton _ _)
      | fu header don first inner last =>
        rw [hsum, Group.outputs] at hone
        omega

theorem one_lt_size : 1 < 65536 := by decide

/-- A STAP-B with a NAL unit of one octet. -/
def stapBOf (don : UInt16) (octet : UInt8) : Group :=
  .stapB 0x60 don [⟨[octet], List.cons_ne_nil _ _, one_lt_size⟩] (List.cons_ne_nil _ _)

/-- The packet of such a STAP-B. -/
def packetAt (ptr : Nat) (don octet : UInt8) : Received :=
  (⟨0, 90000, 0, false, false, false, []⟩, ⟨ptr, 6, [0x79, 0, don, 0, 1, octet]⟩)

theorem delivers_one_packet : Delivers 1 [(stapBOf 7 0x65, [packetAt 0 7 0x65])] := by
  have hapart : Apart none (Stream.received [(stapBOf 7 0x65, [packetAt 0 7 0x65])]) :=
    ⟨(Option.some_ne_none _).symm, trivial⟩
  refine (delivers_iff 1 (by decide) _ ?_ hapart ⟨7, ?_⟩).mpr (.inr ⟨rfl, by decide⟩)
  · intro e he
    rw [List.mem_singleton.mp he]
    exact .cons ⟨by decide, by decide⟩ .nil
  · intro u hu
    rw [List.mem_singleton.mp hu]
    decide

/-- Two STAP-Bs in decoding order, with an interleaving depth of one. -/
def twoPackets : Stream := [(stapBOf 7 0x65, [packetAt 0 7 0x65]), (stapBOf 8 0x61, [packetAt 10 8 0x61])]

/-- The NAL units are pushed as they come, and a packet besides. -/
theorem two_packets_not_delivered : (∀ e ∈ twoPackets, Carry e.2 e.1.packets) ∧ Apart none twoPackets.received ∧
    InWindow twoPackets.units ∧ ¬Delivers 1 twoPackets := by
  have hcarry : ∀ e ∈ twoPackets, Carry e.2 e.1.packets := by
    rw [twoPackets, List.forall_mem_cons, List.forall_mem_singleton]
    exact ⟨.cons ⟨by decide, by decide⟩ .nil, .cons ⟨by decide, by decide⟩ .nil⟩
  have hapart : Apart none twoPackets.received := ⟨(Option.some_ne_none _).symm, by decide, trivial⟩
  refine ⟨hcarry, hapart, ⟨7, by decide⟩, fun h => ?_⟩
  rcases outputs_of_delivers (by decide) hcarry hapart h with hnil | ⟨hone, -⟩
  · exact absurd hnil (List.cons_ne_nil _ _)
  · exact absurd hone (by decide)

end Ftke.H264PayloadParser
