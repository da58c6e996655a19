import Ftke.LatmParser

/-!
# Ftke.LatmParser.Raw

The overloads of `compose`, `composeSingleFrame` and `composeMultipleFrame` that take the
fields of a packet instead of `PVMFMediaData`, and that they do as the others do.

The marker is a number here, and the sequence number is unsigned.
-/

namespace Ftke.LatmParser

/-! ## The overloads -/

/-- The arguments of `compose`; `aDataLen` is the length of `aData`. -/
structure RawPacket where
  aData : List UInt8
  aTimestamp : UInt32
  aSeqNum : UInt32
  aMbit : UInt32

/-- The packet as media data. -/
def RawPacket.mediaData (a : RawPacket) : Packet := ⟨a.aData, a.aSeqNum, a.aTimestamp, a.aMbit ≠ 0⟩

namespace Raw

/-- The end of `composeSingleFrame`. -/
def finishSingle (aTimestamp aSeqNum aMbit : UInt32) (out : MediaData) (s : Parser) : Status × MediaData × Parser :=
  let out := { out.setFilledLen s.bytesRead with seqNum := aSeqNum, timestamp := aTimestamp }
  if aMbit ≠ 0 then (.frameComplete, out, { s.reset with firstBlock := true })
  else
    let s := { s with firstBlock := false, compositenumframes := s.compositenumframes + 1 }
    (if s.compositenumframes < maxNumCompositeFrames then .frameIncomplete else .frameError, out, s)

/-- `composeSingleFrame`. -/
def composeSingleFrame (aData : List UInt8) (aTimestamp aSeqNum aMbit : UInt32) (out : MediaData) (s : Parser) :
    Option (Status × MediaData × Parser) :=
  if s.firstBlock then
    (readLength aData).bind fun r =>
      let s := { s with framesize := s.framesize + r.1, bytesRead := r.2.length }
      if wrongSize s.sMC (aMbit ≠ 0) s.framesize s.bytesRead then
        some (.frameError, out.setFilledLen 0, { s with bytesRead := 0 })
      else (blit out.memory 0 r.2).map fun memory => finishSingle aTimestamp aSeqNum aMbit { out with memory } s
  else
    let pktsize := aData.length
    if wrongSize s.sMC (aMbit ≠ 0) s.framesize (pktsize + (s.bytesRead - 1)) then
      some (.frameError, out.setFilledLen 0, s)
    else (blit out.memory s.bytesRead aData).map fun memory =>
      finishSingle aTimestamp aSeqNum aMbit { out with memory } { s with bytesRead := s.bytesRead + pktsize }

/-- `composeMultipleFrame` behind the copy to the collecting buffer. -/
def finishMultiple (aTimestamp aSeqNum aMbit : UInt32) (out : MediaData) (s : Parser) :
    Option (Status × MediaData × Parser) :=
  let out := { out.setFilledLen s.bytesRead with seqNum := aSeqNum, timestamp := aTimestamp }
  if aMbit ≠ 0 then
    (composeFrames s.sMC s.multiFrameBuf.length s.bytesRead s.sMC.numSubFrames s.multiFrameBuf 0 out).map
      fun r =>
        match r.1 with
        | none => (.frameIncomplete, r.2.2.setFilledLen 0, { s with framesize := r.2.1 })
        | some outPtrPos => (.frameComplete, r.2.2.setFilledLen outPtrPos, s.reset)
  else
    let s := { s with compositenumframes := s.compositenumframes + 1 }
    some (if s.compositenumframes < maxNumCompositeFrames then .frameIncomplete else .frameError, out, s)

/-- `composeMultipleFrame`. -/
def composeMultipleFrame (aData : List UInt8) (aTimestamp aSeqNum aMbit : UInt32) (buffer : Bool) (out : MediaData)
    (s : Parser) : Option (Status × MediaData × Parser) :=
  let pktsize := aData.length
  match grow pktsize buffer s with
  | none => some (.frameError, out, s)
  | some s =>
    (blit s.multiFrameBuf s.bytesRead aData).bind fun multiFrameBuf =>
      finishMultiple aTimestamp aSeqNum aMbit out { s with multiFrameBuf, bytesRead := s.bytesRead + pktsize }

/-- `compose`. -/
def compose (a : RawPacket) (alloc : Alloc) (s : Parser) : Option (Status × Option MediaData × Parser) :=
  match alloc.output with
  | none => some (.frameOutputNotAvailable, none, s)
  | some fresh =>
    let out := createMediaData fresh a.aData.length
    let gap := !s.firstPacket && decide (a.aSeqNum - s.last_sequence_num > 1)
    let s := { s with
      dropFrames := s.dropFrames || gap
      firstPacket := false
      last_sequence_num := a.aSeqNum }
    -- `last_mbit`, which is `aMbit` by now
    if s.dropFrames && a.aMbit = 0 then
      some (.frameError, some (out.setFilledLen 0), { s.reset with firstBlock := true })
    else
      let s := { s with dropFrames := false }
      let r :=
        if s.sMC.numSubFrames > 0 ∨ (s.sMC.cpresent ∧ a.aData.headD 0 &&& 0x80 ≠ 0) then
          composeMultipleFrame a.aData a.aTimestamp a.aSeqNum a.aMbit alloc.buffer out s
        else composeSingleFrame a.aData a.aTimestamp a.aSeqNum a.aMbit out s
      r.map fun r =>
        if r.1 = .frameError then
          (.frameError, some (r.2.1.setFilledLen 0), { r.2.2.reset with dropFrames := true, firstBlock := true })
        else (r.1, some r.2.1, r.2.2)

/-! ## The overloads against each other -/

variable {a : RawPacket}

theorem finishSingle_eq (out : MediaData) (s : Parser) :
    finishSingle a.aTimestamp a.aSeqNum a.aMbit out s = LatmParser.finishSingle a.mediaData out s := by
  by_cases hmark : a.aMbit = 0 <;> simp [finishSingle, LatmParser.finishSingle, RawPacket.mediaData, hmark]

theorem composeSingleFrame_eq (out : MediaData) (s : Parser) :
    composeSingleFrame a.aData a.aTimestamp a.aSeqNum a.aMbit out s =
      LatmParser.composeSingleFrame a.mediaData out s := by
  simp only [composeSingleFrame, LatmParser.composeSingleFrame, finishSingle_eq]
  rfl

theorem finishMultiple_eq (out : MediaData) (s : Parser) :
    finishMultiple a.aTimestamp a.aSeqNum a.aMbit out s = LatmParser.finishMultiple a.mediaData out s := by
  by_cases hmark : a.aMbit = 0
  · simp [finishMultiple, LatmParser.finishMultiple, RawPacket.mediaData, hmark]
  · have hmarker : a.mediaData.marker = true := by simp [RawPacket.mediaData, hmark]
    simp only [finishMultiple, LatmParser.finishMultiple, ne_eq, hmark, not_false_eq_true, if_true, hmarker]
    rfl

theorem composeMultipleFrame_eq (buffer : Bool) (out : MediaData) (s : Parser) :
    composeMultipleFrame a.aData a.aTimestamp a.aSeqNum a.aMbit buffer out s =
      LatmParser.composeMultipleFrame a.mediaData buffer out s := by
  simp only [composeMultipleFrame, LatmParser.composeMultipleFrame, finishMultiple_eq]
  rfl

theorem compose_eq (a : RawPacket) (alloc : Alloc) (s : Parser) :
    compose a alloc s = LatmParser.compose a.mediaData alloc s := by
  have hmark : decide (a.aMbit = 0) = !a.mediaData.marker := by
    simp [RawPacket.mediaData]
  simp only [compose, LatmParser.compose, composeSingleFrame_eq, composeMultipleFrame_eq, hmark]
  rfl

end Raw

/-! ## Packet after packet -/

/-- What each call returns and puts out; a fault ends the run. -/
def observe {Input : Type} (compose : Input → Alloc → Parser → Option (Status × Option MediaData × Parser)) :
    List (Input × Alloc) → Parser → List (Option (Status × Option MediaData))
  | [], _ => []
  | call :: calls, s =>
    match compose call.1 call.2 s with
    | none => [none]
    | some r => some (r.1, r.2.1) :: observe compose calls r.2.2

/-- **The overloads agree**: from the same state, the same packets give the same statuses and
the same outputs, call by call. -/
theorem observe_raw (calls : List (RawPacket × Alloc)) (s : Parser) :
    observe Raw.compose calls s = observe compose (calls.map fun call => (call.1.mediaData, call.2)) s := by
  induction calls generalizing s with
  | nil => rfl
  | cons call calls ih =>
    rw [List.map_cons, observe, observe, Raw.compose_eq]
    cases compose call.1.mediaData call.2 s with
    | none => rfl
    | some r => simp only [ih]

end Ftke.LatmParser
