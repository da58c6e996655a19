import Ftke.HttpParser

/-!
# Ftke.HttpParser.NormalContent

The body of a response that is neither chunked nor multipart
(`HTTPParserNormalContentObject`), from the fragments to the entity units.

`takeData_spec` is the lemma about the loop that takes pieces until enough is there; what
stops it early is an empty piece, so the condition on a call is that the pieces flow (`flows`).
`inv_handle` is the step lemma of the runs.
-/

namespace Ftke.HttpParser

/-! ## The content object -/

/-- A `uint32` as `int32`. -/
def int32 (x : UInt32) : Int := if x.toNat < 2 ^ 31 then x.toNat else x.toNat - 2 ^ 32

/-- `HTTPParserNormalContentObject`, with the content info and the input it works on. -/
structure NormalContent where
  iContentLength : UInt32
  iContentRangeLeft : UInt32
  iCurrTotalLengthObtained : UInt32
  iParserInput : Input
  deriving DecidableEq

/-- The loop of `parse`: the last size, the length obtained and the input; it goes on as long as
whole fragments are taken. -/
def takeData (memory : Memory) : Nat → Int → UInt32 → Input → Int × UInt32 × Input
  | 0, _, obtained, s => (0, obtained, s)
  | fuel + 1, requestSize, obtained, s =>
    let r := getData requestSize.toNat memory s
    if r.1 ≤ 0 then (r.1, obtained, r.2)
    else
      let obtained := obtained + UInt32.ofNat r.1.toNat
      if requestSize > 0 ∧ requestSize - r.1 ≤ 0 then (r.1, obtained, r.2)
      else takeData memory fuel (requestSize - r.1) obtained r.2

/-- `HTTPParserNormalContentObject::parse`: the code and the entity unit. -/
def NormalContent.parse (memory : Memory) (s : NormalContent) :
    Code × List (List UInt8) × NormalContent :=
  let iContentLength := if s.iContentLength = 0 then 0x7fffffff else s.iContentLength
  let obtained :=
    if s.iCurrTotalLengthObtained = 0 ∧ s.iContentRangeLeft > 0 then s.iContentRangeLeft
    else s.iCurrTotalLengthObtained
  let requestSize := int32 iContentLength - int32 obtained
  let s := { s with iContentLength, iCurrTotalLengthObtained := obtained }
  if requestSize ≤ 0 then
    (if requestSize = 0 then .successEndOfMessage else .successEndOfMessageWithExtraData, [], s)
  else
    let r := takeData memory (s.iParserInput.iDataInQueue.length + 1) requestSize obtained s.iParserInput
    let s := { s with iCurrTotalLengthObtained := r.2.1, iParserInput := r.2.2 }
    if r.1 < 0 then (.memoryAllocationFailure, [], s)
    else
      let u := constructEntityUnit memory s.iParserInput
      let s := { s with iParserInput := u.2 }
      match u.1 with
      | none => (.memoryAllocationFailure, [], s)
      | some unit =>
        let code :=
          if s.iCurrTotalLengthObtained ≥ s.iContentLength then
            if s.iCurrTotalLengthObtained > s.iContentLength ∨ !s.iParserInput.empty then
              .successEndOfMessageWithExtraData
            else .successEndOfMessage
          else if r.1 = 0 ∧ s.iContentLength > s.iCurrTotalLengthObtained then .successEndOfInput
          else .success
        (code, unit, s)

/-- `HTTPParser::parse` behind the header. -/
def parseEntityBody (aFrag : MemFrag) (memory : Memory) (s : NormalContent) :
    Code × List (List UInt8) × NormalContent :=
  let r := push_back aFrag memory s.iParserInput
  let s := { s with iParserInput := r.2 }
  if !r.1 then (.needMoreData, [], s) else s.parse memory

/-! ## Runs -/

/-- The parser, with the body's octets received and returned so far, and the last code. -/
structure Session where
  content : NormalContent
  received : List UInt8
  returned : List UInt8
  code : Option Code
  deriving DecidableEq

/-- Behind a header with this content length and no range, that ends at an offset in a fragment;
what is left of the fragments is received. -/
def newSession (contentLength : UInt32) (frag : MemFrag) (queue : List MemFrag) (offset : Nat) : Session :=
  let input : Input := ⟨frag :: queue, [], offset⟩
  ⟨⟨contentLength, 0, 0, input⟩, input.pending.flatten, [], none⟩

/-- A call of `parse`: a fragment that is passed again is not received again. -/
def handle (s : Session) (call : MemFrag × Memory) : Option Session :=
  let r := parseEntityBody call.1 call.2 s.content
  some ⟨r.2.2,
    if Again call.1 s.content.iParserInput then s.received else s.received ++ call.1.bytes,
    s.returned ++ r.2.1.flatten, some r.1⟩

def Code.endOfMessage (code : Code) : Prop :=
  code = .successEndOfMessage ∨ code = .successEndOfMessageWithExtraData

/-- After each call the body has been returned as far as it goes, and its end reported when it is
there. -/
def Good (contentLength : UInt32) (s : Session) : Prop :=
  ∀ code, s.code = some code → s.returned = s.received.take contentLength.toNat ∧
    (code.endOfMessage ↔ contentLength.toNat ≤ s.received.length)

/-- Among the pieces, up to the number of octets, an empty one has nothing behind it. -/
def flows : Nat → List (List UInt8) → Bool
  | _, [] => true
  | n, piece :: rest =>
    if piece.isEmpty then rest.flatten.isEmpty else n ≤ piece.length || flows (n - piece.length) rest

/-- A call that leads to no defect. -/
def Ok (contentLength : UInt32) (s : Session) (call : MemFrag × Memory) : Prop :=
  let input := (push_back call.1 call.2 s.content.iParserInput).2
  contentLength.toNat < 2 ^ 31 ∧ (¬Again call.1 s.content.iParserInput → call.2.input) ∧
    (s.returned.length < contentLength.toNat →
      flows (contentLength.toNat - s.returned.length) input.pending ∧
      input.iDataInQueue.length ≤ call.2.output ∧ call.2.unit ∧ input.iDataInQueue.length ≤ call.2.fragments)

instance (contentLength : UInt32) (s : Session) (call : MemFrag × Memory) :
    Decidable (Ok contentLength s call) := by
  unfold Ok
  infer_instance

/-! ## The loop -/

theorem int32_of_lt {x : UInt32} (h : x.toNat < 2 ^ 31) : int32 x = x.toNat := if_pos h

variable {memory : Memory}

theorem pending_length (s : Input) : s.pending.length = s.iDataInQueue.length := by
  rw [Input.pending]
  cases s.iDataInQueue <;> simp

/-- **The loop takes what is asked for**, or all there is. -/
theorem takeData_spec : ∀ {fuel n : Nat} {s : Input} (obtained : UInt32), s.Fresh → s.Idle → 0 < n → flows n s.pending →
    s.iDataInQueue.length < fuel → s.iDataOutQueue.length + s.iDataInQueue.length ≤ memory.output →
    ∃ (actual : Int) (t : Input), takeData memory fuel n obtained s =
        (actual, obtained + UInt32.ofNat (min n s.pending.flatten.length), t) ∧ 0 ≤ actual ∧
      t.output = s.output ++ s.pending.flatten.take n ∧
      t.iDataOutQueue.length ≤ s.iDataOutQueue.length + s.iDataInQueue.length ∧ t.Idle ∧
      (s.pending.flatten.length < n → t.pending.flatten = [])
  | 0, _, _, _, _, _, _, _, hfuel, _ => absurd hfuel (Nat.not_lt_zero _)
  | fuel + 1, n, s, obtained, hfresh, hidle, hn, hflows, hfuel, hroom => by
    have hlength := pending_length s
    rw [takeData, Int.toNat_natCast]
    cases hpending : s.pending with
    | nil =>
      rw [hpending] at hlength
      have hnil : s.iDataInQueue = [] := List.eq_nil_of_length_eq_zero hlength.symm
      have hget : getData n memory s = (0, s) := by rw [getData, hnil]
      rw [hget]
      refine ⟨0, s, by simp, Int.le_refl 0, by simp, Nat.le_add_right _ _, hidle, fun _ => ?_⟩
      rw [hpending]
      rfl
    | cons piece rest =>
      rw [hpending, List.length_cons] at hlength
      rw [hpending, flows] at hflows
      obtain ⟨t, hget, hout, hqueue, htidle, hwhole, -⟩ := getData_spec hfresh hn hpending
        (show s.iDataOutQueue.length < memory.output from by omega)
      rw [hget]
      simp only
      by_cases hempty : piece = []
      · -- an empty piece ends the loop, and there must be nothing behind it
        have hrest : rest.flatten = [] := by simpa [hempty] using hflows
        obtain ⟨htrest, -, -⟩ := hwhole (by simp [hempty])
        rw [if_pos (by simp [hempty])]
        refine ⟨0, t, ?_, Int.le_refl 0, ?_, by omega, htidle, fun _ => by rw [htrest, hrest]⟩
        · simp [hempty, hrest]
        · simp [hout, hempty, hrest]
      · have hpos : 0 < piece.length := List.length_pos_iff.mpr hempty
        have hnot : ¬(((min n piece.length : Nat) : Int) ≤ 0) := by omega
        rw [if_neg hnot]
        by_cases hle : n ≤ piece.length
        · -- the request is met in this piece
          have hlast : ((n : Nat) : Int) > 0 ∧ ((n : Nat) : Int) - ((min n piece.length : Nat) : Int) ≤ 0 := by
            omega
          have hmin : min n (piece :: rest).flatten.length = min n piece.length := by
            rw [List.flatten_cons, List.length_append]
            omega
          rw [if_pos hlast, Int.toNat_natCast, hmin]
          refine ⟨_, t, rfl, by omega, ?_, by omega, htidle, fun hlt => ?_⟩
          · rw [hout, List.flatten_cons, List.take_append_of_le_length hle]
          · rw [List.flatten_cons, List.length_append] at hlt
            omega
        · have hlt : piece.length < n := Nat.lt_of_not_le hle
          have hgo : ¬(((n : Nat) : Int) > 0 ∧ ((n : Nat) : Int) - ((min n piece.length : Nat) : Int) ≤ 0) := by
            omega
          have hsub : ((n : Nat) : Int) - ((min n piece.length : Nat) : Int) = ((n - piece.length : Nat) : Int) := by
            omega
          obtain ⟨htrest, htfresh, htlen⟩ := hwhole (Nat.le_of_lt hlt)
          have hflows : flows (n - piece.length) t.pending := by
            rw [htrest]
            simpa [hempty, hle] using hflows
          have hfuel : t.iDataInQueue.length < fuel := by omega
          obtain ⟨actual, u, htake, hactual, huout, huqueue, huidle, hudone⟩ := takeData_spec
            (obtained + UInt32.ofNat (min n piece.length)) htfresh htidle (by omega) hflows hfuel (by omega)
          rw [if_neg hgo, hsub, Int.toNat_natCast, htake]
          rw [htrest] at huout hudone ⊢
          refine ⟨actual, u, ?_, hactual, ?_, by omega, huidle, fun hlen => hudone ?_⟩
          · have hmin : min n (piece :: rest).flatten.length =
                min n piece.length + min (n - piece.length) rest.flatten.length := by
              rw [List.flatten_cons, List.length_append]
              omega
            rw [hmin, UInt32.ofNat_add, UInt32.add_assoc]
          · rw [huout, hout, List.flatten_cons, List.take_append, List.take_of_length_le (Nat.le_of_lt hlt),
              List.append_assoc]
          · rw [List.flatten_cons, List.length_append] at hlen
            omega

/-! ## One call -/

structure Inv (contentLength : UInt32) (s : Session) : Prop where
  length : s.content.iContentLength = contentLength
  range : s.content.iContentRangeLeft = 0
  out : s.content.iParserInput.iDataOutQueue = []
  idle : s.content.iParserInput.Idle
  obtained : s.content.iCurrTotalLengthObtained.toNat = s.returned.length
  rest : s.returned.length < contentLength.toNat →
    s.received = s.returned ++ s.content.iParserInput.pending.flatten
  done : contentLength.toNat ≤ s.returned.length → s.returned = s.received.take contentLength.toNat
  good : Good contentLength s

theorem inv_new {contentLength : UInt32} (hpos : 0 < contentLength) (frag : MemFrag) (queue : List MemFrag)
    (offset : Nat) : Inv contentLength (newSession contentLength frag queue offset) where
  length := rfl
  range := rfl
  out := rfl
  idle h := by contradiction
  obtained := rfl
  rest _ := rfl
  done h := by
    have hlt := UInt32.lt_iff_toNat_lt.mp hpos
    exact absurd (Nat.lt_of_lt_of_le hlt h) (Nat.lt_irrefl 0)
  good _ h := by contradiction

variable {contentLength : UInt32} {s : Session} {call : MemFrag × Memory}

theorem parse_spec (memory : Memory) (content : NormalContent) {length obtained : Nat} (hlength : content.iContentLength.toNat = length)
    (hobtained : content.iCurrTotalLengthObtained.toNat = obtained) (hlt : obtained < length)
    (hsmall : length < 2 ^ 31) (hrange : content.iContentRangeLeft = 0)
    (hout : content.iParserInput.iDataOutQueue = []) (hidle : content.iParserInput.Idle)
    (hflows : flows (length - obtained) content.iParserInput.pending)
    (hroom : content.iParserInput.iDataInQueue.length ≤ memory.output) (hunit : memory.unit = true)
    (hfragments : content.iParserInput.iDataInQueue.length ≤ memory.fragments) :
    ∃ (code : Code) (unit : List (List UInt8)) (input : Input), content.parse memory = (code, unit,
        { content with
          iCurrTotalLengthObtained := content.iCurrTotalLengthObtained +
            UInt32.ofNat (min (length - obtained) content.iParserInput.pending.flatten.length)
          iParserInput := input }) ∧
      input.iDataOutQueue = [] ∧ input.Idle ∧
      unit.flatten = content.iParserInput.pending.flatten.take (length - obtained) ∧
      (content.iParserInput.pending.flatten.length < length - obtained → input.pending.flatten = []) ∧
      (code.endOfMessage ↔ length ≤ obtained + content.iParserInput.pending.flatten.length) := by
  have hnonzero : content.iContentLength ≠ 0 := fun hzero => by
    rw [hzero] at hlength
    have hzero : (0 : UInt32).toNat = 0 := rfl
    omega
  have hnoRange : ¬(content.iCurrTotalLengthObtained = 0 ∧ content.iContentRangeLeft > 0) := by
    rw [hrange]
    exact fun hand => absurd hand.2 (by decide)
  have hrequest : int32 content.iContentLength - int32 content.iCurrTotalLengthObtained =
      ((length - obtained : Nat) : Int) := by
    rw [int32_of_lt (by omega), int32_of_lt (by omega)]
    omega
  obtain ⟨actual, t, htake, hactual, htout, htqueue, htidle, htdone⟩ := takeData_spec
    content.iCurrTotalLengthObtained (.inr hout) hidle (show 0 < length - obtained from by omega) hflows
    (Nat.lt_succ_self _) (show _ ≤ memory.output from by rw [hout, List.length_nil]; omega)
  rw [hout, List.length_nil] at htqueue
  have hconstruct : constructEntityUnit memory t =
      (some (t.iDataOutQueue.map OutFrag.bytes), { t with iDataOutQueue := [] }) := by
    have hfit : ¬memory.fragments < t.iDataOutQueue.length := by omega
    rw [constructEntityUnit, hunit, if_neg (by simp), if_neg hfit]
  have hnewObtained : (content.iCurrTotalLengthObtained + UInt32.ofNat (min (length - obtained)
      content.iParserInput.pending.flatten.length)).toNat =
      obtained + min (length - obtained) content.iParserInput.pending.flatten.length := by
    rw [UInt32.toNat_add, UInt32.toNat_ofNat', hobtained]
    omega
  have hnotDone : ¬((length - obtained : Nat) : Int) ≤ 0 := by omega
  have hnonneg : ¬actual < 0 := by omega
  rw [NormalContent.parse, if_neg hnonzero, if_neg hnoRange, hrequest]
  simp only [hnotDone, if_false, htake, hnonneg, hconstruct]
  refine ⟨_, _, _, rfl, rfl, htidle, ?_, htdone, ?_⟩
  · rw [← List.flatMap_def]
    have hout' : content.iParserInput.output = [] := by rw [Input.output, hout, List.flatMap_nil]
    rw [hout', List.nil_append] at htout
    exact htout
  · have hge : content.iCurrTotalLengthObtained + UInt32.ofNat (min (length - obtained)
        content.iParserInput.pending.flatten.length) ≥ content.iContentLength ↔
        length ≤ obtained + content.iParserInput.pending.flatten.length := by
      rw [ge_iff_le, UInt32.le_iff_toNat_le, hnewObtained, hlength]
      omega
    rw [← hge]
    by_cases hend : content.iCurrTotalLengthObtained + UInt32.ofNat (min (length - obtained)
        content.iParserInput.pending.flatten.length) ≥ content.iContentLength
    · rw [if_pos hend]
      refine iff_of_true ?_ hend
      split
      · exact .inr rfl
      · exact .inl rfl
    · rw [if_neg hend]
      refine iff_of_false ?_ hend
      split <;> simp [Code.endOfMessage]

theorem parse_done (memory : Memory) (content : NormalContent) (hpos : 0 < content.iContentLength)
    (hsmall : content.iContentLength.toNat < 2 ^ 31)
    (hobtained : content.iContentLength = content.iCurrTotalLengthObtained) :
    content.parse memory = (.successEndOfMessage, [], content) := by
  have hnonzero : content.iContentLength ≠ 0 := fun hzero => by
    rw [hzero] at hpos
    exact absurd hpos (by decide)
  have hnoRange : ¬(content.iCurrTotalLengthObtained = 0 ∧ content.iContentRangeLeft > 0) := by
    rw [← hobtained]
    exact fun hand => hnonzero hand.1
  rw [NormalContent.parse, if_neg hnonzero, if_neg hnoRange]
  obtain ⟨iContentLength, _, _, _⟩ := content
  simp only at hobtained
  simp only [hobtained, Int.sub_self, Int.le_refl, if_true]

/-- **One call keeps the invariant.** -/
theorem inv_handle (h : Inv contentLength s) (hpos : 0 < contentLength) (hptr : call.1.ptr ≠ 0)
    (hok : Ok contentLength s call) : ∃ t, handle s call = some t ∧ Inv contentLength t := by
  obtain ⟨hsmall, hinput, hflow⟩ := hok
  obtain ⟨input, hpush, hout, hidle, hpending⟩ := push_back_spec h.idle hptr hinput
  rw [hpush] at hflow
  rw [handle, parseEntityBody, hpush]
  simp only [Bool.not_true, Bool.false_eq_true, if_false]
  by_cases hlt : s.returned.length < contentLength.toNat
  · obtain ⟨hflows, hroom, hunit, hfragments⟩ := hflow hlt
    have hparts := parse_spec call.2 { s.content with iParserInput := input }
      (congrArg UInt32.toNat h.length) h.obtained hlt hsmall h.range (hout.trans h.out) hidle hflows hroom hunit
      hfragments
    obtain ⟨code, unit, t, hparse, htout, htidle, hflatten, hdone, hcode⟩ := hparts
    have hreceived : (if Again call.1 s.content.iParserInput then s.received else s.received ++ call.1.bytes) =
        s.returned ++ input.pending.flatten := by
      rw [hpending, ← List.append_assoc, ← h.rest hlt]
      split <;> simp
    have htake : (s.returned ++ input.pending.flatten).take contentLength.toNat = s.returned ++ unit.flatten := by
      rw [List.take_append, List.take_of_length_le (Nat.le_of_lt hlt), hflatten]
    simp only at hdone hcode hflatten
    refine ⟨_, rfl, ?_⟩
    rw [hparse, hreceived]
    refine ⟨h.length, h.range, htout, htidle, ?_, fun hlen => ?_, fun _ => htake.symm, fun code hcode' => ⟨htake.symm, ?_⟩⟩
    · simp only [List.length_append, hflatten, List.length_take]
      rw [UInt32.toNat_add, UInt32.toNat_ofNat', h.obtained]
      omega
    · simp only [List.length_append, hflatten, List.length_take] at hlen
      simp only
      rw [hdone (by omega), List.append_nil, hflatten, List.take_of_length_le (by omega)]
    · rw [← Option.some.inj hcode', hcode, List.length_append]
  · have hle : contentLength.toNat ≤ s.returned.length := Nat.le_of_not_lt hlt
    have htake := h.done hle
    have hlen : s.returned.length = contentLength.toNat := by
      have hlen := congrArg List.length htake
      rw [List.length_take] at hlen
      omega
    have hobtained : s.content.iContentLength = s.content.iCurrTotalLengthObtained := by
      rw [h.length]
      exact UInt32.toNat_inj.mp (hlen.symm.trans h.obtained.symm)
    have hparse := parse_done call.2 { s.content with iParserInput := input }
      (by rw [h.length]; exact hpos) (by rw [h.length]; exact hsmall) hobtained
    have hmore : (if Again call.1 s.content.iParserInput then s.received else s.received ++ call.1.bytes).take
        contentLength.toNat = s.returned ∧ contentLength.toNat ≤
          (if Again call.1 s.content.iParserInput then s.received else s.received ++ call.1.bytes).length := by
      have hreceived : contentLength.toNat ≤ s.received.length := by
        rw [htake, List.length_take] at hlen
        omega
      split
      · exact ⟨htake.symm, hreceived⟩
      · rw [List.take_append_of_le_length hreceived, List.length_append]
        exact ⟨htake.symm, by omega⟩
    refine ⟨_, rfl, ?_⟩
    rw [hparse, List.flatten_nil, List.append_nil]
    refine ⟨h.length, h.range, hout.trans h.out, hidle, h.obtained, fun hlt' => absurd hlt' hlt,
      fun _ => hmore.1.symm, fun code hcode => ⟨hmore.1.symm, iff_of_true ?_ hmore.2⟩⟩
    rw [← Option.some.inj hcode]
    exact .inl rfl

/-- **A body comes out as it comes in**: in every run whose calls meet the condition the octets
returned are the first ones received, up to the content length, and the end of the message is
reported exactly when they are all there. -/
theorem body_of_run {frag : MemFrag} {queue : List MemFrag} {offset : Nat} {calls : List (MemFrag × Memory)}
    (hpos : 0 < contentLength)
    (hrun : Run (guarded (fun s call => call.1.ptr ≠ 0 ∧ Ok contentLength s call) (stepOf handle))
      (newSession contentLength frag queue offset) calls s) : Good contentLength s := by
  have hinv : Inv contentLength s := hrun.invariant (inv_new hpos frag queue offset) fun a call b ha hstep => by
    obtain ⟨t, ht, hinv⟩ := inv_handle ha hpos hstep.1.1 hstep.1.2
    have htb : t = b := Option.some.inj (ht.symm.trans hstep.2)
    rwa [← htb]
  exact hinv.good

/-- All allocations succeed. -/
def enough : Memory := ⟨true, 4, true, 4⟩

/-- Two octets behind the header, passed on with the header's fragment, and the other three in
fragments of their own, with one more behind them. -/
def fiveOctets : List (MemFrag × Memory) :=
  [(⟨1, [13, 10, 97, 98]⟩, enough), (⟨2, [99, 100]⟩, enough), (⟨3, [101, 102]⟩, enough), (⟨4, [103]⟩, enough)]

theorem body_of_run_fiveOctets : 0 < (5 : UInt32) ∧ ∃ s, Run (guarded (fun s call => call.1.ptr ≠ 0 ∧ Ok 5 s call)
    (stepOf handle)) (newSession 5 ⟨1, [13, 10, 97, 98]⟩ [] 2) fiveOctets s ∧ Good 5 s := by
  have hpos : 0 < (5 : UInt32) := by decide
  have hsome : (fiveOctets.foldlM (fun s call => if call.1.ptr ≠ 0 ∧ Ok 5 s call then handle s call else none)
      (newSession 5 ⟨1, [13, 10, 97, 98]⟩ [] 2)).isSome := by decide
  obtain ⟨s, hs⟩ := Option.isSome_iff_exists.mp hsome
  have hrun := Run.of_foldlM_guarded hs
  exact ⟨hpos, s, hrun, body_of_run hpos hrun⟩

/-- A body of 2^31 octets: as an `int32` the length is negative, and the first fragment is the end. -/
theorem large_ends_at_once : ¬∀ (contentLength : UInt32) (frag : MemFrag) (queue : List MemFrag) (offset : Nat)
    (calls : List (MemFrag × Memory)) (s : Session), 0 < contentLength →
    Run (guarded (fun _ call => call.1.ptr ≠ 0) (stepOf handle)) (newSession contentLength frag queue offset)
      calls s → Good contentLength s := by
  intro h
  have hrun : ([(⟨2, [97]⟩, enough)].foldlM (fun s call => if call.1.ptr ≠ 0 then handle s call else none)
      (newSession 2147483648 ⟨1, [13, 10]⟩ [] 2)).map (fun s => (s.code, s.received.length)) =
      some (some .successEndOfMessageWithExtraData, 1) := by decide
  obtain ⟨s, hs, hend⟩ := Option.map_eq_some_iff.mp hrun
  obtain ⟨hcode, hlength⟩ := Prod.mk.inj hend
  have hgood := h 2147483648 ⟨1, [13, 10]⟩ [] 2 _ s (by decide) (Run.of_foldlM_guarded hs) _ hcode
  have hle := hgood.2.mp (.inr rfl)
  rw [hlength] at hle
  exact absurd hle (by decide)

end Ftke.HttpParser
