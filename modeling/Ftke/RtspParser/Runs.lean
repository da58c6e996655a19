import Ftke.RtspParser.Fill

/-!
# Ftke.RtspParser.Runs

Runs of the calls of the engine.

Between the calls the parser is in one of its phases (`Phase`), with its pointers in order.
`neverStarves_of_run` says that it then offers room for octets whenever it waits for them; the
one state without a window is the one that skips embedded data, and it is not reached when
that data is in the main buffer already.
-/

namespace Ftke.RtspParser

/-! ## The end of a message -/

theorem twoNewlines_le : ∀ {l : List UInt8} {n : Nat}, twoNewlines l = some n → 2 ≤ n ∧ n ≤ l.length
  | [], _, h => by simp [twoNewlines] at h
  | [_], _, h => by simp [twoNewlines] at h
  | a :: b :: rest, n, h => by
    rw [twoNewlines] at h
    split at h
    · split at h
      · rw [← Option.some.inj h]
        simp only [List.length_cons]
        omega
      · split at h
        · rename_i hfour
          have hlen := congrArg List.length hfour.2.2
          rw [List.length_take] at hlen
          simp only [List.length_cons, List.length_nil] at hlen
          rw [← Option.some.inj h]
          simp only [List.length_cons]
          omega
        · contradiction
    · contradiction

theorem findEnd_le : ∀ {l : List UInt8} {n : Nat}, findEnd l = some n → 2 ≤ n ∧ n ≤ l.length
  | [], _, h => by simp [findEnd] at h
  | a :: rest, n, h => by
    rw [findEnd] at h
    cases htwo : twoNewlines (a :: rest) with
    | some m =>
      rw [htwo] at h
      rw [← Option.some.inj h]
      exact twoNewlines_le htwo
    | none =>
      rw [htwo] at h
      obtain ⟨m, hm, heq⟩ := Option.map_eq_some_iff.mp h
      have hle := findEnd_le hm
      rw [List.length_cons]
      omega

/-! ## Phases -/

variable {s : Parser}

/-- Between messages, or between a message and its entity body. -/
structure AtMessage (s : Parser) : Prop where
  eorptr : s.eorptr = s.mainBufferEntry
  space : s.mainBufferSpace ≤ bufferSize

/-- A newline is looked for, and there is room in the main buffer. -/
structure Looking (s : Parser) : Prop where
  eorptr : s.mainBufferEntry ≤ s.eorptr
  space : s.mainBufferSpace < bufferSize

/-- More octets of an entity body are expected, and the main buffer has none. -/
structure Hungry (s : Parser) : Prop where
  contents : s.contents = []
  more : s.ebSizeCoveredSoFar < s.ebFullSizeExpected
  space : s.mainBufferSpace ≤ bufferSize

/-- What holds between the calls, in each state. -/
def Phase (s : Parser) : Prop :=
  match s.internalState with
  | .waitingForRequestMemory | .requestIsReady | .errorRequestTooBig | .entityBodyIsReady
  | .embeddedDataIsReady => AtMessage s
  | .waitingForEntityBodyMemory | .waitingForEmbeddedDataMemory => AtMessage s ∧ 0 < s.ebFullSizeExpected
  | .lookingForEndOfRequest | .startLookingForResync | .lookingForResync => Looking s
  | .skippingOverEntityBody => Hungry s
  | .continuingToFillOutEntityBody | .continuingToFillOutEmbeddedData => Hungry s ∧ Filling s
  | _ => False

theorem Looking.phase (h : Looking s) (hstate : s.internalState = .lookingForEndOfRequest ∨
    s.internalState = .startLookingForResync ∨ s.internalState = .lookingForResync) : Phase s := by
  rcases hstate with hstate | hstate | hstate
  · rw [Phase, hstate]
    exact h
  · rw [Phase, hstate]
    exact h
  · rw [Phase, hstate]
    exact h

theorem lookForResync_phase (hstate : s.internalState = .startLookingForResync ∨ s.internalState = .lookingForResync)
    (heorptr : s.mainBufferEntry ≤ s.eorptr) (hspace : s.mainBufferSpace ≤ bufferSize) : Phase (lookForResync s) := by
  rw [Parser.mainBufferSpace] at hspace
  rw [lookForResync]
  simp only
  split
  · rename_i n hfound
    obtain ⟨htwo, hle⟩ := findEnd_le hfound
    rw [List.length_drop] at hle
    refine ⟨rfl, ?_⟩
    simp only [Parser.mainBufferSpace, List.length_drop]
    split <;> omega
  · have hlooking : Looking { s with
        contents := s.contents.drop (s.contents.length - min resyncPreserveSize s.contents.length)
        mainBufferEntry := 0, eorptr := 0 } := by
      refine ⟨Nat.le_refl 0, ?_⟩
      simp only [Parser.mainBufferSpace, List.length_drop, resyncPreserveSize, bufferSize]
      omega
    exact hlooking.phase (Or.inr hstate)

theorem moveOverToBeginning_phase (hstate : s.internalState = .lookingForEndOfRequest)
    (heorptr : s.mainBufferEntry ≤ s.eorptr) (hspace : s.mainBufferSpace ≤ bufferSize) :
    Phase (moveOverToBeginning s) := by
  rw [moveOverToBeginning]
  split
  · exact lookForResync_phase (Or.inl rfl) heorptr hspace
  · rw [Parser.mainBufferSpace] at hspace
    split
    · simp only [Phase, hstate]
      refine ⟨Nat.le_refl 0, ?_⟩
      simp only [Parser.mainBufferSpace]
      omega
    · simp only [Phase, hstate]
      refine ⟨Nat.le_max_right _ _, ?_⟩
      simp only [Parser.mainBufferSpace]
      omega

variable (setsMethod : List UInt8 → Bool)

theorem takeMessage_phase {n : Nat} (hle : n ≤ s.contents.length) (hspace : s.mainBufferSpace ≤ bufferSize) :
    Phase (takeMessage setsMethod n s) := by
  have hat : AtMessage (takeMessage setsMethod n s) := by
    rw [Parser.mainBufferSpace] at hspace
    refine ⟨rfl, ?_⟩
    simp only [takeMessage, Parser.mainBufferSpace, List.length_drop]
    omega
  by_cases hbig : maxFullRequestSize < n
  · have hstate : (takeMessage setsMethod n s).internalState = .errorRequestTooBig := by
      rw [takeMessage]
      exact if_pos hbig
    simp only [Phase, hstate]
    exact hat
  · have hstate : (takeMessage setsMethod n s).internalState = .requestIsReady := by
      rw [takeMessage]
      exact if_neg hbig
    simp only [Phase, hstate]
    exact hat

theorem lookForEndOfRequest_phase (hstate : s.internalState = .lookingForEndOfRequest)
    (heorptr : s.mainBufferEntry ≤ s.eorptr) (hspace : s.mainBufferSpace ≤ bufferSize) :
    Phase (lookForEndOfRequest setsMethod s) := by
  rw [lookForEndOfRequest]
  split
  · split
    · rename_i dollar channelID high low contents hcontents
      refine ⟨rfl, ?_⟩
      rw [Parser.mainBufferSpace, hcontents] at hspace
      simp only [Parser.mainBufferSpace]
      simp only [List.length_cons] at hspace
      omega
    · exact moveOverToBeginning_phase hstate heorptr hspace
  · simp only
    split
    · rename_i n hfound
      obtain ⟨htwo, hle⟩ := findEnd_le hfound
      rw [List.length_drop] at hle
      exact takeMessage_phase setsMethod (by omega) hspace
    · exact moveOverToBeginning_phase hstate (Nat.le_trans heorptr (Nat.le_max_left _ _)) hspace

theorem skipOver_phase (hstate : s.internalState = .skippingOverEntityBody)
    (hle : s.ebSizeCoveredSoFar ≤ s.ebFullSizeExpected) (hspace : s.mainBufferSpace ≤ bufferSize) :
    Phase (skipOver s) := by
  rw [Parser.mainBufferSpace] at hspace
  rw [skipOver]
  simp only
  split
  · refine ⟨rfl, ?_⟩
    simp only [Parser.mainBufferSpace, List.length_drop]
    omega
  · rename_i hmore
    simp only [Phase, hstate]
    refine ⟨?_, ?_, ?_⟩
    · exact List.drop_eq_nil_of_le (by omega)
    · simp only
      omega
    · simp only [Parser.mainBufferSpace, List.length_drop]
      omega

theorem skipOver_all (hle : s.ebSizeCoveredSoFar ≤ s.ebFullSizeExpected)
    (hall : s.ebFullSizeExpected ≤ s.ebSizeCoveredSoFar + s.contents.length)
    (hspace : s.mainBufferSpace ≤ bufferSize) : Phase (skipOver s) := by
  rw [Parser.mainBufferSpace] at hspace
  rw [skipOver]
  simp only
  rw [if_pos (by omega)]
  refine ⟨rfl, ?_⟩
  simp only [Parser.mainBufferSpace, List.length_drop]
  omega

theorem Filled.phase {ready continuing : InternalState} {t : Parser} (h : Filled ready continuing s t)
    (hspace : s.mainBufferSpace ≤ bufferSize)
    (hstates : (ready = .entityBodyIsReady ∧ continuing = .continuingToFillOutEntityBody) ∨
      (ready = .embeddedDataIsReady ∧ continuing = .continuingToFillOutEmbeddedData)) : Phase t := by
  have hspace : t.mainBufferSpace ≤ bufferSize := by
    rw [h.space]
    exact hspace
  rcases h.outcome with ⟨hstate, -, heorptr⟩ | ⟨hstate, hmore, hcontents⟩
  · rcases hstates with ⟨hready, -⟩ | ⟨hready, -⟩
    · simp only [Phase, hstate, hready]
      exact ⟨heorptr, hspace⟩
    · simp only [Phase, hstate, hready]
      exact ⟨heorptr, hspace⟩
  · rcases hstates with ⟨-, hcontinuing⟩ | ⟨-, hcontinuing⟩
    · simp only [Phase, hstate, hcontinuing]
      exact ⟨⟨hcontents, hmore, hspace⟩, h.filling⟩
    · simp only [Phase, hstate, hcontinuing]
      exact ⟨⟨hcontents, hmore, hspace⟩, h.filling⟩

/-! ## Calls -/

/-- What the engine does. -/
inductive Call
  | getState
  | registerNewRequestStruct (newRequestStruct : RTSPIncomingMessage)
  | registerEntityBody (newBody : Option (List Fragment))
  | registerEmbeddedDataMemory (newBody : Option (List Fragment))
  | getDataBufferSpec
  | registerDataBufferWritten (data : List UInt8)
  deriving DecidableEq

/-- What the engine learns: a message, the octets of an entity body or of embedded data, that
they were skipped, that a request is too big. -/
inductive Report
  | request (message : RTSPIncomingMessage)
  | body (octets : List UInt8)
  | skipped
  | tooBig
  deriving DecidableEq

/-- The parser with the length of the window offered since the last octets were written, the octets
written in all and the reports. -/
structure Session where
  parser : Parser
  offered : Nat
  written : List UInt8
  reports : List Report
  deriving DecidableEq

def newSession (parser : Parser) : Session := ⟨flush parser, 0, [], []⟩

/-- What a state reports. -/
def reportOf (state : ParserState) (s : Parser) : List Report :=
  match state with
  | .requestIsReady => [.request s.requestStruct]
  | .entityBodyIsReady => [.body (s.entityBody.flatten.take s.ebFullSizeExpected)]
  | .embeddedDataIsReady => [.body (s.entityBody.flatten.take s.ebFullSizeExpected)]
  | .errorRequestTooBig => [.tooBig]
  | _ => []

/-- A registered body reports that it is skipped, if there is none. -/
def registered (newBody : Option (List Fragment)) (s : Session) (r : Bool × Parser) : Session :=
  { s with parser := r.2, reports := if r.1 && newBody.isNone then s.reports ++ [.skipped] else s.reports }

def handle (s : Session) : Call → Option Session
  | .getState =>
    (getState setsMethod s.parser).map fun r => { s with parser := r.2, reports := s.reports ++ reportOf r.1 s.parser }
  | .registerNewRequestStruct newRequestStruct =>
    (registerNewRequestStruct setsMethod newRequestStruct s.parser).map fun r => { s with parser := r.2 }
  | .registerEntityBody newBody => (registerEntityBody setsMethod newBody s.parser).map (registered newBody s)
  | .registerEmbeddedDataMemory newBody =>
    (registerEmbeddedDataMemory setsMethod newBody s.parser).map (registered newBody s)
  | .getDataBufferSpec =>
    (getDataBufferSpec s.parser).map fun r =>
      { s with parser := r.2, offered := (r.1.map fun spec => spec.len).getD 0 }
  | .registerDataBufferWritten data =>
    (registerDataBufferWritten setsMethod data s.parser).map fun r =>
      { s with parser := r.2, offered := 0, written := s.written ++ data }

/-- The engine supplies memory for all the octets expected or none, and writes one octet at least and no
more than it was offered. -/
def WellOrdered (s : Session) : Call → Prop
  | .registerEntityBody (some newBody) => s.parser.internalState = .waitingForEntityBodyMemory →
      s.parser.ebFullSizeExpected ≤ newBody.flatten.length
  | .registerEmbeddedDataMemory (some newBody) => s.parser.internalState = .waitingForEmbeddedDataMemory →
      s.parser.ebFullSizeExpected ≤ newBody.flatten.length
  | .registerDataBufferWritten data => 1 ≤ data.length ∧ data.length ≤ s.offered
  | _ => True

instance (s : Session) (call : Call) : Decidable (WellOrdered s call) :=
  match call with
  | .registerEntityBody (some newBody) => inferInstanceAs (Decidable (s.parser.internalState = .waitingForEntityBodyMemory →
      s.parser.ebFullSizeExpected ≤ newBody.flatten.length))
  | .registerEmbeddedDataMemory (some newBody) =>
    inferInstanceAs (Decidable (s.parser.internalState = .waitingForEmbeddedDataMemory →
      s.parser.ebFullSizeExpected ≤ newBody.flatten.length))
  | .registerDataBufferWritten data => inferInstanceAs (Decidable (1 ≤ data.length ∧ data.length ≤ s.offered))
  | .getState => isTrue trivial
  | .registerNewRequestStruct _ => isTrue trivial
  | .registerEntityBody none => isTrue trivial
  | .registerEmbeddedDataMemory none => isTrue trivial
  | .getDataBufferSpec => isTrue trivial

/-- Embedded data is skipped only when it is all in the main buffer. -/
def SkipsInBuffer (s : Session) (call : Call) : Prop :=
  call = .registerEmbeddedDataMemory none → s.parser.internalState = .waitingForEmbeddedDataMemory →
    s.parser.ebFullSizeExpected ≤ s.parser.contents.length

instance (s : Session) (call : Call) : Decidable (SkipsInBuffer s call) :=
  inferInstanceAs (Decidable (call = .registerEmbeddedDataMemory none →
    s.parser.internalState = .waitingForEmbeddedDataMemory → s.parser.ebFullSizeExpected ≤ s.parser.contents.length))

/-- Whenever the parser waits for data it offers a window, and takes what is written there. -/
def NeverStarves (s : Parser) : Prop :=
  ∀ t, getState setsMethod s = some (.waitingForData, t) → ∃ spec u, getDataBufferSpec t = some (some spec, u) ∧
    1 ≤ spec.len ∧ spec.Inside u ∧ ∀ data : List UInt8, 1 ≤ data.length → data.length ≤ spec.len →
      ∃ r, registerDataBufferWritten setsMethod data u = some r ∧ r.2.internalState ≠ .internalError

/-! ## One call -/

theorem continueProcessing_behindRequest (s : Parser) :
    continueProcessing setsMethod { s with internalState := behindRequest s } =
      some { s with internalState := behindRequest s } := by
  rw [behindRequest]
  split
  · rfl
  · split
    · rfl
    · rfl

theorem behindRequest_phase (h : AtMessage s) : Phase { s with internalState := behindRequest s } := by
  have hat : ∀ state, AtMessage { s with internalState := state } := fun _ => ⟨h.eorptr, h.space⟩
  rw [behindRequest]
  split
  · exact hat _
  · rename_i hlength
    split
    · exact ⟨hat _, Nat.pos_of_ne_zero hlength⟩
    · exact ⟨hat _, Nat.pos_of_ne_zero hlength⟩

theorem getState_phase (h : Phase s) : ∃ r, getState setsMethod s = some r ∧ Phase r.2 := by
  have hready : AtMessage s → Phase { s with internalState := .waitingForRequestMemory } :=
    fun hat => ⟨hat.eorptr, hat.space⟩
  have hsame := h
  rw [Phase] at h
  cases hstate : s.internalState with
  | requestIsReady =>
    rw [hstate] at h
    exact ⟨_, by rw [getState, hstate]; simp only; rw [continueProcessing_behindRequest]; rfl, behindRequest_phase h⟩
  | errorRequestTooBig =>
    rw [hstate] at h
    exact ⟨_, by rw [getState, hstate]; simp only; rw [continueProcessing_behindRequest]; rfl, behindRequest_phase h⟩
  | entityBodyIsReady =>
    rw [hstate] at h
    exact ⟨_, by rw [getState, hstate], hready h⟩
  | embeddedDataIsReady =>
    rw [hstate] at h
    exact ⟨_, by rw [getState, hstate], hready h⟩
  | startLookingForResync =>
    rw [hstate] at h
    have hlooking : Looking { s with internalState := .lookingForResync } := ⟨h.eorptr, h.space⟩
    exact ⟨_, by rw [getState, hstate], hlooking.phase (Or.inr (Or.inr rfl))⟩
  | waitingForData => exact absurd h (by rw [hstate]; exact id)
  | internalError => exact absurd h (by rw [hstate]; exact id)
  | skippingOverEmbeddedData => exact absurd h (by rw [hstate]; exact id)
  | startingToFillOutEntityBody => exact absurd h (by rw [hstate]; exact id)
  | startingToFillOutEmbeddedData => exact absurd h (by rw [hstate]; exact id)
  | _ => exact ⟨_, by rw [getState, hstate], hsame⟩

theorem registerNewRequestStruct_phase (h : Phase s) (newRequestStruct : RTSPIncomingMessage) :
    ∃ r, registerNewRequestStruct setsMethod newRequestStruct s = some r ∧ Phase r.2 := by
  rw [registerNewRequestStruct]
  split
  · rename_i hstate
    rw [Phase, hstate] at h
    exact ⟨_, rfl, lookForEndOfRequest_phase setsMethod rfl (Nat.le_of_eq h.eorptr.symm) h.space⟩
  · exact ⟨_, rfl, h⟩

theorem filling_withBody {body : List Fragment} (henough : s.ebFullSizeExpected ≤ body.flatten.length)
    (state : InternalState) : Filling (s.withBody (some body) state) := by
  refine ⟨?_, Nat.zero_le _, Nat.zero_le _, henough⟩
  simp only [Parser.withBody, List.take_zero, List.flatten_nil, List.length_nil]

theorem registerEntityBody_phase (h : Phase s) {newBody : Option (List Fragment)}
    (henough : s.internalState = .waitingForEntityBodyMemory →
      ∀ body ∈ newBody, s.ebFullSizeExpected ≤ body.flatten.length) :
    ∃ r, registerEntityBody setsMethod newBody s = some r ∧ Phase r.2 := by
  rw [registerEntityBody, registerBody]
  split
  · rename_i hstate
    rw [Phase, hstate] at h
    cases newBody with
    | none => exact ⟨_, rfl, skipOver_phase rfl (Nat.zero_le _) h.1.space⟩
    | some body =>
      obtain ⟨t, ht, hfilled⟩ := startFillingOut_spec .entityBodyIsReady .continuingToFillOutEntityBody _
        (filling_withBody (henough hstate body rfl) .startingToFillOutEntityBody)
      exact ⟨(true, t), congrArg (Option.map (true, ·)) ht, hfilled.phase h.1.space (Or.inl ⟨rfl, rfl⟩)⟩
  · exact ⟨_, rfl, h⟩

theorem registerEmbeddedDataMemory_phase (h : Phase s) {newBody : Option (List Fragment)}
    (henough : s.internalState = .waitingForEmbeddedDataMemory →
      ∀ body ∈ newBody, s.ebFullSizeExpected ≤ body.flatten.length)
    (hskip : newBody = none → s.internalState = .waitingForEmbeddedDataMemory →
      s.ebFullSizeExpected ≤ s.contents.length) :
    ∃ r, registerEmbeddedDataMemory setsMethod newBody s = some r ∧ Phase r.2 := by
  rw [registerEmbeddedDataMemory, registerBody]
  split
  · rename_i hstate
    rw [Phase, hstate] at h
    cases newBody with
    | none =>
      have hall : s.ebFullSizeExpected ≤ 0 + s.contents.length := by
        rw [Nat.zero_add]
        exact hskip rfl hstate
      exact ⟨_, rfl, skipOver_all (Nat.zero_le _) hall h.1.space⟩
    | some body =>
      obtain ⟨t, ht, hfilled⟩ := startFillingOut_spec .embeddedDataIsReady .continuingToFillOutEmbeddedData _
        (filling_withBody (henough hstate body rfl) .startingToFillOutEmbeddedData)
      exact ⟨(true, t), congrArg (Option.map (true, ·)) ht, hfilled.phase h.1.space (Or.inr ⟨rfl, rfl⟩)⟩
  · exact ⟨_, rfl, h⟩

/-! ## Windows -/

/-- The states that have a window. -/
def Windowed (s : Parser) : Prop :=
  s.internalState = .lookingForEndOfRequest ∨ s.internalState = .startLookingForResync ∨
    s.internalState = .lookingForResync ∨ s.internalState = .continuingToFillOutEntityBody ∨
    s.internalState = .continuingToFillOutEmbeddedData ∨ s.internalState = .skippingOverEntityBody

/-- This is the window, and it has been asked for. -/
structure Window (s : Parser) (spec : DataBufferSpec) : Prop where
  again : getDataBufferSpec s = some (some spec, s)
  windowed : Windowed s

theorem getDataBufferSpec_looking (hstate : s.internalState = .lookingForEndOfRequest ∨
    s.internalState = .startLookingForResync ∨ s.internalState = .lookingForResync) :
    getDataBufferSpec s = some (some ⟨.mainBuffer s.mainBufferSpace, bufferSize - s.mainBufferSpace⟩, s) :=
  if_pos hstate

theorem getDataBufferSpec_continuing (hstate : s.internalState = .continuingToFillOutEntityBody ∨
    s.internalState = .continuingToFillOutEmbeddedData) : getDataBufferSpec s = fragmentSpec s := by
  rw [getDataBufferSpec, if_neg, if_pos hstate]
  rcases hstate with hstate | hstate
  · simp [hstate]
  · simp [hstate]

theorem getDataBufferSpec_skipping (hstate : s.internalState = .skippingOverEntityBody) :
    getDataBufferSpec s = some (some ⟨.mainBuffer 0, bufferSize⟩, { s with mainBufferEntry := 0, contents := [] }) := by
  rw [getDataBufferSpec]
  simp [hstate]

theorem getDataBufferSpec_none (hnot : ¬Windowed s) : getDataBufferSpec s = some (none, s) := by
  simp only [Windowed, not_or] at hnot
  rw [getDataBufferSpec]
  simp [hnot]

theorem Windowed.cases (h : Windowed s) :
    (s.internalState = .lookingForEndOfRequest ∨ s.internalState = .startLookingForResync ∨
      s.internalState = .lookingForResync) ∨
    (s.internalState = .continuingToFillOutEntityBody ∨ s.internalState = .continuingToFillOutEmbeddedData) ∨
    s.internalState = .skippingOverEntityBody := by
  simpa only [Windowed, or_assoc] using h

theorem Phase.looking (h : Phase s) (hstate : s.internalState = .lookingForEndOfRequest ∨
    s.internalState = .startLookingForResync ∨ s.internalState = .lookingForResync) : Looking s := by
  rw [Phase] at h
  rcases hstate with hstate | hstate | hstate
  · rwa [hstate] at h
  · rwa [hstate] at h
  · rwa [hstate] at h

theorem Phase.continuing (h : Phase s) (hstate : s.internalState = .continuingToFillOutEntityBody ∨
    s.internalState = .continuingToFillOutEmbeddedData) : Hungry s ∧ Filling s := by
  rw [Phase] at h
  rcases hstate with hstate | hstate
  · rwa [hstate] at h
  · rwa [hstate] at h

theorem phase_continuing (h : Hungry s ∧ Filling s) (hstate : s.internalState = .continuingToFillOutEntityBody ∨
    s.internalState = .continuingToFillOutEmbeddedData) : Phase s := by
  rcases hstate with hstate | hstate
  · rw [Phase, hstate]
    exact h
  · rw [Phase, hstate]
    exact h

theorem Phase.skipping (h : Phase s) (hstate : s.internalState = .skippingOverEntityBody) : Hungry s := by
  rwa [Phase, hstate] at h

/-- **There is a window** in every state that has one. -/
theorem getDataBufferSpec_window (h : Phase s) (hwindowed : Windowed s) : ∃ spec t,
    getDataBufferSpec s = some (some spec, t) ∧ Phase t ∧ Window t spec ∧ 1 ≤ spec.len ∧ spec.Inside t := by
  rcases hwindowed.cases with hstate | hstate | hstate
  · have heq := getDataBufferSpec_looking hstate
    have hspace := (h.looking hstate).space
    refine ⟨_, s, heq, h, ⟨heq, hwindowed⟩, ?_, ?_⟩
    · simp only
      omega
    · simp only [DataBufferSpec.Inside]
      omega
  · obtain ⟨hhungry, hfilling⟩ := h.continuing hstate
    obtain ⟨spec, t, heq, hoffered⟩ := fragmentSpec_spec hfilling hhungry.more
    have hsame : t.internalState = s.internalState := by rw [hoffered.eq]
    have ht : t.internalState = .continuingToFillOutEntityBody ∨ t.internalState = .continuingToFillOutEmbeddedData := by
      rw [hsame]
      exact hstate
    have hungry : Hungry t := by
      refine ⟨?_, ?_, ?_⟩
      · rw [hoffered.eq]
        exact hhungry.contents
      · rw [hoffered.eq]
        exact hhungry.more
      · rw [hoffered.eq]
        exact hhungry.space
    have hagain : getDataBufferSpec t = some (some spec, t) := (getDataBufferSpec_continuing ht).trans hoffered.again
    have hwindowedT : Windowed t := by
      rw [Windowed, hsame]
      exact hwindowed
    refine ⟨spec, t, (getDataBufferSpec_continuing hstate).trans heq, phase_continuing ⟨hungry, hoffered.filling⟩ ht,
      ⟨hagain, hwindowedT⟩, hoffered.pos, ?_⟩
    rw [DataBufferSpec.Inside, hoffered.ptr]
    exact hoffered.room
  · have hhungry := h.skipping hstate
    refine ⟨_, _, getDataBufferSpec_skipping hstate, ?_, ⟨getDataBufferSpec_skipping hstate, hwindowed⟩, by decide, ?_⟩
    · rw [Phase]
      simp only [hstate]
      exact ⟨rfl, hhungry.more, Nat.zero_le _⟩
    · simp [DataBufferSpec.Inside]

theorem registerDataBufferWritten_looking (hstate : s.internalState = .lookingForEndOfRequest) (data : List UInt8) :
    registerDataBufferWritten setsMethod data s =
      some (true, lookForEndOfRequest setsMethod { s with contents := s.contents ++ data }) := by
  rw [registerDataBufferWritten, if_pos hstate, continueProcessing]
  simp only [hstate, Option.map_some]

theorem registerDataBufferWritten_resync (hstate : s.internalState = .startLookingForResync ∨
    s.internalState = .lookingForResync) (data : List UInt8) :
    registerDataBufferWritten setsMethod data s =
      some (false, lookForResync { s with contents := s.contents ++ data }) := by
  rw [registerDataBufferWritten, continueProcessing]
  rcases hstate with hstate | hstate
  · simp [hstate]
  · simp [hstate]

theorem registerDataBufferWritten_skipping (hstate : s.internalState = .skippingOverEntityBody) (data : List UInt8) :
    registerDataBufferWritten setsMethod data s = some (false, skipOver { s with contents := s.contents ++ data }) := by
  rw [registerDataBufferWritten, continueProcessing]
  simp [hstate, skipOverEntityBody]

/-- The parser with octets written to a fragment. -/
def Parser.cover (data : List UInt8) (s : Parser) : Parser :=
  { s with
    entityBody := write data s.ebCurrentIndex s.ebCurrentOffset s.entityBody
    ebSizeCoveredSoFar := s.ebSizeCoveredSoFar + data.length
    ebCurrentOffset := s.ebCurrentOffset + data.length }

theorem registerDataBufferWritten_continuing (hstate : s.internalState = .continuingToFillOutEntityBody ∨
    s.internalState = .continuingToFillOutEmbeddedData) (data : List UInt8) :
    registerDataBufferWritten setsMethod data s = some (true,
      if s.ebSizeCoveredSoFar + data.length = s.ebFullSizeExpected then
        { s.cover data with
          eorptr := s.mainBufferEntry
          internalState :=
            if s.internalState = .continuingToFillOutEntityBody then .entityBodyIsReady else .embeddedDataIsReady }
      else s.cover data) := by
  have hnot : s.internalState ≠ .lookingForEndOfRequest := by
    rcases hstate with hstate | hstate
    · simp [hstate]
    · simp [hstate]
  rw [registerDataBufferWritten, if_neg hnot, if_pos hstate]
  simp only
  split
  · rfl
  · rfl

variable {spec : DataBufferSpec}

theorem Window.offered (hwindow : Window s spec) (hfilling : Hungry s ∧ Filling s)
    (hstate : s.internalState = .continuingToFillOutEntityBody ∨ s.internalState = .continuingToFillOutEmbeddedData) :
    Offered s spec s := by
  obtain ⟨other, t, heq, hoffered⟩ := fragmentSpec_spec hfilling.2 hfilling.1.more
  have hsame := (getDataBufferSpec_continuing hstate).symm.trans hwindow.again
  rw [heq] at hsame
  obtain ⟨hother, ht⟩ := Prod.mk.inj (Option.some.inj hsame)
  rwa [Option.some.inj hother, ht] at hoffered

/-- **What is written to the window is taken**, and keeps the phase. -/
theorem registerDataBufferWritten_phase (h : Phase s) (hwindow : Window s spec)
    {data : List UInt8} (hlen : data.length ≤ spec.len) :
    ∃ r, registerDataBufferWritten setsMethod data s = some r ∧ Phase r.2 := by
  rcases hwindow.windowed.cases with hstate | hstate | hstate
  · have heq := (getDataBufferSpec_looking hstate).symm.trans hwindow.again
    have hlooking := h.looking hstate
    have hspace := hlooking.space
    have hspec : spec.len = bufferSize - s.mainBufferSpace := by
      rw [← Option.some.inj (Prod.mk.inj (Option.some.inj heq)).1]
    have hmore : ({ s with contents := s.contents ++ data } : Parser).mainBufferSpace ≤ bufferSize := by
      rw [Parser.mainBufferSpace] at hspace hspec
      simp only [Parser.mainBufferSpace, List.length_append]
      omega
    rcases hstate with hstate | hstate
    · exact ⟨_, registerDataBufferWritten_looking setsMethod hstate data,
        lookForEndOfRequest_phase (s := { s with contents := s.contents ++ data }) setsMethod hstate hlooking.eorptr hmore⟩
    · exact ⟨_, registerDataBufferWritten_resync setsMethod hstate data,
        lookForResync_phase (s := { s with contents := s.contents ++ data }) hstate hlooking.eorptr hmore⟩
  · have hboth := h.continuing hstate
    have hoffered := hwindow.offered hboth hstate
    refine ⟨_, registerDataBufferWritten_continuing setsMethod hstate data, ?_⟩
    simp only
    split
    · split
      · exact ⟨rfl, hboth.1.space⟩
      · exact ⟨rfl, hboth.1.space⟩
    · rename_i hmore
      obtain ⟨hfilled, -⟩ := hoffered.written hlen (u := s.cover data) rfl rfl rfl rfl rfl
      refine phase_continuing ⟨⟨hboth.1.contents, ?_, hboth.1.space⟩, hfilled⟩ hstate
      exact Nat.lt_of_le_of_ne hfilled.le hmore
  · have heq := (getDataBufferSpec_skipping hstate).symm.trans hwindow.again
    have hhungry := h.skipping hstate
    obtain ⟨hspec, hentry⟩ := Prod.mk.inj (Option.some.inj heq)
    have hentry : s.mainBufferEntry = 0 := by rw [← hentry]
    have hspec : spec.len = bufferSize := by rw [← Option.some.inj hspec]
    have hmore : ({ s with contents := s.contents ++ data } : Parser).mainBufferSpace ≤ bufferSize := by
      simp only [Parser.mainBufferSpace, hentry, hhungry.contents, List.nil_append]
      omega
    exact ⟨_, registerDataBufferWritten_skipping setsMethod hstate data,
      skipOver_phase (s := { s with contents := s.contents ++ data }) hstate (Nat.le_of_lt hhungry.more) hmore⟩

/-! ## Runs -/

theorem getState_window (h : Window s spec) {r : ParserState × Parser}
    (hr : getState setsMethod s = some r) : Window r.2 spec := by
  rcases h.windowed with hstate | hstate | hstate | hstate | hstate | hstate
  · rw [getState, hstate] at hr
    rw [← Option.some.inj hr]
    exact h
  · rw [getState, hstate] at hr
    have hspec := (getDataBufferSpec_looking (Or.inr (Or.inl hstate))).symm.trans h.again
    rw [← Option.some.inj hr, ← Option.some.inj (Prod.mk.inj (Option.some.inj hspec)).1]
    exact ⟨rfl, Or.inr (Or.inr (Or.inl rfl))⟩
  · rw [getState, hstate] at hr
    rw [← Option.some.inj hr]
    exact h
  · rw [getState, hstate] at hr
    rw [← Option.some.inj hr]
    exact h
  · rw [getState, hstate] at hr
    rw [← Option.some.inj hr]
    exact h
  · rw [getState, hstate] at hr
    rw [← Option.some.inj hr]
    exact h

theorem Windowed.not_waiting (h : Windowed s) : s.internalState ≠ .waitingForRequestMemory ∧
    s.internalState ≠ .waitingForEntityBodyMemory ∧ s.internalState ≠ .waitingForEmbeddedDataMemory := by
  rcases h with hstate | hstate | hstate | hstate | hstate | hstate
  all_goals simp [hstate]

/-- What holds in every state reached. -/
structure Inv (s : Session) : Prop where
  phase : Phase s.parser
  offer : 0 < s.offered → ∃ spec, Window s.parser spec ∧ spec.len = s.offered

theorem inv_new (parser : Parser) : Inv (newSession parser) :=
  ⟨⟨rfl, Nat.zero_le _⟩, fun hpos => absurd hpos (Nat.lt_irrefl 0)⟩

theorem inv_register {s : Session} (h : Inv s) {f : Parser → Option (Bool × Parser)} {g : Bool × Parser → Session}
    (hphase : ∃ r, f s.parser = some r ∧ Phase r.2) (hrefused : Windowed s.parser → f s.parser = some (false, s.parser))
    (hg : ∀ r, (g r).parser = r.2 ∧ (g r).offered = s.offered) : ∃ t, (f s.parser).map g = some t ∧ Inv t := by
  obtain ⟨r, hr, hr2⟩ := hphase
  refine ⟨g r, by rw [hr, Option.map_some], ?_, fun hpos => ?_⟩
  · rw [(hg r).1]
    exact hr2
  · rw [(hg r).2] at hpos ⊢
    obtain ⟨spec, hwindow, hlen⟩ := h.offer hpos
    have hsame := Option.some.inj (hr.symm.trans (hrefused hwindow.windowed))
    rw [(hg r).1, hsame]
    exact ⟨spec, hwindow, hlen⟩

/-- **A call of the engine** is no fault, and keeps the invariant. -/
theorem inv_handle {s : Session} (h : Inv s) {call : Call} (hordered : WellOrdered s call)
    (hskips : SkipsInBuffer s call) : ∃ t, handle setsMethod s call = some t ∧ Inv t := by
  cases call with
  | getState =>
    obtain ⟨r, hr, hphase⟩ := getState_phase setsMethod h.phase
    refine ⟨_, by rw [handle, hr, Option.map_some], hphase, fun hpos => ?_⟩
    obtain ⟨spec, hwindow, hlen⟩ := h.offer hpos
    exact ⟨spec, getState_window setsMethod hwindow hr, hlen⟩
  | registerNewRequestStruct newRequestStruct =>
    refine inv_register h (registerNewRequestStruct_phase setsMethod h.phase newRequestStruct) (fun hwindowed => ?_)
      (fun r => ⟨rfl, rfl⟩)
    exact if_neg hwindowed.not_waiting.1
  | registerEntityBody newBody =>
    refine inv_register h (registerEntityBody_phase setsMethod h.phase ?_) (fun hwindowed => ?_)
      (fun r => ⟨rfl, rfl⟩)
    · intro hstate body hbody
      cases hbody
      exact hordered hstate
    · exact if_neg hwindowed.not_waiting.2.1
  | registerEmbeddedDataMemory newBody =>
    refine inv_register h (registerEmbeddedDataMemory_phase setsMethod h.phase ?_ ?_)
      (fun hwindowed => ?_) (fun r => ⟨rfl, rfl⟩)
    · intro hstate body hbody
      cases hbody
      exact hordered hstate
    · intro hnone
      exact hskips (congrArg _ hnone)
    · exact if_neg hwindowed.not_waiting.2.2
  | getDataBufferSpec =>
    by_cases hwindowed : Windowed s.parser
    · obtain ⟨spec, t, heq, hphase, hwindow, -, -⟩ := getDataBufferSpec_window h.phase hwindowed
      exact ⟨_, by rw [handle, heq, Option.map_some], hphase, fun _ => ⟨spec, hwindow, rfl⟩⟩
    · refine ⟨{ s with offered := 0 }, ?_, h.phase, fun hpos => absurd hpos (Nat.lt_irrefl 0)⟩
      rw [handle, getDataBufferSpec_none hwindowed]
      rfl
  | registerDataBufferWritten data =>
    obtain ⟨hone, hlen⟩ := hordered
    obtain ⟨spec, hwindow, hoffered⟩ := h.offer (Nat.lt_of_lt_of_le hone hlen)
    obtain ⟨r, hr, hphase⟩ := registerDataBufferWritten_phase setsMethod h.phase hwindow
      (by rw [hoffered]; exact hlen)
    exact ⟨_, by rw [handle, hr, Option.map_some], hphase, fun hpos => absurd hpos (Nat.lt_irrefl 0)⟩

/-- **In its phases the parser does not starve.** -/
theorem Phase.neverStarves (h : Phase s) : NeverStarves setsMethod s := by
  intro t ht
  have hwindowed : t = s ∧ Windowed s := by
    rw [Phase] at h
    cases hstate : s.internalState with
    | requestIsReady =>
      rw [getState, hstate] at ht
      simp only at ht
      rw [continueProcessing_behindRequest] at ht
      simp at ht
    | errorRequestTooBig =>
      rw [getState, hstate] at ht
      simp only at ht
      rw [continueProcessing_behindRequest] at ht
      simp at ht
    | skippingOverEmbeddedData => exact absurd h (by rw [hstate]; exact id)
    | _ =>
      rw [getState, hstate] at ht
      simp_all [Windowed]
  rw [hwindowed.1]
  obtain ⟨spec, u, heq, hphase, hwindow, hpos, hinside⟩ := getDataBufferSpec_window h hwindowed.2
  refine ⟨spec, u, heq, hpos, hinside, fun data _ hlen => ?_⟩
  obtain ⟨r, hr, hr2⟩ := registerDataBufferWritten_phase setsMethod hphase hwindow hlen
  refine ⟨r, hr, fun herror => ?_⟩
  rw [Phase, herror] at hr2
  exact hr2

/-- **The parser never starves** in the runs that skip embedded data only when it is all in the main
buffer. -/
theorem neverStarves_of_run {parser : Parser} {calls : List Call} {s : Session}
    (hrun : Run (guarded (fun s call => WellOrdered s call ∧ SkipsInBuffer s call) (stepOf (handle setsMethod)))
      (newSession parser) calls s) : NeverStarves setsMethod s.parser := by
  have hinv : Inv s := hrun.invariant (inv_new parser) fun a call b ha hstep => by
    obtain ⟨t, ht, hinv⟩ := inv_handle setsMethod ha hstep.1.1 hstep.1.2
    have htb : t = b := Option.some.inj (ht.symm.trans hstep.2)
    rwa [← htb]
  exact hinv.phase.neverStarves setsMethod

/-- A message and a frame of one octet that is skipped, written at once. -/
def messageAndFrame : List Call :=
  [.registerNewRequestStruct .reset, .getDataBufferSpec, .registerDataBufferWritten [97, 13, 10, 13, 10, 36, 0, 0, 1, 120],
    .getState, .registerNewRequestStruct .reset, .getState, .registerEmbeddedDataMemory none,
    .registerNewRequestStruct .reset]

theorem neverStarves_of_run_messageAndFrame : ∃ s, Run (guarded (fun s call => WellOrdered s call ∧ SkipsInBuffer s call)
    (stepOf (handle fun _ => true))) (newSession newParser) messageAndFrame s ∧
      NeverStarves (fun _ => true) s.parser := by
  have hsome : (messageAndFrame.foldlM (fun s call =>
      if WellOrdered s call ∧ SkipsInBuffer s call then handle (fun _ => true) s call else none)
      (newSession newParser)).isSome := by decide
  obtain ⟨s, hs⟩ := Option.isSome_iff_exists.mp hsome
  have hrun := Run.of_foldlM_guarded hs
  exact ⟨s, hrun, neverStarves_of_run (fun _ => true) hrun⟩

/-- A frame whose data has not come yet is skipped: the parser waits for data, and there is no
window. -/
theorem skipped_frame_starves : ¬∀ (calls : List Call) (s : Session),
    Run (guarded WellOrdered (stepOf (handle fun _ => true))) (newSession newParser) calls s →
      NeverStarves (fun _ => true) s.parser := by
  intro h
  have hrun : ([.registerNewRequestStruct .reset, .getDataBufferSpec, .registerDataBufferWritten [36, 0, 0, 1], .getState,
      .registerEmbeddedDataMemory none].foldlM (fun s call =>
        if WellOrdered s call then handle (fun _ => true) s call else none) (newSession newParser)).map
      (fun s => s.parser.internalState) = some .skippingOverEmbeddedData := by decide
  obtain ⟨s, hs, hstate⟩ := Option.map_eq_some_iff.mp hrun
  have hget : getState (fun _ => true) s.parser = some (.waitingForData, s.parser) := by rw [getState, hstate]
  obtain ⟨spec, u, hspec, -⟩ := h _ s (Run.of_foldlM_guarded hs) s.parser hget
  have hnone : getDataBufferSpec s.parser = some (none, s.parser) :=
    getDataBufferSpec_none (by simp [Windowed, hstate])
  rw [hnone] at hspec
  simp at hspec

end Ftke.RtspParser
