import Mathlib.Data.List.Basic
import Ftke.Overwrite
import Ftke.Run

/-!
# Ftke.RtspParser

The framing of an RTSP stream (`RTSPParser` in `rtsp_parser.cpp`): messages, their entity
bodies and `$` frames of embedded data, with the calls of the engine that supplies the
memory and the octets.

The main buffer is what is between `mainBufferEntry` and `mainBufferSpace`; the octet at
`mainBufferSpace` is null when it is read.  To read behind the fragments of an entity body
is a fault (`none`).  Of the fields of a message only the method is used here; whether
`parseFirstFields` gets to the method of a request is an argument (`setsMethod`), and the
method it sets is never the one of binary data.
-/

namespace Ftke.RtspParser

/-! ## Data -/

/-- `RTSPParser::InternalState`. -/
inductive InternalState
  | waitingForRequestMemory
  | lookingForEndOfRequest
  | waitingForData
  | requestIsReady
  | waitingForEntityBodyMemory
  | errorRequestTooBig
  | skippingOverEntityBody
  | startingToFillOutEntityBody
  | continuingToFillOutEntityBody
  | entityBodyIsReady
  | internalError
  | startLookingForResync
  | lookingForResync
  | waitingForEmbeddedDataMemory
  | embeddedDataIsReady
  | skippingOverEmbeddedData
  | startingToFillOutEmbeddedData
  | continuingToFillOutEmbeddedData
  deriving DecidableEq

/-- `RTSPParser::ParserState`. -/
inductive ParserState
  | waitingForData
  | waitingForRequestMemory
  | requestIsReady
  | waitingForEntityBodyMemory
  | entityBodyIsReady
  | errorRequestTooBig
  | waitingForEmbeddedDataMemory
  | embeddedDataIsReady
  | internalError
  deriving DecidableEq

/-- `RTSPIncomingMessage`: `binaryData` says that the method is `METHOD_BINARY_DATA`. -/
structure RTSPIncomingMessage where
  binaryData : Bool
  channelID : UInt8
  contentLength : Nat
  secondaryBuffer : List UInt8
  deriving DecidableEq

/-- `RTSPIncomingMessage::reset`. -/
def RTSPIncomingMessage.reset : RTSPIncomingMessage := ⟨false, 0, 0, []⟩

/-- `OsclMemoryFragment`, as what is in it. -/
abbrev Fragment := List UInt8

/-- `RTSPParser`. -/
structure Parser where
  internalState : InternalState
  mainBufferEntry : Nat
  contents : List UInt8
  eorptr : Nat
  requestStruct : RTSPIncomingMessage
  ebFullSizeExpected : Nat
  ebSizeCoveredSoFar : Nat
  ebCurrentIndex : Nat
  ebCurrentOffset : Nat
  entityBody : List Fragment
  deriving DecidableEq

/-- The offset of `mainBufferSpace`. -/
def Parser.mainBufferSpace (s : Parser) : Nat := s.mainBufferEntry + s.contents.length

/-- `RTSP_PARSER_BUFFER_SIZE`. -/
def bufferSize : Nat := 4000

/-- `RTSP_MAX_FULL_REQUEST_SIZE`. -/
def maxFullRequestSize : Nat := 4000

/-- `RTSP_RESYNC_PRESERVE_SIZE`. -/
def resyncPreserveSize : Nat := 20

/-- `flush`. -/
def flush (s : Parser) : Parser :=
  { s with internalState := .waitingForRequestMemory, mainBufferEntry := 0, contents := [], eorptr := 0 }

def newParser : Parser := flush ⟨.waitingForRequestMemory, 0, [], 0, .reset, 0, 0, 0, 0, []⟩

/-! ## The end of a message -/

/-- `CHAR_CR`. -/
def cr : UInt8 := 13

/-- `CHAR_LF`. -/
def lf : UInt8 := 10

/-- How long the two newlines are, in one of the three formats. -/
def twoNewlines : List UInt8 → Option Nat
  | a :: b :: rest =>
    if a = lf ∨ a = cr then
      if a = b then some 2
      else if a = cr ∧ b = lf ∧ rest.take 2 = [cr, lf] then some 4
      else none
    else none
  | _ => none

/-- The loop of `lookForEndOfRequest` and `lookForResync`: behind the first two newlines. -/
def findEnd : List UInt8 → Option Nat
  | [] => none
  | a :: rest =>
    match twoNewlines (a :: rest) with
    | some n => some n
    | none => (findEnd rest).map (· + 1)

/-- Equal but for `OSCL_ASCII_CASE_MAGIC_BIT`. -/
def ciEqual (a b : UInt8) : Bool := (a ^^^ b) ||| 0x20 == 0x20

/-- `ci_local_strstr`, from a state of the search: what is behind the string found. -/
def ciLocalStrstr (subString : List UInt8) : Nat → List UInt8 → Option (List UInt8)
  | _, [] => none
  | state, ch :: rest =>
    if ciEqual ch (subString.getD state 0) then
      if state + 1 = subString.length then some rest else ciLocalStrstr subString (state + 1) rest
    else ciLocalStrstr subString 0 rest

/-- `RtspRecognizedFieldContentLength`: "Content-Length". -/
def contentLengthField : List UInt8 := [67, 111, 110, 116, 101, 110, 116, 45, 76, 101, 110, 103, 116, 104]

/-- `isspaceNotNL`. -/
def isspaceNotNL (ch : UInt8) : Bool :=
  if ch = cr ∨ ch = lf ∨ ch = 0 then false else (0x09 ≤ ch && ch ≤ 0x0D) || ch == 0x20

/-- `PV_atoi` with 'd', from a value on. -/
def pvAtoi : UInt32 → List UInt8 → UInt32
  | value, [] => value
  | value, ch :: rest =>
    if 48 ≤ ch ∧ ch ≤ 57 then
      let old := value
      let value := value * 10 + (ch - 48).toUInt32
      if old > value then value else pvAtoi value rest
    else value

/-- The peek at the content length of a message. -/
def peekContentLength (message : List UInt8) : Nat :=
  match ciLocalStrstr contentLengthField 0 message with
  | none => 0
  | some cl => (pvAtoi 0 (cl.dropWhile fun ch => isspaceNotNL ch || ch == 58)).toNat

/-! ## Messages -/

/-- `lookForResync`. -/
def lookForResync (s : Parser) : Parser :=
  let seen := s.eorptr - s.mainBufferEntry
  match findEnd (s.contents.drop seen) with
  | some n =>
    let contents := s.contents.drop (seen + n)
    let entry := if contents.isEmpty then 0 else s.mainBufferEntry + (seen + n)
    { s with internalState := .waitingForRequestMemory, contents, mainBufferEntry := entry, eorptr := entry }
  | none =>
    let sizeToMove := min resyncPreserveSize s.contents.length
    { s with contents := s.contents.drop (s.contents.length - sizeToMove), mainBufferEntry := 0, eorptr := 0 }

/-- The end of the request was not found. -/
def moveOverToBeginning (s : Parser) : Parser :=
  if s.contents.length = bufferSize then lookForResync { s with internalState := .startLookingForResync }
  else if s.mainBufferEntry ≠ 0 then { s with mainBufferEntry := 0, eorptr := 0 }
  else { s with eorptr := max (s.eorptr - 4) s.mainBufferEntry }

variable (setsMethod : List UInt8 → Bool)

/-- A message whose end was found. -/
def takeMessage (newMessageSize : Nat) (s : Parser) : Parser :=
  let message := s.contents.take newMessageSize
  let entry := s.mainBufferEntry + newMessageSize
  { s with
    internalState := if maxFullRequestSize < newMessageSize then .errorRequestTooBig else .requestIsReady
    mainBufferEntry := entry
    contents := s.contents.drop newMessageSize
    eorptr := entry
    ebFullSizeExpected := peekContentLength message
    requestStruct := { s.requestStruct with
      secondaryBuffer := message.take maxFullRequestSize
      binaryData := s.requestStruct.binaryData && !setsMethod (message.take maxFullRequestSize) } }

/-- `lookForEndOfRequest`. -/
def lookForEndOfRequest (s : Parser) : Parser :=
  if s.contents.head? = some 0x24 then
    match s.contents with
    | _ :: channelID :: high :: low :: contents =>
      let contentLength := high.toNat * 256 + low.toNat
      let entry := s.mainBufferEntry + 4
      { s with
        internalState := .requestIsReady
        mainBufferEntry := entry
        contents
        eorptr := entry
        ebFullSizeExpected := contentLength
        requestStruct := { s.requestStruct with binaryData := true, contentLength, channelID } }
    | _ => moveOverToBeginning s
  else
    let seen := s.eorptr - s.mainBufferEntry
    match findEnd (s.contents.drop seen) with
    | some n => takeMessage setsMethod (seen + n) s
    | none => moveOverToBeginning { s with eorptr := max s.eorptr (s.mainBufferSpace - 1) }

/-! ## Entity bodies and embedded data -/

/-- What `skipOverEntityBody` and `skipOverEmbeddedData` do. -/
def skipOver (s : Parser) : Parser :=
  let sizeSkipped := min (s.ebFullSizeExpected - s.ebSizeCoveredSoFar) s.contents.length
  let entry := s.mainBufferEntry + sizeSkipped
  let s := { s with
    ebSizeCoveredSoFar := s.ebSizeCoveredSoFar + sizeSkipped
    mainBufferEntry := entry
    contents := s.contents.drop sizeSkipped }
  if s.ebSizeCoveredSoFar = s.ebFullSizeExpected then
    { s with eorptr := entry, internalState := .waitingForRequestMemory }
  else s

def skipOverEntityBody : Parser → Parser := skipOver

def skipOverEmbeddedData : Parser → Parser := skipOver

/-- Octets are written to a fragment, from an offset on. -/
def write (data : List UInt8) (index offset : Nat) (entityBody : List Fragment) : List Fragment :=
  entityBody.modify index fun fragment => overwrite fragment offset data

/-- What `startFillingOutEntityBody` and `startFillingOutEmbeddedData` do, with the states they end in. -/
def startFillingOut (ready continuing : InternalState) (s : Parser) : Option Parser :=
  if s.ebFullSizeExpected = s.ebSizeCoveredSoFar then
    some { s with eorptr := s.mainBufferEntry, internalState := ready }
  else
    match hfragment : s.entityBody[s.ebCurrentIndex]? with
    | none => none
    | some fragment =>
      if fragment.length = s.ebCurrentOffset then
        startFillingOut ready continuing { s with ebCurrentIndex := s.ebCurrentIndex + 1, ebCurrentOffset := 0 }
      else
        let size := min (min (fragment.length - s.ebCurrentOffset) s.contents.length)
          (s.ebFullSizeExpected - s.ebSizeCoveredSoFar)
        if hsize : size = 0 then some { s with internalState := continuing }
        else
          startFillingOut ready continuing { s with
            entityBody := write (s.contents.take size) s.ebCurrentIndex s.ebCurrentOffset s.entityBody
            ebCurrentOffset := s.ebCurrentOffset + size
            mainBufferEntry := s.mainBufferEntry + size
            contents := s.contents.drop size
            ebSizeCoveredSoFar := s.ebSizeCoveredSoFar + size }
  termination_by (s.ebFullSizeExpected - s.ebSizeCoveredSoFar, s.entityBody.length - s.ebCurrentIndex)
  decreasing_by
    · have hlt := (List.getElem?_eq_some_iff.mp hfragment).1
      exact Prod.Lex.right _ (by omega)
    · exact Prod.Lex.left _ _ (by omega)

def startFillingOutEntityBody : Parser → Option Parser :=
  startFillingOut .entityBodyIsReady .continuingToFillOutEntityBody

def startFillingOutEmbeddedData : Parser → Option Parser :=
  startFillingOut .embeddedDataIsReady .continuingToFillOutEmbeddedData

/-- `continueProcessing`. -/
def continueProcessing (s : Parser) : Option Parser :=
  match s.internalState with
  | .waitingForRequestMemory => some s
  | .lookingForEndOfRequest => some (lookForEndOfRequest setsMethod s)
  | .startLookingForResync => some (lookForResync s)
  | .lookingForResync => some (lookForResync s)
  | .waitingForEntityBodyMemory => some s
  | .skippingOverEntityBody => some (skipOverEntityBody s)
  | .startingToFillOutEntityBody => startFillingOutEntityBody s
  | .continuingToFillOutEntityBody => some s
  | .waitingForEmbeddedDataMemory => some s
  | .skippingOverEmbeddedData => some (skipOverEmbeddedData s)
  | .startingToFillOutEmbeddedData => startFillingOutEmbeddedData s
  | .continuingToFillOutEmbeddedData => some s
  | .waitingForData => some { s with internalState := .internalError }
  | .requestIsReady => some { s with internalState := .internalError }
  | .errorRequestTooBig => some { s with internalState := .internalError }
  | .entityBodyIsReady => some { s with internalState := .internalError }
  | .embeddedDataIsReady => some { s with internalState := .internalError }
  | .internalError => some { s with internalState := .internalError }

/-! ## The interface -/

/-- The state behind a message: its entity body comes next, if it has one. -/
def behindRequest (s : Parser) : InternalState :=
  if s.ebFullSizeExpected = 0 then .waitingForRequestMemory
  else if s.requestStruct.binaryData then .waitingForEmbeddedDataMemory
  else .waitingForEntityBodyMemory

/-- `getState`. -/
def getState (s : Parser) : Option (ParserState × Parser) :=
  match s.internalState with
  | .waitingForRequestMemory => some (.waitingForRequestMemory, s)
  | .lookingForEndOfRequest => some (.waitingForData, s)
  | .continuingToFillOutEntityBody => some (.waitingForData, s)
  | .skippingOverEntityBody => some (.waitingForData, s)
  | .lookingForResync => some (.waitingForData, s)
  | .continuingToFillOutEmbeddedData => some (.waitingForData, s)
  | .skippingOverEmbeddedData => some (.waitingForData, s)
  | .startLookingForResync => some (.errorRequestTooBig, { s with internalState := .lookingForResync })
  | .waitingForEntityBodyMemory => some (.waitingForEntityBodyMemory, s)
  | .waitingForEmbeddedDataMemory => some (.waitingForEmbeddedDataMemory, s)
  | .errorRequestTooBig =>
    (continueProcessing setsMethod { s with internalState := behindRequest s }).map (.errorRequestTooBig, ·)
  | .requestIsReady =>
    (continueProcessing setsMethod { s with internalState := behindRequest s }).map (.requestIsReady, ·)
  | .entityBodyIsReady => some (.entityBodyIsReady, { s with internalState := .waitingForRequestMemory })
  | .embeddedDataIsReady => some (.embeddedDataIsReady, { s with internalState := .waitingForRequestMemory })
  | .waitingForData => some (.internalError, { s with internalState := .internalError })
  | .startingToFillOutEntityBody => some (.internalError, { s with internalState := .internalError })
  | .startingToFillOutEmbeddedData => some (.internalError, { s with internalState := .internalError })
  | .internalError => some (.internalError, { s with internalState := .internalError })

/-- `registerNewRequestStruct`. -/
def registerNewRequestStruct (newRequestStruct : RTSPIncomingMessage) (s : Parser) : Option (Bool × Parser) :=
  if s.internalState = .waitingForRequestMemory then
    (continueProcessing setsMethod { s with
      requestStruct := newRequestStruct, internalState := .lookingForEndOfRequest }).map (true, ·)
  else some (false, s)

/-- The parser with an entity body of which nothing is covered. -/
def Parser.withBody (newBody : Option (List Fragment)) (state : InternalState) (s : Parser) : Parser :=
  { s with
    internalState := state
    entityBody := newBody.getD []
    ebSizeCoveredSoFar := 0
    ebCurrentIndex := 0
    ebCurrentOffset := 0 }

/-- What `registerEntityBody` and `registerEmbeddedDataMemory` do, with the state they need and those
they set. -/
def registerBody (waiting skipping starting : InternalState) (newBody : Option (List Fragment)) (s : Parser) :
    Option (Bool × Parser) :=
  if s.internalState = waiting then
    (continueProcessing setsMethod (s.withBody newBody (if newBody.isNone then skipping else starting))).map (true, ·)
  else some (false, s)

def registerEntityBody : Option (List Fragment) → Parser → Option (Bool × Parser) :=
  registerBody setsMethod .waitingForEntityBodyMemory .skippingOverEntityBody .startingToFillOutEntityBody

def registerEmbeddedDataMemory : Option (List Fragment) → Parser → Option (Bool × Parser) :=
  registerBody setsMethod .waitingForEmbeddedDataMemory .skippingOverEmbeddedData .startingToFillOutEmbeddedData

/-- Where the engine writes: to the main buffer, or to a fragment. -/
inductive Place
  | mainBuffer (offset : Nat)
  | fragment (index offset : Nat)
  deriving DecidableEq

/-- `dataBufferSpec`. -/
structure DataBufferSpec where
  ptr : Place
  len : Nat
  deriving DecidableEq

/-- The fragment with room: how many fragments are full before it, and the offset. -/
def findRoom : List Fragment → Nat → Option (Nat × Nat)
  | [], _ => none
  | fragment :: fragments, offset =>
    if fragment.length = offset then (findRoom fragments 0).map fun r => (r.1 + 1, r.2) else some (0, offset)

/-- `getDataBufferSpec`: to a fragment. -/
def fragmentSpec (s : Parser) : Option (Option DataBufferSpec × Parser) :=
  (findRoom (s.entityBody.drop s.ebCurrentIndex) s.ebCurrentOffset).map fun r =>
    let index := s.ebCurrentIndex + r.1
    let sizePossibleToWrite := (s.entityBody.getD index []).length - r.2
    (some ⟨.fragment index r.2, min sizePossibleToWrite (s.ebFullSizeExpected - s.ebSizeCoveredSoFar)⟩,
      { s with ebCurrentIndex := index, ebCurrentOffset := r.2 })

/-- `getDataBufferSpec`. -/
def getDataBufferSpec (s : Parser) : Option (Option DataBufferSpec × Parser) :=
  if s.internalState = .lookingForEndOfRequest ∨ s.internalState = .startLookingForResync ∨
      s.internalState = .lookingForResync then
    some (some ⟨.mainBuffer s.mainBufferSpace, bufferSize - s.mainBufferSpace⟩, s)
  else if s.internalState = .continuingToFillOutEntityBody ∨
      s.internalState = .continuingToFillOutEmbeddedData then fragmentSpec s
  else if s.internalState = .skippingOverEntityBody then
    some (some ⟨.mainBuffer 0, bufferSize⟩, { s with mainBufferEntry := 0, contents := [] })
  else some (none, s)

/-- `registerDataBufferWritten`, with the octets that have been written to the place of `dataBufferSpec`. -/
def registerDataBufferWritten (data : List UInt8) (s : Parser) : Option (Bool × Parser) :=
  if s.internalState = .lookingForEndOfRequest then
    (continueProcessing setsMethod { s with contents := s.contents ++ data }).map (true, ·)
  else if s.internalState = .continuingToFillOutEntityBody ∨
      s.internalState = .continuingToFillOutEmbeddedData then
    let entityBody := write data s.ebCurrentIndex s.ebCurrentOffset s.entityBody
    let ebSizeCoveredSoFar := s.ebSizeCoveredSoFar + data.length
    let s := { s with entityBody, ebSizeCoveredSoFar, ebCurrentOffset := s.ebCurrentOffset + data.length }
    if ebSizeCoveredSoFar = s.ebFullSizeExpected then
      some (true, { s with
        eorptr := s.mainBufferEntry
        internalState :=
          if s.internalState = .continuingToFillOutEntityBody then .entityBodyIsReady else .embeddedDataIsReady })
    else some (true, s)
  else if s.internalState = .skippingOverEntityBody ∨ s.internalState = .startLookingForResync ∨
      s.internalState = .lookingForResync then
    (continueProcessing setsMethod { s with contents := s.contents ++ data }).map (false, ·)
  else some (false, s)

end Ftke.RtspParser
