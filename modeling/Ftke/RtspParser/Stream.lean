import Mathlib.Algebra.Ring.Nat
import Ftke.RtspParser.Runs

/-!
# Ftke.RtspParser.Stream

The framing of a stream of messages and `$` frames, delivered in any pieces.

* `findEnd_append`, `findEnd_drop` — the end of a header is found whatever comes behind it, and
  from wherever the search is resumed;
* `lookForEndOfRequest_spec` — the next item of the stream is ready, or not yet complete;
* `framed_of_run` — what is reported is what the stream holds, and the pointers are in order.
-/

namespace Ftke.RtspParser

/-! ## The search for the end -/

theorem twoNewlines_append : ∀ {l : List UInt8} {n : Nat}, twoNewlines l = some n → ∀ more : List UInt8,
    twoNewlines (l ++ more) = some n
  | [], _, h, _ => by simp [twoNewlines] at h
  | [_], _, h, _ => by simp [twoNewlines] at h
  | a :: b :: rest, n, h, more => by
    rw [twoNewlines] at h
    rw [List.cons_append, List.cons_append, twoNewlines]
    split at h
    · rename_i hnewline
      rw [if_pos hnewline]
      split at h
      · rename_i hsame
        rw [if_pos hsame]
        exact h
      · rename_i hother
        rw [if_neg hother]
        split at h
        · rename_i hfour
          have hlen := congrArg List.length hfour.2.2
          rw [List.length_take] at hlen
          have htwo : 2 ≤ rest.length := by
            simp only [List.length_cons, List.length_nil] at hlen
            omega
          rw [List.take_append_of_le_length htwo, if_pos hfour]
          exact h
        · contradiction
    · contradiction

theorem findEnd_pair {b c : UInt8} {n : Nat} (h : findEnd [b, c] = some n) : b = c := by
  rw [findEnd] at h
  by_cases hsame : b = c
  · exact hsame
  · have htwo : twoNewlines [b, c] = none := by
      rw [twoNewlines, if_neg hsame]
      simp
    rw [htwo] at h
    simp [findEnd, twoNewlines] at h

/-- Where there is no newline pair, there is none with more octets behind, if the end is found later. -/
theorem twoNewlines_none_append : ∀ {a b : UInt8} {rest : List UInt8} {n : Nat},
    twoNewlines (a :: b :: rest) = none → findEnd (b :: rest) = some n → ∀ more : List UInt8,
      twoNewlines (a :: b :: rest ++ more) = none
  | _, _, [], _, _, hlater, _ => by simp [findEnd, twoNewlines] at hlater
  | a, b, [c], n, hnone, hlater, more => by
    have hsame := findEnd_pair hlater
    have hlf : lf ≠ cr := by decide
    rw [twoNewlines] at hnone
    rw [List.cons_append, List.cons_append, twoNewlines, List.singleton_append]
    split
    · rename_i hnewline
      rw [if_pos hnewline] at hnone
      split
      · rename_i hpair
        rw [if_pos hpair] at hnone
        exact hnone
      · refine if_neg fun hfour => hlf ?_
        rw [List.take_succ_cons] at hfour
        rw [← hfour.2.1, hsame]
        exact (List.cons.inj hfour.2.2).1
    · rfl
  | _, _, _ :: _ :: _, _, hnone, _, _ => hnone

theorem findEnd_append (more : List UInt8) : ∀ {l : List UInt8} {n : Nat}, findEnd l = some n →
    findEnd (l ++ more) = some n
  | [], _, h => by simp [findEnd] at h
  | [_], _, h => by simp [findEnd, twoNewlines] at h
  | a :: b :: rest, n, h => by
    rw [findEnd] at h
    rw [List.cons_append, findEnd]
    cases htwo : twoNewlines (a :: b :: rest) with
    | some m =>
      have hmore := twoNewlines_append htwo more
      rw [List.cons_append] at hmore
      rw [htwo] at h
      rw [hmore]
      exact h
    | none =>
      rw [htwo] at h
      obtain ⟨m, hm, heq⟩ := Option.map_eq_some_iff.mp h
      have hnone := twoNewlines_none_append htwo hm more
      rw [List.cons_append] at hnone
      rw [hnone]
      simp only [findEnd_append more hm, Option.map_some, heq]

theorem twoNewlines_short {l : List UInt8} {n : Nat} (h : twoNewlines l = some n) : n ≤ 4 := by
  rw [twoNewlines.eq_def] at h
  split at h
  · split at h
    · split at h
      · have hn := Option.some.inj h
        omega
      · split at h
        · have hn := Option.some.inj h
          omega
        · contradiction
    · contradiction
  · contradiction

theorem findEnd_drop : ∀ {k : Nat} {l : List UInt8}, findEnd l = some l.length → k + 4 ≤ l.length →
    findEnd (l.drop k) = some (l.length - k)
  | 0, l, h, _ => h
  | k + 1, [], _, hle => absurd hle (by simp)
  | k + 1, a :: rest, h, hle => by
    rw [List.length_cons] at hle
    rw [findEnd, List.length_cons] at h
    cases htwo : twoNewlines (a :: rest) with
    | some m =>
      rw [htwo] at h
      have hshort := twoNewlines_short htwo
      have hlen := Option.some.inj h
      omega
    | none =>
      rw [htwo] at h
      obtain ⟨m, hm, heq⟩ := Option.map_eq_some_iff.mp h
      have hrest : findEnd rest = some rest.length := by
        rw [hm]
        congr 1
        omega
      rw [List.drop_succ_cons, findEnd_drop hrest (by omega), List.length_cons]
      congr 1
      omega

/-! ## Items -/

/-- What a stream is made of. -/
inductive Item
  | message (header body : List UInt8)
  | frame (channelID : UInt8) (data : List UInt8)
  deriving DecidableEq

/-- The octets before the body, or before the data. -/
def Item.head : Item → List UInt8
  | .message header _ => header
  | .frame channelID data => [0x24, channelID, UInt8.ofNat (data.length / 256), UInt8.ofNat (data.length % 256)]

def Item.body : Item → List UInt8
  | .message _ body => body
  | .frame _ data => data

def Item.binaryData : Item → Bool
  | .message _ _ => false
  | .frame _ _ => true

/-- The message that is reported. -/
def Item.request : Item → RTSPIncomingMessage
  | .message header _ => { RTSPIncomingMessage.reset with secondaryBuffer := header }
  | .frame channelID data =>
    { RTSPIncomingMessage.reset with binaryData := true, channelID, contentLength := data.length }

/-- A header ends with its first two newlines, does not begin with `$`, and the number that it
is searched for is the length of the body; the length of a frame is a `uint16`. -/
def Item.WellFormed : Item → Prop
  | .message header body => 4 ≤ header.length ∧ header.length ≤ maxFullRequestSize ∧
      findEnd header = some header.length ∧ header.head? ≠ some 0x24 ∧ peekContentLength header = body.length
  | .frame _ data => data.length < 65536

def octets (items : List Item) : List UInt8 := items.flatMap fun item => item.head ++ item.body

theorem octets_cons (item : Item) (items : List Item) :
    octets (item :: items) = item.head ++ (item.body ++ octets items) := by
  rw [octets, List.flatMap_cons, List.append_assoc]
  rfl

/-- What is reported of an item, with or without memory for its body. -/
def Item.reports (item : Item) (supplied : Bool) : List Report :=
  .request item.request ::
    if item.body.isEmpty then [] else if supplied then [.body item.body] else [.skipped]

/-- What is reported of the items. -/
def expected (items : List (Item × Bool)) : List Report := items.flatMap fun item => item.1.reports item.2

theorem expected_snoc (items : List (Item × Bool)) (item : Item) (supplied : Bool) :
    expected (items ++ [(item, supplied)]) = expected items ++ item.reports supplied := by
  rw [expected, List.flatMap_append, List.flatMap_singleton]
  rfl

theorem four_le_head {item : Item} (h : item.WellFormed) : 4 ≤ item.head.length := by
  cases item with
  | message header body => exact h.1
  | frame channelID data => exact Nat.le_refl 4

/-! ## The next item -/

variable {setsMethod : List UInt8 → Bool} {s t : Parser} {unwritten : List UInt8} {item : Item} {later rest : List Item}

/-- Where the search of a header is resumed. -/
def Item.Seen (k : Nat) : Item → Prop
  | .message header _ => k + 4 ≤ header.length
  | .frame _ _ => True

/-- The item is ready, and its body is next. -/
structure Ready (unwritten : List UInt8) (item : Item) (later : List Item) (t : Parser) : Prop where
  internalState : t.internalState = .requestIsReady
  request : t.requestStruct = item.request
  expected : t.ebFullSizeExpected = item.body.length
  stream : t.contents ++ unwritten = item.body ++ octets later

/-- The next item is not complete, up to its body. -/
structure Searching (unwritten : List UInt8) (rest : List Item) (t : Parser) : Prop where
  internalState : t.internalState = .lookingForEndOfRequest
  request : t.requestStruct = .reset
  stream : t.contents ++ unwritten = octets rest
  incomplete : ∀ item ∈ rest.head?, t.contents.length < item.head.length
  seen : ∀ item ∈ rest.head?, item.Seen (t.eorptr - t.mainBufferEntry)

theorem moveOverToBeginning_searching (hstate : s.internalState = .lookingForEndOfRequest)
    (hrequest : s.requestStruct = .reset) (hstream : s.contents ++ unwritten = octets rest)
    (hshort : s.contents.length < bufferSize) (hincomplete : ∀ item ∈ rest.head?, s.contents.length < item.head.length)
    (hgood : ∀ item ∈ rest.head?, item.WellFormed)
    (hseen : ∀ item ∈ rest.head?, item.Seen (s.eorptr - s.mainBufferEntry - 4)) :
    Searching unwritten rest (moveOverToBeginning s) := by
  rw [moveOverToBeginning, if_neg (by omega)]
  split
  · refine ⟨hstate, hrequest, hstream, hincomplete, fun item hitem => ?_⟩
    have hfour := four_le_head (hgood item hitem)
    cases item with
    | message header body =>
      simp only [Item.Seen, Item.head] at hfour ⊢
      omega
    | frame channelID data => trivial
  · rename_i hentry
    have hzero : s.mainBufferEntry = 0 := by omega
    refine ⟨hstate, hrequest, hstream, hincomplete, fun item hitem => ?_⟩
    have hat := hseen item hitem
    have heq : max (s.eorptr - 4) s.mainBufferEntry - s.mainBufferEntry = s.eorptr - s.mainBufferEntry - 4 := by omega
    simp only [heq]
    exact hat

variable {data header body more missing : List UInt8}

theorem frame_length (h : data.length < 65536) :
    (UInt8.ofNat (data.length / 256)).toNat * 256 + (UInt8.ofNat (data.length % 256)).toNat = data.length := by
  rw [UInt8.toNat_ofNat', UInt8.toNat_ofNat']
  omega

theorem complete_or_part {contents head behind : List UInt8} (h : contents ++ unwritten = head ++ behind) :
    (∃ more, contents = head ++ more ∧ more ++ unwritten = behind) ∨
      ∃ missing, head = contents ++ missing ∧ contents.length < head.length := by
  rcases List.append_eq_append_iff.mp h with ⟨missing, hhead, hbehind⟩ | ⟨more, hcontents, hbehind⟩
  · cases missing with
    | nil => exact Or.inl ⟨[], by rw [hhead, List.append_nil, List.append_nil], hbehind⟩
    | cons ch missing =>
      refine Or.inr ⟨ch :: missing, hhead, ?_⟩
      rw [hhead, List.length_append, List.length_cons]
      omega
  · exact Or.inl ⟨more, hcontents, hbehind.symm⟩

theorem lookForEndOfRequest_message (hgood : (Item.message header body).WellFormed)
    (hrequest : s.requestStruct = .reset) (hcontents : s.contents = header ++ more)
    (hstream : more ++ unwritten = body ++ octets later)
    (hseen : s.eorptr - s.mainBufferEntry + 4 ≤ header.length) :
    Ready unwritten (.message header body) later (lookForEndOfRequest setsMethod s) := by
  obtain ⟨hfour, hlong, hend, hdollar, hpeek⟩ := hgood
  have hhead : s.contents.head? ≠ some 0x24 := by
    rw [hcontents, List.head?_append_of_ne_nil _ (List.ne_nil_of_length_pos (by omega))]
    exact hdollar
  have hfound : findEnd (s.contents.drop (s.eorptr - s.mainBufferEntry)) =
      some (header.length - (s.eorptr - s.mainBufferEntry)) := by
    rw [hcontents, List.drop_append_of_le_length (by omega)]
    exact findEnd_append more (findEnd_drop hend hseen)
  have hsize : s.eorptr - s.mainBufferEntry + (header.length - (s.eorptr - s.mainBufferEntry)) = header.length := by
    omega
  rw [lookForEndOfRequest, if_neg hhead]
  simp only [hfound, hsize]
  refine ⟨if_neg (Nat.not_lt.mpr hlong), ?_, ?_, ?_⟩
  · simp only [takeMessage, hcontents, List.take_left, hrequest, List.take_of_length_le hlong]
    rfl
  · simp only [takeMessage, hcontents, List.take_left]
    exact hpeek
  · simp only [takeMessage, hcontents, List.drop_left]
    exact hstream

theorem findEnd_part {k : Nat} (hend : findEnd header = some header.length)
    (hk : k + 4 ≤ header.length) {part : List UInt8} (hpart : header = part ++ missing)
    (hshort : part.length < header.length) : findEnd (part.drop k) = none := by
  cases hfound : findEnd (part.drop k) with
  | none => rfl
  | some n =>
    have hle := findEnd_le hfound
    rw [List.length_drop] at hle
    have hall := findEnd_append missing hfound
    have hdrop := findEnd_drop hend hk
    have hsplit : header.drop k = part.drop k ++ missing := by
      rw [hpart, List.drop_append_of_le_length (by omega)]
    rw [hsplit, hall] at hdrop
    have hlen := Option.some.inj hdrop
    omega

theorem lookForEndOfRequest_part (hgood : (Item.message header body).WellFormed)
    (hstate : s.internalState = .lookingForEndOfRequest) (hrequest : s.requestStruct = .reset)
    (hstream : s.contents ++ unwritten = octets (.message header body :: later))
    (hpart : header = s.contents ++ missing) (hshort : s.contents.length < header.length)
    (hseen : s.eorptr - s.mainBufferEntry + 4 ≤ header.length) :
    Searching unwritten (.message header body :: later) (lookForEndOfRequest setsMethod s) := by
  have hkeep := hgood
  obtain ⟨hfour, hlong, hend, hdollar, -⟩ := hgood
  have hhead : s.contents.head? ≠ some 0x24 := by
    cases hcontents : s.contents with
    | nil => simp
    | cons ch rest =>
      rw [hpart, hcontents] at hdollar
      exact hdollar
  rw [lookForEndOfRequest, if_neg hhead]
  simp only [findEnd_part hend hseen hpart hshort]
  have hlimit : maxFullRequestSize = bufferSize := rfl
  refine moveOverToBeginning_searching hstate hrequest hstream (by simp only; omega) ?_ ?_ ?_
  · intro item hitem
    rw [← Option.some.inj hitem]
    exact hshort
  · intro item hitem
    rw [← Option.some.inj hitem]
    exact hkeep
  · intro item hitem
    rw [← Option.some.inj hitem]
    simp only [Item.Seen, Parser.mainBufferSpace]
    omega

theorem lookForEndOfRequest_frame {channelID : UInt8} (hgood : data.length < 65536)
    (hrequest : s.requestStruct = .reset) (hcontents : s.contents = (Item.frame channelID data).head ++ more)
    (hstream : more ++ unwritten = data ++ octets later) :
    Ready unwritten (.frame channelID data) later (lookForEndOfRequest setsMethod s) := by
  have hhead : s.contents.head? = some 0x24 := by
    rw [hcontents]
    rfl
  have hlength := frame_length hgood
  rw [lookForEndOfRequest, if_pos hhead, hcontents]
  simp only [Item.head, List.cons_append, List.nil_append]
  refine ⟨rfl, ?_, hlength, hstream⟩
  simp only [hrequest, hlength, Item.request]

theorem lookForEndOfRequest_partFrame {channelID : UInt8} (hgood : (Item.frame channelID data).WellFormed)
    (hstate : s.internalState = .lookingForEndOfRequest) (hrequest : s.requestStruct = .reset)
    (hstream : s.contents ++ unwritten = octets (.frame channelID data :: later))
    (hpart : (Item.frame channelID data).head = s.contents ++ missing)
    (hshort : s.contents.length < (Item.frame channelID data).head.length) :
    Searching unwritten (.frame channelID data :: later) (lookForEndOfRequest setsMethod s) := by
  have hfour : s.contents.length < 4 := hshort
  have hmove : ∀ eorptr, Searching unwritten (.frame channelID data :: later) (moveOverToBeginning { s with eorptr }) := by
    intro eorptr
    refine moveOverToBeginning_searching hstate hrequest hstream (by simp only [bufferSize]; omega) ?_ ?_ ?_
    · intro item hitem
      rw [← Option.some.inj hitem]
      exact hshort
    · intro item hitem
      rw [← Option.some.inj hitem]
      exact hgood
    · intro item hitem
      rw [← Option.some.inj hitem]
      trivial
  rw [lookForEndOfRequest]
  split
  · split
    · rename_i hcontents
      rw [hcontents] at hfour
      simp only [List.length_cons] at hfour
      omega
    · exact hmove s.eorptr
  · rename_i hhead
    have hempty : s.contents = [] := by
      cases hcontents : s.contents with
      | nil => rfl
      | cons ch rest =>
        rw [hcontents] at hpart hhead
        exact absurd (congrArg some (List.cons.inj hpart).1.symm) hhead
    simp only [hempty, List.drop_nil, findEnd]
    rw [← hempty]
    exact hmove _

/-- **The next item is ready** when it is complete up to its body, and only then. -/
theorem lookForEndOfRequest_spec (hstate : s.internalState = .lookingForEndOfRequest)
    (hrequest : s.requestStruct = .reset) (hstream : s.contents ++ unwritten = octets rest)
    (hgood : ∀ item ∈ rest, item.WellFormed)
    (hseen : ∀ item ∈ rest.head?, item.Seen (s.eorptr - s.mainBufferEntry)) :
    (∃ item later, rest = item :: later ∧ Ready unwritten item later (lookForEndOfRequest setsMethod s)) ∨
      Searching unwritten rest (lookForEndOfRequest setsMethod s) := by
  cases rest with
  | nil =>
    have hempty : s.contents = [] := (List.append_eq_nil_iff.mp hstream).1
    refine Or.inr ?_
    rw [lookForEndOfRequest, hempty]
    simp only [List.head?_nil, reduceCtorEq, if_false, List.drop_nil, findEnd]
    refine moveOverToBeginning_searching hstate hrequest ?_ ?_ ?_ ?_ ?_
    · rw [hempty] at hstream
      exact hstream
    · exact (by decide : 0 < bufferSize)
    · exact fun item hitem => absurd hitem (Option.not_mem_none item)
    · exact fun item hitem => absurd hitem (Option.not_mem_none item)
    · exact fun item hitem => absurd hitem (Option.not_mem_none item)
  | cons item later =>
    have hitem := hgood item List.mem_cons_self
    have hkeep := hstream
    rw [octets_cons] at hstream
    have hat := hseen item rfl
    cases item with
    | message header body =>
      rcases complete_or_part hstream with ⟨more, hcontents, hbehind⟩ | ⟨missing, hpart, hshort⟩
      · exact Or.inl ⟨_, later, rfl, lookForEndOfRequest_message hitem hrequest hcontents hbehind hat⟩
      · exact Or.inr (lookForEndOfRequest_part hitem hstate hrequest hkeep hpart hshort hat)
    | frame channelID data =>
      rcases complete_or_part hstream with ⟨more, hcontents, hbehind⟩ | ⟨missing, hpart, hshort⟩
      · exact Or.inl ⟨_, later, rfl, lookForEndOfRequest_frame hitem hrequest hcontents hbehind⟩
      · exact Or.inr (lookForEndOfRequest_partFrame hitem hstate hrequest hkeep hpart hshort)

/-! ## Runs over a stream -/

/-- The states in which an item's body is asked for, filled out and ready. -/
def Item.waiting (item : Item) : InternalState :=
  if item.binaryData then .waitingForEmbeddedDataMemory else .waitingForEntityBodyMemory

def Item.continuing (item : Item) : InternalState :=
  if item.binaryData then .continuingToFillOutEmbeddedData else .continuingToFillOutEntityBody

def Item.ready (item : Item) : InternalState :=
  if item.binaryData then .embeddedDataIsReady else .entityBodyIsReady

/-- Where the parser is in a stream: the items done, with what was supplied for them, the items to
come, and what has been reported. -/
inductive At (unwritten : List UInt8) (s : Parser) (reports : List Report) : List (Item × Bool) → List Item → Prop
  | between {done : List (Item × Bool)} {rest : List Item} (hstate : s.internalState = .waitingForRequestMemory)
      (hstream : s.contents ++ unwritten = octets rest) (hreports : reports = expected done) :
      At unwritten s reports done rest
  | looking {done : List (Item × Bool)} {rest : List Item} (hsearching : Searching unwritten rest s)
      (hreports : reports = expected done) : At unwritten s reports done rest
  | found {done : List (Item × Bool)} {item : Item} {later : List Item} (hready : Ready unwritten item later s)
      (hreports : reports = expected done) : At unwritten s reports done (item :: later)
  | asked {done : List (Item × Bool)} {item : Item} {later : List Item} (hstate : s.internalState = item.waiting)
      (hexpected : s.ebFullSizeExpected = item.body.length)
      (hstream : s.contents ++ unwritten = item.body ++ octets later)
      (hreports : reports = expected done ++ [.request item.request]) : At unwritten s reports done (item :: later)
  | filling {done : List (Item × Bool)} {item : Item} {later : List Item} (hstate : s.internalState = item.continuing)
      (hexpected : s.ebFullSizeExpected = item.body.length)
      (hstream : s.filled ++ (s.contents ++ unwritten) = item.body ++ octets later)
      (hreports : reports = expected done ++ [.request item.request]) : At unwritten s reports done (item :: later)
  | filled {done : List (Item × Bool)} {item : Item} {later : List Item} (hstate : s.internalState = item.ready)
      (hbody : s.entityBody.flatten.take s.ebFullSizeExpected = item.body) (hsome : item.body ≠ [])
      (hstream : s.contents ++ unwritten = octets later)
      (hreports : reports = expected done ++ [.request item.request]) : At unwritten s reports done (item :: later)
  | skipping {done : List (Item × Bool)} {item : Item} {later : List Item}
      (hstate : s.internalState = .skippingOverEntityBody) (hexpected : s.ebFullSizeExpected = item.body.length)
      (hstream : s.contents ++ unwritten = item.body.drop s.ebSizeCoveredSoFar ++ octets later)
      (hreports : reports = expected done ++ [.request item.request, .skipped]) :
      At unwritten s reports done (item :: later)

/-- The parser is somewhere in the stream of these items. -/
def Along (items : List Item) (unwritten : List UInt8) (s : Parser) (reports : List Report) : Prop :=
  ∃ done rest, items = done.map (·.1) ++ rest ∧ At unwritten s reports done rest

variable {items : List Item} {reports : List Report} {done : List (Item × Bool)}

theorem At.along (h : At unwritten s reports done rest) (hitems : items = done.map (·.1) ++ rest) :
    Along items unwritten s reports := ⟨done, rest, hitems, h⟩

theorem along_between (hitems : items = done.map (·.1) ++ item :: later) (supplied : Bool)
    (hstate : s.internalState = .waitingForRequestMemory) (hstream : s.contents ++ unwritten = octets later)
    (hreports : reports = expected done ++ item.reports supplied) : Along items unwritten s reports := by
  refine ⟨done ++ [(item, supplied)], later, ?_, .between hstate hstream ?_⟩
  · rw [hitems, List.map_append, List.append_assoc]
    rfl
  · rw [hreports, expected_snoc]

theorem reports_of_nil (hbody : item.body = []) (supplied : Bool) : item.reports supplied = [.request item.request] := by
  rw [Item.reports, hbody]
  rfl

theorem reports_of_ne_nil (hbody : item.body ≠ []) (supplied : Bool) :
    item.reports supplied = [.request item.request, if supplied then .body item.body else .skipped] := by
  rw [Item.reports, List.isEmpty_eq_false_iff.mpr hbody]
  cases supplied
  · rfl
  · rfl

theorem request_binaryData (item : Item) : item.request.binaryData = item.binaryData := by
  cases item
  · rfl
  · rfl

theorem getState_quiet (hstate : s.internalState ∈ ([.waitingForRequestMemory, .lookingForEndOfRequest,
    .waitingForEntityBodyMemory, .waitingForEmbeddedDataMemory, .continuingToFillOutEntityBody,
    .continuingToFillOutEmbeddedData, .skippingOverEntityBody] : List InternalState)) {r : ParserState × Parser}
    (hr : getState setsMethod s = some r) : r.2 = s ∧ reportOf r.1 s = [] := by
  rw [getState] at hr
  simp only [List.mem_cons, List.not_mem_nil, or_false] at hstate
  rcases hstate with hstate | hstate | hstate | hstate | hstate | hstate | hstate
  all_goals
    rw [hstate] at hr
    rw [← Option.some.inj hr]
    exact ⟨rfl, rfl⟩

theorem Item.waiting_cases (item : Item) :
    item.waiting = .waitingForEmbeddedDataMemory ∨ item.waiting = .waitingForEntityBodyMemory := by
  cases item
  · exact Or.inr rfl
  · exact Or.inl rfl

theorem Item.continuing_cases (item : Item) :
    item.continuing = .continuingToFillOutEntityBody ∨ item.continuing = .continuingToFillOutEmbeddedData := by
  cases item
  · exact Or.inl rfl
  · exact Or.inr rfl

theorem Item.ready_cases (item : Item) : item.ready = .entityBodyIsReady ∨ item.ready = .embeddedDataIsReady := by
  cases item
  · exact Or.inl rfl
  · exact Or.inr rfl

/-- **`getState`** reports what was found, and what was filled. -/
theorem along_getState (h : Along items unwritten s reports) {r : ParserState × Parser}
    (hr : getState setsMethod s = some r) : Along items unwritten r.2 (reports ++ reportOf r.1 s) := by
  obtain ⟨done, rest, hitems, hat⟩ := h
  cases hat with
  | between hstate hstream hreports =>
    obtain ⟨hsame, hnone⟩ := getState_quiet (by rw [hstate]; decide) hr
    rw [hsame, hnone, List.append_nil]
    exact (At.between hstate hstream hreports).along hitems
  | looking hsearching hreports =>
    obtain ⟨hsame, hnone⟩ := getState_quiet (by rw [hsearching.internalState]; decide) hr
    rw [hsame, hnone, List.append_nil]
    exact (At.looking hsearching hreports).along hitems
  | @found item later hready hreports =>
    have hstream := hready.stream
    have hlength := hready.expected
    rw [getState, hready.internalState] at hr
    simp only at hr
    rw [continueProcessing_behindRequest] at hr
    have hfound : reportOf r.1 s = [.request item.request] := by
      rw [← Option.some.inj hr, ← hready.request]
      rfl
    rw [hfound, hreports, ← Option.some.inj hr]
    by_cases hempty : item.body = []
    · rw [hempty] at hstream hlength
      refine along_between hitems true (if_pos hlength) hstream ?_
      rw [reports_of_nil hempty]
    · refine At.along (.asked ?_ hlength hstream rfl) hitems
      have hpos : ¬s.ebFullSizeExpected = 0 := by
        rw [hlength]
        exact fun hzero => hempty (List.length_eq_zero_iff.mp hzero)
      simp only [behindRequest, hpos, if_false, hready.request, request_binaryData, Item.waiting]
  | @asked item later hstate hexpected hstream hreports =>
    obtain ⟨hsame, hnone⟩ := getState_quiet (by rcases item.waiting_cases with h | h <;> rw [hstate, h] <;> decide) hr
    rw [hsame, hnone, List.append_nil]
    exact (At.asked hstate hexpected hstream hreports).along hitems
  | @filling item later hstate hexpected hstream hreports =>
    obtain ⟨hsame, hnone⟩ := getState_quiet (by rcases item.continuing_cases with h | h <;> rw [hstate, h] <;> decide) hr
    rw [hsame, hnone, List.append_nil]
    exact (At.filling hstate hexpected hstream hreports).along hitems
  | @filled item later hstate hbody hsome hstream hreports =>
    have hready : r.2 = { s with internalState := .waitingForRequestMemory } ∧ reportOf r.1 s = [.body item.body] := by
      rw [← hbody]
      rw [getState] at hr
      rcases item.ready_cases with hready | hready
      · rw [hstate, hready] at hr
        rw [← Option.some.inj hr]
        exact ⟨rfl, rfl⟩
      · rw [hstate, hready] at hr
        rw [← Option.some.inj hr]
        exact ⟨rfl, rfl⟩
    rw [hready.1, hready.2, hreports]
    refine along_between hitems true rfl hstream ?_
    rw [reports_of_ne_nil hsome, List.append_assoc]
    rfl
  | skipping hstate hexpected hstream hreports =>
    obtain ⟨hsame, hnone⟩ := getState_quiet (by rw [hstate]; decide) hr
    rw [hsame, hnone, List.append_nil]
    exact (At.skipping hstate hexpected hstream hreports).along hitems

theorem along_lookForEndOfRequest (hgood : ∀ item ∈ items, item.WellFormed) (hitems : items = done.map (·.1) ++ rest)
    (hreports : reports = expected done) (hstate : s.internalState = .lookingForEndOfRequest)
    (hrequest : s.requestStruct = .reset) (hstream : s.contents ++ unwritten = octets rest)
    (hseen : ∀ item ∈ rest.head?, item.Seen (s.eorptr - s.mainBufferEntry)) :
    Along items unwritten (lookForEndOfRequest setsMethod s) reports := by
  have hrest : ∀ item ∈ rest, item.WellFormed := fun item hitem =>
    hgood item (by rw [hitems]; exact List.mem_append_right _ hitem)
  have hspec : (∃ item later, rest = item :: later ∧ Ready unwritten item later (lookForEndOfRequest setsMethod s)) ∨
      Searching unwritten rest (lookForEndOfRequest setsMethod s) :=
    lookForEndOfRequest_spec hstate hrequest hstream hrest hseen
  rcases hspec with ⟨item, later, rfl, hready⟩ | hsearching
  · exact (At.found hready hreports).along hitems
  · exact (At.looking hsearching hreports).along hitems

variable {r : Bool × Parser}

/-- **`registerNewRequestStruct`** starts the search for the next item. -/
theorem along_registerNewRequestStruct (h : Along items unwritten s reports) (hphase : Phase s)
    (hgood : ∀ item ∈ items, item.WellFormed)
    (hr : registerNewRequestStruct setsMethod .reset s = some r) : Along items unwritten r.2 reports := by
  rw [registerNewRequestStruct] at hr
  split at hr
  · rename_i hwaiting
    obtain ⟨done, rest, hitems, hat⟩ := h
    rw [Phase, hwaiting] at hphase
    rw [← Option.some.inj hr]
    have hboth : s.contents ++ unwritten = octets rest ∧ reports = expected done := by
      cases hat with
      | between hstate hstream hreports => exact ⟨hstream, hreports⟩
      | looking hsearching => simp [hsearching.internalState] at hwaiting
      | found hready => simp [hready.internalState] at hwaiting
      | @asked item later hstate => rcases item.waiting_cases with h | h <;> simp [hstate, h] at hwaiting
      | @filling item later hstate => rcases item.continuing_cases with h | h <;> simp [hstate, h] at hwaiting
      | @filled item later hstate => rcases item.ready_cases with h | h <;> simp [hstate, h] at hwaiting
      | skipping hstate => simp [hstate] at hwaiting
    refine along_lookForEndOfRequest hgood hitems hboth.2 rfl rfl hboth.1 fun item hitem => ?_
    have hfour := four_le_head (hgood item (by
      rw [hitems]
      exact List.mem_append_right _ (List.mem_of_mem_head? hitem)))
    simp only [hphase.eorptr, Nat.sub_self]
    cases item with
    | message header body =>
      simp only [Item.Seen, Nat.zero_add]
      exact hfour
    | frame channelID data => trivial
  · rw [← Option.some.inj hr]
    exact h

/-! ## Bodies -/

theorem skipOver_stream (hexpected : s.ebFullSizeExpected = item.body.length)
    (hle : s.ebSizeCoveredSoFar ≤ s.ebFullSizeExpected)
    (hstream : s.contents ++ unwritten = item.body.drop s.ebSizeCoveredSoFar ++ octets later) :
    ((skipOver s).internalState = .waitingForRequestMemory ∧ (skipOver s).contents ++ unwritten = octets later) ∨
      ((skipOver s).internalState = s.internalState ∧ (skipOver s).ebFullSizeExpected = item.body.length ∧
        s.ebSizeCoveredSoFar + s.contents.length < s.ebFullSizeExpected ∧
        (skipOver s).contents ++ unwritten = item.body.drop (skipOver s).ebSizeCoveredSoFar ++ octets later) := by
  have hlen : (item.body.drop s.ebSizeCoveredSoFar).length = s.ebFullSizeExpected - s.ebSizeCoveredSoFar := by
    rw [List.length_drop, hexpected]
  rw [skipOver]
  simp only
  split
  · rename_i hdone
    refine Or.inl ⟨rfl, ?_⟩
    have hmin : min (s.ebFullSizeExpected - s.ebSizeCoveredSoFar) s.contents.length =
        (item.body.drop s.ebSizeCoveredSoFar).length := by omega
    have hdrop := congrArg (List.drop (item.body.drop s.ebSizeCoveredSoFar).length) hstream
    rw [List.drop_left, List.drop_append_of_le_length (by omega)] at hdrop
    simp only [hmin]
    exact hdrop
  · rename_i hmore
    have hmin : min (s.ebFullSizeExpected - s.ebSizeCoveredSoFar) s.contents.length = s.contents.length := by omega
    refine Or.inr ⟨rfl, hexpected, by omega, ?_⟩
    have hdrop := congrArg (List.drop s.contents.length) hstream
    rw [List.drop_left, List.drop_append_of_le_length (by omega), List.drop_drop] at hdrop
    simp only [hmin, List.drop_length, List.nil_append]
    exact hdrop

theorem along_filled (hitems : items = done.map (·.1) ++ item :: later)
    (hreports : reports = expected done ++ [.request item.request]) (hfilling : Filling s)
    (hexpected : s.ebFullSizeExpected = item.body.length)
    (hstream : s.filled ++ (s.contents ++ unwritten) = item.body ++ octets later) (hsome : item.body ≠ [])
    (houtcome : s.internalState = item.ready ∧ s.ebSizeCoveredSoFar = s.ebFullSizeExpected ∨
      s.internalState = item.continuing) : Along items unwritten s reports := by
  rcases houtcome with ⟨hstate, hall⟩ | hstate
  · have henough := hfilling.enough
    have hlen : s.filled.length = item.body.length := by
      rw [Parser.filled, List.length_take, hall, ← hexpected]
      omega
    obtain ⟨hbody, hrest⟩ := List.append_inj hstream hlen
    rw [Parser.filled, hall] at hbody
    exact (At.filled hstate hbody hsome hrest hreports).along hitems
  · exact (At.filling hstate hexpected hstream hreports).along hitems

theorem along_fill (hitems : items = done.map (·.1) ++ item :: later)
    (hreports : reports = expected done ++ [.request item.request])
    (hexpected : s.ebFullSizeExpected = item.body.length) (hstream : s.contents ++ unwritten = item.body ++ octets later)
    (hsome : item.body ≠ []) {body : List Fragment} (henough : s.ebFullSizeExpected ≤ body.flatten.length)
    (state : InternalState)
    (ht : startFillingOut item.ready item.continuing (s.withBody (some body) state) = some t) :
    Along items unwritten t reports := by
  obtain ⟨other, hother, hfilled⟩ := startFillingOut_spec item.ready item.continuing _ (filling_withBody henough state)
  obtain rfl := Option.some.inj (ht.symm.trans hother)
  refine along_filled hitems hreports hfilled.filling ?_ ?_ hsome ?_
  · rw [hfilled.expected]
    exact hexpected
  · rw [← List.append_assoc, hfilled.octets, Parser.filled, Parser.withBody, List.take_zero, List.nil_append]
    exact hstream
  · rcases hfilled.outcome with ⟨hstate, hall, -⟩ | ⟨hstate, -, -⟩
    · exact Or.inl ⟨hstate, hall⟩
    · exact Or.inr hstate

theorem along_skip (hitems : items = done.map (·.1) ++ item :: later)
    (hreports : reports = expected done ++ [.request item.request])
    (hexpected : s.ebFullSizeExpected = item.body.length) (hstream : s.contents ++ unwritten = item.body ++ octets later)
    (hsome : item.body ≠ []) {state : InternalState}
    (hstate : state = .skippingOverEntityBody ∨ s.ebFullSizeExpected ≤ s.contents.length) :
    Along items unwritten (skipOver (s.withBody none state)) (reports ++ [.skipped]) := by
  rcases skipOver_stream (s := s.withBody none state) hexpected (Nat.zero_le _) hstream with
    ⟨hdone, hrest⟩ | ⟨hsame, hlength, hmore, hrest⟩
  · refine along_between hitems false hdone hrest ?_
    rw [reports_of_ne_nil hsome, hreports, List.append_assoc]
    rfl
  · refine At.along (.skipping ?_ hlength hrest ?_) hitems
    · rw [hsame]
      refine hstate.resolve_right fun hall => ?_
      simp only [Parser.withBody] at hmore
      omega
    · rw [hreports, List.append_assoc]
      rfl

theorem Along.asked (h : Along items unwritten s reports) (hphase : Phase s) {waiting : InternalState}
    (hwaiting : waiting = .waitingForEntityBodyMemory ∨ waiting = .waitingForEmbeddedDataMemory)
    (hstate : s.internalState = waiting) : ∃ done item later, items = done.map (·.1) ++ item :: later ∧
      item.waiting = waiting ∧ reports = expected done ++ [.request item.request] ∧
      s.ebFullSizeExpected = item.body.length ∧ s.contents ++ unwritten = item.body ++ octets later ∧
      item.body ≠ [] := by
  obtain ⟨done, rest, hitems, hat⟩ := h
  have hpos : 0 < s.ebFullSizeExpected := by
    rw [Phase] at hphase
    rcases hwaiting with hwaiting | hwaiting
    · rw [hstate, hwaiting] at hphase
      exact hphase.2
    · rw [hstate, hwaiting] at hphase
      exact hphase.2
  cases hat with
  | between hother => rcases hwaiting with h | h <;> simp [hother, h] at hstate
  | looking hsearching => rcases hwaiting with h | h <;> simp [hsearching.internalState, h] at hstate
  | found hready => rcases hwaiting with h | h <;> simp [hready.internalState, h] at hstate
  | @asked item later hother hexpected hstream hreports =>
    refine ⟨done, item, later, hitems, hother.symm.trans hstate, hreports, hexpected, hstream, fun hnil => ?_⟩
    rw [hexpected, hnil] at hpos
    exact absurd hpos (Nat.lt_irrefl 0)
  | @filling item later hother =>
    rcases item.continuing_cases with h | h <;> rcases hwaiting with h' | h' <;> simp [hother, h, h'] at hstate
  | @filled item later hother =>
    rcases item.ready_cases with h | h <;> rcases hwaiting with h' | h' <;> simp [hother, h, h'] at hstate
  | skipping hother => rcases hwaiting with h | h <;> simp [hother, h] at hstate

/-- The reports with one more, if the body is skipped. -/
def afterBody (newBody : Option (List Fragment)) (accepted : Bool) (reports : List Report) : List Report :=
  if accepted && newBody.isNone then reports ++ [.skipped] else reports

/-- **`registerEntityBody`**: the body is filled out or skipped. -/
theorem along_registerEntityBody (h : Along items unwritten s reports) (hphase : Phase s)
    {newBody : Option (List Fragment)} (henough : s.internalState = .waitingForEntityBodyMemory →
      ∀ body ∈ newBody, s.ebFullSizeExpected ≤ body.flatten.length)
    (hr : registerEntityBody setsMethod newBody s = some r) :
    Along items unwritten r.2 (afterBody newBody r.1 reports) := by
  rw [registerEntityBody, registerBody] at hr
  split at hr
  · rename_i hstate
    obtain ⟨done, item, later, hitems, hwaiting, hreports, hexpected, hstream, hsome⟩ :=
      h.asked hphase (Or.inl rfl) hstate
    have hmessage : item.ready = .entityBodyIsReady ∧ item.continuing = .continuingToFillOutEntityBody := by
      cases item with
      | message header body => exact ⟨rfl, rfl⟩
      | frame channelID data => simp [Item.waiting, Item.binaryData] at hwaiting
    obtain ⟨t, ht, heq⟩ := Option.map_eq_some_iff.mp hr
    rw [← heq]
    cases newBody with
    | none =>
      rw [← Option.some.inj ht]
      exact along_skip hitems hreports hexpected hstream hsome (Or.inl rfl)
    | some body =>
      refine along_fill hitems hreports hexpected hstream hsome (henough hstate body rfl)
        .startingToFillOutEntityBody ?_
      rw [hmessage.1, hmessage.2]
      exact ht
  · rw [← Option.some.inj hr]
    exact h

/-- **`registerEmbeddedDataMemory`**: the data is filled out, or skipped when it is in the main buffer. -/
theorem along_registerEmbeddedDataMemory (h : Along items unwritten s reports) (hphase : Phase s)
    {newBody : Option (List Fragment)} (henough : s.internalState = .waitingForEmbeddedDataMemory →
      ∀ body ∈ newBody, s.ebFullSizeExpected ≤ body.flatten.length)
    (hskip : newBody = none → s.internalState = .waitingForEmbeddedDataMemory →
      s.ebFullSizeExpected ≤ s.contents.length)
    (hr : registerEmbeddedDataMemory setsMethod newBody s = some r) :
    Along items unwritten r.2 (afterBody newBody r.1 reports) := by
  rw [registerEmbeddedDataMemory, registerBody] at hr
  split at hr
  · rename_i hstate
    obtain ⟨done, item, later, hitems, hwaiting, hreports, hexpected, hstream, hsome⟩ :=
      h.asked hphase (Or.inr rfl) hstate
    have hframe : item.ready = .embeddedDataIsReady ∧ item.continuing = .continuingToFillOutEmbeddedData := by
      cases item with
      | message header body => simp [Item.waiting, Item.binaryData] at hwaiting
      | frame channelID data => exact ⟨rfl, rfl⟩
    obtain ⟨t, ht, heq⟩ := Option.map_eq_some_iff.mp hr
    rw [← heq]
    cases newBody with
    | none =>
      rw [← Option.some.inj ht]
      exact along_skip hitems hreports hexpected hstream hsome (Or.inr (hskip rfl hstate))
    | some body =>
      refine along_fill hitems hreports hexpected hstream hsome (henough hstate body rfl)
        .startingToFillOutEmbeddedData ?_
      rw [hframe.1, hframe.2]
      exact ht
  · rw [← Option.some.inj hr]
    exact h

/-! ## Octets -/

theorem Item.continuing_window (hstate : s.internalState = item.continuing) :
    s.internalState = .continuingToFillOutEntityBody ∨ s.internalState = .continuingToFillOutEmbeddedData := by
  rw [hstate]
  exact item.continuing_cases

theorem along_getDataBufferSpec (h : Along items unwritten s reports) (hphase : Phase s)
    {r : Option DataBufferSpec × Parser} (hr : getDataBufferSpec s = some r) : Along items unwritten r.2 reports := by
  obtain ⟨done, rest, hitems, hat⟩ := h
  have hnone : ¬Windowed s → Along items unwritten r.2 reports := by
    intro hnot
    rw [getDataBufferSpec_none hnot] at hr
    rw [← Option.some.inj hr]
    exact hat.along hitems
  cases hat with
  | between hstate => exact hnone (by simp [Windowed, hstate])
  | looking hsearching hreports =>
    rw [getDataBufferSpec_looking (Or.inl hsearching.internalState)] at hr
    rw [← Option.some.inj hr]
    exact (At.looking hsearching hreports).along hitems
  | found hready => exact hnone (by simp [Windowed, hready.internalState])
  | @asked item later hstate => exact hnone (by rcases item.waiting_cases with h | h <;> simp [Windowed, hstate, h])
  | @filling item later hstate hexpected hstream hreports =>
    have hcontinuing := Item.continuing_window hstate
    obtain ⟨hhungry, hfilling⟩ := hphase.continuing hcontinuing
    obtain ⟨spec, t, heq, hoffered⟩ := fragmentSpec_spec hfilling hhungry.more
    rw [getDataBufferSpec_continuing hcontinuing, heq] at hr
    rw [← Option.some.inj hr, hoffered.eq]
    exact At.along (.filling hstate hexpected hstream hreports) hitems
  | @filled item later hstate => exact hnone (by rcases item.ready_cases with h | h <;> simp [Windowed, hstate, h])
  | skipping hstate hexpected hstream hreports =>
    have hempty := (hphase.skipping hstate).contents
    rw [getDataBufferSpec_skipping hstate] at hr
    rw [← Option.some.inj hr]
    rw [hempty] at hstream
    exact At.along (.skipping hstate hexpected hstream hreports) hitems

/-- **`registerDataBufferWritten`**: the octets are searched, filled out or skipped. -/
theorem along_registerDataBufferWritten (h : Along items (data ++ unwritten) s reports)
    (hphase : Phase s) (hgood : ∀ item ∈ items, item.WellFormed) {spec : DataBufferSpec} (hwindow : Window s spec)
    (hlen : data.length ≤ spec.len) (hr : registerDataBufferWritten setsMethod data s = some r) :
    Along items unwritten r.2 reports := by
  obtain ⟨done, rest, hitems, hat⟩ := h
  have hwindowed := hwindow.windowed
  cases hat with
  | between hstate => simp [Windowed, hstate] at hwindowed
  | looking hsearching hreports =>
    have hstate := hsearching.internalState
    rw [registerDataBufferWritten_looking setsMethod hstate data] at hr
    rw [← Option.some.inj hr]
    refine along_lookForEndOfRequest (s := { s with contents := s.contents ++ data }) hgood hitems hreports hstate
      hsearching.request ?_ hsearching.seen
    rw [← hsearching.stream, List.append_assoc]
  | found hready => simp [Windowed, hready.internalState] at hwindowed
  | @asked item later hstate => rcases item.waiting_cases with h | h <;> simp [Windowed, hstate, h] at hwindowed
  | @filling item later hstate hexpected hstream hreports =>
    have hcontinuing := Item.continuing_window hstate
    have hboth := hphase.continuing hcontinuing
    obtain ⟨hfilling, hfilled⟩ := (hwindow.offered hboth hcontinuing).written hlen (u := s.cover data)
      rfl rfl rfl rfl rfl
    have hbehind : (s.cover data).filled ++ ((s.cover data).contents ++ unwritten) = item.body ++ octets later := by
      have hempty : (s.cover data).contents = [] := hboth.1.contents
      rw [hboth.1.contents, List.nil_append] at hstream
      rw [hfilled, hempty, List.nil_append, List.append_assoc]
      exact hstream
    have hsome : item.body ≠ [] := by
      intro hnil
      have hmore := hboth.1.more
      rw [hexpected, hnil] at hmore
      exact absurd hmore (Nat.not_lt_zero _)
    rw [registerDataBufferWritten_continuing setsMethod hcontinuing data] at hr
    rw [← Option.some.inj hr]
    simp only
    split
    · rename_i hall
      refine along_filled hitems hreports ?_ hexpected hbehind hsome (Or.inl ⟨?_, hall⟩)
      · exact ⟨hfilling.covered, hfilling.offset, hfilling.le, hfilling.enough⟩
      · cases item with
        | message header body => exact if_pos hstate
        | frame channelID body => exact if_neg (by rw [hstate]; exact InternalState.noConfusion)
    · exact along_filled hitems hreports hfilling hexpected hbehind hsome (Or.inr hstate)
  | @filled item later hstate => rcases item.ready_cases with h | h <;> simp [Windowed, hstate, h] at hwindowed
  | @skipping item later hstate hexpected hstream hreports =>
    have hhungry := hphase.skipping hstate
    have hbehind : s.contents ++ data ++ unwritten = item.body.drop s.ebSizeCoveredSoFar ++ octets later := by
      rw [← hstream, List.append_assoc]
    rw [registerDataBufferWritten_skipping setsMethod hstate data] at hr
    rw [← Option.some.inj hr]
    rcases skipOver_stream (s := { s with contents := s.contents ++ data }) hexpected (Nat.le_of_lt hhungry.more)
      hbehind with ⟨hdone, hrest⟩ | ⟨hsame, hlength, -, hrest⟩
    · refine along_between hitems false hdone hrest ?_
      have hsome : item.body ≠ [] := by
        intro hnil
        have hmore := hhungry.more
        rw [hexpected, hnil] at hmore
        exact absurd hmore (Nat.not_lt_zero _)
      rw [reports_of_ne_nil hsome, hreports]
      rfl
    · exact At.along (.skipping (hsame.trans hstate) hlength hrest hreports) hitems

/-! ## Any run -/

/-- The engine hands over a message that is reset, and writes the octets of the stream. -/
def Delivers (items : List Item) (s : Session) : Call → Prop
  | .registerNewRequestStruct newRequestStruct => newRequestStruct = .reset
  | .registerDataBufferWritten data => s.written ++ data <+: octets items
  | _ => True

instance (items : List Item) (s : Session) (call : Call) : Decidable (Delivers items s call) :=
  match call with
  | .registerNewRequestStruct newRequestStruct => inferInstanceAs (Decidable (newRequestStruct = .reset))
  | .registerDataBufferWritten data => inferInstanceAs (Decidable (s.written ++ data <+: octets items))
  | .getState => isTrue trivial
  | .registerEntityBody _ => isTrue trivial
  | .registerEmbeddedDataMemory _ => isTrue trivial
  | .getDataBufferSpec => isTrue trivial

/-- The engine is in order, and what it writes is the stream. -/
def Ok (items : List Item) (s : Session) (call : Call) : Prop :=
  WellOrdered s call ∧ SkipsInBuffer s call ∧ Delivers items s call

instance (items : List Item) (s : Session) (call : Call) : Decidable (Ok items s call) :=
  inferInstanceAs (Decidable (WellOrdered s call ∧ SkipsInBuffer s call ∧ Delivers items s call))

/-- The session has written a part of the stream, and is somewhere in it. -/
def Follows (items : List Item) (s : Session) : Prop :=
  ∃ unwritten, octets items = s.written ++ unwritten ∧ Along items unwritten s.parser s.reports

theorem follows_new (items : List Item) (parser : Parser) : Follows items (newSession parser) :=
  ⟨octets items, rfl, [], items, rfl, .between rfl rfl rfl⟩

/-- **A call of the engine** goes along the stream. -/
theorem follows_handle {s t : Session} (hgood : ∀ item ∈ items, item.WellFormed) (hinv : Inv s) (h : Follows items s)
    {call : Call} (hok : Ok items s call) (hhandle : handle setsMethod s call = some t) : Follows items t := by
  obtain ⟨unwritten, hstream, halong⟩ := h
  obtain ⟨hordered, hskips, hdelivers⟩ := hok
  cases call with
  | getState =>
    obtain ⟨r, hr, heq⟩ := Option.map_eq_some_iff.mp hhandle
    rw [← heq]
    exact ⟨unwritten, hstream, along_getState halong hr⟩
  | registerNewRequestStruct newRequestStruct =>
    obtain ⟨r, hr, heq⟩ := Option.map_eq_some_iff.mp hhandle
    have hreset : newRequestStruct = .reset := hdelivers
    rw [hreset] at hr
    rw [← heq]
    exact ⟨unwritten, hstream, along_registerNewRequestStruct halong hinv.phase hgood hr⟩
  | registerEntityBody newBody =>
    obtain ⟨r, hr, heq⟩ := Option.map_eq_some_iff.mp hhandle
    rw [← heq]
    refine ⟨unwritten, hstream, along_registerEntityBody halong hinv.phase ?_ hr⟩
    intro hstate body hbody
    cases hbody
    exact hordered hstate
  | registerEmbeddedDataMemory newBody =>
    obtain ⟨r, hr, heq⟩ := Option.map_eq_some_iff.mp hhandle
    rw [← heq]
    refine ⟨unwritten, hstream, along_registerEmbeddedDataMemory halong hinv.phase ?_ ?_ hr⟩
    · intro hstate body hbody
      cases hbody
      exact hordered hstate
    · exact fun hnone => hskips (congrArg _ hnone)
  | getDataBufferSpec =>
    obtain ⟨r, hr, heq⟩ := Option.map_eq_some_iff.mp hhandle
    rw [← heq]
    exact ⟨unwritten, hstream, along_getDataBufferSpec halong hinv.phase hr⟩
  | registerDataBufferWritten data =>
    obtain ⟨r, hr, heq⟩ := Option.map_eq_some_iff.mp hhandle
    obtain ⟨behind, hbehind⟩ : s.written ++ data <+: octets items := hdelivers
    obtain ⟨spec, hwindow, hoffered⟩ := hinv.offer (Nat.lt_of_lt_of_le hordered.1 hordered.2)
    have hunwritten : unwritten = data ++ behind := by
      rw [hstream, List.append_assoc] at hbehind
      exact (List.append_cancel_left hbehind).symm
    rw [hunwritten] at halong
    rw [← heq]
    exact ⟨behind, hbehind.symm, along_registerDataBufferWritten halong hinv.phase hgood hwindow
      (by rw [hoffered]; exact hordered.2) hr⟩

theorem expected_append (items others : List (Item × Bool)) :
    expected (items ++ others) = expected items ++ expected others := List.flatMap_append ..

theorem map_fst_supplied (items : List Item) : (items.map fun item => (item, true)).map (·.1) = items := by
  rw [List.map_map]
  exact List.map_id' items

theorem Along.reports_prefix (h : Along items unwritten s reports) (hphase : Phase s) :
    ∃ choices : List (Item × Bool), choices.map (·.1) = items ∧ reports <+: expected choices := by
  obtain ⟨done, rest, hitems, hat⟩ := h
  have hdone : reports = expected done → ∃ choices : List (Item × Bool),
      choices.map (·.1) = items ∧ reports <+: expected choices := by
    intro hreports
    refine ⟨done ++ rest.map fun item => (item, true), ?_, ?_⟩
    · rw [List.map_append, map_fst_supplied, hitems]
    · rw [hreports, expected_append]
      exact List.prefix_append _ _
  have hasked : ∀ item later, rest = item :: later → reports = expected done ++ [.request item.request] →
      ∃ choices : List (Item × Bool), choices.map (·.1) = items ∧ reports <+: expected choices := by
    intro item later hrest hreports
    refine ⟨done ++ (item, true) :: later.map fun item => (item, true), ?_, ?_⟩
    · rw [List.map_append, List.map_cons, map_fst_supplied, hitems, hrest]
    · rw [hreports, expected_append, List.prefix_append_right_inj, expected, List.flatMap_cons, Item.reports]
      exact ⟨_, rfl⟩
  cases hat with
  | between hstate hstream hreports => exact hdone hreports
  | looking hsearching hreports => exact hdone hreports
  | found hready hreports => exact hdone hreports
  | asked hstate hexpected hstream hreports => exact hasked _ _ rfl hreports
  | filling hstate hexpected hstream hreports => exact hasked _ _ rfl hreports
  | filled hstate hbody hsome hstream hreports => exact hasked _ _ rfl hreports
  | @skipping item later hstate hexpected hstream hreports =>
    have hsome : item.body ≠ [] := by
      intro hnil
      have hmore := (hphase.skipping hstate).more
      rw [hexpected, hnil] at hmore
      exact absurd hmore (Nat.not_lt_zero _)
    refine ⟨done ++ (item, false) :: later.map fun item => (item, true), ?_, ?_⟩
    · rw [List.map_append, List.map_cons, map_fst_supplied, hitems]
    · rw [hreports, expected_append, List.prefix_append_right_inj, expected, List.flatMap_cons,
        reports_of_ne_nil hsome]
      exact ⟨_, rfl⟩

/-- When the stream is written and the parser waits for more of it, all has been reported. -/
theorem Along.complete (h : Along items [] s reports) (hphase : Phase s)
    (hwaiting : ∃ t, getState setsMethod s = some (.waitingForData, t)) :
    ∃ choices : List (Item × Bool), choices.map (·.1) = items ∧ reports = expected choices := by
  obtain ⟨done, rest, hitems, hat⟩ := h
  obtain ⟨t, ht⟩ := hwaiting
  cases hat with
  | between hstate => simp [getState, hstate] at ht
  | looking hsearching hreports =>
    cases rest with
    | nil => exact ⟨done, by rw [hitems, List.append_nil], hreports⟩
    | cons item later =>
      have hlen := congrArg List.length hsearching.stream
      have hshort := hsearching.incomplete item rfl
      rw [List.append_nil, octets_cons, List.length_append] at hlen
      omega
  | found hready =>
    rw [getState, hready.internalState] at ht
    simp only at ht
    rw [continueProcessing_behindRequest] at ht
    simp at ht
  | @asked item later hstate => rcases item.waiting_cases with h | h <;> simp [getState, hstate, h] at ht
  | @filling item later hstate hexpected hstream =>
    have hhungry := (hphase.continuing (Item.continuing_window hstate)).1
    have hlen := congrArg List.length hstream
    have hmore := hhungry.more
    rw [hhungry.contents, List.append_nil, List.append_nil, List.length_append, Parser.filled,
      List.length_take] at hlen
    omega
  | @filled item later hstate => rcases item.ready_cases with h | h <;> simp [getState, hstate, h] at ht
  | @skipping item later hstate hexpected hstream =>
    have hhungry := hphase.skipping hstate
    have hlen := congrArg List.length hstream
    have hmore := hhungry.more
    rw [hhungry.contents, List.append_nil, List.length_nil, List.length_append, List.length_drop] at hlen
    omega

/-- The states in which octets of a body go to fragments or are skipped. -/
def InBody (s : Parser) : Prop :=
  s.internalState = .continuingToFillOutEntityBody ∨ s.internalState = .continuingToFillOutEmbeddedData ∨
    s.internalState = .skippingOverEntityBody

theorem Phase.pointers (h : Phase s) : s.mainBufferSpace ≤ bufferSize ∧ (¬InBody s → s.mainBufferEntry ≤ s.eorptr) := by
  have hat : AtMessage s → s.mainBufferSpace ≤ bufferSize ∧ (¬InBody s → s.mainBufferEntry ≤ s.eorptr) :=
    fun h => ⟨h.space, fun _ => Nat.le_of_eq h.eorptr.symm⟩
  have hlooking : Looking s → s.mainBufferSpace ≤ bufferSize ∧ (¬InBody s → s.mainBufferEntry ≤ s.eorptr) :=
    fun h => ⟨Nat.le_of_lt h.space, fun _ => h.eorptr⟩
  have hbody : Hungry s → InBody s → s.mainBufferSpace ≤ bufferSize ∧ (¬InBody s → s.mainBufferEntry ≤ s.eorptr) :=
    fun h hin => ⟨h.space, fun hnot => absurd hin hnot⟩
  rw [Phase] at h
  cases hstate : s.internalState with
  | waitingForRequestMemory =>
    rw [hstate] at h
    exact hat h
  | requestIsReady =>
    rw [hstate] at h
    exact hat h
  | errorRequestTooBig =>
    rw [hstate] at h
    exact hat h
  | entityBodyIsReady =>
    rw [hstate] at h
    exact hat h
  | embeddedDataIsReady =>
    rw [hstate] at h
    exact hat h
  | waitingForEntityBodyMemory =>
    rw [hstate] at h
    exact hat h.1
  | waitingForEmbeddedDataMemory =>
    rw [hstate] at h
    exact hat h.1
  | lookingForEndOfRequest =>
    rw [hstate] at h
    exact hlooking h
  | startLookingForResync =>
    rw [hstate] at h
    exact hlooking h
  | lookingForResync =>
    rw [hstate] at h
    exact hlooking h
  | skippingOverEntityBody =>
    rw [hstate] at h
    exact hbody h (Or.inr (Or.inr hstate))
  | continuingToFillOutEntityBody =>
    rw [hstate] at h
    exact hbody h.1 (Or.inl hstate)
  | continuingToFillOutEmbeddedData =>
    rw [hstate] at h
    exact hbody h.1 (Or.inr (Or.inl hstate))
  | waitingForData =>
    rw [hstate] at h
    exact False.elim h
  | internalError =>
    rw [hstate] at h
    exact False.elim h
  | skippingOverEmbeddedData =>
    rw [hstate] at h
    exact False.elim h
  | startingToFillOutEntityBody =>
    rw [hstate] at h
    exact False.elim h
  | startingToFillOutEmbeddedData =>
    rw [hstate] at h
    exact False.elim h

/-- The reports are those of the stream, the pointers are in order, and no call is a fault. -/
structure Framed (setsMethod : List UInt8 → Bool) (items : List Item) (s : Session) : Prop where
  reports : ∃ choices : List (Item × Bool), choices.map (·.1) = items ∧ s.reports <+: expected choices
  complete : s.written = octets items → (∃ t, getState setsMethod s.parser = some (.waitingForData, t)) →
    ∃ choices : List (Item × Bool), choices.map (·.1) = items ∧ s.reports = expected choices
  entry : s.parser.mainBufferEntry ≤ s.parser.mainBufferSpace
  space : s.parser.mainBufferSpace ≤ bufferSize
  eorptr : ¬InBody s.parser → s.parser.mainBufferEntry ≤ s.parser.eorptr
  taken : ∀ call, Ok items s call → (handle setsMethod s call).isSome

/-- **A stream is framed**: in every run that writes a stream of well-formed items in any pieces, what is
reported is what the stream holds, item after item, and all of it when the stream is written and the
parser waits for more. -/
theorem framed_of_run {items : List Item} (hgood : ∀ item ∈ items, item.WellFormed) {parser : Parser}
    {calls : List Call} {s : Session}
    (hrun : Run (guarded (Ok items) (stepOf (handle setsMethod))) (newSession parser) calls s) :
    Framed setsMethod items s := by
  have hboth : Inv s ∧ Follows items s := by
    refine hrun.invariant (I := fun s => Inv s ∧ Follows items s) ⟨inv_new parser, follows_new items parser⟩ ?_
    intro a call b ha hstep
    obtain ⟨t, ht, hinv⟩ := inv_handle setsMethod ha.1 hstep.1.1 hstep.1.2.1
    have htb : t = b := Option.some.inj (ht.symm.trans hstep.2)
    rw [htb] at hinv
    exact ⟨hinv, follows_handle hgood ha.1 ha.2 hstep.1 hstep.2⟩
  obtain ⟨hinv, unwritten, hstream, halong⟩ := hboth
  have hpointers := hinv.phase.pointers
  refine ⟨halong.reports_prefix hinv.phase, fun hwritten hwaiting => ?_, Nat.le_add_right _ _, hpointers.1,
    hpointers.2, fun call hok => ?_⟩
  · have hnil : unwritten = [] := by
      rw [hwritten] at hstream
      exact List.self_eq_append_right.mp hstream
    rw [hnil] at halong
    exact halong.complete hinv.phase hwaiting
  · obtain ⟨t, ht, -⟩ := inv_handle setsMethod hinv hok.1 hok.2.1
    rw [ht]
    rfl

/-- "Content-Length: 2" and an empty line. -/
def twoOctetHeader : List UInt8 := contentLengthField ++ [58, 32, 50, 13, 10, 13, 10]

/-- A message with a body, and a frame, both skipped. -/
def skippedStream : List Call :=
  [.registerNewRequestStruct .reset, .getDataBufferSpec, .registerDataBufferWritten (twoOctetHeader ++ [97]), .getState,
    .registerEntityBody none, .getDataBufferSpec, .registerDataBufferWritten [98, 36, 1, 0, 1, 120],
    .registerNewRequestStruct .reset, .getState, .registerEmbeddedDataMemory none, .registerNewRequestStruct .reset]

theorem framed_of_run_skippedStream :
    (∀ item ∈ [Item.message twoOctetHeader [97, 98], .frame 1 [120]], item.WellFormed) ∧
    ∃ s, Run (guarded (Ok [.message twoOctetHeader [97, 98], .frame 1 [120]]) (stepOf (handle fun _ => true)))
        (newSession newParser) skippedStream s ∧
      Framed (fun _ => true) [.message twoOctetHeader [97, 98], .frame 1 [120]] s := by
  have hgood : ∀ item ∈ [Item.message twoOctetHeader [97, 98], .frame 1 [120]], item.WellFormed := by
    intro item hitem
    simp only [List.mem_cons, List.not_mem_nil, or_false] at hitem
    rcases hitem with rfl | rfl
    · exact ⟨by decide, by decide, by decide, by decide, by decide⟩
    · exact (by decide : [(120 : UInt8)].length < 65536)
  have hsome : (skippedStream.foldlM (fun s call =>
      if Ok [.message twoOctetHeader [97, 98], .frame 1 [120]] s call then handle (fun _ => true) s call else none)
      (newSession newParser)).isSome := by decide
  obtain ⟨s, hs⟩ := Option.isSome_iff_exists.mp hsome
  have hrun := Run.of_foldlM_guarded hs
  exact ⟨hgood, s, hrun, framed_of_run hgood hrun⟩

theorem run_of_map {items : List Item} {calls : List Call} {β : Type} {f : Session → β} {b : β}
    (h : (calls.foldlM (fun s call =>
      if WellOrdered s call ∧ Delivers items s call then handle (fun _ => true) s call else none)
      (newSession newParser)).map f = some b) :
    ∃ s, Run (guarded (fun s call => WellOrdered s call ∧ Delivers items s call) (stepOf (handle fun _ => true)))
      (newSession newParser) calls s ∧ f s = b := by
  obtain ⟨s, hs, hf⟩ := Option.map_eq_some_iff.mp h
  exact ⟨s, Run.of_foldlM_guarded hs, hf⟩

/-- While a body is skipped the end of its request is behind.  Two newlines within a header end it
(here "a", two LF, "b"), a header with the text "Content-Length" in another field
("X-Content-Length: 1") gets a body, and one that begins with `$` is a frame. -/
theorem misframed :
    (∃ calls s, Run (guarded (fun s call => WellOrdered s call ∧ Delivers [.message twoOctetHeader [97, 98]] s call)
        (stepOf (handle fun _ => true))) (newSession newParser) calls s ∧
      (s.parser.eorptr, s.parser.mainBufferEntry) = (21, 22)) ∧
    (∃ calls s, Run (guarded (fun s call => WellOrdered s call ∧
        Delivers [.message [97, 10, 10, 98, 13, 10, 13, 10] []] s call) (stepOf (handle fun _ => true)))
        (newSession newParser) calls s ∧
      s.reports = [.request { RTSPIncomingMessage.reset with secondaryBuffer := [97, 10, 10] }]) ∧
    (∃ calls s, Run (guarded (fun s call => WellOrdered s call ∧
        Delivers [.message ([88, 45] ++ contentLengthField ++ [58, 32, 49, 13, 10, 13, 10]) []] s call)
        (stepOf (handle fun _ => true))) (newSession newParser) calls s ∧
      (s.parser.internalState, s.parser.ebFullSizeExpected) = (.waitingForEntityBodyMemory, 1)) ∧
    (∃ calls s, Run (guarded (fun s call => WellOrdered s call ∧ Delivers [.message [36, 13, 10, 13, 10] []] s call)
        (stepOf (handle fun _ => true))) (newSession newParser) calls s ∧
      s.reports = [.request { RTSPIncomingMessage.reset with binaryData := true, channelID := 13, contentLength := 2573 }]) := by
  refine ⟨⟨[.registerNewRequestStruct .reset, .getDataBufferSpec, .registerDataBufferWritten (twoOctetHeader ++ [97]),
      .getState, .registerEntityBody none], run_of_map (by decide)⟩,
    ⟨[.registerNewRequestStruct .reset, .getDataBufferSpec,
      .registerDataBufferWritten [97, 10, 10, 98, 13, 10, 13, 10], .getState], run_of_map (by decide)⟩,
    ⟨[.registerNewRequestStruct .reset, .getDataBufferSpec, .registerDataBufferWritten
      ([88, 45] ++ contentLengthField ++ [58, 32, 49, 13, 10, 13, 10]), .getState], run_of_map (by decide)⟩,
    ⟨[.registerNewRequestStruct .reset, .getDataBufferSpec, .registerDataBufferWritten [36, 13, 10, 13, 10], .getState],
      run_of_map (by decide)⟩⟩

end Ftke.RtspParser
