import Ftke.Run
import Mathlib.Algebra.Ring.Int.Defs
import Mathlib.Algebra.Ring.Nat

/-!
# Ftke.HttpParser

The input of the HTTP parser (`HTTPParserInput` in `http_parser.cpp`): fragments are put
into a queue, and bytes are taken from the first of them, at an offset.  What has been
taken is noted in a queue of output fragments, from which an entity unit is made.

A fragment is a pointer, 0 for `NULL` or no reference counter, and the octets behind it,
fewer than 2^31 of them.  A fragment of the output queue is a window of such octets.
Which allocations succeed is an argument (`Memory`).
-/

namespace Ftke.HttpParser

/-! ## Data -/

/-- `OsclRefCounterMemFrag`. -/
structure MemFrag where
  ptr : Nat
  bytes : List UInt8
  deriving DecidableEq

/-- `RefCounterMemoryFragment`: `iMemfrag` is `len` octets of the memory from `start`. -/
structure OutFrag where
  memory : List UInt8
  start : Nat
  len : Nat
  deriving DecidableEq

def OutFrag.bytes (f : OutFrag) : List UInt8 := (f.memory.drop f.start).take f.len

/-- The allocations that succeed in a call: a `push_back` on the input queue, as many fragments
in the output queue, the entity unit, and as many fragments in it. -/
structure Memory where
  input : Bool
  output : Nat
  unit : Bool
  fragments : Nat
  deriving DecidableEq

/-- `HTTPParserInput`. -/
structure Input where
  iDataInQueue : List MemFrag
  iDataOutQueue : List OutFrag
  iDataInQueueMemFragOffset : Nat
  deriving DecidableEq

/-! ## Operations -/

/-- `push_back`. -/
def push_back (aFrag : MemFrag) (memory : Memory) (s : Input) : Bool × Input :=
  if aFrag.ptr = 0 then (!s.iDataInQueue.isEmpty, s)
  else if s.iDataInQueue.getLast?.map MemFrag.ptr = some aFrag.ptr then (true, s)
  else if !memory.input then (false, s)
  else (true, { s with iDataInQueue := s.iDataInQueue ++ [aFrag] })

/-- `constructOutputFragment`; `aNewMemFragPtr` is an offset in the first fragment. -/
def constructOutputFragment (aNewMemFragLen : Nat) (aNewMemFragPtr : Option Nat) (isNewFrag : Bool)
    (memory : Memory) (s : Input) : Option Input :=
  let frag := s.iDataInQueue.headD ⟨0, []⟩
  let out :=
    if isNewFrag || s.iDataOutQueue.isEmpty then
      if s.iDataOutQueue.length < memory.output then
        some (s.iDataOutQueue ++ [⟨frag.bytes, 0, frag.bytes.length⟩])
      else none
    else some s.iDataOutQueue
  out.map fun out =>
    let back := out.getLastD ⟨[], 0, 0⟩
    let back := { back with len := aNewMemFragLen }
    let back := match aNewMemFragPtr with
      | some start => { back with memory := frag.bytes, start }
      | none => back
    { s with iDataOutQueue := out.dropLast ++ [back] }

/-- `getData`; -1 is an error. -/
def getData (aRequestDataSize : Nat) (memory : Memory) (s : Input) : Int × Input :=
  match s.iDataInQueue with
  | [] => (0, s)
  | frag :: queue =>
    let requestSize := if aRequestDataSize > 0 then aRequestDataSize else 0xffffffff
    let availableFragSize := frag.bytes.length - s.iDataInQueueMemFragOffset
    let actualSize := min requestSize availableFragSize
    let out :=
      if actualSize > 0 then
        constructOutputFragment actualSize (some s.iDataInQueueMemFragOffset)
          (s.iDataInQueueMemFragOffset == 0) memory s
      else some s
    match out with
    | none => (-1, s)
    | some s =>
      (actualSize,
        if availableFragSize ≤ requestSize then
          { s with iDataInQueue := queue, iDataInQueueMemFragOffset := 0 }
        else { s with iDataInQueueMemFragOffset := s.iDataInQueueMemFragOffset + actualSize })

/-- `empty`. -/
def Input.empty (s : Input) : Bool :=
  match s.iDataInQueue with
  | [] => true
  | [frag] => s.iDataInQueueMemFragOffset == frag.bytes.length
  | _ => false

/-- `constructEntityUnit`: the fragments of the output queue, unless memory is short; then the
fragments already added are gone with the unit. -/
def constructEntityUnit (memory : Memory) (s : Input) : Option (List (List UInt8)) × Input :=
  if !memory.unit then (none, s)
  else if memory.fragments < s.iDataOutQueue.length then
    (none, { s with iDataOutQueue := s.iDataOutQueue.drop (memory.fragments + 1) })
  else (some (s.iDataOutQueue.map OutFrag.bytes), { s with iDataOutQueue := [] })

/-! ## Return codes -/

/-- `PARSE_RETURN_CODES`. -/
inductive Code
  | success
  | successEndOfInput
  | successEndOfMessage
  | successEndOfMessageWithExtraData
  | headerAvailable
  | statusLineShowNotSuccessful
  | needMoreData
  | generalError
  | syntaxError
  | httpVersionNotSupported
  | transferEncodingNotSupported
  | memoryAllocationFailure
  | headerNotParsedYet
  deriving DecidableEq

/-! ## What is pending -/

/-- The octets of the queued fragments that have not been taken. -/
def Input.pending (s : Input) : List (List UInt8) :=
  match s.iDataInQueue with
  | [] => []
  | frag :: queue => frag.bytes.drop s.iDataInQueueMemFragOffset :: queue.map MemFrag.bytes

/-- The octets in the output queue. -/
def Input.output (s : Input) : List UInt8 := s.iDataOutQueue.flatMap OutFrag.bytes

/-- Of a fragment that has been taken in part nothing is in the output queue. -/
def Input.Fresh (s : Input) : Prop := s.iDataInQueueMemFragOffset = 0 ∨ s.iDataOutQueue = []

/-- Without a fragment there is no offset. -/
def Input.Idle (s : Input) : Prop := s.iDataInQueue = [] → s.iDataInQueueMemFragOffset = 0

variable {s : Input} {memory : Memory}

/-- A fragment that the parser has at the end of its queue is passed again. -/
def Again (aFrag : MemFrag) (s : Input) : Prop := s.iDataInQueue.getLast?.map MemFrag.ptr = some aFrag.ptr

instance (aFrag : MemFrag) (s : Input) : Decidable (Again aFrag s) := by
  unfold Again
  infer_instance

theorem push_back_spec {aFrag : MemFrag} (hidle : s.Idle) (hptr : aFrag.ptr ≠ 0)
    (hinput : ¬Again aFrag s → memory.input = true) : ∃ t : Input, push_back aFrag memory s = (true, t) ∧
      t.iDataOutQueue = s.iDataOutQueue ∧ t.Idle ∧
      t.pending.flatten = s.pending.flatten ++ (if Again aFrag s then [] else aFrag.bytes) := by
  rw [push_back, if_neg hptr]
  by_cases hagain : Again aFrag s
  · have hlast : s.iDataInQueue.getLast?.map MemFrag.ptr = some aFrag.ptr := hagain
    rw [if_pos hlast, if_pos hagain]
    exact ⟨s, rfl, rfl, hidle, by simp⟩
  · have hlast : ¬s.iDataInQueue.getLast?.map MemFrag.ptr = some aFrag.ptr := hagain
    rw [if_neg hlast, hinput hagain, if_neg hagain]
    refine ⟨_, rfl, rfl, fun hnil => absurd hnil (by simp), ?_⟩
    rw [Input.pending, Input.pending]
    cases hq : s.iDataInQueue with
    | nil => simp [hidle hq]
    | cons frag queue => simp

theorem output_constructOutputFragment (h : s.Fresh) {frag : MemFrag} {queue : List MemFrag}
    (hq : s.iDataInQueue = frag :: queue) (n : Nat) (hroom : s.iDataOutQueue.length < memory.output) :
    constructOutputFragment n (some s.iDataInQueueMemFragOffset) (s.iDataInQueueMemFragOffset == 0) memory s =
      some { s with iDataOutQueue := s.iDataOutQueue ++ [⟨frag.bytes, s.iDataInQueueMemFragOffset, n⟩] } := by
  have hnew : ((s.iDataInQueueMemFragOffset == 0) || s.iDataOutQueue.isEmpty) = true := by
    rcases h with hzero | hnil
    · simp [hzero]
    · simp [hnil]
  rw [constructOutputFragment, hnew, hq]
  simp [hroom]

/-- **What is taken goes to the output**, from the first pending piece only. -/
theorem getData_spec (h : s.Fresh) {n : Nat} (hn : 0 < n) {piece : List UInt8} {rest : List (List UInt8)}
    (hpending : s.pending = piece :: rest) (hroom : s.iDataOutQueue.length < memory.output) :
    ∃ t : Input, getData n memory s = (((min n piece.length : Nat) : Int), t) ∧
      t.output = s.output ++ piece.take n ∧
      t.iDataOutQueue.length ≤ s.iDataOutQueue.length + 1 ∧ t.Idle ∧
      (piece.length ≤ n → t.pending = rest ∧ t.Fresh ∧
        t.iDataInQueue.length + 1 = s.iDataInQueue.length) ∧
      (n < piece.length → t.pending = piece.drop n :: rest) := by
  cases hq : s.iDataInQueue with
  | nil =>
    rw [Input.pending, hq] at hpending
    contradiction
  | cons frag queue =>
    rw [Input.pending, hq] at hpending
    obtain ⟨hpiece, hrest⟩ := List.cons.inj hpending
    have hlen : frag.bytes.length - s.iDataInQueueMemFragOffset = piece.length := by
      rw [← hpiece, List.length_drop]
    have hafter : ({ s with iDataInQueue := queue, iDataInQueueMemFragOffset := 0 } : Input).pending = rest := by
      rw [Input.pending, ← hrest]
      cases queue <;> rfl
    rw [getData, hq]
    simp only [hn, if_true, hlen]
    by_cases hzero : piece.length = 0
    · have hnil : piece = [] := List.eq_nil_of_length_eq_zero hzero
      simp only [hzero, Nat.min_zero, Nat.lt_irrefl, if_false, gt_iff_lt, Nat.zero_le, if_true]
      refine ⟨_, rfl, by simp [hnil, Input.output], Nat.le_succ _, fun _ => rfl, fun _ => ⟨hafter, .inl rfl, rfl⟩, fun hlt => ?_⟩
      omega
    · have hpos : min n piece.length > 0 := by omega
      rw [if_pos hpos, output_constructOutputFragment h hq _ hroom]
      simp only
      refine ⟨_, rfl, ?_, ?_, ?_, fun hle => ?_, fun hlt => ?_⟩
      · have htake : (frag.bytes.drop s.iDataInQueueMemFragOffset).take (min n piece.length) = piece.take n := by
          rw [hpiece, ← List.take_take, List.take_length]
        split <;> simp [Input.output, OutFrag.bytes, htake]
      · split <;> simp
      · intro hnil
        split at hnil
        · next hle => rw [if_pos hle]
        · rw [hq] at hnil
          contradiction
      · rw [if_pos hle]
        refine ⟨?_, .inl rfl, rfl⟩
        rw [Input.pending, ← hrest]
        cases queue <;> rfl
      · rw [if_neg (by omega), Input.pending]
        simp only [hq, hrest, Nat.min_eq_left (Nat.le_of_lt hlt)]
        rw [← List.drop_drop, hpiece]

end Ftke.HttpParser
