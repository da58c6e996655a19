import Ftke.StringUtils

/-!
# Ftke.StringUri

The two overloads of `oscl_str_unescape_uri` (`oscl_string_uri.cpp`), which replace the
escapes `%XX` of a URI.

`unescape` is what both compute: the bytes that a source stands for, if its escapes are
well formed.  `Raw.loop_eq` and `Str.loop_eq` say what the overloads make of them.  The one
for strings appends each byte as a zero-terminated string, so that it loses the zeros, and
looks at a capacity that only a stack string keeps: `agree_iff` says when the two agree.

Sources are shorter than 2^31, as `int32` indices are; counts do not wrap.
-/

namespace Ftke.StringUri

open StringUtils

/-! ## Raw buffers -/

/-- What the overload for buffers leaves: the bytes it stores, and whether a terminator follows
them. -/
structure Raw where
  result : Bool
  dest : List UInt8
  terminated : Bool
  out_buf_len : Nat
  deriving DecidableEq

namespace Raw

/-- A byte is stored where there is room. -/
def put (dest : List UInt8) (destStrLen : Nat) (c : UInt8) : List UInt8 × Nat :=
  if 0 < destStrLen then (dest ++ [c], destStrLen - 1) else (dest, destStrLen)

/-- The ill-formed escapes. -/
def bad (dest : List UInt8) (destStrLen out_buf_len : Nat) : Raw :=
  ⟨false, dest, decide (0 < destStrLen), out_buf_len⟩

/-- The lines behind the loop: without room for the terminator, `out_buf_len` is the size
needed. -/
def finish (dest : List UInt8) (destStrLen out_buf_len : Nat) : Raw :=
  if 0 < destStrLen then ⟨true, dest, true, out_buf_len⟩ else ⟨false, dest, false, out_buf_len + 1⟩

/-- The loop, over the `srcStrLen` bytes from `src[i]` on. -/
def loop : List UInt8 → List UInt8 → Nat → Nat → Raw
  | [], dest, destStrLen, out_buf_len => finish dest destStrLen out_buf_len
  | c :: rest, dest, destStrLen, out_buf_len =>
    if c = 37 then
      match rest with
      | a :: b :: rest' =>
        match pvAtoi32 (some (a :: b :: rest')) 'x' 2 with
        | (false, _) => bad dest destStrLen out_buf_len
        | (true, val) =>
          let stored := put dest destStrLen (.ofNat val)
          loop rest' stored.1 stored.2 (out_buf_len + 1)
      | _ => bad dest destStrLen out_buf_len
    else if c = 0 then finish dest destStrLen out_buf_len
    else
      let stored := put dest destStrLen c
      loop rest stored.1 stored.2 (out_buf_len + 1)

end Raw

/-- `oscl_str_unescape_uri` for raw buffers; `none` is a null pointer. -/
def unescapeRaw (str_buf_in : Option (List UInt8)) (max_out_buf_bytes max_bytes : Nat) : Raw :=
  match str_buf_in with
  | none => ⟨false, [], false, 0⟩
  | some src => if max_bytes = 0 then ⟨false, [], false, 0⟩ else Raw.loop (src.take max_bytes) [] max_out_buf_bytes 0

/-! ## Strings -/

/-- The containers behind `OSCL_String`. -/
inductive Kind
  | stack
  | heap
  | fast
  deriving DecidableEq

/-- `OSCL_String`: `CStackRep`, `CHeapRep` or `CFastRep`. -/
structure OsclString where
  kind : Kind
  contents : List UInt8
  maxsize : Nat
  writable : Bool
  deriving DecidableEq

namespace OsclString

/-- `operator=` with a zero-terminated string: a heap string is made anew in its size, and a
fast string points to the string. -/
def assign (s : OsclString) (cp : List UInt8) : OsclString :=
  match s.kind with
  | .stack => { s with contents := cp.take s.maxsize }
  | .heap => { s with contents := cp, maxsize := cp.length }
  | .fast => { s with contents := cp, maxsize := cp.length, writable := false }

/-- `operator+=` with a zero-terminated string. -/
def append (s : OsclString) (cp : List UInt8) : OsclString :=
  match s.kind with
  | .stack => { s with contents := s.contents ++ cp.take (s.maxsize - s.contents.length) }
  | .heap => { s with contents := s.contents ++ cp, maxsize := s.contents.length + cp.length }
  | .fast =>
    let copied := cp.take (s.maxsize - s.contents.length)
    { s with
      contents := s.contents ++ copied
      maxsize := if copied ≠ [] ∧ s.writable = false then s.contents.length + copied.length else s.maxsize }

end OsclString

/-- What the overload for strings leaves. -/
structure Str where
  result : Bool
  dest : OsclString
  out_buf_len : Nat
  deriving DecidableEq

namespace Str

/-- `buf`, with its terminator behind `c`, as a string. -/
def buf (c : UInt8) : List UInt8 := if c = 0 then [] else [c]

/-- The loop. -/
def loop : List UInt8 → OsclString → Nat → Str
  | [], dest, out_buf_len => ⟨true, dest, out_buf_len⟩
  | c :: rest, dest, out_buf_len =>
    if c = 37 then
      match rest with
      | a :: b :: rest' =>
        match pvAtoi32 (some (a :: b :: rest')) 'x' 2 with
        | (false, _) => ⟨false, dest, out_buf_len⟩
        | (true, val) =>
          if dest.contents.length = dest.maxsize then ⟨false, dest, out_buf_len⟩
          else loop rest' (dest.append (buf (.ofNat val))) (out_buf_len + 1)
      | _ => ⟨false, dest, out_buf_len⟩
    else if c = 0 then ⟨true, dest, out_buf_len⟩
    else if dest.contents.length = dest.maxsize then ⟨false, dest, out_buf_len⟩
    else loop rest (dest.append (buf c)) (out_buf_len + 1)

end Str

/-- `oscl_str_unescape_uri` for strings. -/
def unescapeString (srcString : List UInt8) (destString : OsclString) : Str :=
  if srcString = [] then ⟨false, destString.assign [], 0⟩ else Str.loop srcString (destString.assign []) 0

/-! ## What a source stands for -/

/-- The bytes that a source stands for, up to a zero, if its escapes are well formed. -/
def unescape : List UInt8 → Option (List UInt8)
  | [] => some []
  | c :: rest =>
    if c = 37 then
      match rest with
      | a :: b :: rest' =>
        match pvAtoi32 (some (a :: b :: rest')) 'x' 2 with
        | (false, _) => none
        | (true, val) => (unescape rest').map (.ofNat val :: ·)
      | _ => none
    else if c = 0 then some []
    else (unescape rest).map (c :: ·)

/-- The empty source is refused. -/
def decoded (src : List UInt8) : Option (List UInt8) := if src = [] then none else unescape src

theorem Raw.put_eq (dest : List UInt8) (destStrLen : Nat) (c : UInt8) :
    put dest destStrLen c = (dest ++ [c].take destStrLen, destStrLen - 1) := by
  rw [put]
  cases destStrLen <;> simp

theorem Raw.finish_cons (dest out : List UInt8) (destStrLen out_buf_len : Nat) (c : UInt8) :
    finish (dest ++ [c].take destStrLen ++ out.take (destStrLen - 1)) (destStrLen - 1 - out.length)
        (out_buf_len + 1 + out.length) =
      finish (dest ++ (c :: out).take destStrLen) (destStrLen - (c :: out).length)
        (out_buf_len + (c :: out).length) := by
  have hlen : destStrLen - 1 - out.length = destStrLen - (c :: out).length := by
    simp only [List.length_cons]
    omega
  have hout : out_buf_len + 1 + out.length = out_buf_len + (c :: out).length := by
    simp only [List.length_cons]
    omega
  rw [hlen, hout, List.append_assoc]
  cases destStrLen <;> simp

/-- **The loop over buffers** stores the bytes as far as there is room, and counts them all. -/
theorem Raw.loop_eq (src dest : List UInt8) (destStrLen out_buf_len : Nat) :
    match unescape src with
    | none => (loop src dest destStrLen out_buf_len).result = false
    | some out => loop src dest destStrLen out_buf_len =
        finish (dest ++ out.take destStrLen) (destStrLen - out.length) (out_buf_len + out.length) := by
  fun_induction unescape src generalizing dest destStrLen out_buf_len with
  | case1 => simp [loop]
  | case2 a b rest val hval => simp [loop, hval, bad]
  | case3 a b rest val hval ih =>
    have hrest := ih (dest ++ [UInt8.ofNat val].take destStrLen) (destStrLen - 1) (out_buf_len + 1)
    simp only [loop, hval, put_eq, if_true]
    cases hout : unescape rest with
    | none => simpa only [hout, Option.map_none] using hrest
    | some out =>
      rw [hout] at hrest
      simp only [Option.map_some, hrest, finish_cons]
  | case4 rest hshort =>
    simp only [loop, if_true]
    rfl
  | case5 rest _ =>
    rw [loop.eq_def]
    simp
  | case6 c rest hpercent hzero ih =>
    have hrest := ih (dest ++ [c].take destStrLen) (destStrLen - 1) (out_buf_len + 1)
    simp only [loop.eq_def _ dest, hpercent, hzero, put_eq, if_false]
    cases hout : unescape rest with
    | none => simpa only [hout, Option.map_none] using hrest
    | some out =>
      rw [hout] at hrest
      simp only [Option.map_some, hrest, finish_cons]

variable {dest : OsclString}

theorem OsclString.append_buf (hstack : dest.kind = .stack)
    (hroom : dest.contents.length < dest.maxsize) (c : UInt8) :
    dest.append (Str.buf c) = { dest with contents := dest.contents ++ [c].filter (· ≠ 0) } := by
  obtain ⟨n, hn⟩ : ∃ n, dest.maxsize - dest.contents.length = n + 1 := ⟨_, (Nat.succ_pred_eq_of_pos (by omega)).symm⟩
  simp only [append, hstack, Str.buf, hn]
  by_cases hc : c = 0 <;> simp [hc]

variable {src out : List UInt8}

theorem Str.loop_bad (h : unescape src = none) (dest : OsclString) (out_buf_len : Nat) :
    (loop src dest out_buf_len).result = false := by
  fun_induction unescape src generalizing dest out_buf_len with
  | case1 => contradiction
  | case2 a b rest val hval => simp [loop, hval]
  | case3 a b rest val hval ih =>
    simp only [loop, hval, if_true]
    split
    · rfl
    · exact ih (Option.map_eq_none_iff.mp h) _ _
  | case4 rest hshort => simp only [loop, if_true]
  | case5 => contradiction
  | case6 c rest hpercent hzero ih =>
    simp only [loop.eq_def _ dest, hpercent, hzero, if_false]
    split
    · rfl
    · exact ih (Option.map_eq_none_iff.mp h) _ _

/-- Where there is room for more bytes, one is appended, and there is room for the others. -/
theorem OsclString.append_room (hstack : dest.kind = .stack) {c : UInt8}
    (hroom : dest.contents.length + (c :: out).length ≤ dest.maxsize) :
    let dest' := { dest with contents := dest.contents ++ [c].filter (· ≠ 0) }
    dest.contents.length ≠ dest.maxsize ∧ dest.append (Str.buf c) = dest' ∧ dest'.kind = .stack ∧
      dest'.contents.length + out.length ≤ dest'.maxsize := by
  have hlen : ([c].filter (· ≠ 0)).length ≤ 1 := List.length_filter_le ..
  rw [List.length_cons] at hroom
  refine ⟨by omega, append_buf hstack (by omega) c, hstack, ?_⟩
  simp only [List.length_append]
  omega

/-- **The loop over strings**, with a stack string that is large enough: the bytes are counted,
and all but the zeros appended. -/
theorem Str.loop_eq (h : unescape src = some out)
    (hstack : dest.kind = .stack) (hroom : dest.contents.length + out.length ≤ dest.maxsize) (out_buf_len : Nat) :
    loop src dest out_buf_len =
      ⟨true, { dest with contents := dest.contents ++ out.filter (· ≠ 0) }, out_buf_len + out.length⟩ := by
  fun_induction unescape src generalizing dest out out_buf_len with
  | case1 =>
    obtain rfl := Option.some.inj h
    simp [loop]
  | case2 => contradiction
  | case3 a b rest val hval ih =>
    obtain ⟨out', hout, rfl⟩ := Option.map_eq_some_iff.mp h
    obtain ⟨hne, happend, hstack', hroom'⟩ := OsclString.append_room hstack hroom
    simp only [loop, hval, if_true]
    rw [if_neg hne, happend, ih hout hstack' hroom']
    simp only [List.append_assoc, ← List.filter_append, List.singleton_append, List.length_cons, Nat.add_assoc,
      Nat.add_comm 1]
  | case4 => contradiction
  | case5 rest _ =>
    obtain rfl := Option.some.inj h
    rw [loop.eq_def]
    simp
  | case6 c rest hpercent hzero ih =>
    obtain ⟨out', hout, rfl⟩ := Option.map_eq_some_iff.mp h
    obtain ⟨hne, happend, hstack', hroom'⟩ := OsclString.append_room hstack hroom
    simp only [loop.eq_def _ dest, hpercent, hzero, if_false]
    rw [if_neg hne, happend, ih hout hstack' hroom']
    simp only [List.append_assoc, ← List.filter_append, List.singleton_append, List.length_cons, Nat.add_assoc,
      Nat.add_comm 1]

theorem Str.loop_full (h : unescape src = some out)
    (hfull : dest.contents.length = dest.maxsize) (out_buf_len : Nat) :
    loop src dest out_buf_len = ⟨out.isEmpty, dest, out_buf_len⟩ := by
  fun_cases unescape src with
  | case1 =>
    obtain rfl := Option.some.inj h
    rfl
  | case2 a b rest val hval => simp [unescape, hval] at h
  | case3 a b rest val hval =>
    obtain ⟨out', -, rfl⟩ := Option.map_eq_some_iff.mp (by simpa only [unescape, hval, if_true] using h)
    simp [loop, hval, hfull]
  | case4 rest hshort => simp [unescape] at h
  | case5 rest _ =>
    obtain rfl : [] = out := by simpa [unescape.eq_def] using h
    rw [loop.eq_def]
    simp
  | case6 c rest hpercent hzero =>
    rw [unescape.eq_def] at h
    simp only [if_neg hpercent, if_neg hzero] at h
    obtain ⟨out', -, rfl⟩ := Option.map_eq_some_iff.mp h
    rw [loop.eq_def]
    simp [hpercent, hzero, hfull]

/-! ## Agreement -/

/-- A destination that holds so many bytes: a heap string grows. -/
def OsclString.Holds (s : OsclString) (n : Nat) : Prop := s.kind = .heap ∨ n ≤ s.maxsize

/-- Both destinations are large enough. -/
def Enough (src : List UInt8) (dest : OsclString) (max_out_buf_bytes : Nat) : Prop :=
  ∀ out, decoded src = some out → out.length < max_out_buf_bytes ∧ dest.Holds out.length

/-- The overloads agree: the same flag, and on success the same length and the same bytes. -/
def Agree (src : List UInt8) (dest : OsclString) (max_out_buf_bytes : Nat) : Prop :=
  let raw := unescapeRaw (some src) max_out_buf_bytes src.length
  let str := unescapeString src dest
  raw.result = str.result ∧
    (raw.result = true → raw.out_buf_len = str.out_buf_len ∧ raw.dest = str.dest.contents)

/-- Where another size would do, the size that is reported does. -/
def SizeReported (src : List UInt8) (max_out_buf_bytes : Nat) : Prop :=
  let raw := unescapeRaw (some src) max_out_buf_bytes src.length
  raw.result = false → (∃ size, (unescapeRaw (some src) size src.length).result = true) →
    (unescapeRaw (some src) raw.out_buf_len src.length).result = true

theorem unescapeRaw_of_none (h : decoded src = none) (max_out_buf_bytes : Nat) :
    (unescapeRaw (some src) max_out_buf_bytes src.length).result = false := by
  simp only [unescapeRaw, List.take_length, List.length_eq_zero_iff]
  rw [decoded] at h
  split at h
  · next hnil => rw [if_pos hnil]
  · next hne =>
    rw [if_neg hne]
    have hloop := Raw.loop_eq src [] max_out_buf_bytes 0
    rw [h] at hloop
    exact hloop

theorem unescapeRaw_of_some (h : decoded src = some out) (max_out_buf_bytes : Nat) :
    unescapeRaw (some src) max_out_buf_bytes src.length =
      Raw.finish (out.take max_out_buf_bytes) (max_out_buf_bytes - out.length) out.length := by
  simp only [unescapeRaw, List.take_length, List.length_eq_zero_iff]
  rw [decoded] at h
  split at h
  · contradiction
  · next hne =>
    have hloop := Raw.loop_eq src [] max_out_buf_bytes 0
    rw [h] at hloop
    simp only [if_neg hne, hloop, List.nil_append, Nat.zero_add]

theorem unescapeString_of_none (h : decoded src = none) (dest : OsclString) :
    (unescapeString src dest).result = false := by
  rw [decoded] at h
  rw [unescapeString]
  split at h
  · next hnil => rw [if_pos hnil]
  · next hne =>
    rw [if_neg hne]
    exact Str.loop_bad h _ _

theorem unescapeString_of_stack (h : decoded src = some out)
    (hstack : dest.kind = .stack) (hroom : out.length ≤ dest.maxsize) :
    unescapeString src dest = ⟨true, { dest with contents := out.filter (· ≠ 0) }, out.length⟩ := by
  rw [decoded] at h
  split at h
  · contradiction
  · next hne =>
    have hassign : dest.assign [] = { dest with contents := [] } := by simp [OsclString.assign, hstack]
    have hloop := Str.loop_eq h (show ({ dest with contents := [] } : OsclString).kind = .stack from hstack)
      (by simpa using hroom) 0
    rw [unescapeString, if_neg hne, hassign, hloop]
    simp

theorem unescapeString_of_not_stack (h : decoded src = some out) (hstack : dest.kind ≠ .stack) :
    unescapeString src dest = ⟨out.isEmpty, dest.assign [], 0⟩ := by
  rw [decoded] at h
  split at h
  · contradiction
  · next hne =>
    have hfull : (dest.assign []).contents.length = (dest.assign []).maxsize := by
      rw [OsclString.assign]
      cases hkind : dest.kind <;> simp_all
    rw [unescapeString, if_neg hne, Str.loop_full h hfull]

theorem sizeReported (src : List UInt8) (max_out_buf_bytes : Nat) : SizeReported src max_out_buf_bytes := by
  simp only [SizeReported]
  rintro hfail ⟨size, hsize⟩
  cases hout : decoded src with
  | none => simp [unescapeRaw_of_none hout] at hsize
  | some out =>
    rw [unescapeRaw_of_some hout, Raw.finish] at hfail
    rw [unescapeRaw_of_some hout, unescapeRaw_of_some hout, Raw.finish, Raw.finish]
    split at hfail
    · contradiction
    · next hlt => simp [hlt]

/-- **When the overloads agree**: on sources that both refuse; and on others for a stack string,
if no byte of them is zero, or if there is none at all.  The size query holds of all. -/
theorem agree_iff {src : List UInt8} {dest : OsclString} {max_out_buf_bytes : Nat}
    (h : Enough src dest max_out_buf_bytes) :
    (Agree src dest max_out_buf_bytes ∧ ∀ size, SizeReported src size) ↔
      ∀ out, decoded src = some out → out = [] ∨ (dest.kind = .stack ∧ 0 ∉ out) := by
  rw [and_iff_left (sizeReported src)]
  simp only [Agree]
  cases hout : decoded src with
  | none => simp [unescapeRaw_of_none hout, unescapeString_of_none hout]
  | some out =>
    obtain ⟨hlt, hholds⟩ := h out hout
    have htake : out.take max_out_buf_bytes = out := List.take_of_length_le (by omega)
    have hraw : unescapeRaw (some src) max_out_buf_bytes src.length = ⟨true, out, true, out.length⟩ := by
      rw [unescapeRaw_of_some hout, Raw.finish, if_pos (by omega), htake]
    simp only [hraw, Option.some.injEq, forall_eq']
    by_cases hstack : dest.kind = .stack
    · have hroom : out.length ≤ dest.maxsize := hholds.resolve_left (by rw [hstack]; decide)
      have hfilter : out = out.filter (· ≠ 0) ↔ 0 ∉ out := by
        rw [eq_comm, List.filter_eq_self]
        constructor
        · intro hall hmem
          simpa using hall 0 hmem
        · intro hnot c hc
          simpa using ne_of_mem_of_not_mem hc hnot
      simp only [unescapeString_of_stack hout hstack hroom, hfilter, hstack, true_and, forall_const]
      constructor
      · exact Or.inr
      · rintro (rfl | hnot)
        · exact List.not_mem_nil
        · exact hnot
    · rw [unescapeString_of_not_stack hout hstack]
      cases out with
      | nil =>
        simp [OsclString.assign]
        cases dest.kind <;> simp
      | cons c out => simp [hstack]

/-- A destination with room for eight bytes on the stack. -/
def eightBytes : OsclString := ⟨.stack, [], 8, true⟩

/-- The overloads agree on `a%41`. -/
theorem agree_letters :
    Agree [97, 37, 52, 49] eightBytes 8 ∧ ∀ size, SizeReported [97, 37, 52, 49] size := by
  have hdecoded : decoded [97, 37, 52, 49] = some [97, 65] := by decide
  refine (agree_iff ?_).mpr ?_
  · intro out hout
    obtain rfl := Option.some.inj (hdecoded.symm.trans hout)
    exact ⟨by decide, Or.inr (by decide)⟩
  · intro out hout
    obtain rfl := Option.some.inj (hdecoded.symm.trans hout)
    exact Or.inr ⟨rfl, by decide⟩

/-- **Not on `a%00b`**: both count three bytes, but the string holds two. -/
theorem disagree_zero :
    unescapeRaw (some [97, 37, 48, 48, 98]) 8 5 = ⟨true, [97, 0, 98], true, 3⟩ ∧
      unescapeString [97, 37, 48, 48, 98] eightBytes = ⟨true, { eightBytes with contents := [97, 98] }, 3⟩ ∧
      Enough [97, 37, 48, 48, 98] eightBytes 8 ∧ ¬Agree [97, 37, 48, 48, 98] eightBytes 8 := by
  have hdecoded : decoded [97, 37, 48, 48, 98] = some [97, 0, 98] := by decide
  refine ⟨by decide, by decide, ?_, ?_⟩
  · intro out hout
    obtain rfl := Option.some.inj (hdecoded.symm.trans hout)
    exact ⟨by decide, Or.inr (by decide)⟩
  · rintro ⟨-, hsame⟩
    exact absurd (hsame (by decide)).2 (by decide)

end Ftke.StringUri
