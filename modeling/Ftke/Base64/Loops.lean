import Ftke.Base64

/-!
# Ftke.Base64.Loops

What the two loops of the codec compute, in closed form.

`encodeText b` is the text of a byte string and `decodeBytes D` the bytes of a
character string from which the skipped characters are gone.  `encodeLoop`
writes the first, `decodeLoop` the second; both look at the capacity only after
writing, so a buffer that is too small is overrun.
-/

namespace Ftke.Base64.PVBase64Codec

/-! ## The encoder -/

/-- The text that stands for a byte string. -/
def encodeText (codec : PVBase64Codec) : List UInt8 → List UInt8
  | [] => []
  | [x] => codec.ogroup 1 x 0 0
  | [x, y] => codec.ogroup 2 x y 0
  | x :: y :: z :: b => codec.ogroup 3 x y z ++ codec.encodeText b

theorem length_encodeText (codec : PVBase64Codec) :
    ∀ b : List UInt8, (codec.encodeText b).length = 4 * ((b.length + 2) / 3)
  | [] => rfl
  | [_] => by simp only [encodeText, ogroup, List.length_cons, List.length_nil]
  | [_, _] => by simp only [encodeText, ogroup, List.length_cons, List.length_nil]
  | x :: y :: z :: b => by
    have ih := length_encodeText codec b
    simp only [encodeText, List.length_append, List.length_cons, ogroup, List.length_nil, ih]
    omega

variable {M i len0 : Nat}

theorem writeGroup_within (hM : M < 2 ^ 32) :
    ∀ (cs : List UInt8) (out : Buffer UInt8) (wc : Nat), wc + cs.length ≤ M →
      writeGroup M cs out wc = (true, out.memcpy wc cs, wc + cs.length)
  | [], out, wc, _ => by rw [Buffer.memcpy_nil]; rfl
  | c :: cs, out, wc, h => by
    rw [List.length_cons] at h
    have hwrap : wrap32 (wc + 1) = wc + 1 := Nat.mod_eq_of_lt (by omega)
    have ih := writeGroup_within hM cs (out.store wc c) (wc + 1) (by omega)
    simp only [writeGroup, hwrap, if_neg (show ¬ wc + 1 > M by omega), ih,
      Buffer.store_memcpy, List.length_cons]
    rw [show wc + 1 + cs.length = wc + (cs.length + 1) by omega]

theorem writeGroup_keeps (M : Nat) :
    ∀ (cs : List UInt8) {out : Buffer UInt8} (wc : Nat), out i ≠ none →
      (writeGroup M cs out wc).2.1 i ≠ none
  | [], _, _, h => h
  | c :: cs, out, wc, h => by
    have hstore := Buffer.store_ne_none out wc c h
    unfold writeGroup
    simp only
    split
    · exact hstore
    · exact writeGroup_keeps _ cs _ hstore

/-- A group that does not fit is written beyond the capacity: the check comes
after the write. -/
theorem writeGroup_beyond (hM : M < 2 ^ 32) :
    ∀ (cs : List UInt8) (out : Buffer UInt8) {wc : Nat}, wc ≤ M → M < wc + cs.length →
      (writeGroup M cs out wc).2.1 M ≠ none
  | [], _, wc, hwc, h => absurd h (by rw [List.length_nil]; omega)
  | c :: cs, out, wc, hwc, h => by
    rw [List.length_cons] at h
    unfold writeGroup
    simp only
    rcases Nat.lt_or_ge wc M with hlt | hge
    · have hwrap : wrap32 (wc + 1) = wc + 1 := Nat.mod_eq_of_lt (by omega)
      rw [hwrap, if_neg (by omega)]
      exact writeGroup_beyond hM cs _ (by omega) (by omega)
    · obtain rfl : wc = M := Nat.le_antisymm hwc hge
      have hstore : out.store wc c wc ≠ none := by
        rw [Buffer.store_self]
        exact Option.some_ne_none c
      split
      · exact hstore
      · exact writeGroup_keeps _ cs _ hstore

/-- **Encode, in a buffer that is large enough.** -/
theorem encodeLoop_within (codec : PVBase64Codec) (len0 : Nat) (hM : M < 2 ^ 32) :
    ∀ (b : List UInt8) (out : Buffer UInt8) (wc : Nat), wc + (codec.encodeText b).length ≤ M →
      encodeLoop codec len0 M b out wc =
        ⟨true, wc + (codec.encodeText b).length, out.memcpy wc (codec.encodeText b)⟩
  | [], out, wc, _ => by
    show (⟨true, wc, out⟩ : Result) = ⟨true, wc + 0, out.memcpy wc []⟩
    rw [Buffer.memcpy_nil, Nat.add_zero]
  | [x], out, wc, h => by
    have hw := writeGroup_within hM (codec.ogroup 1 x 0 0) out wc h
    simp only [encodeLoop, hw, if_true]
    rfl
  | [x, y], out, wc, h => by
    have hw := writeGroup_within hM (codec.ogroup 2 x y 0) out wc h
    simp only [encodeLoop, hw, if_true]
    rfl
  | x :: y :: z :: b, out, wc, h => by
    rw [encodeText, List.length_append] at h
    have hw := writeGroup_within hM (codec.ogroup 3 x y z) out wc (by omega)
    have ih := encodeLoop_within codec len0 hM b (out.memcpy wc (codec.ogroup 3 x y z))
      (wc + (codec.ogroup 3 x y z).length) (by omega)
    simp only [encodeLoop, hw, if_true, ih, encodeText, List.length_append,
      Buffer.memcpy_memcpy, Nat.add_assoc]

theorem encodeLoop_keeps (codec : PVBase64Codec) :
    ∀ {b : List UInt8} {out : Buffer UInt8} {wc : Nat}, out i ≠ none →
      (encodeLoop codec len0 M b out wc).aOutBuf i ≠ none
  | [], _, _, h => h
  | [x], out, wc, h => by
    have hk := writeGroup_keeps M (codec.ogroup 1 x 0 0) wc h
    unfold encodeLoop
    simp only
    split <;> exact hk
  | [x, y], out, wc, h => by
    have hk := writeGroup_keeps M (codec.ogroup 2 x y 0) wc h
    unfold encodeLoop
    simp only
    split <;> exact hk
  | x :: y :: z :: b, out, wc, h => by
    have hk := writeGroup_keeps M (codec.ogroup 3 x y z) wc h
    unfold encodeLoop
    simp only
    split
    · exact encodeLoop_keeps codec hk
    · exact hk

/-- **Encode, in a buffer that is too small**: the byte behind it is written. -/
theorem encodeLoop_beyond (codec : PVBase64Codec) (hM : M < 2 ^ 32) :
    ∀ {b : List UInt8} {out : Buffer UInt8} {wc : Nat}, wc ≤ M →
      M < wc + (codec.encodeText b).length →
      (encodeLoop codec len0 M b out wc).aOutBuf M ≠ none
  | [], _, wc, hwc, h => absurd h (by rw [encodeText, List.length_nil]; omega)
  | [x], out, wc, hwc, h => by
    have hk := writeGroup_beyond hM (codec.ogroup 1 x 0 0) out hwc h
    unfold encodeLoop
    simp only
    split <;> exact hk
  | [x, y], out, wc, hwc, h => by
    have hk := writeGroup_beyond hM (codec.ogroup 2 x y 0) out hwc h
    unfold encodeLoop
    simp only
    split <;> exact hk
  | x :: y :: z :: b, out, wc, hwc, h => by
    rw [encodeText, List.length_append] at h
    rcases Nat.lt_or_ge M (wc + (codec.ogroup 3 x y z).length) with hlt | hge
    · have hk := writeGroup_beyond hM (codec.ogroup 3 x y z) out hwc hlt
      unfold encodeLoop
      simp only
      split
      · exact encodeLoop_keeps codec hk
      · exact hk
    · have hw := writeGroup_within hM (codec.ogroup 3 x y z) out wc hge
      simp only [encodeLoop, hw, if_true]
      exact encodeLoop_beyond codec hM hge (by omega)

theorem encode_within (codec : PVBase64Codec) (b : List UInt8) (len0 : Nat)
    (hM : M < 2 ^ 32) (h : (codec.encodeText b).length ≤ M) :
    codec.encode b len0 M = ⟨true, (codec.encodeText b).length,
      Buffer.empty.memcpy 0 (codec.encodeText b)⟩ := by
  have hw := encodeLoop_within codec len0 hM b Buffer.empty 0 (by omega)
  rw [Nat.zero_add] at hw
  exact hw

theorem encode_overrun_iff (codec : PVBase64Codec) (b : List UInt8) (len0 : Nat) (hM : M < 2 ^ 32) :
    (codec.encode b len0 M).aOutBuf.Overrun M ↔ M < (codec.encodeText b).length := by
  constructor
  · intro ⟨i, hi, hne⟩
    by_contra hle
    rw [encode_within codec b len0 hM (by omega)] at hne
    exact hne (Buffer.memcpy_outside _ (Or.inr (by omega)))
  · intro h
    exact ⟨M, Nat.le_refl M, encodeLoop_beyond codec hM (Nat.zero_le M) (by omega)⟩

/-! ## The decoder -/

/-- The bytes of the groups of a character string, up to a padded group. -/
def decodeBytes (codec : PVBase64Codec) : List UInt8 → List UInt8
  | a0 :: a1 :: a2 :: a3 :: D =>
    codec.ogroupBytes a0 a1 a2 a3 ++ if a2 = pad ∨ a3 = pad then [] else codec.decodeBytes D
  | _ => []

/-- Some whole group is padded. -/
def padded : List UInt8 → Bool
  | _ :: _ :: a2 :: a3 :: D => a2 = pad || a3 = pad || padded D
  | _ => false

/-- The character string falls into whole groups, at least up to a padded one. -/
def closed : List UInt8 → Bool
  | [] => true
  | _ :: _ :: a2 :: a3 :: D => a2 = pad || a3 = pad || closed D
  | _ => false

/-- The input ends with a group: no character is missing, and none that is
skipped follows unless a padded group came before. -/
def Ends (codec : PVBase64Codec) (text : List UInt8) : Prop :=
  closed (text.filter codec.accepts) ∧
    (padded (text.filter codec.accepts) ∨ ∀ c ∈ text.getLast?, codec.accepts c)

variable {D text : List UInt8} {codec : PVBase64Codec}

theorem readChar_of_filter {x : UInt8} :
    ∀ {text : List UInt8}, text.filter codec.accepts = x :: D →
      ∃ pre rest, text = pre ++ x :: rest ∧ readChar codec text = some (x, rest) ∧
        rest.filter codec.accepts = D
  | [], h => absurd h (by simp)
  | c :: text, h => by
    cases hc : codec.accepts c with
    | true =>
      rw [List.filter_cons_of_pos hc] at h
      obtain ⟨rfl, hD⟩ := List.cons.inj h
      exact ⟨[], text, rfl, by simp only [readChar, hc, if_true], hD⟩
    | false =>
      rw [List.filter_cons_of_neg (by rw [hc]; decide)] at h
      obtain ⟨pre, rest, rfl, hread, hD⟩ := readChar_of_filter h
      refine ⟨c :: pre, rest, rfl, ?_, hD⟩
      rw [readChar, if_neg (by rw [hc]; decide), hread]

theorem readChar_of_filter_nil :
    ∀ {text : List UInt8}, text.filter codec.accepts = [] → readChar codec text = none
  | [], _ => rfl
  | c :: text, h => by
    cases hc : codec.accepts c with
    | true =>
      rw [List.filter_cons_of_pos hc] at h
      exact absurd h (List.cons_ne_nil _ _)
    | false =>
      rw [List.filter_cons_of_neg (by rw [hc]; decide)] at h
      rw [readChar, if_neg (by rw [hc]; decide), readChar_of_filter_nil h]

variable {a0 a1 a2 a3 : UInt8}

theorem readGroup_of_filter (h : text.filter codec.accepts = a0 :: a1 :: a2 :: a3 :: D) :
    ∃ pre rest, text = pre ++ a3 :: rest ∧
      readGroup codec text = some ((a0, a1, a2, a3), rest) ∧ rest.filter codec.accepts = D := by
  obtain ⟨p0, r0, rfl, h0, hD0⟩ := readChar_of_filter h
  obtain ⟨p1, r1, rfl, h1, hD1⟩ := readChar_of_filter hD0
  obtain ⟨p2, r2, rfl, h2, hD2⟩ := readChar_of_filter hD1
  obtain ⟨p3, r3, rfl, h3, hD3⟩ := readChar_of_filter hD2
  refine ⟨p0 ++ a0 :: (p1 ++ a1 :: (p2 ++ a2 :: p3)), r3, by simp, ?_, hD3⟩
  simp only [readGroup, h0, h1, h2, h3, Option.bind_eq_bind, Option.bind_some]
  rfl

theorem readGroup_of_short (h : (text.filter codec.accepts).length < 4) : readGroup codec text = none := by
  match hf : text.filter codec.accepts with
  | [] => simp only [readGroup, readChar_of_filter_nil hf, Option.bind_eq_bind, Option.bind_none]
  | [a0] =>
    obtain ⟨_, r0, _, h0, hD0⟩ := readChar_of_filter hf
    simp only [readGroup, h0, readChar_of_filter_nil hD0, Option.bind_eq_bind, Option.bind_some,
      Option.bind_none]
  | [a0, a1] =>
    obtain ⟨_, r0, _, h0, hD0⟩ := readChar_of_filter hf
    obtain ⟨_, r1, _, h1, hD1⟩ := readChar_of_filter hD0
    simp only [readGroup, h0, h1, readChar_of_filter_nil hD1, Option.bind_eq_bind,
      Option.bind_some, Option.bind_none]
  | [a0, a1, a2] =>
    obtain ⟨_, r0, _, h0, hD0⟩ := readChar_of_filter hf
    obtain ⟨_, r1, _, h1, hD1⟩ := readChar_of_filter hD0
    obtain ⟨_, r2, _, h2, hD2⟩ := readChar_of_filter hD1
    simp only [readGroup, h0, h1, h2, readChar_of_filter_nil hD2, Option.bind_eq_bind,
      Option.bind_some, Option.bind_none]
  | _ :: _ :: _ :: _ :: D =>
    rw [hf] at h
    simp only [List.length_cons] at h
    omega

theorem length_ogroupBytes (codec : PVBase64Codec) (a0 a1 a2 a3 : UInt8) :
    (codec.ogroupBytes a0 a1 a2 a3).length =
      if a2 = pad then 1 else if a3 = pad then 2 else 3 := by
  simp only [ogroupBytes, List.length_take, List.length_cons, List.length_nil]
  split
  · rfl
  · split <;> rfl

theorem length_ogroupBytes_lt_iff (codec : PVBase64Codec) (a0 a1 a2 a3 : UInt8) :
    (codec.ogroupBytes a0 a1 a2 a3).length < 3 ↔ a2 = pad ∨ a3 = pad := by
  rw [length_ogroupBytes]
  split
  · next h => exact ⟨fun _ => Or.inl h, fun _ => by decide⟩
  · next h =>
    split
    · next h3 => exact ⟨fun _ => Or.inr h3, fun _ => by decide⟩
    · next h3 => exact ⟨fun hlt => absurd hlt (by decide), fun hp => (hp.elim h h3).elim⟩

theorem decodeBytes_short (codec : PVBase64Codec) (h : D.length < 4) :
    codec.decodeBytes D = [] := by
  match D, h with
  | [], _ | [_], _ | [_, _], _ | [_, _, _], _ => simp only [decodeBytes]
  | _ :: _ :: _ :: _ :: D, h =>
    simp only [List.length_cons] at h
    omega

theorem not_ends_of_short {c : UInt8}
    (h : ((c :: text).filter codec.accepts).length < 4) : ¬ codec.Ends (c :: text) := by
  rintro ⟨hclosed, hend⟩
  match hf : (c :: text).filter codec.accepts with
  | [] =>
    rw [hf] at hend
    rcases hend with hpad | hlast
    · simp only [padded] at hpad
      exact absurd hpad (by decide)
    · have hmem := List.getLast?_eq_some_getLast (List.cons_ne_nil c text)
      have hacc := hlast _ hmem
      exact List.filter_eq_nil_iff.mp hf _ (List.getLast_mem _) hacc
  | [_] | [_, _] | [_, _, _] =>
    rw [hf] at hclosed
    simp only [closed] at hclosed
    exact absurd hclosed (by decide)
  | _ :: _ :: _ :: _ :: D =>
    rw [hf] at h
    simp only [List.length_cons] at h
    omega

theorem closed_group (h2 : a2 ≠ pad) (h3 : a3 ≠ pad) :
    closed (a0 :: a1 :: a2 :: a3 :: D) = closed D := by
  simp only [closed, h2, h3, decide_false, Bool.false_or]

theorem padded_group (a0 a1 : UInt8) (h2 : a2 ≠ pad) (h3 : a3 ≠ pad) :
    padded (a0 :: a1 :: a2 :: a3 :: D) = padded D := by
  simp only [padded, h2, h3, decide_false, Bool.false_or]

theorem ends_rest {pre rest D : List UInt8}
    (htext : (pre ++ a3 :: rest).filter codec.accepts = a0 :: a1 :: a2 :: a3 :: D)
    (hrest : rest.filter codec.accepts = D) (h2 : a2 ≠ pad) (h3 : a3 ≠ pad) :
    codec.Ends (pre ++ a3 :: rest) ↔ codec.Ends rest := by
  have hlast : (∀ c ∈ (pre ++ a3 :: rest).getLast?, codec.accepts c) ↔
      ∀ c ∈ rest.getLast?, codec.accepts c := by
    cases rest with
    | nil =>
      have ha3 : a3 ∈ (pre ++ [a3]).filter codec.accepts := by
        rw [htext]
        simp
      rw [List.getLast?_append]
      refine ⟨fun _ c hc => absurd hc (by simp), fun _ c hc => ?_⟩
      obtain rfl : a3 = c := by simpa using hc
      exact (List.mem_filter.mp ha3).2
    | cons r rest =>
      rw [List.getLast?_append_of_ne_nil _ (List.cons_ne_nil _ _), List.getLast?_cons_cons]
  unfold Ends
  rw [htext, hrest, closed_group h2 h3, padded_group _ _ h2 h3, hlast]

/-- **Decode in closed form.**  With `D` the characters that are not skipped, the
bytes of `D` are written; when they do not fit, a part of them that does not fit
either; and the answer is `true` exactly when they fit and the input ends with
a group. -/
theorem decodeLoop_spec (codec : PVBase64Codec) (len : Nat) :
    ∀ {fuel : Nat} (text : List UInt8) (out : Buffer UInt8) (wc : Nat), text.length ≤ fuel →
      wc ≤ M →
      (M < wc + (codec.decodeBytes (text.filter codec.accepts)).length →
        ∃ k ≤ (codec.decodeBytes (text.filter codec.accepts)).length, M < wc + k ∧
          decodeLoop codec len M fuel text out wc = some ⟨false, 0,
            out.memcpy wc ((codec.decodeBytes (text.filter codec.accepts)).take k)⟩) ∧
      (wc + (codec.decodeBytes (text.filter codec.accepts)).length ≤ M → codec.Ends text →
        decodeLoop codec len M fuel text out wc = some ⟨true,
          wc + (codec.decodeBytes (text.filter codec.accepts)).length,
          out.memcpy wc (codec.decodeBytes (text.filter codec.accepts))⟩) ∧
      (wc + (codec.decodeBytes (text.filter codec.accepts)).length ≤ M → ¬ codec.Ends text →
        decodeLoop codec len M fuel text out wc = if wrap32 (len + 1) > len then
          some ⟨false, 0, out.memcpy wc (codec.decodeBytes (text.filter codec.accepts))⟩ else none)
  | fuel, [], out, wc, _, hwc => by
    have hends : codec.Ends [] := ⟨rfl, Or.inr fun c hc => absurd hc (by simp)⟩
    have hbytes : codec.decodeBytes ([].filter codec.accepts) = [] :=
      decodeBytes_short codec (Nat.zero_lt_succ 3)
    rw [hbytes, Buffer.memcpy_nil, List.length_nil]
    refine ⟨fun h => absurd h (by omega), fun _ _ => ?_, fun _ h => absurd hends h⟩
    cases fuel <;> rfl
  | fuel + 1, c :: text, out, wc, hfuel, hwc => by
    rcases Nat.lt_or_ge ((c :: text).filter codec.accepts).length 4 with hshort | hlong
    · -- the input breaks off inside a group
      have hread := readGroup_of_short hshort
      rw [decodeBytes_short codec hshort, List.length_nil, Buffer.memcpy_nil]
      refine ⟨fun h => absurd h (by omega), fun _ h => absurd h (not_ends_of_short hshort),
        fun _ _ => ?_⟩
      simp only [decodeLoop, hread]
    · obtain ⟨a0, a1, a2, a3, D, hD⟩ : ∃ a0 a1 a2 a3 D,
          (c :: text).filter codec.accepts = a0 :: a1 :: a2 :: a3 :: D := by
        match (c :: text).filter codec.accepts, hlong with
        | a0 :: a1 :: a2 :: a3 :: D, _ => exact ⟨a0, a1, a2, a3, D, rfl⟩
      obtain ⟨pre, rest, htext, hread, hrest⟩ := readGroup_of_filter hD
      have hlen : rest.length ≤ fuel := by
        have h := congrArg List.length htext
        simp only [List.length_append, List.length_cons] at h hfuel
        omega
      have hle : (codec.ogroupBytes a0 a1 a2 a3).length ≤ 3 := by
        rw [length_ogroupBytes]
        split <;> [skip; split] <;> decide
      rw [hD]
      unfold decodeBytes
      simp only [decodeLoop, hread]
      generalize ho : codec.ogroupBytes a0 a1 a2 a3 = o at hle
      rcases Nat.lt_or_ge M (wc + o.length) with hover | hfit
      · -- the group itself does not fit
        simp only [if_pos hover]
        rw [List.length_append]
        refine ⟨fun _ => ⟨o.length, by omega, hover, ?_⟩, fun h => absurd h (by omega),
          fun h => absurd h (by omega)⟩
        rw [List.take_left']
        rfl
      · simp only [if_neg (Nat.not_lt.mpr hfit)]
        by_cases hpad : a2 = pad ∨ a3 = pad
        · -- a padded group ends the loop
          have hlt : o.length < 3 := ho ▸ (length_ogroupBytes_lt_iff codec a0 a1 a2 a3).mpr hpad
          have hends : codec.Ends (c :: text) := by
            unfold Ends
            rw [hD]
            have hor : (decide (a2 = pad) || decide (a3 = pad)) = true := by simpa using hpad
            simp only [closed, padded, hor, Bool.true_or, true_or, and_self]
          simp only [if_pos hlt, if_pos hpad, List.append_nil]
          exact ⟨fun h => absurd h (by omega), fun _ _ => trivial, fun _ h => absurd hends h⟩
        · have hge : ¬ o.length < 3 :=
            ho ▸ mt (length_ogroupBytes_lt_iff codec a0 a1 a2 a3).mp hpad
          obtain ⟨h2, h3⟩ := not_or.mp hpad
          have hends : codec.Ends (c :: text) ↔ codec.Ends rest := by
            rw [htext] at hD ⊢
            exact ends_rest hD hrest h2 h3
          obtain ⟨ih1, ih2, ih3⟩ := decodeLoop_spec codec len rest (out.memcpy wc o)
            (wc + o.length) hlen hfit
          rw [hrest] at ih1 ih2 ih3
          simp only [if_neg hge, if_neg hpad, List.length_append, hends]
          rw [Buffer.memcpy_memcpy] at ih2 ih3
          refine ⟨fun h => ?_, fun h hend => ?_, fun h hend => ?_⟩
          · obtain ⟨k, hk, hMk, heq⟩ := ih1 (by omega)
            refine ⟨o.length + k, by omega, by omega, ?_⟩
            rw [heq, Buffer.memcpy_memcpy, List.take_length_add_append]
          · rw [ih2 (by omega) hend, Nat.add_assoc]
          · exact ih3 (by omega) hend

/-- Unless the input breaks off and its length is `2^32 - 1`, `Decode` overruns
its buffer exactly when the bytes do not fit. -/
theorem decode_within_iff (codec : PVBase64Codec) (text : List UInt8) (M : Nat)
    (hlen : text.length < 2 ^ 32) :
    (∃ r, codec.decode text M = some r ∧ ¬ r.aOutBuf.Overrun M) ↔
      (codec.decodeBytes (text.filter codec.accepts)).length ≤ M ∧
        (codec.Ends text ∨ text.length + 1 < 2 ^ 32) := by
  obtain ⟨h1, h2, h3⟩ := decodeLoop_spec codec text.length text (Buffer.empty.memset 0 M) 0
    (Nat.le_refl _) (Nat.zero_le M)
  rw [Nat.zero_add] at h1 h2 h3
  have hclean : ∀ i, M ≤ i → (Buffer.empty.memset (0 : UInt8) M) i = none := fun i hi =>
    if_neg (by omega)
  have hinside : (codec.decodeBytes (text.filter codec.accepts)).length ≤ M →
      ¬ ((Buffer.empty.memset 0 M).memcpy 0
        (codec.decodeBytes (text.filter codec.accepts))).Overrun M := fun hle =>
    Buffer.not_overrun_iff.mpr fun i hi =>
      (Buffer.memcpy_outside _ (Or.inr (by omega))).trans (hclean i hi)
  rcases Nat.lt_or_ge M (codec.decodeBytes (text.filter codec.accepts)).length with hover | hfit
  · obtain ⟨k, hk, hMk, heq⟩ := h1 hover
    refine ⟨fun ⟨r, hr, hno⟩ => ?_, fun h => absurd h.1 (by omega)⟩
    obtain rfl := Option.some.inj (heq.symm.trans hr)
    refine absurd ⟨M, Nat.le_refl M, ?_⟩ hno
    have hMtake : M < ((codec.decodeBytes (text.filter codec.accepts)).take k).length := by
      rw [List.length_take]
      omega
    have hread := Buffer.memcpy_inside (Buffer.empty.memset 0 M) (k := 0) hMtake
    rw [Nat.zero_add] at hread
    simp only [hread]
    exact Option.some_ne_none _
  · by_cases hends : codec.Ends text
    · exact ⟨fun _ => ⟨hfit, Or.inl hends⟩, fun _ => ⟨_, h2 hfit hends, hinside hfit⟩⟩
    · have heq := h3 hfit hends
      rcases Nat.lt_or_ge (text.length + 1) (2 ^ 32) with hlt | hge
      · rw [if_pos (by rw [wrap32, Nat.mod_eq_of_lt hlt]; omega)] at heq
        exact ⟨fun _ => ⟨hfit, Or.inr hlt⟩, fun _ => ⟨_, heq, hinside hfit⟩⟩
      · -- `read_count` wraps to zero
        rw [if_neg (by rw [wrap32, show text.length + 1 = 2 ^ 32 by omega]; simp)] at heq
        refine ⟨fun ⟨r, hr, _⟩ => ?_, fun h => (h.2.elim hends (by omega)).elim⟩
        exact absurd (heq.symm.trans hr) (by simp)

end Ftke.Base64.PVBase64Codec
