import Ftke.Base64.Loops
import Mathlib.Data.List.TakeWhile

/-!
# Ftke.Base64.RoundTrip

When `Decode` gives back what `Encode` was given, although characters outside
the alphabet were inserted into the text, and when the two stay inside their
buffers.

Two things can go wrong with the inserted characters.  Behind a text without
padding the decoder goes looking for another group; and character 255, whose
table entry the constructor forgets, may be taken for one of the text's own.
-/

namespace Ftke.Base64

open PVBase64Codec

/-! ## The bits of a group -/

theorem byte_ext {u v : UInt8} (h : ∀ i < 8, u.toBitVec.getLsbD i = v.toBitVec.getLsbD i) :
    u = v :=
  UInt8.eq_of_toBitVec_eq (BitVec.eq_of_getLsbD_eq h)

theorem lt_of_masked {v : UInt8} (h : v &&& 0x3F = v) : v < 64 := by
  have hle : v.toNat &&& 63 ≤ 63 := Nat.and_le_right
  have hnat := congrArg UInt8.toNat h
  rw [UInt8.toNat_and, show (0x3F : UInt8).toNat = 63 from rfl] at hnat
  show v.toNat < 64
  omega

theorem byte0 (x y : UInt8) :
    ((x >>> 2) <<< 2) ||| ((((x &&& 3) <<< 4) ||| (y >>> 4)) >>> 4) = x := by
  refine byte_ext fun i hi => ?_
  simp
  interval_cases i <;> simp

theorem byte1 (x y z : UInt8) : ((((x &&& 3) <<< 4) ||| (y >>> 4)) <<< 4) |||
    ((((y &&& 0xF) <<< 2) ||| (z >>> 6)) >>> 2) = y := by
  refine byte_ext fun i hi => ?_
  simp
  interval_cases i <;> simp

theorem byte2 (y z : UInt8) :
    ((((y &&& 0xF) <<< 2) ||| (z >>> 6)) <<< 6) ||| (z &&& 0x3F) = z := by
  refine byte_ext fun i hi => ?_
  simp
  interval_cases i <;> simp

theorem sixBits0 (x : UInt8) : x >>> 2 < 64 := by
  refine lt_of_masked (byte_ext fun i hi => ?_)
  simp
  interval_cases i <;> simp

theorem sixBits1 (x y : UInt8) : ((x &&& 3) <<< 4) ||| (y >>> 4) < 64 := by
  refine lt_of_masked (byte_ext fun i hi => ?_)
  simp
  interval_cases i <;> simp

theorem sixBits2 (y z : UInt8) : ((y &&& 0xF) <<< 2) ||| (z >>> 6) < 64 := by
  refine lt_of_masked (byte_ext fun i hi => ?_)
  simp
  interval_cases i <;> simp

theorem sixBits3 (z : UInt8) : z &&& 0x3F < 64 := by
  refine lt_of_masked (byte_ext fun i hi => ?_)
  simp

/-! ## Character strings that read as a byte string -/

variable {emem dmem : Nat → UInt8}

/-- The character string `D` reads as the byte string `b`: whole groups of the
text of `b`, the last one up to its padding, whatever follows there. -/
inductive Reads (codec : PVBase64Codec) : List UInt8 → List UInt8 → Prop
  | nil : Reads codec [] []
  | one (x a3 : UInt8) (D : List UInt8) :
      Reads codec [x] ((codec.ogroup 1 x 0 0).take 3 ++ a3 :: D)
  | two (x y : UInt8) (D : List UInt8) : Reads codec [x, y] (codec.ogroup 2 x y 0 ++ D)
  | three (x y z : UInt8) {b D : List UInt8} (h : Reads codec b D) :
      Reads codec (x :: y :: z :: b) (codec.ogroup 3 x y z ++ D)

/-- What reads as `b` decodes to `b`, with padding unless its length is a
multiple of three. -/
theorem Reads.decode {b D : List UInt8} (h : Reads (construct emem dmem) b D) :
    (construct emem dmem).decodeBytes D = b ∧ closed D ∧ (padded D ↔ b.length % 3 ≠ 0) := by
  induction h with
  | nil => simp [decodeBytes, closed, padded]
  | one x a3 D =>
    have hbits := byte0 x 0
    refine ⟨?_, ?_, ?_⟩
    · simp only [ogroup, List.take, List.cons_append, List.nil_append, decodeBytes, ogroupBytes,
        dtable_etable emem dmem (sixBits0 x), dtable_etable emem dmem (sixBits1 x 0), hbits]
      simp
    · simp [ogroup, closed]
    · simp [ogroup, padded]
  | two x y D =>
    have h2 := (etable_mem emem dmem (sixBits2 y 0)).2
    refine ⟨?_, ?_, ?_⟩
    · simp only [ogroup, List.cons_append, List.nil_append, decodeBytes, ogroupBytes,
        dtable_etable emem dmem (sixBits0 x), dtable_etable emem dmem (sixBits1 x y),
        byte0, byte1, show ¬ (2 < 2) by decide, show 2 < 3 by decide, if_true, if_false,
        dtable_etable emem dmem (sixBits2 y 0), h2]
      simp
    · simp [ogroup, closed]
    · simp [ogroup, padded]
  | @three x y z b D _ ih =>
    obtain ⟨hbytes, hclosed, hpadded⟩ := ih
    have h2 := (etable_mem emem dmem (sixBits2 y z)).2
    have h3 := (etable_mem emem dmem (sixBits3 z)).2
    refine ⟨?_, ?_, ?_⟩
    · simp only [ogroup, List.cons_append, List.nil_append, decodeBytes, ogroupBytes,
        dtable_etable emem dmem (sixBits0 x), dtable_etable emem dmem (sixBits1 x y),
        byte0, byte1, byte2, show ¬ (3 < 2) by decide, show ¬ (3 < 3) by decide, if_false,
        dtable_etable emem dmem (sixBits2 y z), dtable_etable emem dmem (sixBits3 z), h2, h3,
        hbytes]
      simp
    · exact (closed_group h2 h3).trans hclosed
    · have hgroup := padded_group ((construct emem dmem).etable (x >>> 2).toNat)
        ((construct emem dmem).etable (((x &&& 3) <<< 4) ||| (y >>> 4)).toNat) (D := D) h2 h3
      refine (Bool.eq_iff_iff.mp hgroup).trans (hpadded.trans ?_)
      simp only [List.length_cons]
      omega

/-! ## Reading through inserted characters -/

/-- All characters are the alphabet's, or 255. -/
def Known (D : List UInt8) : Prop := ∀ d ∈ D, inAlphabet d ∨ d = 255

/-- Character 255 does not occur before the first padding. -/
def Clean (D : List UInt8) : Prop := 255 ∉ D.takeWhile fun c => c ≠ pad

theorem head_of_clean {D E : List UInt8} {c : UInt8} (hknown : Known D) (hclean : Clean D)
    (h : D.filter (inAlphabet ·) = c :: E) :
    ∃ D', D = c :: D' ∧ Known D' ∧ (c ≠ pad → Clean D') ∧ D'.filter (inAlphabet ·) = E := by
  cases D with
  | nil => exact absurd h (by simp)
  | cons d D' =>
    have hd : inAlphabet d := by
      rcases hknown d List.mem_cons_self with hd | rfl
      · exact hd
      · exact absurd (List.mem_cons_self (l := D'.takeWhile fun c => c ≠ pad)) hclean
    rw [List.filter_cons_of_pos hd] at h
    obtain ⟨rfl, hE⟩ := List.cons.inj h
    refine ⟨D', rfl, fun x hx => hknown x (List.mem_cons_of_mem d hx), fun hne hmem => hclean ?_, hE⟩
    rw [List.takeWhile_cons_of_pos (by simpa using hne)]
    exact List.mem_cons_of_mem d hmem

theorem reads_of_clean :
    ∀ {b D : List UInt8}, Known D → Clean D →
      D.filter (inAlphabet ·) = (construct emem dmem).encodeText b →
      Reads (construct emem dmem) b D
  | [], D, hknown, hclean, h => by
    cases D with
    | nil => exact .nil
    | cons d D' =>
      rcases hknown d List.mem_cons_self with hd | rfl
      · rw [List.filter_cons_of_pos hd] at h
        exact absurd h (List.cons_ne_nil _ _)
      · exact absurd (List.mem_cons_self (l := D'.takeWhile fun c => c ≠ pad)) hclean
  | [x], D, hknown, hclean, h => by
    obtain ⟨D0, rfl, hk0, hc0, h0⟩ := head_of_clean hknown hclean h
    obtain ⟨D1, rfl, hk1, hc1, h1⟩ := head_of_clean hk0 (hc0 (etable_mem emem dmem (sixBits0 x)).2) h0
    obtain ⟨D2, rfl, hk2, -, h2⟩ :=
      head_of_clean hk1 (hc1 (etable_mem emem dmem (sixBits1 x 0)).2) h1
    -- whatever fills the last place of the group
    cases D2 with
    | nil => exact absurd h2 (by simp)
    | cons a3 D3 => exact .one x a3 D3
  | [x, y], D, hknown, hclean, h => by
    obtain ⟨D0, rfl, hk0, hc0, h0⟩ := head_of_clean hknown hclean h
    obtain ⟨D1, rfl, hk1, hc1, h1⟩ := head_of_clean hk0 (hc0 (etable_mem emem dmem (sixBits0 x)).2) h0
    obtain ⟨D2, rfl, hk2, hc2, h2⟩ :=
      head_of_clean hk1 (hc1 (etable_mem emem dmem (sixBits1 x y)).2) h1
    obtain ⟨D3, rfl, -, -, -⟩ := head_of_clean hk2 (hc2 (etable_mem emem dmem (sixBits2 y 0)).2) h2
    exact .two x y D3
  | x :: y :: z :: b, D, hknown, hclean, h => by
    obtain ⟨D0, rfl, hk0, hc0, h0⟩ := head_of_clean hknown hclean h
    obtain ⟨D1, rfl, hk1, hc1, h1⟩ := head_of_clean hk0 (hc0 (etable_mem emem dmem (sixBits0 x)).2) h0
    obtain ⟨D2, rfl, hk2, hc2, h2⟩ :=
      head_of_clean hk1 (hc1 (etable_mem emem dmem (sixBits1 x y)).2) h1
    obtain ⟨D3, rfl, hk3, hc3, h3⟩ := head_of_clean hk2 (hc2 (etable_mem emem dmem (sixBits2 y z)).2) h2
    exact .three x y z (reads_of_clean hk3 (hc3 (etable_mem emem dmem (sixBits3 z)).2) h3)

/-! ## A character taken for one of the text's own -/

/-- Whole groups in front of the first padding decode to three bytes each, and
three characters more to two. -/
theorem length_decodeBytes_ge (codec : PVBase64Codec) :
    ∀ {P S : List UInt8}, pad ∉ P → closed (P ++ S) →
      3 * (P.length / 4) + 2 * (P.length % 4 / 3) ≤
          (codec.decodeBytes (P ++ S)).length ∧ (S = [] → P.length % 4 = 0)
  | [], S, _, _ => ⟨Nat.zero_le _, fun _ => rfl⟩
  | [_], S, _, h => ⟨by simp, fun hS => absurd h (by rw [hS]; simp [closed])⟩
  | [_, _], S, _, h => ⟨by simp, fun hS => absurd h (by rw [hS]; simp [closed])⟩
  | [a0, a1, a2], [], _, h => absurd h (by simp [closed])
  | [a0, a1, a2], a3 :: S, hP, h => by
    refine ⟨?_, fun hS => absurd hS (List.cons_ne_nil _ _)⟩
    have h2 : a2 ≠ pad := fun he => hP (by simp [he])
    have hgroup := length_ogroupBytes codec a0 a1 a2 a3
    rw [if_neg h2] at hgroup
    have hbytes : (codec.decodeBytes ([a0, a1, a2] ++ a3 :: S)).length ≥
        (codec.ogroupBytes a0 a1 a2 a3).length := by
      simp only [List.cons_append, List.nil_append, decodeBytes, List.length_append]
      omega
    have htwo : 2 ≤ (codec.ogroupBytes a0 a1 a2 a3).length := by
      rw [hgroup]
      split <;> decide
    simp only [List.length_cons, List.length_nil]
    omega
  | a0 :: a1 :: a2 :: a3 :: P, S, hP, h => by
    have h2 : a2 ≠ pad := fun he => hP (by simp [he])
    have h3 : a3 ≠ pad := fun he => hP (by simp [he])
    have hclosed : closed (P ++ S) := (closed_group h2 h3).symm.trans h
    obtain ⟨hge, hnil⟩ := length_decodeBytes_ge codec (fun hmem => hP (by simp [hmem]))
      hclosed
    have hgroup := length_ogroupBytes codec a0 a1 a2 a3
    rw [if_neg h2, if_neg h3] at hgroup
    have hbytes : (codec.decodeBytes (a0 :: a1 :: a2 :: a3 :: P ++ S)).length =
        3 + (codec.decodeBytes (P ++ S)).length := by
      simp only [List.cons_append, decodeBytes, List.length_append, hgroup, h2, h3, or_self,
        if_false]
    rw [hbytes]
    simp only [List.length_cons]
    refine ⟨by omega, fun hS => ?_⟩
    have hmod := hnil hS
    omega

theorem takeWhile_filter {p : UInt8 → Bool} (hp : p pad) :
    ∀ D : List UInt8, (D.filter p).takeWhile (fun c => c ≠ pad) =
      (D.takeWhile fun c => c ≠ pad).filter p
  | [] => rfl
  | d :: D => by
    by_cases hd : d = pad
    · subst hd
      rw [List.filter_cons_of_pos hp, List.takeWhile_cons_of_neg (by simp),
        List.takeWhile_cons_of_neg (by simp)]
      rfl
    · rw [List.takeWhile_cons_of_pos (by simpa using hd)]
      cases hpd : p d with
      | true =>
        rw [List.filter_cons_of_pos hpd, List.filter_cons_of_pos hpd,
          List.takeWhile_cons_of_pos (by simpa using hd), takeWhile_filter hp D]
      | false =>
        rw [List.filter_cons_of_neg (by rw [hpd]; decide),
          List.filter_cons_of_neg (by rw [hpd]; decide), takeWhile_filter hp D]

theorem length_takeWhile_encodeText (emem dmem : Nat → UInt8) :
    ∀ b : List UInt8, (((construct emem dmem).encodeText b).takeWhile fun c => c ≠ pad).length =
      4 * (b.length / 3) + b.length % 3 + (b.length % 3 + 1) / 2
  | [] => rfl
  | [x] => by
    have h0 := (etable_mem emem dmem (sixBits0 x)).2
    have h1 := (etable_mem emem dmem (sixBits1 x 0)).2
    simp only [encodeText, ogroup, show 1 < 2 by decide, show 1 < 3 by decide, if_true]
    rw [List.takeWhile_cons_of_pos (by simpa using h0),
      List.takeWhile_cons_of_pos (by simpa using h1), List.takeWhile_cons_of_neg (by simp)]
    simp only [List.length_cons, List.length_nil]
  | [x, y] => by
    have h0 := (etable_mem emem dmem (sixBits0 x)).2
    have h1 := (etable_mem emem dmem (sixBits1 x y)).2
    have h2 := (etable_mem emem dmem (sixBits2 y 0)).2
    simp only [encodeText, ogroup, show ¬ 2 < 2 by decide, show 2 < 3 by decide, if_false, if_true]
    rw [List.takeWhile_cons_of_pos (by simpa using h0),
      List.takeWhile_cons_of_pos (by simpa using h1),
      List.takeWhile_cons_of_pos (by simpa using h2), List.takeWhile_cons_of_neg (by simp)]
    simp only [List.length_cons, List.length_nil]
  | x :: y :: z :: b => by
    have h0 := (etable_mem emem dmem (sixBits0 x)).2
    have h1 := (etable_mem emem dmem (sixBits1 x y)).2
    have h2 := (etable_mem emem dmem (sixBits2 y z)).2
    have h3 := (etable_mem emem dmem (sixBits3 z)).2
    simp only [encodeText, ogroup, show ¬ 3 < 2 by decide, show ¬ 3 < 3 by decide, if_false,
      List.cons_append, List.nil_append]
    rw [List.takeWhile_cons_of_pos (by simpa using h0),
      List.takeWhile_cons_of_pos (by simpa using h1),
      List.takeWhile_cons_of_pos (by simpa using h2),
      List.takeWhile_cons_of_pos (by simpa using h3)]
    simp only [List.length_cons, length_takeWhile_encodeText emem dmem b]
    omega

theorem length_of_pad_mem :
    ∀ {b : List UInt8}, pad ∈ (construct emem dmem).encodeText b → b.length % 3 ≠ 0
  | [], h => absurd h List.not_mem_nil
  | [_], _ | [_, _], _ => by simp
  | x :: y :: z :: b, h => by
    rcases List.mem_append.mp h with h | h
    · exfalso
      have h0 := (etable_mem emem dmem (sixBits0 x)).2
      have h1 := (etable_mem emem dmem (sixBits1 x y)).2
      have h2 := (etable_mem emem dmem (sixBits2 y z)).2
      have h3 := (etable_mem emem dmem (sixBits3 z)).2
      simp only [ogroup, show ¬ 3 < 2 by decide, show ¬ 3 < 3 by decide, if_false, List.mem_cons,
        List.not_mem_nil, or_false] at h
      rcases h with h | h | h | h
      · exact h0 h.symm
      · exact h1 h.symm
      · exact h2 h.symm
      · exact h3 h.symm
    · have ih := length_of_pad_mem h
      simp only [List.length_cons]
      omega

theorem length_of_not_clean {b D : List UInt8} (hclosed : closed D) (hclean : ¬ Clean D)
    (h : D.filter (inAlphabet ·) = (construct emem dmem).encodeText b) :
    ((construct emem dmem).decodeBytes D).length ≠ b.length := by
  -- `P` is what stands in front of the first padding, character 255 included
  have hsplit := List.takeWhile_append_dropWhile (p := fun c : UInt8 => decide (c ≠ pad)) (l := D)
  generalize hP : D.takeWhile (fun c => decide (c ≠ pad)) = P at hsplit
  generalize hS : D.dropWhile (fun c => decide (c ≠ pad)) = S at hsplit
  have h255 : 255 ∈ P := hP ▸ Decidable.not_not.mp hclean
  have hpad : pad ∉ P := fun hmem => by
    rw [← hP] at hmem
    exact absurd (List.all_eq_true.mp List.all_takeWhile _ hmem) (by simp)
  have hlen := length_takeWhile_encodeText emem dmem b
  rw [← h, takeWhile_filter (by decide), hP] at hlen
  have hmore : (P.filter (inAlphabet ·)).length < P.length := by
    refine Nat.lt_of_le_of_ne (List.length_filter_le _ _) fun heq => ?_
    exact absurd (List.length_filter_eq_length_iff.mp heq 255 h255) (by decide)
  rw [← hsplit] at hclosed ⊢
  obtain ⟨hge, hnil⟩ := length_decodeBytes_ge (construct emem dmem) hpad hclosed
  by_cases hb : b.length % 3 = 0
  · -- no padding at all
    have hSnil : S = [] := by
      cases S with
      | nil => rfl
      | cons s S =>
        have hs : s = pad := by
          have hne := List.head?_dropWhile_not (fun c : UInt8 => decide (c ≠ pad)) D
          rw [hS] at hne
          simpa using hne
        have hmem : pad ∈ D.filter (inAlphabet ·) := by
          rw [List.mem_filter]
          refine ⟨?_, by decide⟩
          rw [← hsplit, hs]
          simp
        rw [h] at hmem
        exact absurd hb (length_of_pad_mem hmem)
    have hmod := hnil hSnil
    omega
  · rcases Nat.lt_or_ge (b.length / 3) (P.length / 4) with hlt | hle
    · omega
    · -- only a third byte of the last group can be too many
      have hone : b.length % 3 = 1 := by omega
      omega

/-! ## Encode then Decode -/

/-- `Decode` answers `true`, with the length and the bytes of `b`. -/
def Recovers (codec : PVBase64Codec) (text b : List UInt8) (aMaxOutBufLen : Nat) : Prop :=
  ∃ r, codec.decode text aMaxOutBufLen = some r ∧ r.ret = true ∧ r.aOutBufLen = b.length ∧
    ∀ i (hi : i < b.length), r.aOutBuf i = some b[i]

/-- The text, with its padding or right to its end, and with no character 255
that the uninitialised entry lets pass for one of the text's own. -/
def Undisturbed (dmem : Nat → UInt8) (text b : List UInt8) : Prop :=
  (b.length % 3 ≠ 0 ∨ ∀ c ∈ text.getLast?, inAlphabet c) ∧ (dmem 255 &&& 0x80 ≠ 0 ∨ Clean text)

section Kept

variable {text : List UInt8}

theorem known_filter : Known (text.filter (construct emem dmem).accepts) := fun d hd => by
  by_cases h255 : d = 255
  · exact Or.inr h255
  · have hmem := (List.mem_filter.mp hd).2
    rw [accepts_iff emem dmem h255] at hmem
    exact Or.inl hmem

theorem accepts_of_inAlphabet {c : UInt8} (hc : inAlphabet c) :
    (construct emem dmem).accepts c := by
  rw [accepts_iff emem dmem (by rintro rfl; exact absurd hc (by decide))]
  exact hc

theorem filter_inAlphabet : (text.filter (construct emem dmem).accepts).filter (inAlphabet ·) =
    text.filter (inAlphabet ·) := by
  rw [List.filter_filter]
  refine List.filter_congr fun c _ => ?_
  by_cases hc : inAlphabet c
  · simp [hc, accepts_of_inAlphabet hc]
  · simp [hc]

theorem clean_filter_iff (emem : Nat → UInt8) : Clean (text.filter (construct emem dmem).accepts) ↔
    dmem 255 &&& 0x80 ≠ 0 ∨ Clean text := by
  have h255 : (construct emem dmem).accepts 255 ↔ dmem 255 &&& 0x80 = 0 := by
    rw [accepts_255, decide_eq_true_iff]
  unfold Clean
  rw [takeWhile_filter (accepts_of_inAlphabet (by decide)), List.mem_filter, h255]
  exact ⟨fun hno => Decidable.or_iff_not_imp_left.mpr fun hset hmem =>
    hno ⟨hmem, Decidable.not_not.mp hset⟩, fun hor ⟨hmem, hclear⟩ =>
      hor.elim (fun hset => hset hclear) (fun hno => hno hmem)⟩

theorem ends_iff {b : List UInt8} (hclean : Clean (text.filter (construct emem dmem).accepts))
    (h : text.filter (inAlphabet ·) = (construct emem dmem).encodeText b) :
    (construct emem dmem).Ends text ↔
      b.length % 3 ≠ 0 ∨ ∀ c ∈ text.getLast?, inAlphabet c := by
  have hreads := reads_of_clean known_filter hclean (filter_inAlphabet.trans h)
  obtain ⟨-, hclosed, hpadded⟩ := hreads.decode
  unfold Ends
  rw [hpadded]
  refine ⟨fun ⟨_, hend⟩ => ?_, fun hend => ⟨hclosed, hend.imp_right fun hlast c hc =>
    accepts_of_inAlphabet (hlast c hc)⟩⟩
  by_cases hb : b.length % 3 = 0
  · refine Or.inr fun c hc => ?_
    have hacc := hend.resolve_left (not_not.mpr hb) c hc
    have hmem : c ∈ text.filter (construct emem dmem).accepts :=
      List.mem_filter.mpr ⟨List.mem_of_getLast? hc, hacc⟩
    rcases known_filter c hmem with hin | rfl
    · exact hin
    · -- without padding a clean text has no character 255
      have hall : (text.filter (construct emem dmem).accepts).takeWhile (fun c => c ≠ pad) =
          text.filter (construct emem dmem).accepts := by
        refine List.takeWhile_eq_self_iff.mpr fun d hd => ?_
        rw [decide_eq_true_iff]
        rintro rfl
        have hpad := List.mem_filter.mpr ⟨hd, (by decide : inAlphabet pad)⟩
        rw [filter_inAlphabet, h] at hpad
        exact length_of_pad_mem hpad hb
      exact absurd (hall.symm ▸ hmem) hclean
  · exact Or.inl hb

end Kept

/-- **Decoding a text with characters inserted**: the byte string comes back
exactly when the text is undisturbed. -/
theorem recovers_iff (emem dmem : Nat → UInt8) {text b : List UInt8} {N : Nat}
    (hN : b.length ≤ N) (h : text.filter (inAlphabet ·) = (construct emem dmem).encodeText b) :
    Recovers (construct emem dmem) text b N ↔ Undisturbed dmem text b := by
  obtain ⟨h1, h2, h3⟩ := decodeLoop_spec (construct emem dmem) text.length text
    (Buffer.empty.memset 0 N) 0 (Nat.le_refl _) (Nat.zero_le N)
  rw [Nat.zero_add] at h1 h2 h3
  -- without the end of a group the answer is not `true`
  have hfail : (construct emem dmem).Ends text ∨
      ¬ Recovers (construct emem dmem) text b N := by
    refine or_iff_not_imp_left.mpr fun hends ⟨r, hr, hret, _⟩ => ?_
    rcases Nat.lt_or_ge N ((construct emem dmem).decodeBytes
        (text.filter (construct emem dmem).accepts)).length with hover | hfit
    · obtain ⟨k, -, -, heq⟩ := h1 hover
      rw [← Option.some.inj (heq.symm.trans hr)] at hret
      exact absurd hret Bool.false_ne_true
    · have heq := h3 hfit hends
      split at heq
      · rw [← Option.some.inj (heq.symm.trans hr)] at hret
        exact absurd hret Bool.false_ne_true
      · exact absurd (heq.symm.trans hr) (by simp)
  unfold Undisturbed
  rw [← clean_filter_iff emem]
  by_cases hc : Clean (text.filter (construct emem dmem).accepts)
  · rw [← ends_iff hc h]
    refine ⟨fun hrec => ⟨hfail.resolve_right (not_not.mpr hrec), hc⟩, fun ⟨hends, _⟩ => ?_⟩
    have hbytes := (reads_of_clean known_filter hc (filter_inAlphabet.trans h)).decode.1
    rw [hbytes] at h2
    refine ⟨_, h2 hN hends, rfl, rfl, fun i hi => ?_⟩
    have hread := Buffer.memcpy_inside (Buffer.empty.memset 0 N) (k := 0) hi
    rw [Nat.zero_add] at hread
    exact hread
  · refine ⟨fun hrec => ?_, fun hund => absurd hund.2 hc⟩
    have hends := hfail.resolve_right fun hno => hno hrec
    obtain ⟨r, hr, hret, hlen, -⟩ := hrec
    rcases Nat.lt_or_ge N ((construct emem dmem).decodeBytes
        (text.filter (construct emem dmem).accepts)).length with hover | hfit
    · obtain ⟨k, -, -, heq⟩ := h1 hover
      rw [← Option.some.inj (heq.symm.trans hr)] at hret
      exact absurd hret Bool.false_ne_true
    · rw [← Option.some.inj ((h2 hfit hends).symm.trans hr)] at hlen
      exact absurd hlen (length_of_not_clean hends.1 hc (filter_inAlphabet.trans h))

/-! ## The codec as a whole -/

/-- The text is what the call of `Encode` left in its buffer, with characters
outside the alphabet inserted. -/
def Inserted (r : Result) (text : List UInt8) : Prop :=
  (text.filter (inAlphabet ·)).map some = (List.range r.aOutBufLen).map r.aOutBuf

theorem inserted_iff (codec : PVBase64Codec) {b text : List UInt8} {len0 M : Nat}
    (hM : M < 2 ^ 32) (hfit : 4 * ((b.length + 2) / 3) ≤ M) :
    Inserted (codec.encode b len0 M) text ↔
      text.filter (inAlphabet ·) = codec.encodeText b := by
  have hlen := length_encodeText codec b
  have hread : (List.range (codec.encodeText b).length).map
      (Buffer.empty.memcpy 0 (codec.encodeText b)) = (codec.encodeText b).map some := by
    refine List.ext_getElem (by simp) fun i hi hi' => ?_
    rw [List.length_map] at hi'
    have hget := Buffer.memcpy_inside Buffer.empty (k := 0) hi'
    rw [Nat.zero_add] at hget
    simp [hget]
  unfold Inserted
  rw [encode_within codec b len0 hM (by omega), hread]
  exact (List.map_injective_iff.mpr (Option.some_injective _)).eq_iff

/-- **When the codec keeps its promises.**  With sufficient capacities the byte
string comes back exactly when its text is undisturbed; `Encode` stays in its
buffer exactly when the text fits, and `Decode` exactly when the bytes fit and a
text of `2^32 - 1` characters does not break off. -/
theorem codec_iff (emem dmem : Nat → UInt8) :
    (∀ (b text : List UInt8) (len0 M N : Nat), M < 2 ^ 32 → 4 * ((b.length + 2) / 3) ≤ M →
      b.length ≤ N →
      ((construct emem dmem).encode b len0 M).ret = true ∧
      ((construct emem dmem).encode b len0 M).aOutBufLen = 4 * ((b.length + 2) / 3) ∧
      (Inserted ((construct emem dmem).encode b len0 M) text →
        (Recovers (construct emem dmem) text b N ↔ Undisturbed dmem text b))) ∧
    (∀ (b : List UInt8) (len0 M : Nat), M < 2 ^ 32 →
      (¬ ((construct emem dmem).encode b len0 M).aOutBuf.Overrun M ↔
        4 * ((b.length + 2) / 3) ≤ M)) ∧
    (∀ (text : List UInt8) (M : Nat), text.length < 2 ^ 32 →
      ((∃ r, (construct emem dmem).decode text M = some r ∧ ¬ r.aOutBuf.Overrun M) ↔
        ((construct emem dmem).decodeBytes (text.filter (construct emem dmem).accepts)).length ≤ M ∧
          ((construct emem dmem).Ends text ∨ text.length + 1 < 2 ^ 32))) := by
  refine ⟨fun b text len0 M N hM hfit hN => ?_, fun b len0 M hM => ?_, fun text M hlen =>
    decode_within_iff _ text M hlen⟩
  · have hlen := length_encodeText (construct emem dmem) b
    have henc := encode_within (construct emem dmem) b len0 hM (by omega)
    refine ⟨by rw [henc], by rw [henc]; exact hlen, fun hins => ?_⟩
    exact recovers_iff emem dmem hN ((inserted_iff _ hM hfit).mp hins)
  · rw [encode_overrun_iff _ b len0 hM, length_encodeText, Nat.not_lt]

/-- Two bytes survive characters inserted before, between and behind their text. -/
theorem codec_iff_two_bytes : Recovers (construct (fun _ => 0) fun _ => 0)
    [33, 65, 10, 81, 73, 61, 33] [1, 2] 2 :=
  (((codec_iff (fun _ => 0) fun _ => 0).1 [1, 2] [33, 65, 10, 81, 73, 61, 33] 0 4 2 (by decide)
    (by decide) (by decide)).2.2 (by unfold Inserted; rfl)).mpr
    ⟨Or.inl (by decide), Or.inr (by unfold Clean; decide)⟩

/-- Three zero bytes, a character behind their text: `Decode` looks for another
group and fails. -/
theorem codec_rejects_trailing : ¬ ∀ (emem dmem : Nat → UInt8) (b text : List UInt8)
    (len0 M N : Nat), M < 2 ^ 32 → 4 * ((b.length + 2) / 3) ≤ M → b.length ≤ N →
      Inserted ((construct emem dmem).encode b len0 M) text →
      Recovers (construct emem dmem) text b N := by
  intro h
  obtain ⟨r, hr, hret, -⟩ := h (fun _ => 0) (fun _ => 0) [0, 0, 0] [65, 65, 65, 65, 33] 0 4 3
    (by decide) (by decide) (by decide) (by unfold Inserted; rfl)
  have hfalse : ((construct (fun _ => 0) fun _ => 0).decode [65, 65, 65, 65, 33] 3).map
      Result.ret = some false := rfl
  rw [hr, Option.map_some, hret] at hfalse
  exact absurd hfalse (by decide)

end Ftke.Base64
