import Ftke.RtspParser
import Mathlib.Data.List.TakeWhile

/-!
# Ftke.RtspParser.Continuations

`RTSPParser::dealWithLineContinuations`, which joins the lines of a message in its buffer.

The loop has put the front of the text together already, and behind the cursor there is the
rest of the text as it came, with the null character behind it (`continuationLoop_eq`).
-/

namespace Ftke.RtspParser

/-! ## The routine of the source -/

/-- `secondaryBuffer` and `secondaryBufferSizeUsed`. -/
structure Secondary where
  buffer : List UInt8
  sizeUsed : Nat
  deriving DecidableEq

/-- `CHAR_SPACE`. -/
def space : UInt8 := 0x20

/-- `CHAR_TAB`. -/
def tab : UInt8 := 0x09

def isBlank (ch : UInt8) : Bool := ch == space || ch == tab

namespace Secondary

def charAt (m : Secondary) (i : Nat) : UInt8 := m.buffer.getD i 0

/-- `nlEnd`, for the newline at a place. -/
def newlineEnd (m : Secondary) (cPtr : Nat) : Option Nat :=
  if m.charAt cPtr = cr then
    if cPtr + 1 < m.sizeUsed ∧ m.charAt (cPtr + 1) = lf then some (cPtr + 1) else some cPtr
  else if m.charAt cPtr = lf then some cPtr
  else none

/-- The loop over the blanks; the size that is used is fuel enough. -/
def skipBlanks (m : Secondary) : Nat → Nat → Nat
  | 0, sPtr => sPtr
  | fuel + 1, sPtr => if sPtr < m.sizeUsed ∧ isBlank (m.charAt sPtr) then skipBlanks m fuel (sPtr + 1) else sPtr

/-- A space is set, and the rest is moved behind it. -/
def join (m : Secondary) (cPtr sPtr : Nat) : Secondary :=
  let sizeToMove := m.sizeUsed - sPtr + 1
  let sizeCut := sPtr - cPtr - 1
  let buffer := m.buffer.set cPtr space
  ⟨overwrite buffer (cPtr + 1) ((buffer.drop sPtr).take sizeToMove), m.sizeUsed - sizeCut⟩

/-- The loop; `none` when it has not ended yet. -/
def continuationLoop : Nat → Nat → Secondary → Option Secondary
  | 0, _, _ => none
  | fuel + 1, cPtr, m =>
    if cPtr < m.sizeUsed then
      match m.newlineEnd cPtr with
      | none => continuationLoop fuel (cPtr + 1) m
      | some nlEnd =>
        if nlEnd ≥ m.sizeUsed ∨ !isBlank (m.charAt (nlEnd + 1)) then continuationLoop fuel (nlEnd + 1) m
        else continuationLoop fuel (cPtr + 1) (m.join cPtr (m.skipBlanks m.sizeUsed (nlEnd + 1)))
    else some m

/-- `dealWithLineContinuations`. -/
def dealWithLineContinuations (fuel : Nat) (m : Secondary) : Option Secondary := continuationLoop fuel 0 m

end Secondary

/-! ## The text that is meant -/

/-- The length of the newline that a text starts with; 0 if it starts with none. -/
def newlineLength : List UInt8 → Nat
  | [] => 0
  | a :: rest => if a = cr then (if rest.head? = some lf then 2 else 1) else if a = lf then 1 else 0

theorem newlineLength_le (text : List UInt8) : newlineLength text ≤ text.length := by
  cases text with
  | nil => exact Nat.le_refl 0
  | cons a rest =>
    cases rest with
    | nil =>
      simp only [newlineLength, List.head?_nil, reduceCtorEq, if_false, List.length_singleton]
      split
      · exact Nat.le_refl 1
      · split <;> omega
    | cons b rest =>
      simp only [newlineLength, List.length_cons]
      split
      · split <;> omega
      · split <;> omega

/-- **A text with its lines joined**: a newline and the blanks behind it give one space. -/
def unfolded (text : List UInt8) : List UInt8 :=
  if _ : text = [] then []
  else if newlineLength text = 0 then text.take 1 ++ unfolded (text.drop 1)
  else if ((text.drop (newlineLength text)).head?.any isBlank) = true then
    space :: unfolded ((text.drop (newlineLength text)).dropWhile isBlank)
  else text.take (newlineLength text) ++ unfolded (text.drop (newlineLength text))
termination_by text.length
decreasing_by
  all_goals have hpos := List.length_pos_iff.mpr ‹¬text = []›
  · rw [List.length_drop]
    omega
  · have hle := (List.dropWhile_suffix isBlank (l := text.drop (newlineLength text))).length_le
    rw [List.length_drop] at hle
    omega
  · rw [List.length_drop]
    omega

/-! ## The loop -/

namespace Secondary

variable {front text junk : List UInt8} {n : Nat}

/-- The buffer with the text that is put together, the text that is left and what is behind it. -/
def holding (front text junk : List UInt8) : Secondary :=
  ⟨front ++ (text ++ 0 :: junk), front.length + text.length⟩

theorem charAt_holding (i : Nat) :
    (holding front text junk).charAt (front.length + i) = (text ++ 0 :: junk).getD i 0 := by
  rw [charAt, holding, List.getD_eq_getElem?_getD, List.getElem?_append_right (Nat.le_add_right _ _),
    Nat.add_sub_cancel_left, List.getD_eq_getElem?_getD]

theorem charAt_holding_drop (hn : n ≤ text.length) :
    (holding front text junk).charAt (front.length + n) = ((text.drop n).head?.getD 0) := by
  rw [charAt_holding, List.getD_eq_getElem?_getD, List.head?_drop]
  by_cases hlt : n < text.length
  · rw [List.getElem?_append_left hlt]
  · obtain rfl : n = text.length := by omega
    rw [List.getElem?_append_right (Nat.le_refl _), Nat.sub_self, List.getElem?_eq_none (Nat.le_refl _)]
    rfl

theorem newlineEnd_holding (hne : text ≠ []) :
    (holding front text junk).newlineEnd front.length =
      if newlineLength text = 0 then none else some (front.length + newlineLength text - 1) := by
  obtain ⟨a, rest, rfl⟩ := List.exists_cons_of_ne_nil hne
  have hfirst : (holding front (a :: rest) junk).charAt front.length = a :=
    charAt_holding_drop (n := 0) (Nat.zero_le _)
  have hsecond : (holding front (a :: rest) junk).charAt (front.length + 1) = rest.head?.getD 0 :=
    charAt_holding_drop (n := 1) (Nat.le_add_left 1 _)
  have hlf : (front.length + 1 < (holding front (a :: rest) junk).sizeUsed ∧ rest.head?.getD 0 = lf) ↔
      rest.head? = some lf := by
    simp only [holding, List.length_cons]
    cases rest with
    | nil => simp [lf]
    | cons b rest => simp
  simp only [newlineEnd, hfirst, hsecond, hlf, newlineLength]
  by_cases hcr : a = cr
  · simp only [if_pos hcr]
    by_cases hcrlf : rest.head? = some lf
    · simp [if_pos hcrlf]
    · simp [if_neg hcrlf]
  · simp only [if_neg hcr]
    by_cases ha : a = lf
    · simp [if_pos ha]
    · simp [if_neg ha]

theorem skipBlanks_holding : ∀ (fuel : Nat) {n : Nat}, n ≤ text.length → text.length ≤ n + fuel →
    (holding front text junk).skipBlanks fuel (front.length + n) =
      front.length + n + ((text.drop n).takeWhile isBlank).length
  | 0, n, hn, hfuel => by
    obtain rfl : n = text.length := by omega
    rw [List.drop_length]
    rfl
  | fuel + 1, n, hn, hfuel => by
    rw [skipBlanks, charAt_holding_drop hn]
    by_cases hlt : n < text.length
    · rw [List.drop_eq_getElem_cons hlt, List.head?_cons, Option.getD_some, List.takeWhile_cons]
      have hsize : front.length + n < (holding front text junk).sizeUsed := by
        simp only [holding]
        omega
      cases hblank : isBlank text[n] with
      | true =>
        have ih := skipBlanks_holding fuel (n := n + 1) hlt (by omega)
        rw [if_pos ⟨hsize, rfl⟩, Nat.add_assoc, ih, if_pos rfl, List.length_cons]
        omega
      | false => rw [if_neg (fun h => Bool.false_ne_true h.2), if_neg Bool.false_ne_true]; rfl
    · obtain rfl : n = text.length := by omega
      rw [if_neg (fun h => Nat.lt_irrefl _ h.1), List.drop_length]
      rfl

theorem join_holding (front junk : List UInt8) (hpos : 0 < n) (hn : n ≤ text.length) :
    ∃ junk', (holding front text junk).join front.length (front.length + n) =
      holding (front ++ [space]) (text.drop n) junk' ∧ junk'.length = junk.length + (n - 1) := by
  obtain ⟨a, rest, rfl⟩ := List.exists_cons_of_ne_nil (List.ne_nil_of_length_pos (Nat.lt_of_lt_of_le hpos hn))
  obtain ⟨n, rfl⟩ : ∃ k, n = k + 1 := ⟨n - 1, by omega⟩
  rw [List.length_cons] at hn
  have hset : (front ++ (a :: rest ++ 0 :: junk)).set front.length space =
      (front ++ [space]) ++ (rest ++ 0 :: junk) := by
    rw [List.set_append_right _ _ (Nat.le_refl _), Nat.sub_self]
    simp
  have hmoved : (((front ++ [space]) ++ (rest ++ 0 :: junk)).drop (front.length + (n + 1))).take
      (front.length + (rest.length + 1) - (front.length + (n + 1)) + 1) = rest.drop n ++ [0] := by
    have hlen : front.length + (n + 1) = (front ++ [space]).length + n := by
      rw [List.length_append, List.length_singleton]
      omega
    have hsize : front.length + (rest.length + 1) - (front.length + (n + 1)) + 1 =
        (rest.drop n ++ [(0 : UInt8)]).length := by
      rw [List.length_append, List.length_drop, List.length_singleton]
      omega
    rw [hsize, hlen, List.drop_length_add_append, List.drop_append_of_le_length (by omega),
      show rest.drop n ++ 0 :: junk = (rest.drop n ++ [0]) ++ junk by simp, List.take_left]
  refine ⟨(rest ++ 0 :: junk).drop (rest.length - n + 1), ?_, ?_⟩
  · have htake : ((front ++ [space]) ++ (rest ++ 0 :: junk)).take (front.length + 1) = front ++ [space] :=
      List.take_left' (by rw [List.length_append, List.length_singleton])
    have hdrop : ((front ++ [space]) ++ (rest ++ 0 :: junk)).drop
        (front.length + 1 + (rest.drop n ++ [(0 : UInt8)]).length) =
          (rest ++ 0 :: junk).drop (rest.length - n + 1) := by
      have hlen : front.length + 1 = (front ++ [space]).length := by
        rw [List.length_append, List.length_singleton]
      rw [hlen, List.drop_length_add_append, List.length_append, List.length_drop, List.length_singleton]
    have hcut : front.length + (rest.length + 1) - (front.length + (n + 1) - front.length - 1) =
        front.length + 1 + (rest.length - n) := by omega
    simp only [join, holding, List.length_cons, hset, hmoved, overwrite, htake, hdrop, hcut]
    simp [List.length_append, List.append_assoc, List.length_drop]
  · rw [List.length_drop, List.length_append, List.length_cons]
    omega

theorem drop_length_takeWhile (l : List UInt8) : l.drop (l.takeWhile isBlank).length = l.dropWhile isBlank := by
  have h := @List.drop_left _ (l.takeWhile isBlank) (l.dropWhile isBlank)
  rwa [List.takeWhile_append_dropWhile] at h

theorem continuationLoop_eq : ∀ (fuel : Nat) (front text junk : List UInt8), text.length < fuel →
    ∃ junk', continuationLoop fuel front.length (holding front text junk) =
        some (holding (front ++ unfolded text) [] junk') ∧
      (unfolded text).length + junk'.length = text.length + junk.length
  | 0, _, _, _, hfuel => absurd hfuel (Nat.not_lt_zero _)
  | fuel + 1, front, text, junk, hfuel => by
    by_cases hne : text = []
    · subst hne
      have hstop : ¬front.length < (holding front [] junk).sizeUsed := Nat.lt_irrefl _
      rw [continuationLoop, if_neg hstop, unfolded]
      exact ⟨junk, by simp, by simp⟩
    · have hpos := List.length_pos_iff.mpr hne
      have hmore : front.length < (holding front text junk).sizeUsed := by
        simp only [holding]
        omega
      have hle := newlineLength_le text
      -- a turn that leaves `n` octets as they are
      have hkeep (n : Nat) (hn : 0 < n) (hfit : n ≤ text.length) :
          ∃ junk', continuationLoop fuel (front.length + n) (holding front text junk) =
              some (holding (front ++ (text.take n ++ unfolded (text.drop n))) [] junk') ∧
            (text.take n ++ unfolded (text.drop n)).length + junk'.length = text.length + junk.length := by
        have hsplit : holding front text junk = holding (front ++ text.take n) (text.drop n) junk := by
          simp only [holding, List.append_assoc, List.length_append, List.length_take, List.length_drop]
          rw [← List.append_assoc (text.take n), List.take_append_drop]
          congr 1
          omega
        have hfront : front.length + n = (front ++ text.take n).length := by
          rw [List.length_append, List.length_take, Nat.min_eq_left hfit]
        obtain ⟨junk', hloop, hlen⟩ := continuationLoop_eq fuel (front ++ text.take n) (text.drop n) junk
          (by rw [List.length_drop]; omega)
        rw [hsplit, hfront, hloop, List.append_assoc]
        refine ⟨junk', rfl, ?_⟩
        rw [List.length_append, List.length_take]
        rw [List.length_drop] at hlen
        omega
      rw [continuationLoop, if_pos hmore, newlineEnd_holding hne, unfolded, dif_neg hne]
      by_cases hnone : newlineLength text = 0
      · simp only [if_pos hnone]
        exact hkeep 1 Nat.one_pos hpos
      · have hbehind : front.length + newlineLength text - 1 + 1 = front.length + newlineLength text := by omega
        have hend : ¬front.length + newlineLength text - 1 ≥ (holding front text junk).sizeUsed := by
          simp only [holding]
          omega
        simp only [if_neg hnone, hbehind, charAt_holding_drop hle, hend, false_or]
        cases hhead : (text.drop (newlineLength text)).head? with
        | none =>
          simpa [isBlank, space, tab] using hkeep _ (Nat.pos_of_ne_zero hnone) hle
        | some b =>
          cases hblank : isBlank b with
          | false => simpa [hblank] using hkeep _ (Nat.pos_of_ne_zero hnone) hle
          | true =>
            have hskip : (holding front text junk).skipBlanks (holding front text junk).sizeUsed
                (front.length + newlineLength text) = _ :=
              skipBlanks_holding _ hle (by simp only [holding]; omega)
            have hblanks : ((text.drop (newlineLength text)).takeWhile isBlank).length ≤
                text.length - newlineLength text := by
              rw [← List.length_drop]
              exact (List.takeWhile_prefix isBlank).length_le
            have hrest : text.drop (newlineLength text +
                ((text.drop (newlineLength text)).takeWhile isBlank).length) =
                (text.drop (newlineLength text)).dropWhile isBlank := by
              rw [← List.drop_drop, drop_length_takeWhile]
            have hpos := Nat.pos_of_ne_zero hnone
            have hfits : newlineLength text + ((text.drop (newlineLength text)).takeWhile isBlank).length ≤
                text.length := by omega
            obtain ⟨junk₁, hjoin, hjunk⟩ := join_holding front junk (Nat.add_pos_left hpos _) hfits
            rw [hrest] at hjoin
            obtain ⟨junk', hloop, hlen⟩ := continuationLoop_eq fuel (front ++ [space])
              ((text.drop (newlineLength text)).dropWhile isBlank) junk₁
              (by rw [← hrest, List.length_drop]; omega)
            rw [List.length_append, List.length_singleton] at hloop
            rw [← hrest, List.length_drop, hrest] at hlen
            simp only [Option.getD_some, hblank, Bool.not_true, Bool.false_eq_true, if_false, hskip,
              Nat.add_assoc, hjoin, hloop, Option.any_some, if_true, List.append_assoc, List.singleton_append,
              List.length_cons]
            exact ⟨junk', rfl, by omega⟩

end Secondary

theorem length_unfolded_le (text : List UInt8) : (unfolded text).length ≤ text.length := by
  induction text using unfolded.induct with
  | case1 => simp [unfolded]
  | case2 text hne hzero ih =>
    have hpos := List.length_pos_iff.mpr hne
    rw [unfolded, dif_neg hne, if_pos hzero, List.length_append, List.length_take]
    rw [List.length_drop] at ih
    omega
  | case3 text hne hnewline hblank ih =>
    have hle := newlineLength_le text
    have hrest := (List.dropWhile_suffix isBlank (l := text.drop (newlineLength text))).length_le
    rw [unfolded, dif_neg hne, if_neg hnewline, if_pos hblank, List.length_cons]
    rw [List.length_drop] at hrest
    omega
  | case4 text hne hnewline hblank ih =>
    have hle := newlineLength_le text
    rw [unfolded, dif_neg hne, if_neg hnewline, if_neg hblank, List.length_append, List.length_take]
    rw [List.length_drop] at ih
    omega

open Secondary

/-- **The lines of a message are joined in its buffer**: the loop ends, the buffer holds the
joined text and the null character, and its size is set. -/
theorem dealWithLineContinuations_unfolds (text junk : List UInt8) (k : Nat) :
    ∃ junk', dealWithLineContinuations (text.length + 1 + k) ⟨text ++ 0 :: junk, text.length⟩ =
        some ⟨unfolded text ++ 0 :: junk', (unfolded text).length⟩ ∧
      (unfolded text).length ≤ text.length := by
  obtain ⟨junk', hloop, -⟩ := continuationLoop_eq (text.length + 1 + k) [] text junk (by omega)
  simp only [holding, List.nil_append, List.length_nil, Nat.zero_add, Nat.add_zero] at hloop
  exact ⟨junk', hloop, length_unfolded_le text⟩

/-- A text with a CR and with LFs is left as it is: the line ends are not made the same. -/
theorem line_ends_are_kept :
    ∃ out, dealWithLineContinuations 7 ⟨[97, cr, 98, lf, lf, 0], 5⟩ = some out ∧
      cr ∈ out.buffer ∧ lf ∈ out.buffer ∧ ¬ [cr, lf] <:+: out.buffer :=
  ⟨⟨[97, cr, 98, lf, lf, 0], 5⟩, by decide⟩

end Ftke.RtspParser
