import Ftke.Multiplex
import Mathlib.Data.List.Range

/-!
# Ftke.Multiplex.Expansion

What a multiplex table entry says, and where `BreakPduData` follows it.

`cyclicExpansion` is the meaning of an entry: the logical channel of each byte of
a MUX-PDU.  `walkElements` is `BreakPduData` with the channels left out, a pass
over the entry that moves a pointer.  The pass follows the expansion exactly as
long as no sub-element list has to be repeated and nothing of its own list comes
after it (`walk_of_firstPass`, `firstPass_of_walk`).
-/

namespace Ftke.Multiplex

/-! ## The meaning of an entry -/

mutual

/-- The channels of the first `n` bytes that an element stands for. -/
def expandElement (n : Nat) : MultiplexElement → List UInt16
  | .logicalChannelNumber lcn repeatCount => List.replicate (repeatCount.octets n) lcn
  | .subElementList elements repeatCount =>
    (List.replicate (repeatCount.loopCnt n) (expandElements n elements)).flatten.take n
termination_by structural element => element

def expandElements (n : Nat) : List MultiplexElement → List UInt16
  | [] => []
  | element :: rest => (expandElement n element ++ expandElements n rest).take n
termination_by structural elements => elements

end

/-- The channels of the first `n` bytes: the entry is repeated until the closing
flag. -/
def cyclicExpansion (n : Nat) (elements : List MultiplexElement) : List UInt16 :=
  (List.replicate n (expandElements n elements)).flatten.take n

/-- To show something of every element list, show it of the empty list and for
each kind of first element. -/
@[elab_as_elim]
theorem elements_induction {motive : List MultiplexElement → Prop} (nil : motive [])
    (channel : ∀ lcn repeatCount rest, motive rest →
      motive (.logicalChannelNumber lcn repeatCount :: rest))
    (sub : ∀ elements repeatCount rest, motive elements → motive rest →
      motive (.subElementList elements repeatCount :: rest)) :
    (elements : List MultiplexElement) → motive elements
  | [] => nil
  | .logicalChannelNumber lcn repeatCount :: rest =>
    channel lcn repeatCount rest (elements_induction nil channel sub rest)
  | .subElementList elements repeatCount :: rest =>
    sub elements repeatCount rest (elements_induction nil channel sub elements)
      (elements_induction nil channel sub rest)

/-! ## The pass -/

/-- A pass over a list: the value returned, the pointer, and the bytes handed over
with their positions. -/
structure Walk where
  ret : Nat
  pdu : Nat
  octets : List (UInt16 × Nat)

/-- A turn of it. -/
structure Pass where
  ret : Option Nat
  pdu_size : Nat
  demuxed_size : Nat
  pdu : Nat
  octets : List (UInt16 × Nat)

/-- More bytes in front. -/
def Walk.after (octets : List (UInt16 × Nat)) (w : Walk) : Walk := { w with octets := octets ++ w.octets }

/-- The pass ends with the turn, or goes on with the rest of the list. -/
def Pass.andThen (t : Pass) (rest : Nat → Nat → Nat → Walk) : Walk :=
  t.ret.elim ((rest t.pdu_size t.demuxed_size t.pdu).after t.octets) fun ret => ⟨ret, t.pdu, t.octets⟩

def walkRepeat (sub : Nat → Walk) (pdu_size : Nat) : Nat → Nat → Nat → Pass
  | 0, demuxed_size, pdu => ⟨none, pdu_size, demuxed_size, pdu, []⟩
  | loopCnt + 1, demuxed_size, pdu =>
    let w := sub pdu
    let demuxed_size := demuxed_size + w.ret
    let pdu := w.pdu + demuxed_size
    if pdu_size ≤ demuxed_size then ⟨some demuxed_size, pdu_size, demuxed_size, pdu, w.octets⟩
    else
      let t := walkRepeat sub pdu_size loopCnt demuxed_size pdu
      { t with octets := w.octets ++ t.octets }

mutual

def walkElement : MultiplexElement → Nat → Nat → Nat → Pass
  | .logicalChannelNumber lcn repeatCount, pdu_size, demuxed_size, pdu =>
    let n := repeatCount.octets pdu_size
    ⟨if pdu_size - n = 0 then some (demuxed_size + n) else none, pdu_size - n, demuxed_size + n,
      pdu + n, (List.range' pdu n).map (Prod.mk lcn)⟩
  | .subElementList elements repeatCount, pdu_size, demuxed_size, pdu =>
    walkRepeat (walkElements elements pdu_size 0) pdu_size (repeatCount.loopCnt pdu_size)
      demuxed_size pdu
termination_by structural element => element

def walkElements : List MultiplexElement → Nat → Nat → Nat → Walk
  | [], _, _, pdu => ⟨0, pdu, []⟩
  | element :: rest, pdu_size, demuxed_size, pdu =>
    (walkElement element pdu_size demuxed_size pdu).andThen (walkElements rest)
termination_by structural elements => elements

end

/-! ## The first pass -/

mutual

/-- No byte goes by this element. -/
def silentElement : MultiplexElement → Bool
  | .logicalChannelNumber _ repeatCount => repeatCount = .finite 0
  | .subElementList elements repeatCount => repeatCount = .finite 0 || silent elements
termination_by structural element => element

def silent : List MultiplexElement → Bool
  | [] => true
  | element :: rest => silentElement element && silent rest
termination_by structural elements => elements

end

/-- The pass can go on behind the element: it is a channel, or a list that is not
entered, or one without a byte before any byte has been handed over. -/
def passable (begun : Bool) : MultiplexElement → Bool
  | .logicalChannelNumber _ _ => true
  | .subElementList elements repeatCount => repeatCount = .finite 0 || (!begun && silent elements)

/-- The bytes that an element takes of its own. -/
def ownOctets (pdu_size : Nat) : MultiplexElement → Nat
  | .logicalChannelNumber _ repeatCount => repeatCount.octets pdu_size
  | .subElementList _ _ => 0

mutual

/-- The rest of the PDU goes by this element. -/
def takesRest : MultiplexElement → Nat → Bool
  | .logicalChannelNumber _ repeatCount, pdu_size => repeatCount.octets pdu_size = pdu_size
  | .subElementList elements repeatCount, pdu_size =>
    repeatCount ≠ .finite 0 && firstPass elements false pdu_size
termination_by structural element => element

/-- The rest of the PDU goes by the channels that the first pass over the list
meets: those up to the first sub-element list, then those of that list up to its
own first sub-element list, and so on.  `begun` says that a byte has been handed
over in this list. -/
def firstPass : List MultiplexElement → Bool → Nat → Bool
  | [], _, _ => false
  | element :: rest, begun, pdu_size =>
    takesRest element pdu_size || (passable begun element &&
      firstPass rest (begun || ownOctets pdu_size element != 0) (pdu_size - ownOctets pdu_size element))
termination_by structural elements => elements

end

/-! ## One turn -/

theorem octets_le (repeatCount : RepeatCount) (n : Nat) : repeatCount.octets n ≤ n := by
  cases repeatCount with
  | finite count => exact Nat.min_le_left _ _
  | untilClosingFlag => exact le_rfl

variable {n p q : Nat} {repeatCount : RepeatCount}

theorem loopCnt_pos (hn : 0 < n) (h : repeatCount ≠ .finite 0) : 0 < repeatCount.loopCnt n := by
  cases repeatCount with
  | untilClosingFlag => exact hn
  | finite count =>
    by_contra hzero
    have hcount : count = 0 := UInt16.toNat_inj.mp (by simpa [RepeatCount.loopCnt] using hzero)
    exact h (by rw [hcount])

@[simp] theorem loopCnt_zero (n : Nat) : (RepeatCount.finite 0).loopCnt n = 0 := rfl

@[simp] theorem after_nil (w : Walk) : w.after [] = w := rfl

theorem walk_channel {lcn : UInt16} {rest : List MultiplexElement}
    {s d p : Nat} (h : repeatCount.octets s ≠ s) :
    walkElements (.logicalChannelNumber lcn repeatCount :: rest) s d p =
      (walkElements rest (s - repeatCount.octets s) (d + repeatCount.octets s)
        (p + repeatCount.octets s)).after ((List.range' p (repeatCount.octets s)).map (Prod.mk lcn)) := by
  have hle := octets_le repeatCount s
  rw [walkElements, walkElement]
  simp only [Pass.andThen]
  rw [if_neg (by omega)]
  rfl

theorem walk_channel_all {lcn : UInt16} {rest : List MultiplexElement}
    {s d p : Nat} (h : repeatCount.octets s = s) :
    walkElements (.logicalChannelNumber lcn repeatCount :: rest) s d p =
      ⟨d + s, p + s, (List.range' p s).map (Prod.mk lcn)⟩ := by
  rw [walkElements, walkElement]
  simp only [Pass.andThen, h, Nat.sub_self, if_pos]
  rfl

theorem walk_sub (elements : List MultiplexElement) (repeatCount : RepeatCount)
    (rest : List MultiplexElement) (s d p : Nat) :
    walkElements (.subElementList elements repeatCount :: rest) s d p =
      (walkRepeat (walkElements elements s 0) s (repeatCount.loopCnt s) d p).andThen
        (walkElements rest) := by
  rw [walkElements, walkElement]

@[simp] theorem walkRepeat_zero (sub : Nat → Walk) (f : Nat → Nat → Nat → Walk) (s d p : Nat) :
    (walkRepeat sub s 0 d p).andThen f = f s d p := rfl

variable {f : Nat → Nat → Nat → Walk} {sub : Nat → Walk}

theorem walkRepeat_last {s k d p : Nat} (h : s ≤ d + (sub p).ret) :
    (walkRepeat sub s (k + 1) d p).andThen f =
      ⟨d + (sub p).ret, (sub p).pdu + (d + (sub p).ret), (sub p).octets⟩ := by
  rw [walkRepeat]
  simp only [if_pos h]
  rfl

theorem walkRepeat_more {s k d p : Nat} (h : ¬s ≤ d + (sub p).ret) :
    (walkRepeat sub s (k + 1) d p).andThen f =
      ((walkRepeat sub s k (d + (sub p).ret) ((sub p).pdu + (d + (sub p).ret))).andThen f).after
        (sub p).octets := by
  rw [walkRepeat]
  simp only [if_neg h, Pass.andThen]
  cases (walkRepeat sub s k (d + (sub p).ret) ((sub p).pdu + (d + (sub p).ret))).ret with
  | some ret => rfl
  | none => simp only [Option.elim_none, Walk.after, List.append_assoc]

/-! ## Where the pointer goes -/

/-- The bytes handed over lie between the pointer before and the pointer after. -/
def Walk.Within (w : Walk) (pdu : Nat) : Prop :=
  pdu ≤ w.pdu ∧ ∀ octet ∈ w.octets, pdu ≤ octet.2 ∧ octet.2 < w.pdu

variable {w : Walk}

theorem Walk.Within.after {octets : List (UInt16 × Nat)} (h : w.Within q)
    (hpq : p ≤ q) (hoctets : ∀ octet ∈ octets, p ≤ octet.2 ∧ octet.2 < q) :
    (w.after octets).Within p := by
  refine ⟨Nat.le_trans hpq h.1, fun octet hmem => ?_⟩
  rcases List.mem_append.mp hmem with hfront | hback
  · exact ⟨(hoctets octet hfront).1, Nat.lt_of_lt_of_le (hoctets octet hfront).2 h.1⟩
  · exact ⟨Nat.le_trans hpq (h.2 octet hback).1, (h.2 octet hback).2⟩

theorem within_channel (lcn : UInt16) (p n : Nat) :
    ∀ octet ∈ (List.range' p n).map (Prod.mk lcn), p ≤ octet.2 ∧ octet.2 < p + n := by
  intro octet hmem
  obtain ⟨i, hi, rfl⟩ := List.mem_map.mp hmem
  simpa [List.mem_range'_1] using hi

theorem within_repeat {s : Nat} (hsub : ∀ p, (sub p).Within p) (hf : ∀ s d p, (f s d p).Within p) :
    ∀ k d p, ((walkRepeat sub s k d p).andThen f).Within p
  | 0, d, p => hf s d p
  | k + 1, d, p => by
    by_cases h : s ≤ d + (sub p).ret
    · rw [walkRepeat_last h]
      exact ⟨Nat.le_trans (hsub p).1 (Nat.le_add_right _ _), fun octet hmem =>
        ⟨((hsub p).2 octet hmem).1, Nat.lt_of_lt_of_le ((hsub p).2 octet hmem).2 (Nat.le_add_right _ _)⟩⟩
    · rw [walkRepeat_more h]
      refine (within_repeat hsub hf k _ _).after (Nat.le_trans (hsub p).1 (Nat.le_add_right _ _)) ?_
      exact fun octet hmem => ⟨((hsub p).2 octet hmem).1,
        Nat.lt_of_lt_of_le ((hsub p).2 octet hmem).2 (Nat.le_add_right _ _)⟩

theorem walk_within (elements : List MultiplexElement) :
    ∀ s d p, (walkElements elements s d p).Within p := by
  induction elements using elements_induction with
  | nil => exact fun s d p => ⟨le_rfl, by simp [walkElements]⟩
  | channel lcn repeatCount rest ih =>
    intro s d p
    by_cases h : repeatCount.octets s = s
    · rw [walk_channel_all h]
      exact ⟨Nat.le_add_right _ _, within_channel lcn p s⟩
    · rw [walk_channel h]
      exact (ih _ _ _).after (Nat.le_add_right _ _) (within_channel lcn p _)
  | sub elements repeatCount rest ihsub ihrest =>
    intro s d p
    rw [walk_sub]
    exact within_repeat (ihsub s 0) ihrest _ d p

/-! ## A pass that hands over nothing -/

theorem repeat_ret_of_nil {s : Nat} (hs : 0 < s) (hsub : ∀ p, (sub p).octets = [] → (sub p).ret = 0)
    (hf : ∀ d p, (f s d p).octets = [] → (f s d p).ret = 0 ∨ (f s d p).ret = d) :
    ∀ k d p, ((walkRepeat sub s k d p).andThen f).octets = [] →
      ((walkRepeat sub s k d p).andThen f).ret = 0 ∨ ((walkRepeat sub s k d p).andThen f).ret = d
  | 0, d, p, h => hf d p h
  | k + 1, d, p, h => by
    by_cases hlast : s ≤ d + (sub p).ret
    · rw [walkRepeat_last hlast] at h ⊢
      have hret := hsub p h
      refine .inr ?_
      change d + _ = d
      omega
    · rw [walkRepeat_more hlast] at h ⊢
      obtain ⟨hfront, hback⟩ := List.append_eq_nil_iff.mp h
      rw [hsub p hfront] at hback ⊢
      exact repeat_ret_of_nil hs hsub hf k d _ hback

theorem ret_of_octets_nil (elements : List MultiplexElement) :
    ∀ {s d p : Nat}, 0 < s → (walkElements elements s d p).octets = [] →
      (walkElements elements s d p).ret = 0 ∨ (walkElements elements s d p).ret = d := by
  induction elements using elements_induction with
  | nil => exact fun _ _ => .inl rfl
  | channel lcn repeatCount rest ih =>
    intro s d p hs h
    by_cases hall : repeatCount.octets s = s
    · rw [walk_channel_all hall] at h
      have hlen := congrArg List.length h
      simp only [List.length_map, List.length_range', List.length_nil] at hlen
      omega
    · rw [walk_channel hall] at h ⊢
      obtain ⟨hfront, hback⟩ := List.append_eq_nil_iff.mp h
      have hzero : repeatCount.octets s = 0 := by simpa using congrArg List.length hfront
      rw [hzero] at hback ⊢
      exact ih hs hback
  | sub elements repeatCount rest ihsub ihrest =>
    intro s d p hs h
    rw [walk_sub] at h ⊢
    exact repeat_ret_of_nil hs (fun q hq => (ihsub hs hq).elim id id) (fun _ _ => ihrest hs) _ d p h

theorem octets_of_finite_zero : (RepeatCount.finite 0).octets n = 0 := by
  simp [RepeatCount.octets]

theorem finite_zero_of_octets (hn : 0 < n) (h : repeatCount.octets n = 0) : repeatCount = .finite 0 := by
  by_contra hne
  have hpos := loopCnt_pos hn hne
  cases repeatCount with
  | untilClosingFlag => exact absurd h (Nat.ne_of_gt hn)
  | finite count =>
    simp only [RepeatCount.octets, RepeatCount.loopCnt] at h hpos
    omega

theorem repeat_nothing {s : Nat} (hs : 0 < s) (hsub : ∀ p, (sub p).octets = [] → (sub p).ret = 0) :
    ∀ k p, ((walkRepeat sub s k 0 p).andThen f).octets = [] → ∃ q, (f s 0 q).octets = []
  | 0, p, h => ⟨p, h⟩
  | k + 1, p, h => by
    by_cases hlast : s ≤ 0 + (sub p).ret
    · rw [walkRepeat_last hlast] at h
      have hret := hsub p h
      omega
    · rw [walkRepeat_more hlast] at h
      obtain ⟨hfront, hback⟩ := List.append_eq_nil_iff.mp h
      rw [hsub p hfront] at hback
      exact repeat_nothing hs hsub k _ hback

/-- **No byte, no expansion**: a list that hands over nothing is silent, and its
pass returns 0. -/
theorem silent_of_octets_nil (elements : List MultiplexElement) :
    ∀ {s p : Nat}, 0 < s → (walkElements elements s 0 p).octets = [] → silent elements := by
  induction elements using elements_induction with
  | nil => exact fun _ _ => rfl
  | channel lcn repeatCount rest ih =>
    intro s p hs h
    have hzero : repeatCount.octets s = 0 := by
      by_cases hall : repeatCount.octets s = s
      · rw [walk_channel_all hall] at h
        have hlen : s = 0 := by simpa using congrArg List.length h
        omega
      · rw [walk_channel hall] at h
        simpa using congrArg List.length (List.append_eq_nil_iff.mp h).1
    have hcount := finite_zero_of_octets hs hzero
    subst hcount
    rw [walk_channel (by omega)] at h
    obtain ⟨-, hback⟩ := List.append_eq_nil_iff.mp h
    rw [hzero] at hback
    rw [silent, silentElement, ih hs hback]
    simp
  | sub elements repeatCount rest ihsub ihrest =>
    intro s p hs h
    have hret : ∀ q, (walkElements elements s 0 q).octets = [] →
        (walkElements elements s 0 q).ret = 0 :=
      fun q hq => (ret_of_octets_nil elements hs hq).elim id id
    rw [walk_sub] at h
    obtain ⟨q, hrest⟩ := repeat_nothing hs hret _ p h
    rw [silent, silentElement, ihrest hs hrest, Bool.and_true]
    by_cases hzero : repeatCount = .finite 0
    · simp [hzero]
    · obtain ⟨k, hk⟩ : ∃ k, repeatCount.loopCnt s = k + 1 :=
        ⟨_, (Nat.sub_add_cancel (loopCnt_pos hs hzero)).symm⟩
      have hnil : (walkElements elements s 0 p).octets = [] := by
        rw [hk] at h
        by_cases hlast : s ≤ 0 + (walkElements elements s 0 p).ret
        · rw [walkRepeat_last hlast] at h
          exact h
        · rw [walkRepeat_more hlast] at h
          exact (List.append_eq_nil_iff.mp h).1
      simp [ihsub hs hnil]

theorem repeat_silent {s : Nat} (hs : 0 < s) (hsub : ∀ p, sub p = ⟨0, p, []⟩) :
    ∀ k p, (walkRepeat sub s k 0 p).andThen f = f s 0 p
  | 0, _ => rfl
  | k + 1, p => by
    have hret : (sub p).ret = 0 := by rw [hsub p]
    rw [walkRepeat_more (by omega), hret, hsub p]
    exact repeat_silent hs hsub k p

theorem walk_of_silent (elements : List MultiplexElement) :
    ∀ {s : Nat} (p : Nat), 0 < s → silent elements → walkElements elements s 0 p = ⟨0, p, []⟩ := by
  induction elements using elements_induction with
  | nil => exact fun _ _ _ => rfl
  | channel lcn repeatCount rest ih =>
    intro s p hs h
    simp only [silent, silentElement, Bool.and_eq_true, decide_eq_true_eq] at h
    obtain ⟨rfl, hrest⟩ := h
    rw [walk_channel (by rw [octets_of_finite_zero]; omega), octets_of_finite_zero]
    exact ih p hs hrest
  | sub elements repeatCount rest ihsub ihrest =>
    intro s p hs h
    simp only [silent, silentElement, Bool.and_eq_true, Bool.or_eq_true, decide_eq_true_eq] at h
    rw [walk_sub]
    rcases h with ⟨rfl | hsub, hrest⟩
    · exact ihrest p hs hrest
    · rw [repeat_silent hs fun q => ihsub q hs hsub]
      exact ihrest p hs hrest

/-! ## The expansion of the first pass -/

theorem expand_of_silent (elements : List MultiplexElement) (n : Nat) :
    silent elements → expandElements n elements = [] := by
  induction elements using elements_induction with
  | nil => exact fun _ => rfl
  | channel lcn repeatCount rest ih =>
    intro h
    simp only [silent, silentElement, Bool.and_eq_true, decide_eq_true_eq] at h
    obtain ⟨rfl, hrest⟩ := h
    simp [expandElements, expandElement, octets_of_finite_zero, ih hrest]
  | sub elements repeatCount rest ihsub ihrest =>
    intro h
    simp only [silent, silentElement, Bool.and_eq_true, Bool.or_eq_true, decide_eq_true_eq] at h
    obtain ⟨hfirst, hrest⟩ := h
    rcases hfirst with rfl | hsub
    · simp [expandElements, expandElement, ihrest hrest]
    · simp [expandElements, expandElement, ihsub hsub, ihrest hrest]

/-- What the pass has to hand over when `s` bytes are left: the positions from the
pointer on, to the channels of the expansion. -/
structure Walk.Follows (w : Walk) (expansion : List UInt16) (s d p : Nat) : Prop where
  ret : w.ret = d + s
  positions : w.octets.map Prod.snd = List.range' p s
  channels : w.octets.map Prod.fst = expansion.take s

theorem firstPass_channel {lcn : UInt16} {rest : List MultiplexElement}
    {s d : Nat} (h : repeatCount.octets s ≠ s) :
    firstPass (.logicalChannelNumber lcn repeatCount :: rest) (d ≠ 0) s =
      firstPass rest (d + repeatCount.octets s ≠ 0) (s - repeatCount.octets s) := by
  have hbegun : (decide (d ≠ 0) || repeatCount.octets s != 0) =
      decide (d + repeatCount.octets s ≠ 0) := by
    rw [Bool.eq_iff_iff]
    simp only [Bool.or_eq_true, decide_eq_true_eq, bne_iff_ne]
    omega
  rw [← hbegun]
  simp [firstPass, takesRest, passable, ownOctets, h]

theorem firstPass_sub {elements : List MultiplexElement} {rest : List MultiplexElement} {s d : Nat} :
    firstPass (.subElementList elements repeatCount :: rest) (d ≠ 0) s ↔
      (repeatCount ≠ .finite 0 ∧ firstPass elements false s) ∨
        ((repeatCount = .finite 0 ∨ d = 0 ∧ silent elements) ∧ firstPass rest (d ≠ 0) s) := by
  simp [firstPass, takesRest, passable, ownOctets]

theorem octets_min {s n : Nat} (h : s ≤ n) :
    repeatCount.octets s = min s (repeatCount.octets n) := by
  cases repeatCount with
  | finite count =>
    simp only [RepeatCount.octets]
    omega
  | untilClosingFlag => exact (Nat.min_eq_left h).symm

theorem take_expandElements {element : MultiplexElement} {rest : List MultiplexElement} {s n : Nat}
    (h : s ≤ n) : (expandElements n (element :: rest)).take s =
      (expandElement n element ++ expandElements n rest).take s := by
  rw [expandElements, List.take_take, Nat.min_eq_left h]

theorem Walk.Follows.le_length {expansion : List UInt16} {s d p : Nat}
    (h : w.Follows expansion s d p) : s ≤ expansion.length := by
  have hpositions := congrArg List.length h.positions
  have hchannels := congrArg List.length h.channels
  simp only [List.length_map, List.length_range', List.length_take] at hpositions hchannels
  omega

theorem take_copies {α : Type*} {xs ys : List α} {s k n : Nat} (hk : 0 < k) (hlen : s ≤ xs.length)
    (hn : s ≤ n) : ((((List.replicate k xs).flatten.take n) ++ ys).take s) = xs.take s := by
  obtain ⟨j, rfl⟩ : ∃ j, k = j + 1 := ⟨k - 1, by omega⟩
  have hle : s ≤ ((List.replicate (j + 1) xs).flatten.take n).length := by
    simp only [List.replicate_succ, List.flatten_cons, List.length_take, List.length_append]
    omega
  rw [List.take_append_of_le_length hle, List.take_take, Nat.min_eq_left hn, List.replicate_succ,
    List.flatten_cons, List.take_append_of_le_length hlen]

/-- **As long as the PDU lasts on the first pass, it is taken apart as the entry
says.** -/
theorem walk_of_firstPass (elements : List MultiplexElement) :
    ∀ {n s d p : Nat}, 0 < s → s ≤ n → firstPass elements (d ≠ 0) s →
      (walkElements elements s d p).Follows (expandElements n elements) s d p := by
  induction elements using elements_induction with
  | nil => exact fun _ _ h => absurd h Bool.false_ne_true
  | channel lcn repeatCount rest ih =>
    intro n s d p hs hn h
    have hmin : repeatCount.octets s = min s (repeatCount.octets n) := octets_min hn
    by_cases hall : repeatCount.octets s = s
    · rw [walk_channel_all hall]
      refine ⟨rfl, by simp [Function.comp_def], ?_⟩
      rw [take_expandElements hn, expandElement, List.take_append_of_le_length (by simp; omega)]
      simp [Function.comp_def, List.map_const', ← hmin, hall]
    · rw [firstPass_channel hall] at h
      have hle := octets_le repeatCount s
      have hfollows := ih (n := n) (p := p + repeatCount.octets s) (by omega) (by omega) h
      have hsame : repeatCount.octets n = repeatCount.octets s := by omega
      rw [walk_channel hall]
      refine ⟨?_, ?_, ?_⟩
      · have hret := hfollows.ret
        simp only [Walk.after]
        omega
      · rw [Walk.after, List.map_append, hfollows.positions]
        simp only [List.map_map, Function.comp_def, List.map_id']
        rw [List.range'_append_1, Nat.add_sub_cancel' hle]
      · rw [Walk.after, List.map_append, hfollows.channels, take_expandElements hn, expandElement,
          hsame, List.take_append]
        simp [Function.comp_def, List.map_const', Nat.min_eq_right hle]
  | sub elements repeatCount rest ihsub ihrest =>
    intro n s d p hs hn h
    rw [walk_sub]
    rcases firstPass_sub.mp h with ⟨hcount, hsub⟩ | ⟨hpass, hrest⟩
    · -- the first repetition takes the rest of the PDU
      obtain ⟨k, hk⟩ : ∃ k, repeatCount.loopCnt s = k + 1 :=
        ⟨_, (Nat.sub_add_cancel (loopCnt_pos hs hcount)).symm⟩
      have hfollows := ihsub (d := 0) (p := p) hs hn hsub
      rw [hk, walkRepeat_last (by rw [hfollows.ret]; omega)]
      refine ⟨by simp only [hfollows.ret]; omega, hfollows.positions, ?_⟩
      rw [hfollows.channels, take_expandElements hn, expandElement,
        take_copies (loopCnt_pos (by omega) hcount) hfollows.le_length hn]
    · have hexpand : expandElement n (.subElementList elements repeatCount) = [] ∧
          (walkRepeat (walkElements elements s 0) s (repeatCount.loopCnt s) d p).andThen
            (walkElements rest) = walkElements rest s d p := by
        rcases hpass with rfl | ⟨rfl, hsilent⟩
        · exact ⟨by simp [expandElement], rfl⟩
        · exact ⟨by simp [expandElement, expand_of_silent elements n hsilent],
            repeat_silent hs (fun q => walk_of_silent elements q hs hsilent) _ p⟩
      have hfollows := ihrest (p := p) hs hn hrest
      rw [hexpand.2]
      refine ⟨hfollows.ret, hfollows.positions, ?_⟩
      rw [hfollows.channels, take_expandElements hn, hexpand.1, List.nil_append]

/-! ## Nothing else works -/

/-- The bytes handed over are the next ones, and not more than there are left. -/
structure Walk.Fits (w : Walk) (s p : Nat) : Prop where
  positions : w.octets.map Prod.snd = List.range' p w.octets.length
  length : w.octets.length ≤ s

theorem Walk.Fits.split {octets : List (UInt16 × Nat)} {s p : Nat} (h : (w.after octets).Fits s p) :
    octets.map Prod.snd = List.range' p octets.length ∧ octets.length + w.octets.length ≤ s ∧
      w.octets.map Prod.snd = List.range' (p + octets.length) w.octets.length := by
  have hpositions := h.positions
  have hlength := h.length
  simp only [Walk.after, List.map_append, List.length_append] at hpositions hlength
  rw [← List.range'_append_1] at hpositions
  obtain ⟨hfront, hback⟩ := List.append_inj hpositions (by simp)
  exact ⟨hfront, hlength, hback⟩

theorem Walk.Within.length_le (h : w.Within p)
    (hpositions : w.octets.map Prod.snd = List.range' p w.octets.length) :
    p + w.octets.length ≤ w.pdu := by
  by_cases hnil : w.octets.length = 0
  · have hle := h.1
    omega
  · have hlast : p + (w.octets.length - 1) ∈ w.octets.map Prod.snd := by
      rw [hpositions, List.mem_range'_1]
      omega
    obtain ⟨octet, hmem, heq⟩ := List.mem_map.mp hlast
    have hlt := (h.2 octet hmem).2
    omega

theorem Walk.Within.eq_of_positions (h : w.Within q) (hle : p ≤ q)
    (hpositions : w.octets.map Prod.snd = List.range' p w.octets.length) (hne : w.octets ≠ []) :
    q = p := by
  have hfirst : p ∈ w.octets.map Prod.snd := by
    have hpos := List.length_pos_iff.mpr hne
    rw [hpositions, List.mem_range'_1]
    omega
  obtain ⟨octet, hmem, heq⟩ := List.mem_map.mp hfirst
  have hge := (h.2 octet hmem).1
  omega

section
variable {elements rest : List MultiplexElement} {s : Nat}

/-- A repetition that does not end the pass: the bytes are counted again by the
caller, so there is no other way but a first pass. -/
theorem firstPass_of_repeat (hs : 0 < s)
    (ihsub : ∀ {d p : Nat}, (walkElements elements s d p).ret = d + s →
      (walkElements elements s d p).Fits s p → firstPass elements (d ≠ 0) s)
    (ihrest : ∀ {d p : Nat}, (walkElements rest s d p).ret = d + s →
      (walkElements rest s d p).Fits s p → firstPass rest (d ≠ 0) s) :
    ∀ k d p,
      ((walkRepeat (walkElements elements s 0) s k d p).andThen (walkElements rest)).ret = d + s →
      ((walkRepeat (walkElements elements s 0) s k d p).andThen (walkElements rest)).Fits s p →
      (k ≠ 0 ∧ firstPass elements false s) ∨
        ((k = 0 ∨ d = 0 ∧ silent elements) ∧ firstPass rest (d ≠ 0) s)
  | 0, d, p, hret, hfits => .inr ⟨.inl rfl, ihrest hret hfits⟩
  | k + 1, d, p, hret, hfits => by
    by_cases hlast : s ≤ d + (walkElements elements s 0 p).ret
    · rw [walkRepeat_last hlast] at hret hfits
      have hsub : (walkElements elements s 0 p).ret = 0 + s := by
        simp only at hret
        omega
      exact .inl ⟨Nat.succ_ne_zero k, ihsub hsub ⟨hfits.positions, hfits.length⟩⟩
    · rw [walkRepeat_more hlast] at hret hfits
      obtain ⟨hfront, hlength, hback⟩ := hfits.split
      have hwithin := walk_within elements s 0 p
      have hle := hwithin.length_le hfront
      have hnil : ∀ q, (walkElements elements s 0 q).octets = [] →
          (walkElements elements s 0 q).ret = 0 :=
        fun q hq => (ret_of_octets_nil elements hs hq).elim id id
      by_cases hnext : ((walkRepeat (walkElements elements s 0) s k
          (d + (walkElements elements s 0 p).ret)
          ((walkElements elements s 0 p).pdu + (d + (walkElements elements s 0 p).ret))).andThen
            (walkElements rest)).octets = []
      · have hends := repeat_ret_of_nil hs hnil (fun _ _ => ret_of_octets_nil rest hs) k _ _ hnext
        simp only [Walk.after] at hret
        omega
      · -- the pointer is where the next byte is, so nothing has been counted
        have hq := (within_repeat (fun q => walk_within elements s 0 q) (walk_within rest) k _
          _).eq_of_positions (by omega) hback hnext
        have hd : d = 0 := by omega
        have hzero : (walkElements elements s 0 p).ret = 0 := by omega
        subst hd
        simp only [hzero, Nat.add_zero] at hret hback hlength hq
        have ihk := firstPass_of_repeat hs ihsub ihrest k 0 (walkElements elements s 0 p).pdu hret
          ⟨by rw [hback, hq], by omega⟩
        by_cases hsilent : (walkElements elements s 0 p).octets = []
        · have hsil := silent_of_octets_nil elements hs hsilent
          exact ihk.imp (fun hsub => ⟨Nat.succ_ne_zero k, hsub.2⟩) fun hrest => ⟨.inr ⟨rfl, hsil⟩, hrest.2⟩
        · exfalso
          have hpos := List.length_pos_iff.mpr hsilent
          rcases ihk with ⟨-, hsub⟩ | ⟨hk, hrest⟩
          · have hfollows := walk_of_firstPass elements (d := 0) (p := p) hs le_rfl hsub
            have heq := hfollows.ret
            omega
          · rcases hk with rfl | ⟨-, hsil⟩
            · have hfollows := walk_of_firstPass rest (d := 0)
                (p := (walkElements elements s 0 p).pdu) hs le_rfl hrest
              have heq := congrArg List.length hfollows.positions
              simp only [List.length_map, List.length_range'] at heq
              rw [walkRepeat_zero] at hlength
              omega
            · rw [walk_of_silent elements p hs hsil] at hsilent
              exact hsilent rfl

end

/-- **Only on the first pass**: a pass that hands over the next bytes and returns
their number is a first pass. -/
theorem firstPass_of_walk (elements : List MultiplexElement) :
    ∀ {s d p : Nat}, 0 < s → (walkElements elements s d p).ret = d + s →
      (walkElements elements s d p).Fits s p → firstPass elements (d ≠ 0) s := by
  induction elements using elements_induction with
  | nil =>
    intro s d p hs hret
    simp only [walkElements] at hret
    omega
  | channel lcn repeatCount rest ih =>
    intro s d p hs hret hfits
    by_cases hall : repeatCount.octets s = s
    · simp [firstPass, takesRest, hall]
    · have hle := octets_le repeatCount s
      rw [walk_channel hall] at hret hfits
      obtain ⟨-, hlength, hback⟩ := hfits.split
      simp only [List.length_map, List.length_range'] at hlength hback
      rw [firstPass_channel hall]
      refine ih (by omega) ?_ ⟨hback, by omega⟩
      simp only [Walk.after] at hret
      omega
  | sub elements repeatCount rest ihsub ihrest =>
    intro s d p hs hret hfits
    rw [walk_sub] at hret hfits
    have hfirst := firstPass_of_repeat hs (ihsub hs) (ihrest hs) _ d p hret hfits
    rw [firstPass_sub]
    have hcount : repeatCount.loopCnt s = 0 → repeatCount = .finite 0 := fun h => by
      by_contra hne
      exact Nat.ne_of_gt (loopCnt_pos hs hne) h
    exact hfirst.imp (fun h => ⟨fun heq => h.1 (by rw [heq, loopCnt_zero]), h.2⟩)
      fun h => ⟨h.1.imp_left hcount, h.2⟩

end Ftke.Multiplex
