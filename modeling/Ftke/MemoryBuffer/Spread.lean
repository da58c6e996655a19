import Ftke.MemoryBuffer
import Ftke.Run
import Mathlib.Data.List.Induction
import Mathlib.Data.Nat.Dist
import Mathlib.Order.Bounds.Basic

/-!
# Ftke.MemoryBuffer.Spread

How far the sessions of audio, video and text are apart.

`SetReadPointerPosition` records the sessions that it finds in the temporary cache once the
data is made persistent, and keeps the largest difference of their read pointers.  An index
of 0 stands for "not recorded", so the first session never is; and with a third session two
of the differences are comparisons.  `Meets` says where none of it shows, `tracks_iff_meets`
that it is exact.
-/

namespace Ftke.MemoryBuffer

/-- The calls that open sessions and move their read pointers. -/
inductive PointerCall
  | openReadSession
  | setReadPointerCacheLocation (aSessionID : Nat) (aInTempCache : Bool)
  | makePersistent
  | setReadPointerPosition (aSessionID : Nat) (aFilePosition : UInt32)

namespace WriteStream

def pointerCall (s : WriteStream) : PointerCall → WriteStream
  | .openReadSession => s.openReadSession.2.2
  | .setReadPointerCacheLocation aSessionID aInTempCache => s.setReadPointerCacheLocation aSessionID aInTempCache
  | .makePersistent => s.makePersistent
  | .setReadPointerPosition aSessionID aFilePosition => s.setReadPointerPosition aSessionID aFilePosition

/-! ## What the delta is for -/

/-- The sessions that are recorded. -/
def recorded (s : WriteStream) : List Nat :=
  [s.iAVTSessionID.1, s.iAVTSessionID.2.1, s.iAVTSessionID.2.2].filter (· ≠ 0)

def pointer (s : WriteStream) (i : Nat) : Nat := (s.iReadFilePositions i).iReadFilePtr.toNat

/-- The largest difference of the read pointers of recorded sessions. -/
def IsSpread (s : WriteStream) (delta : Nat) : Prop :=
  IsGreatest {d | ∃ i ∈ s.recorded, ∃ j ∈ s.recorded, d = (s.pointer i).dist (s.pointer j)} delta

/-- The sessions in the temporary cache. -/
def tempSessions (s : WriteStream) : List Nat := (List.range maxNumberOfReadConnections).filter s.readsTempCache

/-- Sessions are looked for: data is persistent, and three are not recorded yet. -/
def looksForSessions (s : WriteStream) : Prop :=
  s.iMadePersistent = true ∧ (s.iAVTSessionID.1 = 0 ∨ s.iAVTSessionID.2.1 = 0 ∨ s.iAVTSessionID.2.2 = 0)

/-- A call of `SetReadPointerPosition` keeps track of the sessions. -/
structure Tracks (s : WriteStream) (aSessionID : Nat) (aFilePosition : UInt32) : Prop where
  spread : ∀ t, t = s.setReadPointerPosition aSessionID aFilePosition → s.validSession aSessionID →
    (t.iReadFilePositions (aSessionID - 1)).iInTempCache → aSessionID - 1 ∈ t.recorded →
      t.IsSpread t.iAVTOffsetDelta.toNat
  eligible : ∀ t, t = s.setReadPointerPosition aSessionID aFilePosition → s.looksForSessions →
    ∀ i j rest, s.tempSessions = i :: j :: rest →
      t.iAVTSessionID.1 = i ∧ t.iAVTSessionID.2.1 = j ∧ ∀ k ∈ rest.head?, t.iAVTSessionID.2.2 = k
  failure : ∀ t, t = s.setReadPointerPosition aSessionID aFilePosition → ¬s.validSession aSessionID →
    t.iReadFilePositions = s.iReadFilePositions ∧ t.iAVTOffsetDelta = s.iAVTOffsetDelta

/-- The third pointer is between the other two, or next to both where they are equal. -/
def Between (first second third : Nat) : Prop :=
  second.dist third ≤ first.dist second ∧ first.dist third ≤ first.dist second ∨
    second.dist third ≤ 1 ∧ first.dist third ≤ 1

/-- The first session is not in the temporary cache when two or more are recorded, and the
pointer of a third one is between those of the first two. -/
structure Meets (s : WriteStream) (aSessionID : Nat) (aFilePosition : UInt32) : Prop where
  first : s.looksForSessions → 0 ∈ s.tempSessions → s.tempSessions.length ≤ 1
  third : ∀ first second third, s.updateAVTSessions.iAVTSessionID = (first, second, third) → third ≠ 0 →
    s.validSession aSessionID → (s.iReadFilePositions (aSessionID - 1)).iInTempCache →
      aSessionID - 1 ∈ [first, second, third] → ∀ ptr, ptr = (fun i =>
        if i = aSessionID - 1 then aFilePosition.toNat else s.pointer i) →
          Between (ptr first) (ptr second) (ptr third)

/-- None of the sessions is recorded, or two of them or all three. -/
structure Recorded (s : WriteStream) : Prop where
  both : s.iAVTSessionID.1 = 0 ↔ s.iAVTSessionID.2.1 = 0
  third : s.iAVTSessionID.1 = 0 → s.iAVTSessionID.2.2 = 0

/-! ## The search for the sessions -/

/-- The first three of a list of sessions. -/
def firstThree (l : List Nat) : Nat × Nat × Nat := (l.getD 0 0, l.getD 1 0, l.getD 2 0)

theorem findAVTSessions_eq (s : WriteStream) : s.findAVTSessions = firstThree (s.tempSessions.filter (· ≠ 0)) := by
  rw [findAVTSessions, tempSessions]
  generalize List.range maxNumberOfReadConnections = l
  induction l using List.reverseRecOn with
  | nil => rfl
  | append_singleton l i ih =>
    rw [List.foldl_append, ih, List.filter_append, List.filter_append, List.foldl_cons, List.foldl_nil]
    have hne : ∀ j ∈ (l.filter s.readsTempCache).filter (· ≠ 0), j ≠ 0 := fun j hj =>
      of_decide_eq_true (List.mem_filter.mp hj).2
    generalize (l.filter s.readsTempCache).filter (· ≠ 0) = m at hne
    cases hi : s.readsTempCache i with
    | false => simp [hi]
    | true =>
      rcases m with _ | ⟨a, _ | ⟨b, _ | ⟨c, m⟩⟩⟩ <;> by_cases h0 : i = 0 <;>
        simp_all [firstThree]

variable {s t : WriteStream} {aSessionID : Nat} {aFilePosition : UInt32}

theorem updateAVTSessions_of_not (h : ¬s.looksForSessions) : s.updateAVTSessions = s := by
  rw [looksForSessions] at h
  rw [updateAVTSessions, if_neg (by simp_all)]

/-- Sessions are recorded if there are two besides the first one. -/
theorem updateAVTSessions_iAVTSessionID (h : s.looksForSessions) :
    s.updateAVTSessions.iAVTSessionID =
      match s.tempSessions.filter (· ≠ 0) with
      | [] | [_] => s.iAVTSessionID
      | [i, j] => (i, j, s.iAVTSessionID.2.2)
      | i :: j :: k :: _ => (i, j, k) := by
  have hne : ∀ j ∈ s.tempSessions.filter (· ≠ 0), j ≠ 0 := fun j hj => of_decide_eq_true (List.mem_filter.mp hj).2
  rw [looksForSessions] at h
  rw [updateAVTSessions, if_pos (by simpa [or_assoc] using h), findAVTSessions_eq]
  generalize s.tempSessions.filter (· ≠ 0) = m at hne
  rcases m with _ | ⟨a, _ | ⟨b, _ | ⟨c, m⟩⟩⟩ <;> simp_all [firstThree]

@[simp] theorem updateAVTSessions_iReadFilePositions (s : WriteStream) :
    s.updateAVTSessions.iReadFilePositions = s.iReadFilePositions := by
  rw [updateAVTSessions]
  grind

@[simp] theorem updateAVTSessions_iAVTOffsetDelta (s : WriteStream) :
    s.updateAVTSessions.iAVTOffsetDelta = s.iAVTOffsetDelta := by
  rw [updateAVTSessions]
  grind

theorem validSession_updateAVTSessions :
    s.updateAVTSessions.validSession aSessionID = s.validSession aSessionID := by
  rw [validSession, validSession, updateAVTSessions_iReadFilePositions]

/-! ## The position -/

theorem setReadPointerPosition_iAVTSessionID (s : WriteStream) (aSessionID : Nat) (aFilePosition : UInt32) :
    (s.setReadPointerPosition aSessionID aFilePosition).iAVTSessionID = s.updateAVTSessions.iAVTSessionID := by
  simp only [setReadPointerPosition]
  split
  · rfl
  · split <;> rfl

theorem setReadPointerPosition_of_not (h : ¬s.validSession aSessionID) :
    s.setReadPointerPosition aSessionID aFilePosition = s.updateAVTSessions := by
  simp only [setReadPointerPosition, validSession_updateAVTSessions]
  rw [if_pos (by simpa using h)]

theorem setReadPointerPosition_iReadFilePositions (h : s.validSession aSessionID) :
    (s.setReadPointerPosition aSessionID aFilePosition).iReadFilePositions =
      (s.setReadFilePosition (aSessionID - 1) fun position =>
        { position with iReadFilePtr := aFilePosition }).iReadFilePositions := by
  simp only [setReadPointerPosition, validSession_updateAVTSessions]
  rw [if_neg (by simpa using h)]
  split <;> simp [setReadFilePosition]

theorem pointer_setReadPointerPosition (h : s.validSession aSessionID) :
    (s.setReadPointerPosition aSessionID aFilePosition).pointer =
      fun i => if i = aSessionID - 1 then aFilePosition.toNat else s.pointer i := by
  funext i
  simp only [pointer, setReadPointerPosition_iReadFilePositions h, setReadFilePosition]
  split <;> rfl

theorem iInTempCache_setReadPointerPosition (h : s.validSession aSessionID) :
    ((s.setReadPointerPosition aSessionID aFilePosition).iReadFilePositions (aSessionID - 1)).iInTempCache =
      (s.iReadFilePositions (aSessionID - 1)).iInTempCache := by
  rw [setReadPointerPosition_iReadFilePositions h, setReadFilePosition]
  simp

variable {first second third i : Nat}

theorem setReadPointerPosition_iAVTOffsetDelta (aFilePosition : UInt32) (h : s.validSession aSessionID)
    (htemp : (s.iReadFilePositions (aSessionID - 1)).iInTempCache)
    (hids : s.updateAVTSessions.iAVTSessionID = (first, second, third)) (hfirst : first ≠ 0) (hsecond : second ≠ 0)
    (hmem : aSessionID - 1 ∈ [first, second, third]) :
    (s.setReadPointerPosition aSessionID aFilePosition).iAVTOffsetDelta =
      (s.setReadPointerPosition aSessionID aFilePosition).avtOffsetDelta := by
  have hcheck : ((s.iReadFilePositions (aSessionID - 1)).iInTempCache && decide (first ≠ 0) && decide (second ≠ 0) &&
      (decide (aSessionID - 1 = first) || decide (aSessionID - 1 = second) || decide (aSessionID - 1 = third))) =
        true := by
    simp only [List.mem_cons, List.not_mem_nil, or_false] at hmem
    simp [htemp, hfirst, hsecond, hmem, or_assoc]
  simp only [setReadPointerPosition, validSession_updateAVTSessions, h, setReadFilePosition, hids,
    updateAVTSessions_iReadFilePositions, if_true, hcheck]
  rfl

/-! ## The delta -/

theorem toNat_difference (a b : UInt32) : (if a > b then a - b else b - a).toNat = a.toNat.dist b.toNat := by
  rw [Nat.dist]
  split
  · rename_i h
    have hlt := UInt32.lt_iff_toNat_lt.mp h
    rw [UInt32.toNat_sub_of_le _ _ (UInt32.le_of_lt h)]
    omega
  · rename_i h
    have hle := UInt32.not_lt.mp h
    have := UInt32.le_iff_toNat_le.mp hle
    rw [UInt32.toNat_sub_of_le _ _ hle]
    omega

theorem toNat_comparedPointers (a b : UInt32) : (comparedPointers a b).toNat = min 1 (a.toNat.dist b.toNat) := by
  have ha : a > b ↔ b.toNat < a.toNat := UInt32.lt_iff_toNat_lt
  have hb : b > a ↔ a.toNat < b.toNat := UInt32.lt_iff_toNat_lt
  simp only [comparedPointers, ha, hb, Nat.dist]
  split
  · rw [UInt32.toNat_one]
    omega
  · split
    · rw [UInt32.toNat_one]
      omega
    · rw [UInt32.toNat_zero]
      omega

theorem toNat_ite_lt (a b : UInt32) : (if a > b then a else b).toNat = max b.toNat a.toNat := by
  have h : a > b ↔ b.toNat < a.toNat := UInt32.lt_iff_toNat_lt
  simp only [h]
  split <;> omega

theorem toNat_avtOffsetDelta (hids : t.iAVTSessionID = (first, second, third)) :
    t.avtOffsetDelta.toNat =
      if third = 0 then (t.pointer first).dist (t.pointer second)
      else max (max ((t.pointer first).dist (t.pointer second)) (min 1 ((t.pointer second).dist (t.pointer third))))
        (min 1 ((t.pointer first).dist (t.pointer third))) := by
  simp only [avtOffsetDelta, hids]
  by_cases h : third = 0
  · rw [if_pos h, if_neg (by simp [h]), toNat_difference]
    rfl
  · rw [if_neg h, if_pos h, toNat_ite_lt, toNat_ite_lt, toNat_comparedPointers, toNat_comparedPointers,
      toNat_difference]
    rfl

theorem isSpread_two (h : t.recorded = [first, second]) (delta : Nat) :
    t.IsSpread delta ↔ delta = (t.pointer first).dist (t.pointer second) := by
  have hgreatest : t.IsSpread ((t.pointer first).dist (t.pointer second)) := by
    constructor
    · simp only [Set.mem_ofPred_eq, h]
      exact ⟨first, by simp, second, by simp, rfl⟩
    · rintro d ⟨i, hi, j, hj, rfl⟩
      simp only [h, List.mem_cons, List.not_mem_nil, or_false] at hi hj
      rcases hi with rfl | rfl <;> rcases hj with rfl | rfl <;> simp [Nat.dist_self, Nat.dist_comm]
  exact ⟨fun hd => hd.unique hgreatest, fun hd => hd ▸ hgreatest⟩

theorem isSpread_three (h : t.recorded = [first, second, third]) (delta : Nat) :
    t.IsSpread delta ↔ delta = max (max ((t.pointer first).dist (t.pointer second))
      ((t.pointer second).dist (t.pointer third))) ((t.pointer first).dist (t.pointer third)) := by
  have hgreatest : t.IsSpread (max (max ((t.pointer first).dist (t.pointer second))
      ((t.pointer second).dist (t.pointer third))) ((t.pointer first).dist (t.pointer third))) := by
    constructor
    · simp only [Set.mem_ofPred_eq, h]
      rcases max_choice (max ((t.pointer first).dist (t.pointer second)) ((t.pointer second).dist (t.pointer third)))
        ((t.pointer first).dist (t.pointer third)) with heq | heq
      · rcases max_choice ((t.pointer first).dist (t.pointer second)) ((t.pointer second).dist (t.pointer third))
          with heq' | heq' <;> rw [heq, heq']
        · exact ⟨first, by simp, second, by simp, rfl⟩
        · exact ⟨second, by simp, third, by simp, rfl⟩
      · rw [heq]
        exact ⟨first, by simp, third, by simp, rfl⟩
    · rintro d ⟨i, hi, j, hj, rfl⟩
      simp only [h, List.mem_cons, List.not_mem_nil, or_false] at hi hj
      rcases hi with rfl | rfl | rfl <;> rcases hj with rfl | rfl | rfl <;> simp [Nat.dist_self, Nat.dist_comm]
  exact ⟨fun hd => hd.unique hgreatest, fun hd => hd ▸ hgreatest⟩

/-! ## Which sessions are recorded -/

theorem Recorded.congr (h : s.Recorded) (hids : t.iAVTSessionID = s.iAVTSessionID) : t.Recorded := by
  constructor <;> rw [hids]
  · exact h.both
  · exact h.third

theorem Recorded.updateAVTSessions (h : s.Recorded) : s.updateAVTSessions.Recorded := by
  by_cases hlooks : s.looksForSessions
  · have hids := updateAVTSessions_iAVTSessionID hlooks
    have hne : ∀ j ∈ s.tempSessions.filter (· ≠ 0), j ≠ 0 := fun j hj => of_decide_eq_true (List.mem_filter.mp hj).2
    generalize s.tempSessions.filter (· ≠ 0) = m at hids hne
    rcases m with _ | ⟨a, _ | ⟨b, _ | ⟨c, m⟩⟩⟩
    · exact h.congr hids
    · exact h.congr hids
    all_goals
      constructor <;> rw [hids] <;> simp_all
  · rw [updateAVTSessions_of_not hlooks]
    exact h

theorem Recorded.ne_zero (h : t.Recorded)
    (hids : t.iAVTSessionID = (first, second, third)) (hi : i ∈ t.recorded) : first ≠ 0 ∧ second ≠ 0 := by
  have hboth := h.both
  have hthird := h.third
  simp only [hids] at hboth hthird
  have hfirst : first ≠ 0 := fun h0 => by
    simp [recorded, hids, h0, hboth.mp h0, hthird h0] at hi
  exact ⟨hfirst, fun h0 => hfirst (hboth.mpr h0)⟩

theorem Recorded.sound (h : s.Recorded) (call : PointerCall) : (s.pointerCall call).Recorded := by
  cases call with
  | openReadSession =>
    refine h.congr ?_
    simp only [pointerCall, openReadSession]
    split
    · split <;> rfl
    · rfl
  | setReadPointerCacheLocation aSessionID aInTempCache =>
    refine h.congr ?_
    simp only [pointerCall, setReadPointerCacheLocation]
    split <;> rfl
  | makePersistent => exact h.congr rfl
  | setReadPointerPosition aSessionID aFilePosition =>
    exact h.updateAVTSessions.congr (setReadPointerPosition_iAVTSessionID s aSessionID aFilePosition)

theorem max_comparisons (x y z : Nat) :
    max (max x y) z = max (max x (min 1 y)) (min 1 z) ↔ y ≤ x ∧ z ≤ x ∨ y ≤ 1 ∧ z ≤ 1 := by
  by_cases hx : 1 ≤ x
  · rw [max_eq_left (le_trans (min_le_left 1 y) hx), max_eq_left (le_trans (min_le_left 1 z) hx), max_assoc,
      max_eq_left_iff, max_le_iff]
    omega
  · obtain rfl : x = 0 := by omega
    simp only [Nat.zero_max]
    omega

/-- The differences that are comparisons do no harm with the third pointer between the others. -/
theorem isSpread_iff (h : t.Recorded) (hids : t.iAVTSessionID = (first, second, third))
    (hi : i ∈ t.recorded) (hdelta : t.iAVTOffsetDelta = t.avtOffsetDelta) :
    t.IsSpread t.iAVTOffsetDelta.toNat ↔
      (third ≠ 0 → Between (t.pointer first) (t.pointer second) (t.pointer third)) := by
  obtain ⟨hfirst, hsecond⟩ := h.ne_zero hids hi
  rw [hdelta, toNat_avtOffsetDelta hids]
  by_cases h0 : third = 0
  · have hrec : t.recorded = [first, second] := by simp [recorded, hids, hfirst, hsecond, h0]
    simp [isSpread_two hrec, h0]
  · have hrec : t.recorded = [first, second, third] := by simp [recorded, hids, hfirst, hsecond, h0]
    simp only [isSpread_three hrec, h0, Between, if_false, ne_eq, not_false_eq_true, forall_const]
    rw [eq_comm]
    exact max_comparisons _ _ _

theorem eligible_iff (h : s.Recorded) :
    (s.looksForSessions → ∀ i j rest, s.tempSessions = i :: j :: rest →
      s.updateAVTSessions.iAVTSessionID.1 = i ∧ s.updateAVTSessions.iAVTSessionID.2.1 = j ∧
        ∀ k ∈ rest.head?, s.updateAVTSessions.iAVTSessionID.2.2 = k) ↔
      (s.looksForSessions → 0 ∈ s.tempSessions → s.tempSessions.length ≤ 1) := by
  have hsorted : s.tempSessions.Pairwise (· < ·) := List.Pairwise.filter _ List.pairwise_lt_range
  refine forall_congr' fun hlooks => ?_
  rcases hl : s.tempSessions with _ | ⟨i, _ | ⟨j, rest⟩⟩
  · simp
  · simp
  · rw [hl] at hsorted
    simp only [List.pairwise_cons, List.mem_cons] at hsorted
    constructor
    · intro heligible h0
      obtain ⟨hi, hj, -⟩ := heligible i j rest rfl
      have hboth := h.updateAVTSessions.both
      rw [hi, hj] at hboth
      -- the first session comes first, but its index is that of no session
      have hi0 : i = 0 := by grind
      have hj0 := hsorted.1 j (.inl rfl)
      omega
    · intro hshort i' j' rest' heq
      have h0 : 0 ∉ s.tempSessions := fun hmem => by simpa using hshort (hl ▸ hmem)
      have hfilter : s.tempSessions.filter (· ≠ 0) = i :: j :: rest := by
        rw [← hl]
        exact List.filter_eq_self.mpr fun k hk => decide_eq_true fun hk0 => h0 (hk0 ▸ hk)
      obtain ⟨rfl, rfl, rfl⟩ : i = i' ∧ j = j' ∧ rest = rest' := by simpa using heq
      rw [updateAVTSessions_iAVTSessionID hlooks, hfilter]
      cases rest <;> simp

theorem tracks_iff_meets (h : s.Recorded) (aSessionID : Nat) (aFilePosition : UInt32) :
    s.Tracks aSessionID aFilePosition ↔ s.Meets aSessionID aFilePosition := by
  have hids := setReadPointerPosition_iAVTSessionID s aSessionID aFilePosition
  have hrec : (s.setReadPointerPosition aSessionID aFilePosition).Recorded := h.updateAVTSessions.congr hids
  constructor
  · intro htracks
    constructor
    · refine (eligible_iff h).mp fun hlooks => ?_
      rw [← hids]
      exact htracks.eligible _ rfl hlooks
    · intro first second third heq hthird hvalid htemp hmem ptr hptr
      have heq' := hids.trans heq
      have hfirst : first ≠ 0 := fun h0 => hthird (by simpa [heq'] using hrec.third (by rw [heq', h0]))
      have hsecond : second ≠ 0 := fun h0 => hfirst (by simpa [heq'] using hrec.both.mpr (by rw [heq', h0]))
      have hmem' : aSessionID - 1 ∈ (s.setReadPointerPosition aSessionID aFilePosition).recorded := by
        simpa [recorded, heq', hfirst, hsecond, hthird] using hmem
      have hspread := htracks.spread _ rfl hvalid (by rwa [iInTempCache_setReadPointerPosition hvalid]) hmem'
      have hdelta := setReadPointerPosition_iAVTOffsetDelta aFilePosition hvalid htemp heq hfirst hsecond
        hmem
      rw [isSpread_iff hrec heq' hmem' hdelta, pointer_setReadPointerPosition hvalid, ← hptr] at hspread
      exact hspread hthird
  · intro hmeets
    constructor
    · rintro t rfl hvalid htemp hmem
      rw [iInTempCache_setReadPointerPosition hvalid] at htemp
      obtain ⟨first, second, third, heq⟩ : ∃ first second third,
        s.updateAVTSessions.iAVTSessionID = (first, second, third) := ⟨_, _, _, rfl⟩
      have heq' := hids.trans heq
      obtain ⟨hfirst, hsecond⟩ := hrec.ne_zero heq' hmem
      have hmem' : aSessionID - 1 ∈ [first, second, third] := by
        rw [recorded, heq'] at hmem
        exact List.mem_of_mem_filter hmem
      have hdelta := setReadPointerPosition_iAVTOffsetDelta aFilePosition hvalid htemp heq hfirst hsecond
        hmem'
      rw [isSpread_iff hrec heq' hmem hdelta, pointer_setReadPointerPosition hvalid]
      exact fun hthird => hmeets.third first second third heq hthird hvalid htemp hmem' _ rfl
    · rintro t rfl hlooks
      rw [hids]
      exact (eligible_iff h).mpr hmeets.first hlooks
    · rintro t rfl hvalid
      rw [setReadPointerPosition_of_not hvalid]
      exact ⟨updateAVTSessions_iReadFilePositions s, updateAVTSessions_iAVTOffsetDelta s⟩

end WriteStream

/-! ## Runs -/

variable {aStreamFormat : MBDSStreamFormat} {aTempCacheCapacity : UInt32} {request : RepositionRequestStruct}
  {calls : List PointerCall} {s : WriteStream}

theorem recorded_of_run (h : Run (stepOf fun s call => some (s.pointerCall call))
    (construct aStreamFormat aTempCacheCapacity request).writeStream calls s) : s.Recorded := by
  refine h.invariant (I := WriteStream.Recorded) ⟨Iff.rfl, fun _ => rfl⟩ ?_
  intro a call b ha hstep
  obtain rfl := Option.some.inj hstep
  exact ha.sound call

/-- **After any calls, a position is kept track of exactly when `Meets` holds, and a call for a session that is not
open changes nothing.** -/
theorem tracks_iff (h : Run (stepOf fun s call => some (s.pointerCall call))
    (construct aStreamFormat aTempCacheCapacity request).writeStream calls s) (aSessionID : Nat)
    (aFilePosition : UInt32) :
    (s.Tracks aSessionID aFilePosition ↔ s.Meets aSessionID aFilePosition) ∧
      (¬s.validSession aSessionID → ∀ aInTempCache, s.setReadPointerCacheLocation aSessionID aInTempCache = s) := by
  refine ⟨WriteStream.tracks_iff_meets (recorded_of_run h) aSessionID aFilePosition, fun hvalid aInTempCache => ?_⟩
  rw [WriteStream.setReadPointerCacheLocation, if_pos (by simpa using hvalid)]

/-- Three sessions in the temporary cache besides the first one. -/
def threeSessions : List PointerCall :=
  [.openReadSession, .openReadSession, .openReadSession, .openReadSession, .setReadPointerCacheLocation 1 false,
    .makePersistent, .setReadPointerPosition 2 10, .setReadPointerPosition 3 10]

def afterThree : WriteStream :=
  threeSessions.foldl WriteStream.pointerCall
    (construct .progressivePlayback 128000 ⟨false, false, 0, false, 0⟩).writeStream

theorem run_threeSessions : Run (stepOf fun s call => some (s.pointerCall call))
    (construct .progressivePlayback 128000 ⟨false, false, 0, false, 0⟩).writeStream threeSessions afterThree :=
  Run.of_foldlM rfl

theorem tracks_iff_threeSessions : afterThree.Tracks 4 11 ↔ afterThree.Meets 4 11 :=
  (tracks_iff run_threeSessions 4 11).1

/-- The third session is 990 bytes ahead, and the delta is 1. -/
theorem not_tracks_third : ¬afterThree.Tracks 4 1000 := fun h => by
  have hspread := h.spread _ rfl (by decide) (by decide) (by decide)
  have hle : 990 ≤ (afterThree.setReadPointerPosition 4 1000).iAVTOffsetDelta.toNat :=
    hspread.2 ⟨1, by decide, 3, by decide, by decide⟩
  exact absurd hle (by decide)

end Ftke.MemoryBuffer
