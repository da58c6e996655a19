import Mathlib.Data.List.Basic

/-!
# Ftke.SduDataLists

The lists of pending SDUs of `CPVH223Multiplex` (`cpvh223multiplex.cpp`).

An SDU taken from a channel waits in the control list, for channel 0, or in the
list for segmentable or for other channels.  `RemoveMuxSduData` is meant to take
the entries of one channel out, when it is closed or flushed or has no more SDUs.
Its loop runs while the list is not empty, so that it ends only when the list has
no entry of another channel (`removeMuxSduData_iff`).

What a channel's `IsSegmentable` returns does not change while it is open;
`isSegmentable` stands for it, and `σ` for the SDU and the position in it.
-/

namespace Ftke

/-- `MuxSduData`; `lcn` is the number of the channel. -/
structure MuxSduData (σ : Type*) where
  lcn : UInt32
  sdu : σ

/-- The three lists of `CPVH223Multiplex`. -/
structure SduDataLists (σ : Type*) where
  iNonSegmentableSduDataList : List (MuxSduData σ)
  iSegmentableSduDataList : List (MuxSduData σ)
  iControlSduDataList : List (MuxSduData σ)

namespace SduDataLists

variable {σ : Type*}

/-! ## The operations of the source -/

/-- `GET_SDU_DATA_LIST`. -/
def list (l : SduDataLists σ) (segmentable : Bool) : List (MuxSduData σ) :=
  if segmentable then l.iSegmentableSduDataList else l.iNonSegmentableSduDataList

def setList (l : SduDataLists σ) (segmentable : Bool) (data : List (MuxSduData σ)) : SduDataLists σ :=
  if segmentable then { l with iSegmentableSduDataList := data }
  else { l with iNonSegmentableSduDataList := data }

/-- The index that `FindMuxSduData` finds in its list. -/
def findMuxSduData (list : List (MuxSduData σ)) (lcn : UInt32) : Option Nat :=
  list.findIdx? fun data => data.lcn == lcn

/-- `AppendMuxSduData`. -/
def appendMuxSduData (l : SduDataLists σ) (isSegmentable : UInt32 → Bool) (data : MuxSduData σ) : SduDataLists σ :=
  if data.lcn = 0 then { l with iControlSduDataList := l.iControlSduDataList ++ [data] }
  else l.setList (isSegmentable data.lcn) (l.list (isSegmentable data.lcn) ++ [data])

/-- The loop of `RemoveMuxSduData`; `none` when it has not ended after so many turns. -/
def removeLoop (lcn : UInt32) : Nat → List (MuxSduData σ) → Option (List (MuxSduData σ))
  | 0, _ => none
  | turns + 1, list =>
    if list.isEmpty then some list
    else
      match findMuxSduData list lcn with
      | some index => removeLoop lcn turns (list.eraseIdx index)
      | none => removeLoop lcn turns list

/-- `RemoveMuxSduData`. -/
def removeMuxSduData (turns : Nat) (l : SduDataLists σ) (lcn : UInt32) (segmentable : Bool) :
    Option (SduDataLists σ) :=
  if lcn = 0 then some { l with iControlSduDataList := [] }
  else (removeLoop lcn turns (l.list segmentable)).map (l.setList segmentable)

/-! ## Filing -/

/-- Every entry is where `AppendMuxSduData` puts it. -/
structure Filed (isSegmentable : UInt32 → Bool) (l : SduDataLists σ) : Prop where
  control : ∀ data ∈ l.iControlSduDataList, data.lcn = 0
  other : ∀ segmentable, ∀ data ∈ l.list segmentable, data.lcn ≠ 0 ∧ isSegmentable data.lcn = segmentable

/-- The pending SDUs of the channels, each in its list. -/
structure FiledLists (σ : Type*) (isSegmentable : UInt32 → Bool) extends SduDataLists σ where
  filed : Filed isSegmentable toSduDataLists

/-- What is left when the entries of one channel have been taken out. -/
def without (l : SduDataLists σ) (lcn : UInt32) : SduDataLists σ where
  iNonSegmentableSduDataList := l.iNonSegmentableSduDataList.filter fun data => data.lcn != lcn
  iSegmentableSduDataList := l.iSegmentableSduDataList.filter fun data => data.lcn != lcn
  iControlSduDataList := l.iControlSduDataList.filter fun data => data.lcn != lcn

@[simp] theorem list_setList (l : SduDataLists σ) (segmentable segmentable' : Bool) (data : List (MuxSduData σ)) :
    (l.setList segmentable data).list segmentable' =
      if segmentable' = segmentable then data else l.list segmentable' := by
  cases segmentable <;> cases segmentable' <;> rfl

@[simp] theorem control_setList (l : SduDataLists σ) (segmentable : Bool) (data : List (MuxSduData σ)) :
    (l.setList segmentable data).iControlSduDataList = l.iControlSduDataList := by
  cases segmentable <;> rfl

@[simp] theorem list_without (l : SduDataLists σ) (lcn : UInt32) (segmentable : Bool) :
    (l.without lcn).list segmentable = (l.list segmentable).filter fun data => data.lcn != lcn := by
  cases segmentable <;> rfl

theorem eq_of_lists {l m : SduDataLists σ} (hlist : ∀ segmentable, l.list segmentable = m.list segmentable)
    (hcontrol : l.iControlSduDataList = m.iControlSduDataList) : l = m := by
  obtain ⟨nonSegmentable, segmentable, control⟩ := l
  have hfalse : nonSegmentable = m.iNonSegmentableSduDataList := hlist false
  have htrue : segmentable = m.iSegmentableSduDataList := hlist true
  rw [hfalse, htrue, show control = m.iControlSduDataList from hcontrol]

/-! ## The loop -/

variable {lcn : UInt32}

theorem findMuxSduData_lcn {list : List (MuxSduData σ)} {index : Nat}
    (h : findMuxSduData list lcn = some index) : ∃ data, list[index]? = some data ∧ data.lcn = lcn := by
  obtain ⟨hlt, hlcn, -⟩ := List.findIdx?_eq_some_iff_getElem.mp h
  exact ⟨list[index], List.getElem?_eq_getElem hlt, by simpa using hlcn⟩

theorem removeLoop_none (turns : Nat) {list : List (MuxSduData σ)} {data : MuxSduData σ}
    (hmem : data ∈ list) (hne : data.lcn ≠ lcn) : removeLoop lcn turns list = none := by
  induction turns generalizing list with
  | zero => rfl
  | succ turns ih =>
    have hsome : list.isEmpty = false := by
      rw [List.isEmpty_eq_false_iff]
      exact List.ne_nil_of_mem hmem
    rw [removeLoop, hsome]
    simp only [Bool.false_eq_true, if_false]
    split
    · next index hfind =>
      obtain ⟨found, hget, hlcn⟩ := findMuxSduData_lcn hfind
      obtain ⟨i, hi⟩ := List.mem_iff_getElem?.mp hmem
      have hother : i ≠ index := by
        rintro rfl
        rw [hi] at hget
        injection hget with hsame
        exact hne (hsame ▸ hlcn)
      exact ih (List.mem_eraseIdx_iff_getElem?.mpr ⟨i, hother, hi⟩)
    · exact ih hmem

theorem removeLoop_all : ∀ {list : List (MuxSduData σ)}, (∀ data ∈ list, data.lcn = lcn) →
    removeLoop lcn (list.length + 1) list = some []
  | [], _ => rfl
  | data :: list, hall => by
    have hlcn : data.lcn = lcn := hall data List.mem_cons_self
    have hfind : findMuxSduData (data :: list) lcn = some 0 := by
      rw [findMuxSduData, List.findIdx?_cons, hlcn]
      simp
    have hrest := removeLoop_all fun data' hmem => hall data' (List.mem_cons_of_mem data hmem)
    rw [List.length_cons, removeLoop, hfind]
    simpa using hrest

/-! ## Removing a channel -/

theorem filter_of_all {list : List (MuxSduData σ)} (hall : ∀ data ∈ list, data.lcn = lcn) :
    list.filter (fun data => data.lcn != lcn) = [] := by
  rw [List.filter_eq_nil_iff]
  intro data hmem
  simp [hall data hmem]

theorem filter_of_none {list : List (MuxSduData σ)} (hnone : ∀ data ∈ list, data.lcn ≠ lcn) :
    list.filter (fun data => data.lcn != lcn) = list := by
  rw [List.filter_eq_self]
  intro data hmem
  simp [hnone data hmem]

section
variable {isSegmentable : UInt32 → Bool}

theorem removeMuxSduData_zero (l : FiledLists σ isSegmentable) (turns : Nat) (segmentable : Bool) :
    removeMuxSduData turns l.toSduDataLists 0 segmentable = some (l.without 0) := by
  rw [removeMuxSduData, if_pos rfl]
  refine congrArg some (eq_of_lists (fun segmentable' => ?_) ?_)
  · rw [list_without, filter_of_none fun data hmem => (l.filed.other segmentable' data hmem).1]
    cases segmentable' <;> rfl
  · exact (filter_of_all l.filed.control).symm

theorem removeMuxSduData_all (l : FiledLists σ isSegmentable) {lcn : UInt32} (hne : lcn ≠ 0)
    (hall : ∀ data ∈ l.list (isSegmentable lcn), data.lcn = lcn) :
    removeMuxSduData ((l.list (isSegmentable lcn)).length + 1) l.toSduDataLists lcn (isSegmentable lcn) =
      some (l.without lcn) := by
  rw [removeMuxSduData, if_neg hne, removeLoop_all hall]
  refine congrArg some (eq_of_lists (fun segmentable => ?_) ?_)
  · rw [list_setList, list_without]
    split
    · next heq =>
      subst heq
      exact (filter_of_all hall).symm
    · next hother =>
      refine (filter_of_none fun data hmem hlcn => hother ?_).symm
      rw [← (l.filed.other segmentable data hmem).2, hlcn]
  · have hnone : ∀ data ∈ l.iControlSduDataList, data.lcn ≠ lcn := fun data hmem hlcn =>
      hne (hlcn.symm.trans (l.filed.control data hmem))
    rw [control_setList]
    exact (filter_of_none hnone).symm

/-- **`RemoveMuxSduData` returns, with exactly the entries of the channel taken out, if
and only if the channel is the control channel or no other channel has an entry in
its list.** -/
theorem removeMuxSduData_iff (l : FiledLists σ isSegmentable) (lcn : UInt32) :
    (∃ turns, removeMuxSduData turns l.toSduDataLists lcn (isSegmentable lcn) = some (l.without lcn)) ↔
      lcn = 0 ∨ ∀ data ∈ l.list (isSegmentable lcn), data.lcn = lcn := by
  constructor
  · intro h
    obtain ⟨turns, hturns⟩ := h
    by_contra hother
    simp only [not_or, not_forall, exists_prop] at hother
    obtain ⟨hne, data, hmem, hlcn⟩ := hother
    rw [removeMuxSduData, if_neg hne, removeLoop_none turns hmem hlcn] at hturns
    simp at hturns
  · intro h
    obtain rfl | hall := h
    · exact ⟨0, removeMuxSduData_zero l 0 _⟩
    · by_cases hne : lcn = 0
      · subst hne
        exact ⟨0, removeMuxSduData_zero l 0 _⟩
      · exact ⟨_, removeMuxSduData_all l hne hall⟩

end

/-- Channels 1 and 2 each have a pending SDU. -/
def twoPending : FiledLists Unit fun _ => false where
  iNonSegmentableSduDataList := [⟨1, ()⟩, ⟨2, ()⟩]
  iSegmentableSduDataList := []
  iControlSduDataList := []
  filed := ⟨by simp, by simp [list]⟩

/-- With the SDU of channel 2 pending, channel 1 is never removed. -/
theorem twoPending_spins :
    ¬∀ lcn : UInt32, ∃ turns,
      removeMuxSduData turns twoPending.toSduDataLists lcn false = some (twoPending.without lcn) := by
  intro hall
  obtain ⟨turns, hturns⟩ := hall 1
  have hloop : removeLoop 1 turns twoPending.iNonSegmentableSduDataList = none :=
    removeLoop_none turns (List.mem_cons_of_mem _ List.mem_cons_self) (by decide)
  have hnone : removeMuxSduData turns twoPending.toSduDataLists 1 false = none := by
    rw [removeMuxSduData, if_neg (by decide)]
    exact congrArg _ hloop
  rw [hnone] at hturns
  simp at hturns

end SduDataLists

end Ftke
