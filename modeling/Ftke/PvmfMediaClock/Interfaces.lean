import Ftke.PvmfMediaClock
import Ftke.Run

/-!
# Ftke.PvmfMediaClock.Interfaces

The notification interfaces of the clock: `ConstructMediaClockNotificationsInterface`,
`DestroyMediaClockNotificationsInterface` and the clean-up of `Reset`, with the highest
latency that is kept beside the list.

An interface is told apart by the number of its construction.  Its callback comes in as a
reference, so that there is always one to tell that the interface is destroyed.
-/

namespace Ftke.PvmfMediaClock

/-! ## The interfaces -/

/-- `PVMFMediaClockNotificationsInterfaceImpl`. -/
structure InterfaceImpl where
  object : Nat
  latency : UInt32
  deriving DecidableEq, Repr

/-- The members that the interfaces concern, the number of the next interface, and those
that have been notified and destroyed. -/
structure Interfaces where
  iState : ClockState
  iMediaClockSetCallbackObjects : List InterfaceImpl
  iHighestLatency : UInt32
  next : Nat
  destroyed : List Nat
  deriving DecidableEq, Repr

namespace Interfaces

def construct : Interfaces := ⟨.stopped, [], 0, 0, []⟩

/-- `ConstructMediaClockNotificationsInterface`, with `UpdateHighestLatency`; `memory` is
whether there is any for the interface. -/
def constructInterface (c : Interfaces) (aLatency : UInt32) (memory : Bool) : Interfaces :=
  if c.iState = .running || !memory then c
  else
    { c with
      iHighestLatency := if c.iHighestLatency < aLatency then aLatency else c.iHighestLatency
      iMediaClockSetCallbackObjects := c.iMediaClockSetCallbackObjects ++ [⟨c.next, aLatency⟩]
      next := c.next + 1 }

/-- The loop of `DestroyMediaClockNotificationsInterface` over the list: what is left of it,
and what has been destroyed.  The index grows at every turn, so that `fuel` as long as
the list never runs out. -/
def destroyLoop (aInf : Nat) : Nat → Nat → List InterfaceImpl → List Nat → List InterfaceImpl × List Nat
  | 0, _, l, destroyed => (l, destroyed)
  | fuel + 1, ii, l, destroyed =>
    match l[ii]? with
    | none => (l, destroyed)
    | some i =>
      if i.object = aInf then destroyLoop aInf fuel (ii + 1) (l.eraseIdx ii) (destroyed ++ [i.object])
      else destroyLoop aInf fuel (ii + 1) l destroyed

/-- `DestroyMediaClockNotificationsInterface`. -/
def destroyInterface (c : Interfaces) (aInf : Option Nat) : Interfaces :=
  match aInf with
  | none => c
  | some aInf =>
    let r := destroyLoop aInf c.iMediaClockSetCallbackObjects.length 0 c.iMediaClockSetCallbackObjects c.destroyed
    { c with
      iMediaClockSetCallbackObjects := r.1
      destroyed := r.2
      iHighestLatency := 0 }

/-- The loop of `CleanCallbackInfImplObjects`: it goes on behind the entry that it erases. -/
def cleanLoop : Nat → Nat → List InterfaceImpl → List Nat → List InterfaceImpl × List Nat
  | 0, _, l, destroyed => (l, destroyed)
  | fuel + 1, ii, l, destroyed =>
    match l[ii]? with
    | none => (l, destroyed)
    | some i => cleanLoop fuel (ii + 1) (l.eraseIdx ii) (destroyed ++ [i.object])

/-- `CleanCallbackInfImplObjects`. -/
def cleanCallbackInfImplObjects (c : Interfaces) : Interfaces :=
  let r := cleanLoop c.iMediaClockSetCallbackObjects.length 0 c.iMediaClockSetCallbackObjects c.destroyed
  { c with
    iMediaClockSetCallbackObjects := r.1
    destroyed := r.2
    iHighestLatency := 0 }

/-- The calls that the interfaces or the state of the clock depend on. -/
inductive Call
  | construct (aLatency : UInt32) (memory : Bool)
  | destroy (aInf : Option Nat)
  | start
  | pause
  | stop
  | reset

/-- The clock after a call; `Reset` stops it first. -/
def handle (c : Interfaces) : Call → Interfaces
  | .construct aLatency memory => c.constructInterface aLatency memory
  | .destroy aInf => c.destroyInterface aInf
  | .start => { c with iState := .running }
  | .pause => { c with iState := if c.iState = .running then .paused else c.iState }
  | .stop => { c with iState := .stopped }
  | .reset => { c with iState := .stopped }.cleanCallbackInfImplObjects

def call (c : Interfaces) (i : Call) : Option Interfaces := some (c.handle i)

/-! ## The contract -/

/-- The highest of the latencies, zero where there is none. -/
def maxLatency (l : List InterfaceImpl) : Nat := (l.map fun i => i.latency.toNat).foldr max 0

def HighestIsMax (c : Interfaces) : Prop := c.iHighestLatency.toNat = maxLatency c.iMediaClockSetCallbackObjects

/-- A reset notifies and destroys each interface that there is once, and leaves none. -/
def ResetDestroys (c : Interfaces) : Call → Prop
  | .reset =>
    (c.handle .reset).iMediaClockSetCallbackObjects = [] ∧
      (c.handle .reset).destroyed = c.destroyed ++ c.iMediaClockSetCallbackObjects.map InterfaceImpl.object
  | _ => True

/-- The calls at which neither defect shows: the interfaces that a destruction leaves have no
latency, and a reset finds one interface at most. -/
def Meets (c : Interfaces) : Call → Prop
  | .destroy (some aInf) => ∀ i ∈ c.iMediaClockSetCallbackObjects, i.object ≠ aInf → i.latency = 0
  | .reset => c.iMediaClockSetCallbackObjects.length ≤ 1
  | _ => True

/-! ## The highest latency -/

@[simp] theorem maxLatency_nil : maxLatency [] = 0 := rfl

@[simp] theorem maxLatency_cons (i : InterfaceImpl) (l : List InterfaceImpl) :
    maxLatency (i :: l) = max i.latency.toNat (maxLatency l) := rfl

theorem maxLatency_concat (i : InterfaceImpl) : ∀ l : List InterfaceImpl,
    maxLatency (l ++ [i]) = max (maxLatency l) i.latency.toNat
  | [] => by simp
  | j :: l => by
    rw [List.cons_append, maxLatency_cons, maxLatency_cons, maxLatency_concat i l]
    omega

theorem maxLatency_eq_zero : ∀ l : List InterfaceImpl, maxLatency l = 0 ↔ ∀ i ∈ l, i.latency = 0
  | [] => by simp
  | j :: l => by
    have hj : j.latency.toNat = 0 ↔ j.latency = 0 := UInt32.toNat_inj (b := 0)
    rw [maxLatency_cons, List.forall_mem_cons, ← maxLatency_eq_zero l, ← hj]
    omega

theorem highestIsMax_construct {c : Interfaces} (h : c.HighestIsMax) (aLatency : UInt32) (memory : Bool) :
    (c.constructInterface aLatency memory).HighestIsMax := by
  unfold HighestIsMax at *
  rw [constructInterface]
  split
  · exact h
  · rw [maxLatency_concat, ← h]
    have hlt : c.iHighestLatency < aLatency ↔ c.iHighestLatency.toNat < aLatency.toNat := UInt32.lt_iff_toNat_lt
    by_cases hless : c.iHighestLatency < aLatency
    · simp only [if_pos hless]
      exact (Nat.max_eq_right (Nat.le_of_lt (hlt.mp hless))).symm
    · simp only [if_neg hless]
      exact (Nat.max_eq_left (Nat.not_lt.mp fun hnat => hless (hlt.mpr hnat))).symm

/-! ## The loops -/

theorem getElem?_behind (done l : List InterfaceImpl) : (done ++ l)[done.length]? = l.head? := by
  rw [List.getElem?_append_right (Nat.le_refl _), Nat.sub_self, List.head?_eq_getElem?]

theorem eraseIdx_behind (done : List InterfaceImpl) (i : InterfaceImpl) (l : List InterfaceImpl) :
    (done ++ i :: l).eraseIdx done.length = done ++ l := by
  rw [List.eraseIdx_append_of_length_le (Nat.le_refl _), Nat.sub_self, List.eraseIdx_cons_zero]

theorem destroyLoop_of_not_mem {aInf : Nat} : ∀ {l : List InterfaceImpl} (fuel ii : Nat) (destroyed : List Nat),
    (∀ i ∈ l, i.object ≠ aInf) → destroyLoop aInf fuel ii l destroyed = (l, destroyed)
  | _, 0, _, _, _ => rfl
  | l, fuel + 1, ii, destroyed, hl => by
    rw [destroyLoop]
    cases hget : l[ii]? with
    | none => rfl
    | some i =>
      have hne : i.object ≠ aInf := hl i (List.mem_of_getElem? hget)
      simp only [if_neg hne]
      exact destroyLoop_of_not_mem fuel (ii + 1) destroyed hl

theorem destroyLoop_eq {aInf : Nat} : ∀ {l : List InterfaceImpl} (done : List InterfaceImpl) {fuel : Nat}
    (destroyed : List Nat), l.length ≤ fuel → ((done ++ l).map InterfaceImpl.object).Nodup →
      (∀ i ∈ done, i.object ≠ aInf) →
      (destroyLoop aInf fuel done.length (done ++ l) destroyed).1 = (done ++ l).filter fun i => i.object ≠ aInf
  | [], done, fuel, destroyed, _, _, hdone => by
    rw [List.append_nil, destroyLoop_of_not_mem fuel _ _ hdone]
    exact (List.filter_eq_self.mpr fun i hi => decide_eq_true (hdone i hi)).symm
  | i :: l, done, 0, _, hfuel, _, _ => absurd hfuel (Nat.not_succ_le_zero _)
  | i :: l, done, fuel + 1, destroyed, hfuel, hnodup, hdone => by
    rw [destroyLoop, getElem?_behind, List.head?_cons]
    by_cases hi : i.object = aInf
    · have hrest : ∀ j ∈ done ++ l, j.object ≠ aInf := by
        intro j hj heq
        rw [List.map_append, List.map_cons] at hnodup
        have hperm := (List.perm_middle.nodup_iff.mp hnodup)
        rw [List.nodup_cons, hi, ← heq, ← List.map_append] at hperm
        exact hperm.1 (List.mem_map_of_mem hj)
      simp only [if_pos hi, eraseIdx_behind]
      rw [destroyLoop_of_not_mem _ _ _ hrest, List.filter_append, List.filter_cons_of_neg (by simp [hi]),
        ← List.filter_append]
      exact (List.filter_eq_self.mpr fun j hj => decide_eq_true (hrest j hj)).symm
    · have hsplit : done ++ i :: l = (done ++ [i]) ++ l := by rw [List.append_assoc, List.singleton_append]
      have hlen : done.length + 1 = (done ++ [i]).length := by simp
      simp only [if_neg hi]
      rw [hsplit, hlen]
      refine destroyLoop_eq (done ++ [i]) destroyed (Nat.le_of_succ_le_succ hfuel) (hsplit ▸ hnodup) ?_
      intro j hj
      rcases List.mem_append.mp hj with hmem | hmem
      · exact hdone j hmem
      · rw [List.mem_singleton.mp hmem]
        exact hi

theorem length_cleanLoop : ∀ (l done : List InterfaceImpl) {fuel : Nat} (destroyed : List Nat), l.length ≤ fuel →
    (cleanLoop fuel done.length (done ++ l) destroyed).1.length = done.length + l.length / 2
  | [], done, 0, destroyed, _ => by simp [cleanLoop]
  | [], done, fuel + 1, destroyed, _ => by simp [cleanLoop]
  | [i], done, 0, _, hfuel => absurd hfuel (Nat.not_succ_le_zero _)
  | [i], done, fuel + 1, destroyed, hfuel => by
    rw [cleanLoop, getElem?_behind, List.head?_cons]
    simp only [eraseIdx_behind, List.append_nil]
    cases fuel with
    | zero => simp [cleanLoop]
    | succ fuel => simp [cleanLoop]
  | i :: j :: l, done, 0, _, hfuel => absurd hfuel (Nat.not_succ_le_zero _)
  | i :: j :: l, done, fuel + 1, destroyed, hfuel => by
    have hsplit : done ++ j :: l = (done ++ [j]) ++ l := by rw [List.append_assoc, List.singleton_append]
    have hlen : done.length + 1 = (done ++ [j]).length := by simp
    have hle : l.length ≤ fuel := by
      simp only [List.length_cons] at hfuel
      omega
    rw [cleanLoop, getElem?_behind, List.head?_cons]
    simp only [eraseIdx_behind]
    rw [hsplit, hlen, length_cleanLoop l (done ++ [j]) _ hle]
    simp only [List.length_append, List.length_cons, List.length_nil]
    omega

/-! ## Steps -/

/-- The highest latency is right, and no interface is in the list twice. -/
structure Inv (c : Interfaces) : Prop where
  highest : c.HighestIsMax
  nodup : (c.iMediaClockSetCallbackObjects.map InterfaceImpl.object).Nodup
  lt : ∀ i ∈ c.iMediaClockSetCallbackObjects, i.object < c.next

theorem inv_construct : Inv construct := ⟨rfl, List.nodup_nil, fun _ h => absurd h List.not_mem_nil⟩

variable {c : Interfaces}

theorem Inv.constructInterface (h : Inv c) (aLatency : UInt32) (memory : Bool) :
    Inv (c.constructInterface aLatency memory) := by
  by_cases hno : (decide (c.iState = .running) || !memory) = true
  · have hsame : c.constructInterface aLatency memory = c := if_pos hno
    rw [hsame]
    exact h
  · have hlist : (c.constructInterface aLatency memory).iMediaClockSetCallbackObjects =
        c.iMediaClockSetCallbackObjects ++ [⟨c.next, aLatency⟩] := by rw [Interfaces.constructInterface, if_neg hno]
    have hnext : (c.constructInterface aLatency memory).next = c.next + 1 := by
      rw [Interfaces.constructInterface, if_neg hno]
    have hnew : c.next ∉ c.iMediaClockSetCallbackObjects.map InterfaceImpl.object := by
      intro hmem
      obtain ⟨i, hi, heq⟩ := List.mem_map.mp hmem
      exact absurd (h.lt i hi) (by omega)
    refine ⟨highestIsMax_construct h.highest aLatency memory, ?_, ?_⟩
    · rw [hlist, List.map_append, List.map_singleton]
      exact List.nodup_append.mpr ⟨h.nodup, by simp, fun a ha b hb => by
        rw [List.mem_singleton.mp hb]
        intro heq
        rw [heq] at ha
        exact hnew ha⟩
    · intro i hi
      rw [hlist] at hi
      rw [hnext]
      rcases List.mem_append.mp hi with hmem | hmem
      · exact Nat.lt_succ_of_lt (h.lt i hmem)
      · rw [List.mem_singleton.mp hmem]
        exact Nat.lt_succ_self _

theorem destroyInterface_list (h : Inv c) (aInf : Nat) :
    (c.destroyInterface (some aInf)).iMediaClockSetCallbackObjects =
      c.iMediaClockSetCallbackObjects.filter fun i => i.object ≠ aInf :=
  destroyLoop_eq (l := c.iMediaClockSetCallbackObjects) [] c.destroyed (Nat.le_refl _) h.nodup
    fun _ hi => absurd hi List.not_mem_nil

theorem highestIsMax_destroy_iff (h : Inv c) (aInf : Option Nat) :
    (c.destroyInterface aInf).HighestIsMax ↔ c.Meets (.destroy aInf) := by
  cases aInf with
  | none => exact iff_of_true h.highest trivial
  | some aInf =>
    have hzero : (c.destroyInterface (some aInf)).iHighestLatency.toNat = 0 := rfl
    rw [HighestIsMax, hzero, destroyInterface_list h, eq_comm, maxLatency_eq_zero]
    simp only [List.mem_filter, decide_eq_true_eq, and_imp, Meets]

theorem Inv.destroyInterface (h : Inv c) {aInf : Option Nat} (hmeets : c.Meets (.destroy aInf)) :
    Inv (c.destroyInterface aInf) := by
  cases aInf with
  | none => exact h
  | some aInf =>
    have hlist := destroyInterface_list h aInf
    refine ⟨(highestIsMax_destroy_iff h (some aInf)).mpr hmeets, ?_, ?_⟩
    · rw [hlist]
      exact h.nodup.sublist (List.filter_sublist.map _)
    · intro i hi
      rw [hlist] at hi
      exact h.lt i (List.mem_filter.mp hi).1

theorem resetDestroys_iff : c.ResetDestroys .reset ↔ c.Meets .reset := by
  have hlen := length_cleanLoop c.iMediaClockSetCallbackObjects [] c.destroyed (Nat.le_refl _)
  rw [List.length_nil, List.nil_append, Nat.zero_add] at hlen
  constructor
  · intro h
    have hempty : (cleanLoop c.iMediaClockSetCallbackObjects.length 0 c.iMediaClockSetCallbackObjects
        c.destroyed).1 = [] := h.1
    rw [hempty, List.length_nil] at hlen
    simp only [Meets]
    omega
  · intro h
    simp only [Meets] at h
    simp only [ResetDestroys, handle, cleanCallbackInfImplObjects]
    cases hlist : c.iMediaClockSetCallbackObjects with
    | nil => simp [cleanLoop]
    | cons i l =>
      have hnil : l = [] := by
        rw [hlist, List.length_cons] at h
        exact List.eq_nil_of_length_eq_zero (by omega)
      subst hnil
      simp [cleanLoop]

theorem Inv.reset (h : c.Meets .reset) : Inv (c.handle .reset) := by
  obtain ⟨hempty, -⟩ := resetDestroys_iff.mpr h
  refine ⟨?_, ?_, ?_⟩
  · rw [HighestIsMax, hempty]
    rfl
  · rw [hempty]
    exact List.nodup_nil
  · rw [hempty]
    exact fun _ hi => absurd hi List.not_mem_nil

/-! ## Runs -/

theorem inv_handle (h : Inv c) {i : Call} (hmeets : c.Meets i) : Inv (c.handle i) ∧ c.ResetDestroys i := by
  cases i with
  | construct aLatency memory => exact ⟨h.constructInterface aLatency memory, trivial⟩
  | destroy aInf => exact ⟨h.destroyInterface hmeets, trivial⟩
  | start => exact ⟨⟨h.highest, h.nodup, h.lt⟩, trivial⟩
  | pause => exact ⟨⟨h.highest, h.nodup, h.lt⟩, trivial⟩
  | stop => exact ⟨⟨h.highest, h.nodup, h.lt⟩, trivial⟩
  | reset => exact ⟨Inv.reset hmeets, resetDestroys_iff.mpr hmeets⟩

theorem meets_of_handle (h : Inv c) {i : Call} (hmax : (c.handle i).HighestIsMax) (hreset : c.ResetDestroys i) :
    c.Meets i := by
  cases i with
  | destroy aInf => exact (highestIsMax_destroy_iff h aInf).mp hmax
  | reset => exact resetDestroys_iff.mp hreset
  | construct => trivial
  | start => trivial
  | pause => trivial
  | stop => trivial

/-- **When the interfaces are kept in order**: throughout any calls the highest latency is
the maximum and each reset destroys every interface, if and only if each destruction
leaves interfaces without latency alone and each reset finds one interface at most. -/
theorem inOrder_iff (calls : List Call) :
    Always call HighestIsMax construct calls ∧ AtEach call ResetDestroys construct calls ↔
      AtEach call Meets construct calls := by
  refine always_atEach_iff (I := Inv) (fun _ h => h.highest) ?_ ?_ calls construct inv_construct
  · rintro s i t h ht hmeets
    rw [← Option.some.inj ht]
    exact inv_handle h hmeets
  · rintro s i t h ht hmax hreset
    rw [← Option.some.inj ht] at hmax
    exact meets_of_handle h hmax hreset

/-- Of two interfaces one is destroyed, and the latency of the other is forgotten. -/
theorem highest_forgotten :
    ¬∀ calls : List Call,
      Always call HighestIsMax construct calls ∧ AtEach call ResetDestroys construct calls := by
  intro hall
  obtain ⟨hmax, -⟩ := hall [.construct 5 true, .construct 3 true, .destroy (some 0)]
  have hlast := hmax.last (t := ⟨.stopped, [⟨1, 3⟩], 0, 2, [0]⟩) (by decide)
  rw [HighestIsMax] at hlast
  exact absurd hlast (by decide)

end Interfaces

end Ftke.PvmfMediaClock
