import Ftke.ResizableMemPool
import Ftke.DoubleList

/-!
# Ftke.ResizableMemPool.FreeList

The free list of a buffer: what is written when a block is taken out of it, put into it, or merged with others.

* `Linked` — the links are those of a list of free blocks;
* `Linked.unlink`, `Linked.linkIn`, `Linked.absorb` — the three changes;
* `Linked.findSides`, `Linked.scanFree` — the two loops.
-/

namespace Ftke.ResizableMemPool

open DoubleList

namespace Pool

/-! ## Writing to headers -/

/-- The header of a block but for its links. -/
def core (s : Pool) (p : Nat) : MemPoolBlockInfo :=
  { s.blocks p with
    iNextFreeBlock := none
    iPrevFreeBlock := none }

variable (s : Pool) (a b p q : Nat) (x : Option Nat)

@[simp] theorem nextFree_setNext : (s.setNext a x).nextFree p = if p = a then x else s.nextFree p := by
  by_cases h : p = a <;> simp [nextFree, setNext, modifyBlock, h]

@[simp] theorem prevFree_setNext : (s.setNext a x).prevFree p = s.prevFree p := by
  by_cases h : p = a <;> simp [prevFree, setNext, modifyBlock, h]

@[simp] theorem nextFree_setPrev : (s.setPrev a x).nextFree p = s.nextFree p := by
  by_cases h : p = a <;> simp [nextFree, setPrev, modifyBlock, h]

@[simp] theorem prevFree_setPrev : (s.setPrev a x).prevFree p = if p = a then x else s.prevFree p := by
  by_cases h : p = a <;> simp [prevFree, setPrev, modifyBlock, h]

@[simp] theorem nextFree_setSize (size : Nat) : (s.setSize a size).nextFree p = s.nextFree p := by
  by_cases h : p = a <;> simp [nextFree, setSize, modifyBlock, h]

@[simp] theorem prevFree_setSize (size : Nat) : (s.setSize a size).prevFree p = s.prevFree p := by
  by_cases h : p = a <;> simp [prevFree, setSize, modifyBlock, h]

@[simp] theorem core_setNext : (s.setNext a x).core p = s.core p := by
  by_cases h : p = a <;> simp [core, setNext, modifyBlock, h]

@[simp] theorem core_setPrev : (s.setPrev a x).core p = s.core p := by
  by_cases h : p = a <;> simp [core, setPrev, modifyBlock, h]

@[simp] theorem core_setSize (size : Nat) :
    (s.setSize a size).core p = if p = a then { s.core a with iBlockSize := size } else s.core p := by
  by_cases h : p = a <;> simp [core, setSize, modifyBlock, h]

@[simp] theorem nextFree_modifyBuffer (f : MemPoolBufferInfo → MemPoolBufferInfo) :
    (s.modifyBuffer b f).nextFree p = s.nextFree p := rfl

@[simp] theorem prevFree_modifyBuffer (f : MemPoolBufferInfo → MemPoolBufferInfo) :
    (s.modifyBuffer b f).prevFree p = s.prevFree p := rfl

@[simp] theorem core_modifyBuffer (f : MemPoolBufferInfo → MemPoolBufferInfo) :
    (s.modifyBuffer b f).core p = s.core p := rfl

@[simp] theorem buffers_modifyBlock (f : MemPoolBlockInfo → MemPoolBlockInfo) :
    (s.modifyBlock a f).buffers = s.buffers := rfl

@[simp] theorem buffers_modifyBuffer (f : MemPoolBufferInfo → MemPoolBufferInfo) :
    (s.modifyBuffer b f).buffers p = if p = b then f (s.buffers b) else s.buffers p := rfl

@[simp] theorem toConfig_modifyBlock (f : MemPoolBlockInfo → MemPoolBlockInfo) :
    (s.modifyBlock a f).toConfig = s.toConfig := rfl

@[simp] theorem toConfig_modifyBuffer (f : MemPoolBufferInfo → MemPoolBufferInfo) :
    (s.modifyBuffer b f).toConfig = s.toConfig := rfl

@[simp] theorem list_modifyBlock (f : MemPoolBlockInfo → MemPoolBlockInfo) :
    (s.modifyBlock a f).iMemPoolBufferList = s.iMemPoolBufferList := rfl

@[simp] theorem list_modifyBuffer (f : MemPoolBufferInfo → MemPoolBufferInfo) :
    (s.modifyBuffer b f).iMemPoolBufferList = s.iMemPoolBufferList := rfl

@[simp] theorem buffers_setNext : (s.setNext a x).buffers = s.buffers := rfl

@[simp] theorem buffers_setPrev : (s.setPrev a x).buffers = s.buffers := rfl

@[simp] theorem buffers_setSize (size : Nat) : (s.setSize a size).buffers = s.buffers := rfl

@[simp] theorem buffers_setFirst :
    (s.setFirst b x).buffers p = if p = b then { s.buffers b with iNextFreeBlock := x } else s.buffers p := rfl

@[simp] theorem nextFree_setFirst : (s.setFirst b x).nextFree p = s.nextFree p := rfl

@[simp] theorem prevFree_setFirst : (s.setFirst b x).prevFree p = s.prevFree p := rfl

@[simp] theorem core_setFirst : (s.setFirst b x).core p = s.core p := rfl

variable {s a p}

/-! ## Taking a block out -/

theorem nextFree_unlink : (s.unlink a).nextFree p =
    if p = a then none else if s.prevFree a = some p then s.nextFree a else s.nextFree p := by
  unfold unlink
  cases hprev : s.prevFree a <;> cases hnext : s.nextFree a <;> by_cases hp : p = a <;> simp [hp, eq_comm]

theorem prevFree_unlink : (s.unlink a).prevFree p =
    if p = a then none else if s.nextFree a = some p then s.prevFree a else s.prevFree p := by
  unfold unlink
  cases hprev : s.prevFree a <;> cases hnext : s.nextFree a <;> by_cases hp : p = a <;> simp [hp, eq_comm]

theorem core_unlink : (s.unlink a).core p = s.core p := by
  unfold unlink
  cases hprev : s.prevFree a <;> cases hnext : s.nextFree a <;> simp

theorem buffers_unlink : (s.unlink a).buffers p =
    if p = s.parentAt a ∧ s.prevFree a = none then { s.buffers p with iNextFreeBlock := s.nextFree a }
    else s.buffers p := by
  unfold unlink
  by_cases hp : p = s.parentAt a <;> cases hprev : s.prevFree a <;> cases hnext : s.nextFree a <;> simp [hp]

theorem config_unlink : (s.unlink a).toConfig = s.toConfig ∧
    (s.unlink a).iMemPoolBufferList = s.iMemPoolBufferList := by
  unfold unlink
  cases hprev : s.prevFree a <;> cases hnext : s.nextFree a <;> exact ⟨rfl, rfl⟩

/-! ## Putting a block in -/

variable {left right next : Option Nat} {size : Nat}

theorem nextFree_linkIn : (s.linkIn a left right).nextFree p =
    if p = a then right else if left = some p then some a else s.nextFree p := by
  cases left <;> cases right <;> by_cases hp : p = a <;> simp [linkIn, hp, eq_comm]

theorem prevFree_linkIn : (s.linkIn a left right).prevFree p =
    if p = a then left else if right = some p then some a else s.prevFree p := by
  cases left <;> cases right <;> by_cases hp : p = a <;> simp [linkIn, hp, eq_comm]

theorem core_linkIn : (s.linkIn a left right).core p = s.core p := by
  cases left <;> cases right <;> simp [linkIn]

theorem buffers_linkIn : (s.linkIn a left right).buffers p =
    if p = s.parentAt a ∧ left = none then { s.buffers p with iNextFreeBlock := some a } else s.buffers p := by
  by_cases hp : p = s.parentAt a <;> cases left <;> cases right <;> simp [linkIn, hp]

theorem config_linkIn : (s.linkIn a left right).toConfig = s.toConfig ∧
    (s.linkIn a left right).iMemPoolBufferList = s.iMemPoolBufferList := by
  cases left <;> cases right <;> exact ⟨rfl, rfl⟩

/-! ## Merging -/

theorem nextFree_absorb : (s.absorb a size next).nextFree p = if p = a then next else s.nextFree p := by
  cases next <;> simp [absorb]

theorem prevFree_absorb : (s.absorb a size next).prevFree p = if next = some p then some a else s.prevFree p := by
  cases next <;> simp [absorb, eq_comm]

theorem core_absorb : (s.absorb a size next).core p =
    if p = a then { s.core a with iBlockSize := size } else s.core p := by
  cases next <;> simp [absorb]

theorem buffers_absorb : (s.absorb a size next).buffers = s.buffers := by
  cases next <;> simp [absorb]

theorem config_absorb : (s.absorb a size next).toConfig = s.toConfig ∧
    (s.absorb a size next).iMemPoolBufferList = s.iMemPoolBufferList := by
  cases next <;> exact ⟨rfl, rfl⟩

end Pool

/-! ## The list -/

/-- The links are those of the free blocks at these addresses, in this order. -/
structure Linked (s : Pool) (b : Nat) (free : List Nat) : Prop where
  first : (s.buffers b).iNextFreeBlock = free.head?
  links : Segment s.nextFree s.prevFree none free none

namespace Linked

variable {s s' : Pool} {a b : Nat} {l₁ l₂ m free : List Nat}

theorem congr (h : Linked s b free) (hfirst : (s'.buffers b).iNextFreeBlock = (s.buffers b).iNextFreeBlock)
    (hnext : ∀ p ∈ free, s'.nextFree p = s.nextFree p) (hprev : ∀ p ∈ free, s'.prevFree p = s.prevFree p) :
    Linked s' b free :=
  ⟨hfirst.trans h.first, h.links.congr hnext hprev⟩

theorem prev_eq (h : Linked s b (l₁ ++ a :: l₂)) : s.prevFree a = l₁.getLast? := by
  have hprev := (segment_append.mp h.links).2.1
  rwa [Option.or_none] at hprev

theorem next_eq (h : Linked s b (l₁ ++ a :: l₂)) : s.nextFree a = l₂.head? := by
  have hnext := (segment_append.mp h.links).2.2.1
  rwa [Option.or_none] at hnext

/-- **A block is taken out.** -/
theorem unlink (h : Linked s b (l₁ ++ a :: l₂)) (hnodup : (l₁ ++ a :: l₂).Nodup) (hparent : s.parentAt a = b) :
    Linked (s.unlink a) b (l₁ ++ l₂) := by
  obtain ⟨hnodup₁, hnodup₂, hdisjoint⟩ := List.nodup_append.mp hnodup
  obtain ⟨ha₂, hnodup₂⟩ := List.nodup_cons.mp hnodup₂
  have hne₁ : ∀ p ∈ l₁, p ≠ a := fun p hp => hdisjoint p hp a List.mem_cons_self
  have hne₂ : ∀ p ∈ l₂, p ≠ a := fun p hp heq => ha₂ (heq ▸ hp)
  have hapart : ∀ p ∈ l₁, p ∉ l₂ := fun p hp hp₂ => hdisjoint p hp p (List.mem_cons_of_mem a hp₂) rfl
  have hprev := h.prev_eq
  have hnext := h.next_eq
  have hlinks : Segment s.nextFree s.prevFree none (l₁ ++ [a] ++ l₂) none := by
    rw [List.append_assoc]
    exact h.links
  constructor
  · rw [Pool.buffers_unlink, hprev, hnext]
    cases l₁ with
    | nil => simp [hparent]
    | cons x l => simpa using h.first
  · have hreplaced := hlinks.replace (s.unlink a).nextFree (s.unlink a).prevFree []
      (fun p hp => ?_) (fun p hp => ?_) (fun p hp => ?_) (fun p hp => ?_) (fun p hp => ?_) (fun p hp => ?_) trivial
    · rwa [List.append_nil] at hreplaced
    · rw [Pool.prevFree_unlink, hnext, if_neg (hne₁ p hp),
        if_neg fun heq => hapart p hp (List.mem_of_head? heq)]
    · have hp₁ := List.mem_of_mem_dropLast hp
      rw [Pool.nextFree_unlink, hprev, if_neg (hne₁ p hp₁),
        if_neg (getLast?_ne_of_mem_dropLast hnodup₁ hp)]
    · have hp₂ := List.mem_of_mem_tail hp
      rw [Pool.prevFree_unlink, hnext, if_neg (hne₂ p hp₂), if_neg (head?_ne_of_mem_tail hnodup₂ hp)]
    · rw [Pool.nextFree_unlink, hprev, if_neg (hne₂ p hp),
        if_neg fun heq => hapart p (List.mem_of_getLast? heq) hp]
    · rw [Pool.nextFree_unlink, hprev, if_neg (hne₁ p (List.mem_of_getLast? hp)), if_pos hp, hnext,
        List.nil_append]
    · rw [Pool.prevFree_unlink, hnext, if_neg (hne₂ p (List.mem_of_head? hp)), if_pos hp, hprev,
        List.append_nil]

/-- **A block is put in.** -/
theorem linkIn (h : Linked s b (l₁ ++ l₂)) (hnodup : (l₁ ++ a :: l₂).Nodup) (hparent : s.parentAt a = b) :
    Linked (s.linkIn a l₁.getLast? l₂.head?) b (l₁ ++ a :: l₂) := by
  obtain ⟨hnodup₁, hnodup₂, hdisjoint⟩ := List.nodup_append.mp hnodup
  obtain ⟨ha₂, hnodup₂⟩ := List.nodup_cons.mp hnodup₂
  have hne₁ : ∀ p ∈ l₁, p ≠ a := fun p hp => hdisjoint p hp a List.mem_cons_self
  have hne₂ : ∀ p ∈ l₂, p ≠ a := fun p hp heq => ha₂ (heq ▸ hp)
  have hapart : ∀ p ∈ l₁, p ∉ l₂ := fun p hp hp₂ => hdisjoint p hp p (List.mem_cons_of_mem a hp₂) rfl
  have hlinks : Segment s.nextFree s.prevFree none (l₁ ++ [] ++ l₂) none := by
    rw [List.append_nil]
    exact h.links
  constructor
  · rw [Pool.buffers_linkIn]
    cases l₁ with
    | nil => simp [hparent]
    | cons x l => simpa [List.getLast?_cons] using h.first
  · have hreplaced := hlinks.replace (s.linkIn a l₁.getLast? l₂.head?).nextFree
      (s.linkIn a l₁.getLast? l₂.head?).prevFree [a]
      (fun p hp => ?_) (fun p hp => ?_) (fun p hp => ?_) (fun p hp => ?_) (fun p hp => ?_) (fun p hp => ?_) ?_
    · rwa [List.append_assoc] at hreplaced
    · rw [Pool.prevFree_linkIn, if_neg (hne₁ p hp), if_neg fun heq => hapart p hp (List.mem_of_head? heq)]
    · have hp₁ := List.mem_of_mem_dropLast hp
      rw [Pool.nextFree_linkIn, if_neg (hne₁ p hp₁), if_neg (getLast?_ne_of_mem_dropLast hnodup₁ hp)]
    · have hp₂ := List.mem_of_mem_tail hp
      rw [Pool.prevFree_linkIn, if_neg (hne₂ p hp₂), if_neg (head?_ne_of_mem_tail hnodup₂ hp)]
    · rw [Pool.nextFree_linkIn, if_neg (hne₂ p hp),
        if_neg fun heq => hapart p (List.mem_of_getLast? heq) hp]
    · rw [Pool.nextFree_linkIn, if_neg (hne₁ p (List.mem_of_getLast? hp)), if_pos hp]
      rfl
    · rw [Pool.prevFree_linkIn, if_neg (hne₂ p (List.mem_of_head? hp)), if_pos hp, List.getLast?_concat]
    · refine ⟨?_, ?_, trivial⟩
      · rw [Pool.prevFree_linkIn, if_pos rfl]
      · rw [Pool.nextFree_linkIn, if_pos rfl]
        rfl

/-- **A block grows** over those behind it. -/
theorem absorb (h : Linked s b (l₁ ++ a :: m ++ l₂)) (hnodup : (l₁ ++ a :: m ++ l₂).Nodup) (size : Nat) :
    Linked (s.absorb a size l₂.head?) b (l₁ ++ a :: l₂) := by
  have hlinks : Segment s.nextFree s.prevFree none (l₁ ++ [a] ++ m ++ l₂) none := by
    simpa using h.links
  have hnodup' : (l₁ ++ [a] ++ (m ++ l₂)).Nodup := by simpa using hnodup
  obtain ⟨hnodup₁, hnodup₂, hdisjoint⟩ := List.nodup_append.mp hnodup'
  have hapart : ∀ p ∈ l₁ ++ [a], p ∉ l₂ := fun p hp hp₂ => hdisjoint p hp p (List.mem_append_right m hp₂) rfl
  have hne : ∀ p ∈ l₂, p ≠ a := fun p hp heq => hapart a (by simp) (heq ▸ hp)
  have hnodup₂ := (List.nodup_append.mp hnodup₂).2.1
  constructor
  · rw [Pool.buffers_absorb, h.first]
    cases l₁ <;> rfl
  · have hreplaced := hlinks.replace (s.absorb a size l₂.head?).nextFree (s.absorb a size l₂.head?).prevFree []
      (fun p hp => ?_) (fun p hp => ?_) (fun p hp => ?_) (fun p hp => ?_) (fun p hp => ?_) (fun p hp => ?_) trivial
    · simpa using hreplaced
    · rw [Pool.prevFree_absorb, if_neg fun heq => hapart p hp (List.mem_of_head? heq)]
    · have hne := getLast?_ne_of_mem_dropLast hnodup₁ hp
      rw [List.getLast?_concat] at hne
      rw [Pool.nextFree_absorb, if_neg fun heq => hne (congrArg some heq.symm)]
    · rw [Pool.prevFree_absorb, if_neg (head?_ne_of_mem_tail hnodup₂ hp)]
    · rw [Pool.nextFree_absorb, if_neg (hne p hp)]
    · rw [List.getLast?_concat, Option.some_inj] at hp
      rw [Pool.nextFree_absorb, if_pos hp.symm, List.nil_append]
    · rw [Pool.prevFree_absorb, if_pos hp, List.append_nil, List.getLast?_concat]

theorem scanFree_segment (s : Pool) (size : Nat) : ∀ {free : List Nat} {before : Option Nat} {fuel : Nat},
    Segment s.nextFree s.prevFree before free none → free.length ≤ fuel →
      s.scanFree size fuel free.head? = some (free.find? fun p => size ≤ s.sizeAt p)
  | [], _, fuel, _, _ => by cases fuel <;> rfl
  | p :: free, _, 0, _, hfuel => absurd hfuel (by simp)
  | p :: free, _, fuel + 1, ⟨_, hnext, hrest⟩, hfuel => by
    rw [Option.or_none] at hnext
    rw [List.head?_cons, Pool.scanFree, hnext, scanFree_segment s size hrest (by simpa using hfuel),
      List.find?_cons]
    by_cases hsize : size ≤ s.sizeAt p <;> simp [hsize]

theorem scanFree (h : Linked s b free) (size : Nat) {fuel : Nat} (hfuel : free.length ≤ fuel) :
    s.scanFree size fuel (s.buffers b).iNextFreeBlock = some (free.find? fun p => size ≤ s.sizeAt p) := by
  rw [h.first]
  exact scanFree_segment s size h.links hfuel

theorem findSides_segment (s : Pool) (a : Nat) (hl₂ : ∀ p ∈ l₂, a < p) :
    ∀ {l₁ : List Nat} {left : Option Nat} {fuel : Nat}, (∀ p ∈ l₁, p ≤ a) →
      Segment s.nextFree s.prevFree left (l₁ ++ l₂) none → (l₁ ++ l₂).length ≤ fuel →
        s.findSides a fuel left (l₁ ++ l₂).head? = some (l₁.getLast?.or left, l₂.head?)
  | [], left, fuel, _, _, hfuel => by
    cases l₂ with
    | nil => cases fuel <;> rfl
    | cons p l =>
      have hp := hl₂ p List.mem_cons_self
      cases fuel with
      | zero => simp at hfuel
      | succ fuel => simp [Pool.findSides, hp]
  | p :: l₁, left, 0, _, _, hfuel => absurd hfuel (by simp)
  | p :: l₁, left, fuel + 1, hl₁, ⟨_, hnext, hrest⟩, hfuel => by
    have hp := hl₁ p List.mem_cons_self
    have hnext : s.nextFree p = (l₁ ++ l₂).head? := hnext.trans Option.or_none
    rw [List.cons_append, List.head?_cons, Pool.findSides, if_neg (Nat.not_lt.mpr hp), hnext,
      findSides_segment s a hl₂ (fun q hq => hl₁ q (List.mem_cons_of_mem p hq)) hrest (by simpa using hfuel),
      List.getLast?_cons]
    cases l₁.getLast? <;> rfl

theorem findSides (h : Linked s b (l₁ ++ l₂)) (hl₁ : ∀ p ∈ l₁, p ≤ a) (hl₂ : ∀ p ∈ l₂, a < p) {fuel : Nat}
    (hfuel : (l₁ ++ l₂).length ≤ fuel) :
    s.findSides a fuel none (s.buffers b).iNextFreeBlock = some (l₁.getLast?, l₂.head?) := by
  rw [h.first, findSides_segment s a hl₂ hl₁ h.links hfuel, Option.or_none]

end Linked

end Ftke.ResizableMemPool
