import Ftke.AdaptationLayer.Parse

/-!
# Ftke.AdaptationLayer.Runs

A sender and a receiver of one layer with a lossy line between them.

The sender completes one PDU after the other; the line loses some, and delivers
the others cut into fragments.  A delivery is right when the receiver returns
the SDU and counts the losses before it; since the count of losses that pass the
wrap is overwritten, all deliveries of a run are right if and only if none of
them follows such losses (and the receiver sees the SDU and has room for its
fragments).
-/

namespace Ftke.AdaptationLayer

open MediaData

/-- What becomes of an SDU, which the sender has in pieces. -/
inductive Item
  | lose (sdu : List (List UInt8))
  | deliver (sdu : List (List UInt8)) (pkt : MediaData)

/-- **The sender and the line**: each SDU is completed in turn, fewer PDUs than
there are sequence numbers are lost in a row, and the others arrive cut up. -/
def Transfers (k : Kind) : Layer → Nat → List Item → Prop
  | _, _, [] => True
  | sender, lost, .lose sdu :: items =>
    (∀ c ∈ sdu, c ≠ []) ∧ lost + 1 < k.modulus ∧
      ∃ pdu sender', k.send sender sdu = some (pdu, sender') ∧ Transfers k sender' (lost + 1) items
  | sender, _, .deliver sdu pkt :: items =>
    (∀ c ∈ sdu, c ≠ []) ∧ ∃ pdu sender', k.send sender sdu = some (pdu, sender') ∧
      k.Cut (contents pdu) pkt ∧ Transfers k sender' 0 items

/-- **The receiver** is right about every PDU delivered. -/
def AllRight (k : Kind) : Layer → Nat → List Item → Prop
  | _, _, [] => True
  | receiver, lost, .lose _ :: items => AllRight k receiver (lost + 1) items
  | receiver, lost, .deliver sdu pkt :: items =>
    Right lost sdu.flatten (k.parsePacket receiver pkt) ∧
      ∀ info m receiver', k.parsePacket receiver pkt = some (info, m, receiver') →
        AllRight k receiver' 0 items

/-- No PDU is delivered after losses that pass the wrap, `expected` being the
number that follows the one delivered last; each SDU is one that the receiver
sees, in no more fragments than there is room for. -/
def Unwrapped (k : Kind) : Nat → Nat → List Item → Prop
  | _, _, [] => True
  | expected, lost, .lose _ :: items => Unwrapped k expected (lost + 1) items
  | expected, lost, .deliver sdu pkt :: items =>
    (Sized sdu.flatten ∧ pkt.length ≤ maxPacketMemFrag ∧ expected + lost < k.modulus) ∧
      Unwrapped k ((expected + lost + 1) % k.modulus) 0 items

variable {k : Kind}

variable {items : List Item} {sdu : List (List UInt8)}

theorem transfers_lose {n lost : Nat} (hn : n < k.modulus) :
    Transfers k (k.atNum n) lost (.lose sdu :: items) ↔ (∀ c ∈ sdu, c ≠ []) ∧ lost + 1 < k.modulus ∧
      Transfers k (k.atNum ((n + 1) % k.modulus)) (lost + 1) items := by
  constructor
  · rintro ⟨hsdu, hlost, pdu, sender', hsend, hrest⟩
    obtain ⟨m, hm, -⟩ := send_eq k hn hsdu
    obtain ⟨-, rfl⟩ := Prod.mk.inj (Option.some.inj (hm.symm.trans hsend))
    exact ⟨hsdu, hlost, hrest⟩
  · rintro ⟨hsdu, hlost, hrest⟩
    obtain ⟨m, hm, -⟩ := send_eq k hn hsdu
    exact ⟨hsdu, hlost, m, _, hm, hrest⟩

theorem transfers_deliver {n lost : Nat} {pkt : MediaData}
    (hn : n < k.modulus) : Transfers k (k.atNum n) lost (.deliver sdu pkt :: items) ↔
      (∀ c ∈ sdu, c ≠ []) ∧ k.Cut (k.pdu n sdu.flatten) pkt ∧
        Transfers k (k.atNum ((n + 1) % k.modulus)) 0 items := by
  constructor
  · rintro ⟨hsdu, pdu, sender', hsend, hcut, hrest⟩
    obtain ⟨m, hm, hpdu⟩ := send_eq k hn hsdu
    obtain ⟨rfl, rfl⟩ := Prod.mk.inj (Option.some.inj (hm.symm.trans hsend))
    exact ⟨hsdu, hpdu ▸ hcut, hrest⟩
  · rintro ⟨hsdu, hcut, hrest⟩
    obtain ⟨m, hm, hpdu⟩ := send_eq k hn hsdu
    exact ⟨hsdu, m, _, hm, hpdu.symm ▸ hcut, hrest⟩

/-- The receiver expects the number after the last one that was delivered, and
the sender is as many numbers ahead as have been lost since. -/
theorem allRight_iff : ∀ (items : List Item) (expected lost : Nat), expected < k.modulus →
    lost < k.modulus → Transfers k (k.atNum ((expected + lost) % k.modulus)) lost items →
    (AllRight k (k.atNum expected) lost items ↔ Unwrapped k expected lost items)
  | [], _, _, _, _, _ => Iff.rfl
  | .lose sdu :: items, expected, lost, hexp, _, h => by
    obtain ⟨-, hlost, hrest⟩ := (transfers_lose (Nat.mod_lt _ k.modulus_pos)).mp h
    rw [Nat.mod_add_mod, Nat.add_assoc] at hrest
    exact allRight_iff items expected _ hexp hlost hrest
  | .deliver sdu pkt :: items, expected, lost, hexp, hlost, h => by
    have hn := Nat.mod_lt (expected + lost) k.modulus_pos
    obtain ⟨-, hcut, hrest⟩ := (transfers_deliver hn).mp h
    have hnext := Nat.mod_lt (expected + lost + 1) k.modulus_pos
    rw [Nat.mod_add_mod] at hrest
    have ih := allRight_iff items _ 0 hnext k.modulus_pos
      (by rwa [Nat.add_zero, Nat.mod_mod])
    -- one step of the receiver, when it is right
    have hstep (hitem : Sized sdu.flatten ∧ pkt.length ≤ maxPacketMemFrag ∧ expected + lost < k.modulus) :
        ∃ info m, k.parsePacket (k.atNum expected) pkt =
          some (info, m, k.atNum ((expected + lost + 1) % k.modulus)) := by
      obtain ⟨m, -, hparse⟩ := k.parsePacket_eq hn hexp hcut hitem.1 hitem.2.1
      rw [Nat.mod_add_mod] at hparse
      exact ⟨_, m, hparse⟩
    constructor
    · rintro ⟨hitem, hall⟩
      have hitem := (k.right_iff hexp hlost hcut).mp hitem
      obtain ⟨info, m, hparse⟩ := hstep hitem
      exact ⟨hitem, ih.mp (hall _ _ _ hparse)⟩
    · rintro ⟨hitem, hall⟩
      obtain ⟨info, m, hparse⟩ := hstep hitem
      refine ⟨(k.right_iff hexp hlost hcut).mpr hitem, fun info' m' receiver' h' => ?_⟩
      rw [hparse, Option.some.injEq, Prod.mk.injEq, Prod.mk.injEq] at h'
      rw [← h'.2.2]
      exact ih.mpr hall

/-- **Every delivery is right** if and only if none follows losses that pass
the wrap. -/
theorem transfer_iff (k : Kind) {items : List Item} (h : Transfers k k.start 0 items) :
    AllRight k k.start 0 items ↔ Unwrapped k 0 0 items := by
  have hstart : k.start = k.atNum ((0 + 0) % k.modulus) := by
    rw [Nat.mod_eq_of_lt (by rw [Nat.add_zero]; exact k.modulus_pos)]
    cases k <;> rfl
  have hrcv : k.start = k.atNum 0 := by cases k <;> rfl
  rw [hstart] at h
  rw [hrcv]
  exact allRight_iff items 0 0 k.modulus_pos k.modulus_pos h

/-! ## Runs of the layers -/

/-- One PDU is lost, and the next one comes in a single fragment and one more
for the last byte of the checksum. -/
def oneLost : List Item :=
  [.lose [[7]], .deliver [[1, 2], [3]] [.ofBytes ((Kind.pdu .al3Short 1 [1, 2, 3]).take 5),
    .ofBytes ((Kind.pdu .al3Short 1 [1, 2, 3]).drop 5)]]

theorem transfers_oneLost : Transfers .al3Short (Kind.start .al3Short) 0 oneLost := by
  refine (transfers_lose (n := 0) (by decide)).mpr ⟨by decide, by decide, ?_⟩
  refine (transfers_deliver (n := 1) (by decide)).mpr ⟨by decide, ⟨?_, by decide, ?_⟩, trivial⟩
  · decide
  · exact ⟨_, _, rfl, by decide⟩

theorem transfer_iff_one_lost : AllRight .al3Short (Kind.start .al3Short) 0 oneLost :=
  (transfer_iff .al3Short transfers_oneLost).mpr ⟨⟨by decide, by decide, by decide⟩, trivial⟩

theorem transfers_replicate (hsdu : ∀ c ∈ sdu, c ≠ []) :
    ∀ (j n lost : Nat), n + j < k.modulus → lost + j < k.modulus →
      Transfers k (k.atNum (n + j)) (lost + j) items →
      Transfers k (k.atNum n) lost (List.replicate j (.lose sdu) ++ items)
  | 0, _, _, _, _, h => h
  | j + 1, n, lost, hn, hlost, h => by
    rw [List.replicate_succ, List.cons_append]
    refine (transfers_lose (by omega)).mpr ⟨hsdu, by omega, ?_⟩
    rw [Nat.mod_eq_of_lt (by omega)]
    refine transfers_replicate hsdu j _ _ (by omega) (by omega) ?_
    rwa [Nat.add_assoc, Nat.add_comm 1 j, Nat.add_assoc, Nat.add_comm 1 j]

/-- The PDU before the wrap is delivered, the one at it is lost. -/
def wrapLost : List Item :=
  List.replicate 126 (.lose [[7]]) ++
    [.deliver [[7]] [.ofBytes (Kind.pdu .al3Short 126 [7])], .lose [[7]],
      .deliver [[7]] [.ofBytes (Kind.pdu .al3Short 0 [7])]]

theorem transfers_wrapLost : Transfers .al3Short (Kind.start .al3Short) 0 wrapLost := by
  refine transfers_replicate (k := .al3Short) (by decide) 126 0 0 (by decide) (by decide) ?_
  refine (transfers_deliver (n := 126) (by decide)).mpr ⟨by decide, ⟨?_, by decide, ⟨_, _, rfl, by decide⟩⟩, ?_⟩
  · decide
  refine (transfers_lose (n := 127) (by decide)).mpr ⟨by decide, by decide, ?_⟩
  refine (transfers_deliver (n := 0) (by decide)).mpr ⟨by decide, ⟨?_, by decide, ⟨_, _, rfl, by decide⟩⟩, trivial⟩
  decide

theorem unwrapped_replicate {expected : Nat} :
    ∀ (j lost : Nat), Unwrapped k expected lost (List.replicate j (.lose sdu) ++ items) →
      Unwrapped k expected (lost + j) items
  | 0, _, h => h
  | j + 1, lost, h => by
    have ih := unwrapped_replicate j (lost + 1) h
    rwa [Nat.add_assoc, Nat.add_comm 1 j] at ih

/-- The receiver takes the one loss for minus 127. -/
theorem wrap_miscounted : ¬ ∀ (k : Kind) (items : List Item), Transfers k k.start 0 items →
    AllRight k k.start 0 items := by
  intro h
  have hall := h .al3Short wrapLost transfers_wrapLost
  have hun := (allRight_iff (k := .al3Short) _ 0 0 (by decide) (by decide)
    transfers_wrapLost).mp hall
  obtain ⟨-, ⟨-, -, hlt⟩, -⟩ := unwrapped_replicate 126 0 hun
  exact absurd hlt (by decide)

end Ftke.AdaptationLayer
