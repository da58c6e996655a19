import Ftke.PvmfPort.Queues
import Ftke.Run
import Ftke.Transfer

/-!
# Ftke.PvmfPort.Delivery

What becomes of the messages that two connected ports accept from their nodes.

* `Session` — the ports with a log of the messages in each direction;
* `delivery` — the messages dequeued are those accepted, in their order, but for those
  cleared and those that a port with suspended input was handed; the queues keep to
  their capacities as long as these are set above what the queues hold;
* `suspended_drops` — a message handed to a port with suspended input.
-/

namespace Ftke.PvmfPort

open PvmfPortBaseImplQueue

variable {Msg : Type*}

/-- The messages on the way to the peer. -/
def Ports.toPeer (ports : Ports Msg) : List Msg := ports.peer.incomingQueue.q ++ ports.port.outgoingQueue.q

/-- Two ports, with what has become of the messages from the first to the second and back. -/
structure Session (Msg : Type*) where
  ports : Ports Msg
  sent : Log Msg
  received : Log Msg
  deriving DecidableEq, Repr

namespace Session

/-- Two new ports. -/
def start (first second : PortParams) : Session Msg := ⟨.start first second, .empty, .empty⟩

/-- The session seen from the peer. -/
def swap (s : Session Msg) : Session Msg := ⟨s.ports.swap, s.received, s.sent⟩

/-- A call on the first port. -/
def apply (s : Session Msg) (op : Op Msg) : Session Msg :=
  let ports := s.ports.apply op
  match op with
  | .queueOutgoingMsg msg =>
    { s with
      ports := ports
      sent := if (s.ports.queueOutgoingMsg msg).2 = .success then s.sent.accept msg else s.sent }
  | .send =>
    { s with
      ports := ports
      sent := if s.ports.send.2 = .errInvalidState then s.sent.discard (s.ports.port.outgoingQueue.q.take 1) else s.sent }
  | .dequeueIncomingMsg =>
    { s with
      ports := ports
      received := s.received.dequeue s.ports.dequeueIncomingMsg.2.1.toList }
  | .clearMsgQueues =>
    { ports := ports
      sent := s.sent.clear s.ports.port.outgoingQueue.q
      received := s.received.clear s.ports.port.incomingQueue.q }
  | .disconnect =>
    if s.ports.port.connectedPort then
      { ports := ports
        sent := s.sent.clear
          ((if s.ports.peer.connectedPort then s.ports.peer.incomingQueue.q else []) ++ s.ports.port.outgoingQueue.q)
        received := s.received.clear
          (s.ports.port.incomingQueue.q ++ if s.ports.peer.connectedPort then s.ports.peer.outgoingQueue.q else []) }
    else s
  | _ => { s with ports := ports }

/-- A call. -/
def handle (s : Session Msg) (call : Call Msg) : Session Msg :=
  if call.onPeer then (s.swap.apply call.op).swap else s.apply call.op

/-- A call is always possible. -/
def call (s : Session Msg) (call : Call Msg) : Option (Session Msg) := some (s.handle call)

/-- In both directions the messages are delivered. -/
structure Delivered (s : Session Msg) : Prop where
  sent : s.sent.Delivered s.ports.toPeer
  received : s.received.Delivered s.ports.swap.toPeer

theorem Delivered.swap {s : Session Msg} (h : s.Delivered) : s.swap.Delivered := ⟨h.received, h.sent⟩

theorem delivered_start (first second : PortParams) : (start first second : Session Msg).Delivered :=
  ⟨Log.delivered_empty, Log.delivered_empty⟩

end Session

/-! ## The contents of the queues -/

@[simp] theorem received_q (queue : PvmfPortBaseImplQueue Msg) (msg : Msg) : (queue.received msg).q = queue.q ++ [msg] := by
  simp only [received]
  split <;> rfl

@[simp] theorem kept_q (queue : PvmfPortBaseImplQueue Msg) (msg : Msg) : (queue.kept msg).q = queue.q ++ [msg] := by
  simp only [kept]
  split <;> rfl

/-- The queues hold the same messages. -/
structure SameMessages (before after : Ports Msg) : Prop where
  toPeer : after.toPeer = before.toPeer
  fromPeer : after.swap.toPeer = before.swap.toPeer

namespace Ports

theorem sameMessages_settle (ports : Ports Msg) {queue : PvmfPortBaseImplQueue Msg}
    (h : queue.q = ports.port.incomingQueue.q) : SameMessages ports (ports.settle queue) := by
  constructor
  · simp only [toPeer, settle_peer_incomingQueue]
    rfl
  · simp only [toPeer, swap, settle_peer_outgoingQueue]
    simp only [settle, evaluated_q, h]

theorem sameMessages_setQueue (ports : Ports Msg) (type : TPvmfPortBaseImplQueueType)
    {set : PvmfPortBaseImplQueue Msg → PvmfPortBaseImplQueue Msg × PVMFStatus} (hset : ∀ queue, (set queue).1.q = queue.q) :
    SameMessages ports (ports.setQueue type set).1 := by
  cases type with
  | incomingDataQueue =>
    by_cases hstatus : (set ports.port.incomingQueue).2 = .success
    · rw [setQueue_incoming ports set hstatus]
      exact ports.sameMessages_settle (hset _)
    · simp only [setQueue, if_neg hstatus]
      constructor <;> simp [toPeer, swap, hset]
  | outgoingDataQueue =>
    by_cases hstatus : (set ports.port.outgoingQueue).2 = .success
    · rw [setQueue_outgoing ports set hstatus]
      constructor <;> simp [toPeer, swap, hset]
    · simp only [setQueue, if_neg hstatus]
      constructor <;> simp [toPeer, swap, hset]

end Ports

/-! ## Deliveries -/

namespace Session

variable {s : Session Msg}

variable {ports : Ports Msg}

theorem Delivered.same (h : s.Delivered) (hsame : SameMessages s.ports ports) :
    Delivered { s with ports := ports } where
  sent := by
    rw [hsame.toPeer]
    exact h.sent
  received := by
    rw [hsame.fromPeer]
    exact h.received

theorem Delivered.queueOutgoingMsg (h : s.Delivered) (msg : Msg) : (s.apply (.queueOutgoingMsg msg)).Delivered := by
  simp only [Session.apply, Ports.apply]
  obtain ⟨hsame, hstatus⟩ | ⟨-, -, hpass⟩ | ⟨-, hkeep⟩ := s.ports.queueOutgoingMsg_cases msg
  · rw [if_neg hstatus, hsame]
    exact h
  · rw [hpass]
    have hsplit : (s.ports.port.outgoingQueue.q ++ [msg]).headD msg :: (s.ports.port.outgoingQueue.q ++ [msg]).tail =
        s.ports.port.outgoingQueue.q ++ [msg] := by
      cases s.ports.port.outgoingQueue.q <;> rfl
    have haccept := h.sent.accept msg
    refine ⟨?_, h.received⟩
    rw [Ports.toPeer, List.append_assoc, ← hsplit] at haccept
    simpa [Ports.toPeer, holding] using haccept
  · rw [hkeep]
    have haccept := h.sent.accept msg
    refine ⟨?_, h.received⟩
    rw [Ports.toPeer, List.append_assoc] at haccept
    simpa [Ports.toPeer] using haccept

theorem Delivered.send (h : s.Delivered) : (s.apply .send).Delivered := by
  simp only [Session.apply, Ports.apply]
  obtain ⟨hsame, hstatus⟩ | ⟨-, -, -, -, hbusy⟩ | ⟨msg, rest, hq, hdrop | ⟨-, hsent⟩⟩ := s.ports.send_cases
  · have hnot : s.ports.send.2 ≠ .errInvalidState := by
      obtain hfailure | hbusy := hstatus
      · simp [hfailure]
      · simp [hbusy]
    rw [if_neg hnot, hsame]
    exact h
  · rw [hbusy]
    simp only [reduceCtorEq, if_false]
    exact h.same ⟨rfl, rfl⟩
  · rw [hdrop]
    have hsent := h.sent
    rw [Ports.toPeer, hq] at hsent
    refine ⟨?_, h.received⟩
    have hlost : (s.ports.peer.incomingQueue.q ++ rest ++ [msg]).Perm
        (s.ports.peer.incomingQueue.q ++ msg :: rest) := by
      rw [List.append_assoc]
      exact (List.perm_append_singleton msg rest).append_left _
    have hdiscard := hsent.discard ((List.sublist_cons_self msg rest).append_left _) hlost
    simpa [Ports.toPeer, holding, hq] using hdiscard
  · rw [hsent]
    have hway := h.sent
    refine ⟨?_, h.received⟩
    rw [Ports.toPeer, hq] at hway
    simpa [Ports.toPeer, holding] using hway

theorem Delivered.dequeueIncomingMsg (h : s.Delivered) : (s.apply .dequeueIncomingMsg).Delivered := by
  simp only [Session.apply, Ports.apply]
  cases hq : s.ports.port.incomingQueue.q with
  | nil =>
    have hnone : s.ports.dequeueIncomingMsg = (s.ports, none, .failure) := by
      rw [Ports.dequeueIncomingMsg, hq]
    rw [hnone]
    have hreceived := h.received
    exact ⟨h.sent, by simpa [Log.dequeue] using hreceived⟩
  | cons msg rest =>
    rw [s.ports.dequeueIncomingMsg_cons hq]
    have hreceived := h.received
    rw [Ports.toPeer, Ports.swap, hq] at hreceived
    constructor
    · simpa [Ports.toPeer, Ports.settle_port] using h.sent
    · have hdequeue : (s.received.dequeue [msg]).Delivered _ := Log.Delivered.dequeue hreceived
      simpa [Ports.toPeer, Ports.swap, Ports.settle_port, holding] using hdequeue

theorem Delivered.clearMsgQueues (h : s.Delivered) : (s.apply .clearMsgQueues).Delivered := by
  simp only [Session.apply, Ports.apply, Ports.clearMsgQueues_eq]
  constructor
  · have hclear := h.sent.clear (List.sublist_append_left _ _) (List.Perm.refl _)
    simpa [Ports.toPeer, holding] using hclear
  · have hclear := h.received.clear (List.sublist_append_right _ _) List.perm_append_comm
    simpa [Ports.toPeer, Ports.swap, holding] using hclear

theorem Delivered.disconnect (h : s.Delivered) : (s.apply .disconnect).Delivered := by
  simp only [Session.apply, Ports.apply, Ports.disconnect_eq]
  split
  · cases hpeer : s.ports.peer.connectedPort with
    | false =>
      constructor
      · have hclear := h.sent.clear (List.sublist_append_left _ _) (List.Perm.refl _)
        simpa [Ports.toPeer, Ports.unlinked] using hclear
      · have hclear := h.received.clear (List.sublist_append_right _ _) List.perm_append_comm
        simpa [Ports.toPeer, Ports.swap, Ports.unlinked] using hclear
    | true =>
      constructor
      · have hclear := h.sent.clear (List.nil_sublist _) (List.Perm.refl _)
        simpa [Ports.toPeer, Ports.unlinked] using hclear
      · have hclear := h.received.clear (List.nil_sublist _) (List.Perm.refl _)
        simpa [Ports.toPeer, Ports.swap, Ports.unlinked] using hclear
  · exact h

/-- **A call** keeps the messages in order and loses none unnoticed. -/
theorem Delivered.apply (h : s.Delivered) (op : Op Msg) : (s.apply op).Delivered := by
  cases op with
  | connect =>
    refine h.same ?_
    rw [Ports.apply, Ports.connect, PvmfPortBaseImpl.peerConnect]
    cases s.ports.port.connectedPort <;> cases s.ports.peer.connectedPort <;> exact ⟨rfl, rfl⟩
  | disconnect => exact h.disconnect
  | queueOutgoingMsg msg => exact h.queueOutgoingMsg msg
  | send => exact h.send
  | dequeueIncomingMsg => exact h.dequeueIncomingMsg
  | clearMsgQueues => exact h.clearMsgQueues
  | suspendInput => exact h.same ⟨rfl, rfl⟩
  | resumeInput => exact h.same ⟨rfl, rfl⟩
  | setCapacity type capacity => exact h.same (s.ports.sameMessages_setQueue type fun _ => rfl)
  | setThreshold type threshold =>
    refine h.same (s.ports.sameMessages_setQueue type fun queue => ?_)
    rw [PvmfPortBaseImplQueue.setThreshold]
    split <;> rfl

theorem Delivered.handle (h : s.Delivered) (call : Call Msg) : (s.handle call).Delivered := by
  rw [Session.handle]
  split
  · exact (h.swap.apply call.op).swap
  · exact h.apply call.op

/-- The session after a sequence of calls. -/
def after (s : Session Msg) (calls : List (Call Msg)) : Session Msg := calls.foldl handle s

theorem Delivered.after : ∀ {calls : List (Call Msg)} {s : Session Msg}, s.Delivered → (s.after calls).Delivered
  | [], _, h => h
  | call :: _, _, h => (h.handle call).after

theorem apply_ports (s : Session Msg) (op : Op Msg) : (s.apply op).ports = s.ports.apply op := by
  cases op with
  | disconnect =>
    rw [Session.apply, Ports.apply, Ports.disconnect_eq]
    cases s.ports.port.connectedPort <;> rfl
  | _ => rfl

theorem handle_ports (s : Session Msg) (call : Call Msg) : (s.handle call).ports = s.ports.handle call := by
  rw [Session.handle, Ports.handle]
  split
  · rw [swap, apply_ports]
    rfl
  · exact s.apply_ports call.op

/-! ## Capacities -/

/-- A property of each of the four queues. -/
structure EachQueue (P : PvmfPortBaseImplQueue Msg → Prop) (ports : Ports Msg) : Prop where
  portIn : P ports.port.incomingQueue
  portOut : P ports.port.outgoingQueue
  peerIn : P ports.peer.incomingQueue
  peerOut : P ports.peer.outgoingQueue

variable {P : PvmfPortBaseImplQueue Msg → Prop}

theorem EachQueue.swap (h : EachQueue P ports) :
    EachQueue P ports.swap := ⟨h.peerIn, h.peerOut, h.portIn, h.portOut⟩

theorem EachQueue.handle {receives : PvmfPortBaseImplQueue Msg → Prop}
    {sets : PvmfPortBaseImplQueue Msg → UInt32 → Prop}
    (hmove : ∀ {queue queue'}, P queue → Move receives sets queue queue' → P queue') (h : EachQueue P ports) {call : Call Msg}
    (hcall : (if call.onPeer then ports.swap else ports).Permits receives sets call.op) :
    EachQueue P (ports.handle call) := by
  have hmoves : ∀ {p : Ports Msg}, EachQueue P p → p.Permits receives sets call.op → EachQueue P (p.apply call.op) := by
    intro p hp hpermits
    have hall := p.moves_apply call.op hpermits
    exact ⟨hmove hp.portIn hall.portIn, hmove hp.portOut hall.portOut, hmove hp.peerIn hall.peerIn,
      hmove hp.peerOut hall.peerOut⟩
  rw [Ports.handle]
  split
  · next hpeer =>
      rw [if_pos hpeer] at hcall
      exact (hmoves h.swap hcall).swap
  · next hport =>
      rw [if_neg hport] at hcall
      exact hmoves h hcall

/-- Messages are handed only to ports whose queue can become busy, and a capacity is set only to what
the queue holds, or above it if the queue takes another message. -/
def CapacityKept (s : Session Msg) (call : Call Msg) : Prop :=
  (if call.onPeer then s.ports.swap else s.ports).Permits Limited Fits call.op

instance (s : Session Msg) (call : Call Msg) : Decidable (s.CapacityKept call) :=
  inferInstanceAs (Decidable ((if call.onPeer then s.ports.swap else s.ports).Permits Limited Fits call.op))

theorem roomy_after : ∀ {calls : List (Call Msg)} {s : Session Msg}, EachQueue Roomy s.ports →
    AtEach Session.call CapacityKept s calls → EachQueue Roomy (s.after calls).ports
  | [], _, h, _ => h
  | call :: calls, s, h, hkept => by
    obtain ⟨hcall, hrest⟩ := hkept (s.handle call) rfl
    have hnext : EachQueue Roomy (s.handle call).ports := by
      rw [handle_ports]
      exact h.handle Roomy.move hcall
    have hafter : EachQueue Roomy ((s.handle call).after calls).ports := roomy_after hnext hrest
    exact hafter

/-! ## Busy -/

/-- Where `Send` and `Receive` return that the port is busy, the queues are as before. -/
structure BusyKeeps (ports : Ports Msg) : Prop where
  send : ports.send.2 = .errBusy → ports.send.1.port.outgoingQueue = ports.port.outgoingQueue ∧
    ports.send.1.peer.incomingQueue = ports.peer.incomingQueue
  receive : ∀ msg, (ports.port.receive msg).2 = .errBusy → (ports.port.receive msg).1 = ports.port

theorem busyKeeps (ports : Ports Msg) : BusyKeeps ports where
  send h := by
    obtain ⟨hsame, -⟩ | ⟨-, -, -, -, hbusy⟩ | ⟨msg, rest, hq, hdrop | ⟨-, hsent⟩⟩ := ports.send_cases
    · rw [hsame]
      exact ⟨rfl, rfl⟩
    · rw [hbusy]
      exact ⟨rfl, rfl⟩
    · rw [hdrop] at h
      contradiction
    · rw [hsent] at h
      contradiction
  receive msg h := by
    obtain ⟨-, hr⟩ | ⟨-, -, hr⟩ | ⟨-, -, hr⟩ := Ports.receive_cases ports.port msg
    · rw [hr]
    · rw [hr]
    · rw [hr] at h
      contradiction

/-- **Delivery**: in both directions the messages dequeued are, in order and each once, the messages accepted,
but for those in queues that were cleared and those that `Send` handed to a port with suspended input; a call
that returns busy changes no queue; and no queue holds more than its capacity, as long as the capacities
are set above what the queues hold and the thresholds are not zero where messages come in. -/
theorem delivery (first second : PortParams) (calls : List (Call Msg)) :
    ((start first second).after calls).Delivered ∧
      BusyKeeps ((start first second).after calls).ports ∧ BusyKeeps ((start first second).after calls).ports.swap ∧
        (EachQueue (fun queue => 0 < queue.capacity.toNat) (start first second : Session Msg).ports →
          AtEach Session.call CapacityKept (start first second) calls →
            EachQueue (fun queue => queue.q.length ≤ queue.capacity.toNat) ((start first second).after calls).ports) := by
  refine ⟨(delivered_start first second).after, busyKeeps _, busyKeeps _, fun hpos hkept => ?_⟩
  have hstart : EachQueue Roomy (start first second : Session Msg).ports :=
    ⟨roomy_construct hpos.portIn _, roomy_construct hpos.portOut _, roomy_construct hpos.peerIn _,
      roomy_construct hpos.peerOut _⟩
  have hroomy := roomy_after hstart hkept
  exact ⟨hroomy.portIn.le, hroomy.portOut.le, hroomy.peerIn.le, hroomy.peerOut.le⟩

/-- A message is queued on each of two connected ports, and one is dequeued. -/
theorem delivery_exchange :
    let calls : List (Call Nat) :=
      [⟨false, .connect⟩, ⟨false, .queueOutgoingMsg 1⟩, ⟨true, .queueOutgoingMsg 2⟩, ⟨true, .dequeueIncomingMsg⟩]
    EachQueue (fun queue => queue.q.length ≤ queue.capacity.toNat) ((start .defaults .defaults).after calls).ports := by
  refine (delivery .defaults .defaults _).2.2.2 ⟨by decide, by decide, by decide, by decide⟩ ?_
  intro t ht
  refine ⟨trivial, ?_⟩
  obtain rfl := Option.some.inj ht
  intro t ht
  refine ⟨by decide, ?_⟩
  obtain rfl := Option.some.inj ht
  intro t ht
  refine ⟨by decide, ?_⟩
  obtain rfl := Option.some.inj ht
  intro t ht
  exact ⟨trivial, trivial⟩

/-- A message queued while the input of the peer is suspended is dropped when it is sent, and the one queued
afterwards arrives. -/
theorem suspended_drops : ¬ ∀ calls : List (Call Nat),
    (((start .defaults .defaults).after calls).sent.dequeued ++ ((start .defaults .defaults).after calls).ports.toPeer ++
      ((start .defaults .defaults).after calls).sent.cleared).Perm ((start .defaults .defaults).after calls).sent.accepted := by
  intro h
  have hperm := h [⟨false, .connect⟩, ⟨true, .suspendInput⟩, ⟨false, .queueOutgoingMsg 1⟩, ⟨false, .send⟩,
    ⟨true, .resumeInput⟩, ⟨false, .queueOutgoingMsg 2⟩, ⟨true, .dequeueIncomingMsg⟩]
  exact absurd hperm.length_eq (by decide)

end Session

end Ftke.PvmfPort
