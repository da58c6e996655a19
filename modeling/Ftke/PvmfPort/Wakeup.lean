import Mathlib.Logic.Function.Iterate
import Ftke.PvmfPort.Queues
import Ftke.Run

/-!
# Ftke.PvmfPort.Wakeup

A port that waits for its peer is woken.

* `WokenBy` — a port that believes its peer busy is told when the peer has drained;
* `Paired` — the invariant: such a port is connected, and the peer's incoming queue is
  busy with a threshold that it can drain below;
* `noLostWakeup_iff` — over whole runs, no wake-up is lost exactly if no call breaks the pairing;
* `disconnect_strands` — a port that is disconnected while it waits.
-/

namespace Ftke.PvmfPort

open PvmfPortBaseImplQueue

variable {Msg : Type*}

namespace Ports

/-- The ports after as many `DequeueIncomingMsg` on the first as its incoming queue holds messages. -/
def drained (ports : Ports Msg) : Ports Msg :=
  (fun p : Ports Msg => p.dequeueIncomingMsg.1)^[ports.port.incomingQueue.q.length] ports

/-- If the peer believes this port busy, then it is connected, the port cannot receive, and draining it
clears the peer's flag. -/
structure WokenBy (ports : Ports Msg) : Prop where
  connected : ports.peer.connectedPortBusy = true → ports.peer.connectedPort = true
  busy : ports.peer.connectedPortBusy = true →
    ports.port.incomingQueue.busy = true ∨ ports.port.inputSuspended = true
  woken : ports.peer.connectedPortBusy = true → ports.drained.peer.connectedPortBusy = false

/-- An outgoing queue that is busy has its threshold of messages left. -/
def Left (port : PvmfPortBaseImpl Msg) : Prop :=
  port.outgoingQueue.busy = true → port.outgoingQueue.threshold.toNat ≤ port.outgoingQueue.q.length

/-- No wake-up is lost, in either direction. -/
structure NoLostWakeup (ports : Ports Msg) : Prop where
  port : ports.WokenBy
  peer : ports.swap.WokenBy
  portLeft : Left ports.port
  peerLeft : Left ports.peer

/-- If the peer believes this port busy, then it is connected and the incoming queue of the port is busy,
with a threshold. -/
def Paired (ports : Ports Msg) : Prop :=
  ports.peer.connectedPortBusy = true →
    ports.peer.connectedPort = true ∧ ports.port.incomingQueue.busy = true ∧ ports.port.incomingQueue.threshold ≠ 0

/-- What the calls keep that meet the condition. -/
structure Sound (ports : Ports Msg) : Prop where
  connected : ports.port.connectedPort = ports.peer.connectedPort
  portPaired : ports.Paired
  peerPaired : ports.swap.Paired
  portIn : ports.port.incomingQueue.Sane
  portOut : ports.port.outgoingQueue.Sane
  peerIn : ports.peer.incomingQueue.Sane
  peerOut : ports.peer.outgoingQueue.Sane

theorem Sound.swap {ports : Ports Msg} (h : ports.Sound) : ports.swap.Sound :=
  ⟨h.connected.symm, h.peerPaired, h.portPaired, h.peerIn, h.peerOut, h.portIn, h.portOut⟩

/-- A threshold that a call sets for the incoming queue. -/
def newThreshold (queue : PvmfPortBaseImplQueue Msg) : Op Msg → UInt32
  | .setCapacity .incomingDataQueue capacity => capacity * queue.thresholdPercent / 100
  | .setThreshold .incomingDataQueue threshold =>
    if threshold > 100 then queue.threshold else queue.capacity * threshold / 100
  | _ => queue.threshold

/-- The call does not break the pairing: no port is disconnected while one waits for the other, none starts to
wait for a queue without a threshold, and no queue that is waited for loses its threshold. -/
def KeepsPairing (ports : Ports Msg) : Op Msg → Prop
  | .disconnect => ports.port.connectedPortBusy = false ∧ ports.peer.connectedPortBusy = false
  | .send =>
    ports.port.connectedPort = true → ports.port.outgoingQueue.q ≠ [] → ports.peer.inputSuspended = false →
      ports.peer.incomingQueue.busy = true → ports.peer.incomingQueue.threshold ≠ 0
  | op => ports.peer.connectedPortBusy = true → newThreshold ports.port.incomingQueue op ≠ 0

/-- The condition for a call on either port. -/
def CallKeepsPairing (ports : Ports Msg) (call : Call Msg) : Prop :=
  (if call.onPeer then ports.swap else ports).KeepsPairing call.op

/-- A call is always possible. -/
def call (ports : Ports Msg) (call : Call Msg) : Option (Ports Msg) := some (ports.handle call)

/-! ## Draining -/

variable {ports : Ports Msg}

/-- What holds of a port while it is drained: the peer has been told, or it can still be. -/
def CanWake (ports : Ports Msg) : Prop :=
  ports.peer.connectedPortBusy = false ∨
    ports.port.incomingQueue.Sane ∧ ports.port.incomingQueue.busy = true ∧ ports.port.incomingQueue.threshold ≠ 0 ∧
      ports.port.connectedPort = true

theorem CanWake.settle (h : ports.CanWake) (rest : List Msg) :
    (ports.settle (ports.port.incomingQueue.holding rest)).CanWake := by
  rw [Ports.settle]
  obtain htold | ⟨hsane, hbusy, hthreshold, hconnected⟩ := h
  · refine .inl ?_
    simp only
    split
    · rfl
    · exact htold
  · have hsane' : (ports.port.incomingQueue.holding rest).evaluated.Sane :=
      sane_evaluated hsane.percent hsane.threshold_eq
    cases hfull : (ports.port.incomingQueue.holding rest).isFull with
    | false =>
      refine .inl ?_
      have hbusy' : (ports.port.incomingQueue.holding rest).busy = true := hbusy
      simp [hbusy', hconnected, PvmfPortBaseImpl.readyToReceive]
    | true =>
      have heq : (ports.port.incomingQueue.holding rest).evaluated = ports.port.incomingQueue.holding rest := by
        simp [evaluated, hfull]
      rw [heq] at hsane' ⊢
      exact .inr ⟨hsane', hbusy, hthreshold, hconnected⟩

theorem CanWake.drain : ∀ {q : List Msg} {ports : Ports Msg}, ports.CanWake → ports.port.incomingQueue.q = q →
    ((fun p : Ports Msg => p.dequeueIncomingMsg.1)^[q.length] ports).peer.connectedPortBusy = false
  | [], ports, h, hq => by
    obtain htold | ⟨hsane, hbusy, hthreshold, -⟩ := h
    · exact htold
    · have hle := hsane.drained hbusy
      rw [hq, List.length_nil, Nat.le_zero] at hle
      exact absurd (UInt32.toNat_inj.mp hle) hthreshold
  | msg :: rest, ports, h, hq => by
    rw [List.length_cons, Function.iterate_succ_apply, ports.dequeueIncomingMsg_cons hq]
    exact (h.settle rest).drain (by simp [Ports.settle, holding])

theorem drain_without_threshold : ∀ {q : List Msg} {ports : Ports Msg}, ports.port.incomingQueue.threshold = 0 →
    ports.port.incomingQueue.q = q →
    ((fun p : Ports Msg => p.dequeueIncomingMsg.1)^[q.length] ports).peer.connectedPortBusy = ports.peer.connectedPortBusy
  | [], _, _, _ => rfl
  | msg :: rest, ports, hzero, hq => by
    have hfull : (ports.port.incomingQueue.holding rest).isFull = true := by simp [isFull, holding, hzero]
    have heq : (ports.port.incomingQueue.holding rest).evaluated = ports.port.incomingQueue.holding rest := by
      simp [evaluated, hfull]
    have hsettle : ports.settle (ports.port.incomingQueue.holding rest) =
        { ports with port := { ports.port with incomingQueue := ports.port.incomingQueue.holding rest } } := by
      simp [Ports.settle, heq, hfull]
    rw [List.length_cons, Function.iterate_succ_apply, ports.dequeueIncomingMsg_cons hq, hsettle]
    exact drain_without_threshold hzero rfl

theorem Paired.wokenBy (h : ports.Paired) (hconnected : ports.port.connectedPort = ports.peer.connectedPort)
    (hsane : ports.port.incomingQueue.Sane) : ports.WokenBy where
  connected hwaits := (h hwaits).1
  busy hwaits := .inl (h hwaits).2.1
  woken hwaits := by
    obtain ⟨hpeer, hbusy, hthreshold⟩ := h hwaits
    exact CanWake.drain (.inr ⟨hsane, hbusy, hthreshold, hconnected.trans hpeer⟩) rfl

theorem Sound.noLostWakeup (h : ports.Sound) : ports.NoLostWakeup where
  port := h.portPaired.wokenBy h.connected h.portIn
  peer := h.peerPaired.wokenBy h.connected.symm h.peerIn
  portLeft := h.portOut.drained
  peerLeft := h.peerOut.drained

theorem WokenBy.threshold_ne_zero (h : ports.WokenBy) (hwaits : ports.peer.connectedPortBusy = true) :
    ports.port.incomingQueue.threshold ≠ 0 := by
  intro hzero
  have hstill := drain_without_threshold hzero rfl
  have hwoken := h.woken hwaits
  rw [drained, hstill, hwaits] at hwoken
  contradiction

/-! ## Calls -/

variable {queue : PvmfPortBaseImplQueue Msg}

theorem Paired.settle (h : ports.Paired) (hconnected : ports.port.connectedPort = ports.peer.connectedPort)
    (hbusy : queue.busy = ports.port.incomingQueue.busy)
    (hthreshold : ports.peer.connectedPortBusy = true → queue.threshold ≠ 0) : (ports.settle queue).Paired := by
  intro hwaits
  by_cases htold : (queue.busy && !queue.isFull && ports.port.connectedPort) = true
  · have hpeer : (ports.settle queue).peer = ports.peer.readyToReceive := if_pos htold
    rw [hpeer] at hwaits
    contradiction
  · have hpeer : (ports.settle queue).peer = ports.peer := if_neg htold
    rw [hpeer] at hwaits ⊢
    obtain ⟨hpeerConnected, hwasBusy, -⟩ := h hwaits
    have hfull : queue.isFull = true := by
      rw [hbusy, hwasBusy, hconnected, hpeerConnected] at htold
      simpa using htold
    have heq : queue.evaluated = queue := by simp [evaluated, hfull]
    rw [settle_port, heq]
    exact ⟨hpeerConnected, hbusy.trans hwasBusy, hthreshold hwaits⟩

/-- A call on this port that changes only its own incoming queue does not touch what it waits for itself. -/
theorem Paired.swap_settle (h : ports.swap.Paired) (queue : PvmfPortBaseImplQueue Msg) :
    (ports.settle queue).swap.Paired := by
  intro hwaits
  have hqueue := ports.settle_peer_incomingQueue queue
  simp only [Ports.swap] at hqueue ⊢
  rw [hqueue]
  exact h hwaits

/-- What a call does to who waits for whom. -/
structure PairedBoth (ports : Ports Msg) : Prop where
  connected : ports.port.connectedPort = ports.peer.connectedPort
  port : ports.Paired
  peer : ports.swap.Paired

theorem PairedBoth.settle (h : ports.PairedBoth) (hbusy : queue.busy = ports.port.incomingQueue.busy)
    (hthreshold : ports.peer.connectedPortBusy = true → queue.threshold ≠ 0) : (ports.settle queue).PairedBoth where
  connected := by
    rw [Ports.settle]
    simp only
    split <;> exact h.connected
  port := h.port.settle h.connected hbusy hthreshold
  peer := h.peer.swap_settle queue

theorem PairedBoth.setQueue (h : ports.PairedBoth) (type : TPvmfPortBaseImplQueueType)
    {set : PvmfPortBaseImplQueue Msg → PvmfPortBaseImplQueue Msg × PVMFStatus} (hset : ∀ queue, (set queue).1.busy = queue.busy)
    (hthreshold : ports.peer.connectedPortBusy = true →
      type = .incomingDataQueue → (set ports.port.incomingQueue).1.threshold ≠ 0) :
    (ports.setQueue type set).1.PairedBoth := by
  cases type with
  | incomingDataQueue =>
    have hsettle := h.settle (hset ports.port.incomingQueue) fun hwaits => hthreshold hwaits rfl
    by_cases hstatus : (set ports.port.incomingQueue).2 = .success
    · rw [setQueue_incoming ports set hstatus]
      exact hsettle
    · simp only [Ports.setQueue, if_neg hstatus]
      refine ⟨h.connected, fun hwaits => ?_, h.peer⟩
      obtain ⟨hpeer, hwasBusy, -⟩ := h.port hwaits
      exact ⟨hpeer, (hset _).trans hwasBusy, hthreshold hwaits rfl⟩
  | outgoingDataQueue =>
    by_cases hstatus : (set ports.port.outgoingQueue).2 = .success
    · rw [setQueue_outgoing ports set hstatus]
      exact ⟨h.connected, h.port, h.peer⟩
    · simp only [Ports.setQueue, if_neg hstatus]
      exact ⟨h.connected, h.port, h.peer⟩

/-- **A call** that keeps the pairing. -/
theorem PairedBoth.apply (h : ports.PairedBoth) {op : Op Msg} (hop : ports.KeepsPairing op) :
    (ports.apply op).PairedBoth := by
  cases op with
  | connect =>
    rw [Ports.apply, Ports.connect, PvmfPortBaseImpl.peerConnect]
    have hc := h.connected
    cases hport : ports.port.connectedPort with
    | true => exact h
    | false =>
      have hpeer : ports.peer.connectedPort = false := hc.symm.trans hport
      simp only [hpeer, Bool.false_eq_true, if_false, ne_eq, not_true_eq_false]
      refine ⟨rfl, fun hwaits => ?_, fun hwaits => ?_⟩
      · have hwas := (h.port hwaits).1
        rw [hpeer] at hwas
        contradiction
      · have hwas : ports.port.connectedPort = true := (h.peer hwaits).1
        rw [hport] at hwas
        contradiction
  | disconnect =>
    obtain ⟨hport, hpeer⟩ := hop
    rw [Ports.apply, disconnect_eq]
    split
    · next hconnected =>
        rw [if_pos (h.connected.symm.trans hconnected)]
        refine ⟨rfl, fun hwaits => ?_, fun hwaits => ?_⟩
        · have hfalse := hpeer.symm.trans hwaits
          contradiction
        · have hfalse := hport.symm.trans hwaits
          contradiction
    · exact h
  | queueOutgoingMsg msg =>
    rw [Ports.apply]
    obtain ⟨hsame, -⟩ | ⟨hout, hin, hpass⟩ | ⟨hout, hkeep⟩ := ports.queueOutgoingMsg_cases msg
    · rw [hsame]
      exact h
    · rw [hpass]
      refine ⟨h.connected, h.port, fun hwaits => ?_⟩
      have hbusy := (h.peer hwaits).2.1
      rw [Ports.swap, hin] at hbusy
      contradiction
    · rw [hkeep]
      exact ⟨h.connected, h.port, h.peer⟩
  | send =>
    rw [Ports.apply]
    obtain ⟨hsame, -⟩ | ⟨hconnected, hne, hin, hopen, hbusy⟩ | ⟨msg, rest, hq, hdrop | ⟨hin, hsent⟩⟩ := ports.send_cases
    · rw [hsame]
      exact h
    · rw [hbusy]
      exact ⟨h.connected, h.port, fun _ => ⟨hconnected, hin, hop hconnected hne hopen hin⟩⟩
    · rw [hdrop]
      exact ⟨h.connected, h.port, h.peer⟩
    · rw [hsent]
      refine ⟨h.connected, h.port, fun hwaits => ?_⟩
      have hbusy := (h.peer hwaits).2.1
      rw [Ports.swap, hin] at hbusy
      contradiction
  | dequeueIncomingMsg =>
    rw [Ports.apply]
    cases hq : ports.port.incomingQueue.q with
    | nil =>
      rw [Ports.dequeueIncomingMsg, hq]
      exact h
    | cons msg rest =>
      rw [ports.dequeueIncomingMsg_cons hq]
      exact h.settle rfl hop
  | clearMsgQueues =>
    rw [Ports.apply, clearMsgQueues_eq]
    have hsettle : (ports.settle (ports.port.incomingQueue.holding [])).PairedBoth := h.settle rfl hop
    exact ⟨hsettle.connected, hsettle.port, hsettle.peer⟩
  | suspendInput => exact ⟨h.connected, h.port, h.peer⟩
  | resumeInput => exact ⟨h.connected, h.port, h.peer⟩
  | setCapacity type capacity =>
    refine h.setQueue type (fun _ => rfl) fun hwaits htype => ?_
    subst htype
    exact hop hwaits
  | setThreshold type threshold =>
    refine h.setQueue type (fun queue => ?_) fun hwaits htype => ?_
    · rw [PvmfPortBaseImplQueue.setThreshold]
      split <;> rfl
    · subst htype
      have hne := hop hwaits
      rw [PvmfPortBaseImplQueue.setThreshold]
      rw [newThreshold] at hne
      split at hne
      · next hlarge => rwa [if_pos hlarge]
      · next hsmall => rwa [if_neg hsmall]

/-! ## Runs -/

theorem Sound.pairedBoth (h : ports.Sound) : ports.PairedBoth := ⟨h.connected, h.portPaired, h.peerPaired⟩

theorem permits_all (ports : Ports Msg) (op : Op Msg) : ports.Permits (fun _ => True) (fun _ _ => True) op := by
  cases op <;> trivial

theorem Sound.apply (h : ports.Sound) {op : Op Msg} (hop : ports.KeepsPairing op) : (ports.apply op).Sound := by
  have hmoves := ports.moves_apply op (ports.permits_all op)
  have hpaired := h.pairedBoth.apply hop
  exact ⟨hpaired.connected, hpaired.port, hpaired.peer, h.portIn.move hmoves.portIn, h.portOut.move hmoves.portOut,
    h.peerIn.move hmoves.peerIn, h.peerOut.move hmoves.peerOut⟩

theorem Sound.handle (h : ports.Sound) {call : Call Msg} (hcall : ports.CallKeepsPairing call) :
    (ports.handle call).Sound := by
  rw [CallKeepsPairing] at hcall
  rw [Ports.handle]
  split
  · next hpeer =>
      rw [if_pos hpeer] at hcall
      exact (h.swap.apply hcall).swap
  · next hport =>
      rw [if_neg hport] at hcall
      exact h.apply hcall

theorem send_busy (hconnected : ports.port.connectedPort = true) (hne : ports.port.outgoingQueue.q ≠ [])
    (hopen : ports.peer.inputSuspended = false) (hbusy : ports.peer.incomingQueue.busy = true) :
    ports.send.1 = { ports with port := { ports.port with connectedPortBusy := true } } := by
  obtain ⟨⟨connected, incoming, outgoing, waits, suspended⟩, peer⟩ := ports
  obtain ⟨msg, rest, hq⟩ := List.exists_cons_of_ne_nil hne
  simp only at hconnected hq hopen hbusy
  cases waits <;> simp [send, hconnected, hq, PvmfPortBaseImpl.receive, hopen, hbusy]

theorem threshold_ne_zero_of_settle (hafter : (ports.settle queue).WokenBy)
    (hwaits : ports.peer.connectedPortBusy = true) : queue.threshold ≠ 0 := by
  intro hzero
  have hfull : queue.isFull = true := by simp [isFull, hzero]
  have hsettle : ports.settle queue = { ports with port := { ports.port with incomingQueue := queue } } := by
    simp [Ports.settle, evaluated, hfull]
  rw [hsettle] at hafter
  exact hafter.threshold_ne_zero hwaits hzero

/-- **Only a call that keeps the pairing** loses no wake-up. -/
theorem Sound.keepsPairing (h : ports.Sound) {op : Op Msg} (hafter : (ports.apply op).NoLostWakeup) :
    ports.KeepsPairing op := by
  have hthreshold : ports.peer.connectedPortBusy = true → ports.port.incomingQueue.threshold ≠ 0 :=
    fun hwaits => (h.portPaired hwaits).2.2
  cases op with
  | disconnect =>
    rw [Ports.apply, disconnect_eq] at hafter
    split at hafter
    · next hconnected =>
        rw [if_pos (h.connected.symm.trans hconnected)] at hafter
        refine ⟨Bool.eq_false_iff.mpr fun hwaits => ?_, Bool.eq_false_iff.mpr fun hwaits => ?_⟩
        · exact Bool.false_ne_true (hafter.peer.connected hwaits)
        · exact Bool.false_ne_true (hafter.port.connected hwaits)
    · next hnot =>
        refine ⟨Bool.eq_false_iff.mpr fun hwaits => ?_, Bool.eq_false_iff.mpr fun hwaits => ?_⟩
        · exact hnot (h.peerPaired hwaits).1
        · exact hnot (h.connected.trans (h.portPaired hwaits).1)
  | send =>
    intro hconnected hne hopen hbusy
    have hpeer := hafter.peer
    rw [Ports.apply, send_busy hconnected hne hopen hbusy] at hpeer
    exact hpeer.threshold_ne_zero rfl
  | setCapacity type capacity =>
    cases type with
    | incomingDataQueue =>
      intro hwaits
      have hset : (ports.setCapacity .incomingDataQueue capacity).1 = ports.settle _ :=
        setQueue_incoming ports (fun queue => queue.setCapacity capacity) rfl
      have hwoken := hafter.port
      rw [Ports.apply, hset] at hwoken
      exact threshold_ne_zero_of_settle hwoken hwaits
    | outgoingDataQueue => exact hthreshold
  | setThreshold type threshold =>
    cases type with
    | incomingDataQueue =>
      intro hwaits
      rw [newThreshold]
      split
      · exact hthreshold hwaits
      · next hsmall =>
          have hstatus : (ports.port.incomingQueue.setThreshold threshold).2 = .success := by
            rw [PvmfPortBaseImplQueue.setThreshold, if_neg hsmall]
          have hset : (ports.setThreshold .incomingDataQueue threshold).1 = ports.settle _ :=
            setQueue_incoming ports (fun queue => queue.setThreshold threshold) hstatus
          have hwoken := hafter.port
          rw [Ports.apply, hset, PvmfPortBaseImplQueue.setThreshold, if_neg hsmall] at hwoken
          exact threshold_ne_zero_of_settle hwoken hwaits
    | outgoingDataQueue => exact hthreshold
  | _ => exact hthreshold

theorem NoLostWakeup.swap (h : ports.NoLostWakeup) : ports.swap.NoLostWakeup := ⟨h.peer, h.port, h.peerLeft, h.portLeft⟩

theorem Sound.callKeepsPairing (h : ports.Sound) {call : Call Msg} (hafter : (ports.handle call).NoLostWakeup) :
    ports.CallKeepsPairing call := by
  rw [Ports.handle] at hafter
  rw [CallKeepsPairing]
  split at hafter
  · next hpeer =>
      rw [if_pos hpeer]
      exact h.swap.keepsPairing hafter.swap
  · next hport =>
      rw [if_neg hport]
      exact h.keepsPairing hafter

theorem sound_start (first second : PortParams) : (start first second : Ports Msg).Sound where
  connected := rfl
  portPaired hwaits := by simp [start, PortParams.new] at hwaits
  peerPaired hwaits := by simp [start, PortParams.new, Ports.swap] at hwaits
  portIn := sane_construct _ _
  portOut := sane_construct _ _
  peerIn := sane_construct _ _
  peerOut := sane_construct _ _

/-- **Wake-ups**: throughout a run every port that believes its peer busy is connected and will be told when the
peer has drained, and every busy outgoing queue has its threshold of messages left, exactly if each call of the
run keeps the pairing. -/
theorem noLostWakeup_iff (first second : PortParams) (calls : List (Call Msg)) :
    Always call NoLostWakeup (start first second) calls ↔ AtEach call CallKeepsPairing (start first second) calls := by
  refine always_iff (fun _ => Sound.noLostWakeup) (fun s i t h hstep hcall => ?_) (fun s i t h hstep hafter => ?_) calls _
    (sound_start first second)
  · obtain rfl := Option.some.inj hstep
    exact h.handle hcall
  · obtain rfl := Option.some.inj hstep
    exact h.callKeepsPairing hafter

/-- A port waits for its peer, whose queue holds one message, when it is disconnected. -/
theorem disconnect_strands : ¬ ∀ calls : List (Call Nat),
    Always call NoLostWakeup (start ⟨1, 100, 1, 100⟩ ⟨1, 100, 1, 100⟩) calls := by
  intro h
  have hend := (h [⟨false, .connect⟩, ⟨false, .queueOutgoingMsg 1⟩, ⟨false, .queueOutgoingMsg 2⟩, ⟨false, .send⟩,
    ⟨false, .disconnect⟩]).last rfl
  exact absurd (hend.peer.connected (by decide)) (by decide)

end Ports

end Ftke.PvmfPort
