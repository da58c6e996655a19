import Ftke.PvmfPort

/-!
# Ftke.PvmfPort.Queues

What a call does to the queues of two ports.

* `Move` — what may happen to one queue;
* `moves_apply` — a call makes at most one move with each of the four queues;
* `Sane` — a busy queue has not drained below its threshold.
-/

namespace Ftke.PvmfPort

variable {Msg : Type*}

namespace PvmfPortBaseImplQueue

/-- A busy queue that is not full is busy no longer. -/
def evaluated (queue : PvmfPortBaseImplQueue Msg) : PvmfPortBaseImplQueue Msg :=
  if queue.busy && !queue.isFull then { queue with busy := false } else queue

/-- The queue with other messages. -/
def holding (queue : PvmfPortBaseImplQueue Msg) (q : List Msg) : PvmfPortBaseImplQueue Msg := { queue with q := q }

/-- The queue of a port that has received a message. -/
def received (queue : PvmfPortBaseImplQueue Msg) (msg : Msg) : PvmfPortBaseImplQueue Msg :=
  let queue := { queue with q := queue.q ++ [msg] }
  if queue.threshold ≠ 0 ∧ queue.capacity.toNat ≤ queue.q.length then { queue with busy := true } else queue

/-- The queue of a port that has kept a message that its peer did not take. -/
def kept (queue : PvmfPortBaseImplQueue Msg) (msg : Msg) : PvmfPortBaseImplQueue Msg :=
  let queue := { queue with q := queue.q ++ [msg] }
  if queue.isFull then { queue with busy := true } else queue

@[simp] theorem evaluated_q (queue : PvmfPortBaseImplQueue Msg) : queue.evaluated.q = queue.q := by
  rw [evaluated]
  split <;> rfl

end PvmfPortBaseImplQueue

open PvmfPortBaseImplQueue

/-- What may happen to a queue, where only the queues of `receives` take messages and only the
capacities of `sets` are set. -/
inductive Move (receives : PvmfPortBaseImplQueue Msg → Prop) (sets : PvmfPortBaseImplQueue Msg → UInt32 → Prop) :
    PvmfPortBaseImplQueue Msg → PvmfPortBaseImplQueue Msg → Prop
  | none (queue) : Move receives sets queue queue
  | receive (queue msg) : queue.busy = false → receives queue → Move receives sets queue (queue.received msg)
  | keep (queue msg) : queue.busy = false → Move receives sets queue (queue.kept msg)
  | pass (queue msg) : queue.busy = false → Move receives sets queue (queue.holding (queue.q ++ [msg]).tail)
  | pop (queue msg rest) : queue.q = msg :: rest → Move receives sets queue (queue.holding rest).evaluated
  | clear (queue) : Move receives sets queue (queue.holding []).evaluated
  | reset (queue) : Move receives sets queue { queue with q := [], busy := false }
  | setCapacity (queue capacity) : sets queue capacity → Move receives sets queue (queue.setCapacity capacity).1.evaluated
  | setThreshold (queue threshold) : Move receives sets queue (queue.setThreshold threshold).1.evaluated

/-! ## The operations in terms of the queues -/

namespace Ports

variable (ports : Ports Msg)

/-- The ports after the incoming queue of the first has changed and been looked at. -/
def settle (queue : PvmfPortBaseImplQueue Msg) : Ports Msg where
  port := { ports.port with incomingQueue := queue.evaluated }
  peer := if queue.busy && !queue.isFull && ports.port.connectedPort then ports.peer.readyToReceive else ports.peer

theorem evaluateIncomingBusy_eq : ports.evaluateIncomingBusy = ports.settle ports.port.incomingQueue := by
  rw [evaluateIncomingBusy, settle, evaluated, PvmfPortBaseImpl.isIncomingFull]
  cases ports.port.incomingQueue.busy <;> cases ports.port.incomingQueue.isFull <;> simp

theorem evaluateOutgoingBusy_eq (port : PvmfPortBaseImpl Msg) :
    port.evaluateOutgoingBusy = { port with outgoingQueue := port.outgoingQueue.evaluated } := by
  rw [PvmfPortBaseImpl.evaluateOutgoingBusy, evaluated, PvmfPortBaseImpl.isOutgoingFull]
  cases port.outgoingQueue.busy <;> cases port.outgoingQueue.isFull <;> simp

theorem settle_of_not_busy (queue : PvmfPortBaseImplQueue Msg) (h : queue.busy = false) :
    ports.settle queue = { ports with port := { ports.port with incomingQueue := queue } } := by
  simp [settle, evaluated, h]

theorem evaluated_of_not_busy {queue : PvmfPortBaseImplQueue Msg} (h : queue.busy = false) : queue.evaluated = queue := by
  simp [evaluated, h]

theorem dequeueIncomingMsg_cons {msg : Msg} {rest : List Msg} (h : ports.port.incomingQueue.q = msg :: rest) :
    ports.dequeueIncomingMsg =
      (ports.settle (ports.port.incomingQueue.holding rest), some msg, .success) := by
  rw [dequeueIncomingMsg, h]
  simp only [evaluateIncomingBusy_eq]
  split
  · rfl
  · next hbusy =>
      have hnot : (ports.port.incomingQueue.holding rest).busy = false := Bool.eq_false_iff.mpr hbusy
      rw [ports.settle_of_not_busy _ hnot]
      rfl

theorem clearMsgQueues_eq :
    ports.clearMsgQueues.1 =
      { ports.settle (ports.port.incomingQueue.holding []) with
        port :=
          { ports.port with
            incomingQueue := (ports.port.incomingQueue.holding []).evaluated
            outgoingQueue := (ports.port.outgoingQueue.holding []).evaluated } } := by
  rw [clearMsgQueues]
  cases hin : ports.port.incomingQueue.busy <;> cases hout : ports.port.outgoingQueue.busy <;>
    simp [hin, hout, evaluateIncomingBusy_eq, evaluateOutgoingBusy_eq, settle, evaluated, holding]

theorem setQueue_incoming (set : PvmfPortBaseImplQueue Msg → PvmfPortBaseImplQueue Msg × PVMFStatus)
    (h : (set ports.port.incomingQueue).2 = .success) :
    (ports.setQueue .incomingDataQueue set).1 = ports.settle (set ports.port.incomingQueue).1 := by
  rw [setQueue]
  simp only [h, if_true, evaluateIncomingBusy_eq]
  rfl

theorem setQueue_outgoing (set : PvmfPortBaseImplQueue Msg → PvmfPortBaseImplQueue Msg × PVMFStatus)
    (h : (set ports.port.outgoingQueue).2 = .success) :
    (ports.setQueue .outgoingDataQueue set).1 =
      { ports with port := { ports.port with outgoingQueue := (set ports.port.outgoingQueue).1.evaluated } } := by
  rw [setQueue]
  simp only [h, if_true, evaluateOutgoingBusy_eq]

/-- A port that has been disconnected. -/
def unlinked (port : PvmfPortBaseImpl Msg) : PvmfPortBaseImpl Msg :=
  { port with
    connectedPort := false
    incomingQueue := { port.incomingQueue with q := [], busy := false }
    outgoingQueue := { port.outgoingQueue with q := [], busy := false } }

theorem disconnect_eq :
    ports.disconnect.1 =
      if ports.port.connectedPort then
        { port := unlinked ports.port
          peer := if ports.peer.connectedPort then unlinked ports.peer else ports.peer }
      else ports := by
  rw [disconnect]
  cases hport : ports.port.connectedPort <;> cases hpeer : ports.peer.connectedPort <;>
    simp [hpeer, peerDisconnect, swap, clearMsgQueues_eq, settle, evaluated, holding, unlinked,
      PvmfPortBaseImpl.resetBusy]

theorem receive_cases (port : PvmfPortBaseImpl Msg) (msg : Msg) :
    port.inputSuspended = true ∧ port.receive msg = (port, .errInvalidState) ∨
    port.inputSuspended = false ∧ port.incomingQueue.busy = true ∧ port.receive msg = (port, .errBusy) ∨
    port.inputSuspended = false ∧ port.incomingQueue.busy = false ∧
      port.receive msg = ({ port with incomingQueue := port.incomingQueue.received msg }, .success) := by
  rw [PvmfPortBaseImpl.receive]
  cases port.inputSuspended <;> cases port.incomingQueue.busy <;> simp [received]

/-- What comes of a message that is queued: it is refused, or one is passed to the peer, or it is kept. -/
theorem queueOutgoingMsg_cases (msg : Msg) :
    (ports.queueOutgoingMsg msg).1 = ports ∧ (ports.queueOutgoingMsg msg).2 ≠ .success ∨
    ports.port.outgoingQueue.busy = false ∧ ports.peer.incomingQueue.busy = false ∧
      ports.queueOutgoingMsg msg =
        ({ port := { ports.port with
              outgoingQueue := ports.port.outgoingQueue.holding (ports.port.outgoingQueue.q ++ [msg]).tail }
           peer := { ports.peer with
              incomingQueue := ports.peer.incomingQueue.received ((ports.port.outgoingQueue.q ++ [msg]).headD msg) } },
          .success) ∨
    ports.port.outgoingQueue.busy = false ∧
      ports.queueOutgoingMsg msg =
        ({ ports with port := { ports.port with outgoingQueue := ports.port.outgoingQueue.kept msg } }, .success) := by
  have hkeep : ∀ port : PvmfPortBaseImpl Msg,
      (if port.isOutgoingFull then { port with outgoingQueue := { port.outgoingQueue with busy := true } } else port) =
        { port with
          outgoingQueue :=
            if port.outgoingQueue.isFull then { port.outgoingQueue with busy := true } else port.outgoingQueue } := by
    intro port
    rw [PvmfPortBaseImpl.isOutgoingFull]
    split <;> rfl
  rw [queueOutgoingMsg]
  cases hconnected : ports.port.connectedPort with
  | false => exact .inl ⟨rfl, by simp⟩
  | true =>
    cases hbusy : ports.port.outgoingQueue.busy with
    | true => exact .inl ⟨rfl, by simp⟩
    | false =>
      refine .inr ?_
      obtain ⟨-, h⟩ | ⟨-, -, h⟩ | ⟨-, hpeer, h⟩ :=
        receive_cases ports.peer ((ports.port.outgoingQueue.q ++ [msg]).headD msg)
      · refine .inr ⟨rfl, ?_⟩
        simp only [h, hkeep, reduceCtorEq]
        rfl
      · refine .inr ⟨rfl, ?_⟩
        simp only [h, hkeep, reduceCtorEq]
        rfl
      · refine .inl ⟨rfl, hpeer, ?_⟩
        simp only [h, holding]
        rfl

/-- What comes of a message that is sent: there is none or it has to wait, or the peer is busy, or it is
dropped, or the peer receives it. -/
theorem send_cases :
    ports.send.1 = ports ∧ (ports.send.2 = .failure ∨ ports.send.2 = .errBusy) ∨
    ports.port.connectedPort = true ∧ ports.port.outgoingQueue.q ≠ [] ∧ ports.peer.incomingQueue.busy = true ∧
      ports.peer.inputSuspended = false ∧ ports.send = ({ ports with 
        port := { ports.port with connectedPortBusy := true } }, .errBusy) ∨
    ∃ msg rest, ports.port.outgoingQueue.q = msg :: rest ∧
      (ports.send = ({ ports with
            port := { ports.port with outgoingQueue := (ports.port.outgoingQueue.holding rest).evaluated } },
          .errInvalidState) ∨
        ports.peer.incomingQueue.busy = false ∧
          ports.send =
            ({ port := { ports.port with outgoingQueue := (ports.port.outgoingQueue.holding rest).evaluated }
               peer := { ports.peer with incomingQueue := ports.peer.incomingQueue.received msg } }, .success)) := by
  have hdrop : ∀ rest, (if ports.port.outgoingQueue.busy = true then
      ({ ports.port with outgoingQueue := ports.port.outgoingQueue.holding rest }).evaluateOutgoingBusy
      else { ports.port with outgoingQueue := ports.port.outgoingQueue.holding rest }) =
        { ports.port with outgoingQueue := (ports.port.outgoingQueue.holding rest).evaluated } := by
    intro rest
    split
    · exact evaluateOutgoingBusy_eq _
    · next hbusy =>
        have hnot : (ports.port.outgoingQueue.holding rest).busy = false := Bool.eq_false_iff.mpr hbusy
        rw [evaluated_of_not_busy hnot]
  rw [send]
  cases hconnected : ports.port.connectedPort with
  | false => exact .inl ⟨rfl, .inl rfl⟩
  | true =>
    cases hq : ports.port.outgoingQueue.q with
    | nil => exact .inl ⟨rfl, .inl rfl⟩
    | cons msg rest =>
      cases hwait : ports.port.connectedPortBusy with
      | true => exact .inl ⟨rfl, .inr rfl⟩
      | false =>
        obtain ⟨-, h⟩ | ⟨hopen, hpeer, h⟩ | ⟨-, hpeer, h⟩ := receive_cases ports.peer msg
        · refine .inr (.inr ⟨msg, rest, rfl, .inl ?_⟩)
          simp only [h, ← hdrop]
          rfl
        · refine .inr (.inl ⟨rfl, by simp, hpeer, hopen, ?_⟩)
          simp only [h]
          rfl
        · refine .inr (.inr ⟨msg, rest, rfl, .inr ⟨hpeer, ?_⟩⟩)
          simp only [h, ← hdrop]
          rfl

/-! ## One move for each queue -/

/-- A queue of a port. -/
def queueOf (port : PvmfPortBaseImpl Msg) : TPvmfPortBaseImplQueueType → PvmfPortBaseImplQueue Msg
  | .incomingDataQueue => port.incomingQueue
  | .outgoingDataQueue => port.outgoingQueue

/-- A call lets only the queues of `receives` take messages, and sets only the capacities of `sets`. -/
def Permits (receives : PvmfPortBaseImplQueue Msg → Prop) (sets : PvmfPortBaseImplQueue Msg → UInt32 → Prop) :
    Op Msg → Prop
  | .queueOutgoingMsg _ => receives ports.peer.incomingQueue
  | .send => receives ports.peer.incomingQueue
  | .setCapacity type capacity => sets (queueOf ports.port type) capacity
  | _ => True

variable {receives : PvmfPortBaseImplQueue Msg → Prop} {sets : PvmfPortBaseImplQueue Msg → UInt32 → Prop}

instance [DecidablePred receives] [∀ queue capacity, Decidable (sets queue capacity)] :
    ∀ op, Decidable (ports.Permits receives sets op)
  | .queueOutgoingMsg _ => inferInstanceAs (Decidable (receives _))
  | .send => inferInstanceAs (Decidable (receives _))
  | .setCapacity _ _ => inferInstanceAs (Decidable (sets _ _))
  | .connect | .disconnect | .dequeueIncomingMsg | .clearMsgQueues | .suspendInput | .resumeInput
  | .setThreshold _ _ => inferInstanceAs (Decidable True)

/-- Each of the four queues makes a move. -/
structure Moves (receives : PvmfPortBaseImplQueue Msg → Prop) (sets : PvmfPortBaseImplQueue Msg → UInt32 → Prop)
    (before after : Ports Msg) : Prop where
  portIn : Move receives sets before.port.incomingQueue after.port.incomingQueue
  portOut : Move receives sets before.port.outgoingQueue after.port.outgoingQueue
  peerIn : Move receives sets before.peer.incomingQueue after.peer.incomingQueue
  peerOut : Move receives sets before.peer.outgoingQueue after.peer.outgoingQueue

theorem Moves.refl : Moves receives sets ports ports := ⟨.none _, .none _, .none _, .none _⟩

theorem settle_port (queue : PvmfPortBaseImplQueue Msg) :
    (ports.settle queue).port = { ports.port with incomingQueue := queue.evaluated } := rfl

@[simp] theorem settle_peer_incomingQueue (queue : PvmfPortBaseImplQueue Msg) :
    (ports.settle queue).peer.incomingQueue = ports.peer.incomingQueue := by
  rw [settle]
  simp only
  split <;> rfl

@[simp] theorem settle_peer_outgoingQueue (queue : PvmfPortBaseImplQueue Msg) :
    (ports.settle queue).peer.outgoingQueue = ports.peer.outgoingQueue := by
  rw [settle]
  simp only
  split <;> rfl

theorem moves_settle {queue : PvmfPortBaseImplQueue Msg}
    (h : Move receives sets ports.port.incomingQueue queue.evaluated) : Moves receives sets ports (ports.settle queue) where
  portIn := h
  portOut := .none _
  peerIn := by
    rw [settle_peer_incomingQueue]
    exact .none _
  peerOut := by
    rw [settle_peer_outgoingQueue]
    exact .none _

theorem moves_setQueue (type : TPvmfPortBaseImplQueueType)
    {set : PvmfPortBaseImplQueue Msg → PvmfPortBaseImplQueue Msg × PVMFStatus}
    (hset : Move receives sets (queueOf ports.port type) (set (queueOf ports.port type)).1.evaluated)
    (hfail : (set (queueOf ports.port type)).2 ≠ .success → (set (queueOf ports.port type)).1 = queueOf ports.port type) :
    Moves receives sets ports (ports.setQueue type set).1 := by
  by_cases hstatus : (set (queueOf ports.port type)).2 = .success
  · cases type with
    | incomingDataQueue =>
      rw [setQueue_incoming ports set hstatus]
      exact ports.moves_settle hset
    | outgoingDataQueue =>
      rw [setQueue_outgoing ports set hstatus]
      exact ⟨.none _, hset, .none _, .none _⟩
  · have hsame := hfail hstatus
    have hports : (ports.setQueue type set).1 = ports := by
      cases type with
      | incomingDataQueue =>
        simp only [queueOf] at hstatus hsame
        simp only [setQueue, if_neg hstatus, hsame]
      | outgoingDataQueue =>
        simp only [queueOf] at hstatus hsame
        simp only [setQueue, if_neg hstatus, hsame]
    rw [hports]
    exact Moves.refl ports

/-- **A call** makes at most one move with each queue. -/
theorem moves_apply (op : Op Msg) (h : ports.Permits receives sets op) : Moves receives sets ports (ports.apply op) := by
  cases op with
  | connect =>
    rw [apply, connect, PvmfPortBaseImpl.peerConnect]
    cases ports.port.connectedPort <;> cases ports.peer.connectedPort <;> exact ⟨.none _, .none _, .none _, .none _⟩
  | disconnect =>
    rw [apply, disconnect_eq]
    split
    · refine ⟨.reset _, .reset _, ?_, ?_⟩
      · simp only
        split
        · exact .reset _
        · exact .none _
      · simp only
        split
        · exact .reset _
        · exact .none _
    · exact Moves.refl ports
  | queueOutgoingMsg msg =>
    rw [apply]
    obtain ⟨hsame, -⟩ | ⟨hout, hin, hpass⟩ | ⟨hout, hkeep⟩ := ports.queueOutgoingMsg_cases msg
    · rw [hsame]
      exact Moves.refl ports
    · rw [hpass]
      exact ⟨.none _, .pass _ msg hout, .receive _ _ hin h, .none _⟩
    · rw [hkeep]
      exact ⟨.none _, .keep _ msg hout, .none _, .none _⟩
  | send =>
    rw [apply]
    obtain ⟨hsame, -⟩ | ⟨-, -, -, -, hbusy⟩ | ⟨msg, rest, hq, hdrop | ⟨hin, hsent⟩⟩ := ports.send_cases
    · rw [hsame]
      exact Moves.refl ports
    · rw [hbusy]
      exact ⟨.none _, .none _, .none _, .none _⟩
    · rw [hdrop]
      exact ⟨.none _, .pop _ msg rest hq, .none _, .none _⟩
    · rw [hsent]
      exact ⟨.none _, .pop _ msg rest hq, .receive _ msg hin h, .none _⟩
  | dequeueIncomingMsg =>
    rw [apply]
    cases hq : ports.port.incomingQueue.q with
    | nil =>
      rw [dequeueIncomingMsg, hq]
      exact Moves.refl ports
    | cons msg rest =>
      rw [ports.dequeueIncomingMsg_cons hq]
      exact ports.moves_settle (.pop _ msg rest hq)
  | clearMsgQueues =>
    rw [apply, clearMsgQueues_eq]
    have hclear : Move receives sets ports.port.incomingQueue _ := .clear ports.port.incomingQueue
    have hsettle := ports.moves_settle hclear
    exact ⟨.clear _, .clear _, hsettle.peerIn, hsettle.peerOut⟩
  | suspendInput => exact ⟨.none _, .none _, .none _, .none _⟩
  | resumeInput => exact ⟨.none _, .none _, .none _, .none _⟩
  | setCapacity type capacity =>
    exact ports.moves_setQueue type (.setCapacity _ capacity h) fun hfail => absurd rfl hfail
  | setThreshold type threshold =>
    refine ports.moves_setQueue type (.setThreshold _ threshold) fun hfail => ?_
    rw [PvmfPortBaseImplQueue.setThreshold] at hfail ⊢
    split at hfail
    · next hlarge => rw [if_pos hlarge]
    · exact absurd rfl hfail

end Ports

/-! ## Busy queues -/

namespace PvmfPortBaseImplQueue

/-- The threshold is that of the capacity, and a busy queue has not drained below it. -/
structure Sane (queue : PvmfPortBaseImplQueue Msg) : Prop where
  percent : queue.thresholdPercent ≤ 100
  threshold_eq : queue.threshold = queue.capacity * queue.thresholdPercent / 100
  drained : queue.busy = true → queue.threshold.toNat ≤ queue.q.length

variable {queue queue' : PvmfPortBaseImplQueue Msg} {receives : PvmfPortBaseImplQueue Msg → Prop}
  {sets : PvmfPortBaseImplQueue Msg → UInt32 → Prop}

theorem threshold_le (hpercent : queue.thresholdPercent ≤ 100)
    (hthreshold : queue.threshold = queue.capacity * queue.thresholdPercent / 100) :
    queue.threshold.toNat ≤ queue.capacity.toNat := by
  have hp : queue.thresholdPercent.toNat ≤ 100 := UInt32.le_iff_toNat_le.mp hpercent
  rw [hthreshold, UInt32.toNat_div, UInt32.toNat_mul]
  calc queue.capacity.toNat * queue.thresholdPercent.toNat % 2 ^ 32 / 100
      ≤ queue.capacity.toNat * queue.thresholdPercent.toNat / 100 := Nat.div_le_div_right (Nat.mod_le _ _)
    _ ≤ queue.capacity.toNat * 100 / 100 := Nat.div_le_div_right (Nat.mul_le_mul_left _ hp)
    _ = queue.capacity.toNat := Nat.mul_div_cancel _ (by decide)

theorem sane_construct (cap thresh : UInt32) : (construct cap thresh : PvmfPortBaseImplQueue Msg).Sane where
  percent := by
    simp only [construct]
    split
    · exact UInt32.le_refl _
    · next h => exact UInt32.not_lt.mp h
  threshold_eq := rfl
  drained h := by simp [construct] at h

theorem threshold_le_of_isFull (hpercent : queue.thresholdPercent ≤ 100)
    (hthreshold : queue.threshold = queue.capacity * queue.thresholdPercent / 100) (h : queue.isFull = true) :
    queue.threshold.toNat ≤ queue.q.length := by
  have hle := threshold_le hpercent hthreshold
  rw [isFull] at h
  split at h
  · next hzero => simp [hzero]
  · split at h
    · omega
    · split at h
      · simpa using h
      · contradiction

theorem sane_evaluated (hpercent : queue.thresholdPercent ≤ 100)
    (hthreshold : queue.threshold = queue.capacity * queue.thresholdPercent / 100) : queue.evaluated.Sane := by
  rw [evaluated]
  split
  · exact ⟨hpercent, hthreshold, fun h => by simp at h⟩
  · next hnot =>
      refine ⟨hpercent, hthreshold, fun hbusy => threshold_le_of_isFull hpercent hthreshold ?_⟩
      simpa [hbusy] using hnot

theorem Sane.move (h : queue.Sane) (hmove : Move receives sets queue queue') : queue'.Sane := by
  cases hmove with
  | none => exact h
  | receive msg hbusy _ =>
    rw [received]
    split
    · next hfull =>
        have hle := threshold_le h.percent h.threshold_eq
        exact ⟨h.percent, h.threshold_eq, fun _ => Nat.le_trans hle hfull.2⟩
    · exact ⟨h.percent, h.threshold_eq, fun h => by simp [hbusy] at h⟩
  | keep msg hbusy =>
    rw [kept]
    split
    · next hfull =>
        have hle := @threshold_le_of_isFull _ { queue with q := queue.q ++ [msg] } h.percent h.threshold_eq hfull
        exact ⟨h.percent, h.threshold_eq, fun _ => hle⟩
    · exact ⟨h.percent, h.threshold_eq, fun h => by simp [hbusy] at h⟩
  | pass msg hbusy => exact ⟨h.percent, h.threshold_eq, fun h => by simp [holding, hbusy] at h⟩
  | pop msg rest hq => exact sane_evaluated h.percent h.threshold_eq
  | clear => exact sane_evaluated h.percent h.threshold_eq
  | reset => exact ⟨h.percent, h.threshold_eq, fun h => by simp at h⟩
  | setCapacity capacity _ => exact sane_evaluated h.percent rfl
  | setThreshold threshold =>
    rw [PvmfPortBaseImplQueue.setThreshold]
    split
    · exact sane_evaluated h.percent h.threshold_eq
    · next hle => exact sane_evaluated (UInt32.not_lt.mp hle) rfl

/-! ## Capacities -/

/-- The messages fit, and a queue that takes another one has room for it. -/
structure Roomy (queue : PvmfPortBaseImplQueue Msg) : Prop where
  pos : 0 < queue.capacity.toNat
  le : queue.q.length ≤ queue.capacity.toNat
  lt : queue.busy = false → queue.q.length < queue.capacity.toNat

/-- The capacity may be set: the messages fit, and one more if the queue takes one. -/
def Fits (queue : PvmfPortBaseImplQueue Msg) (capacity : UInt32) : Prop :=
  0 < capacity.toNat ∧ queue.q.length ≤ capacity.toNat ∧ (queue.busy = false → queue.q.length < capacity.toNat)

instance (queue : PvmfPortBaseImplQueue Msg) (capacity : UInt32) : Decidable (queue.Fits capacity) :=
  inferInstanceAs (Decidable (_ ∧ _ ∧ _))

/-- The queue becomes busy when it is full. -/
def Limited (queue : PvmfPortBaseImplQueue Msg) : Prop := queue.threshold ≠ 0

instance (queue : PvmfPortBaseImplQueue Msg) : Decidable queue.Limited := inferInstanceAs (Decidable (_ ≠ _))

theorem roomy_construct {cap : UInt32} (h : 0 < cap.toNat) (thresh : UInt32) :
    (construct cap thresh : PvmfPortBaseImplQueue Msg).Roomy := ⟨h, Nat.zero_le _, fun _ => h⟩

theorem Roomy.evaluated (h : queue.Roomy) : queue.evaluated.Roomy := by
  rw [PvmfPortBaseImplQueue.evaluated]
  split
  · next hready =>
      refine ⟨h.pos, h.le, fun _ => Nat.lt_of_le_of_ne h.le fun hfull => ?_⟩
      have hnot : queue.isFull = false := by simpa using (Bool.and_eq_true_iff.mp hready).2
      rw [isFull] at hnot
      split at hnot
      · contradiction
      · simp only [Bool.true_eq_false] at hnot
  · exact h

theorem Roomy.holding (h : queue.Roomy) {q : List Msg} (hle : q.length ≤ queue.q.length) : (queue.holding q).Roomy :=
  ⟨h.pos, Nat.le_trans hle h.le, fun hbusy => Nat.lt_of_le_of_lt hle (h.lt hbusy)⟩

theorem Roomy.move (h : queue.Roomy) (hmove : Move Limited Fits queue queue') : queue'.Roomy := by
  cases hmove with
  | none => exact h
  | receive msg hbusy hlimited =>
    have hlt := h.lt hbusy
    have hlen : (queue.q ++ [msg]).length = queue.q.length + 1 := by simp
    rw [received]
    split
    · exact ⟨h.pos, by simp only [hlen]; omega, fun h => by simp at h⟩
    · next hroom =>
        have hnot : ¬ queue.capacity.toNat ≤ (queue.q ++ [msg]).length := fun hle => hroom ⟨hlimited, hle⟩
        exact ⟨h.pos, by simp only [hlen]; omega, fun _ => Nat.lt_of_not_le hnot⟩
  | keep msg hbusy =>
    have hlt := h.lt hbusy
    have hlen : (queue.q ++ [msg]).length = queue.q.length + 1 := by simp
    rw [kept]
    split
    · exact ⟨h.pos, by simp only [hlen]; omega, fun h => by simp at h⟩
    · next hroom =>
        have hne : (queue.q ++ [msg]).length ≠ queue.capacity.toNat := by
          intro heq
          apply hroom
          simp only [isFull]
          split <;> rfl
        refine ⟨h.pos, by simp only [hlen]; omega, fun _ => ?_⟩
        simp only at hne ⊢
        omega
  | pass msg hbusy => exact h.holding (by simp)
  | pop msg rest hq => exact (h.holding (by rw [hq]; exact Nat.le_succ _)).evaluated
  | clear => exact (h.holding (Nat.zero_le _)).evaluated
  | reset => exact ⟨h.pos, Nat.zero_le _, fun _ => h.pos⟩
  | setCapacity capacity hfits =>
    have hset : (queue.setCapacity capacity).1.Roomy := ⟨hfits.1, hfits.2.1, hfits.2.2⟩
    exact hset.evaluated
  | setThreshold threshold =>
    have hset : (queue.setThreshold threshold).1.Roomy := by
      rw [PvmfPortBaseImplQueue.setThreshold]
      split
      · exact h
      · exact ⟨h.pos, h.le, h.lt⟩
    exact hset.evaluated

end PvmfPortBaseImplQueue

end Ftke.PvmfPort
