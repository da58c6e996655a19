import Mathlib.Algebra.Ring.Nat
import Mathlib.Data.List.Basic

/-!
# Ftke.PvmfPort

Two connected ports of the media framework (`pvmf_port_base_impl.cpp`).

A port has a queue of incoming and one of outgoing messages.  A queue that has
reached its capacity is busy until it has drained below its threshold; a port
whose peer was busy waits until it is told that the peer is ready.

* `PvmfPortBaseImplQueue`, `PvmfPortBaseImpl` — a queue and a port;
* `Ports` — the port that is called, with its peer; the operations are functions of both.
-/

namespace Ftke.PvmfPort

/-- The statuses that the ports return. -/
inductive PVMFStatus
  | success
  | failure
  | errBusy
  | errInvalidState
  deriving DecidableEq, Repr

/-- `TPvmfPortBaseImplQueueType`. -/
inductive TPvmfPortBaseImplQueueType
  | incomingDataQueue
  | outgoingDataQueue
  deriving DecidableEq, Repr

variable {Msg : Type*}

/-! ## Queues -/

/-- `PvmfPortBaseImplQueue`. -/
structure PvmfPortBaseImplQueue (Msg : Type*) where
  q : List Msg
  busy : Bool
  capacity : UInt32
  thresholdPercent : UInt32
  threshold : UInt32
  deriving DecidableEq, Repr

namespace PvmfPortBaseImplQueue

/-- `Construct`. -/
def construct (cap thresh : UInt32) : PvmfPortBaseImplQueue Msg :=
  let thresh := if thresh > 100 then 100 else thresh
  ⟨[], false, cap, thresh, cap * thresh / 100⟩

/-- `SetCapacity`. -/
def setCapacity (queue : PvmfPortBaseImplQueue Msg) (cap : UInt32) : PvmfPortBaseImplQueue Msg × PVMFStatus :=
  ({ queue with
      capacity := cap
      threshold := cap * queue.thresholdPercent / 100 }, .success)

/-- `SetThreshold`. -/
def setThreshold (queue : PvmfPortBaseImplQueue Msg) (thresh : UInt32) : PvmfPortBaseImplQueue Msg × PVMFStatus :=
  if thresh > 100 then (queue, .failure)
  else
    ({ queue with
        thresholdPercent := thresh
        threshold := queue.capacity * thresh / 100 }, .success)

/-- The test of `isIncomingFull` and `isOutgoingFull`: at capacity, or busy and not yet below the threshold. -/
def isFull (queue : PvmfPortBaseImplQueue Msg) : Bool :=
  if queue.threshold = 0 then true
  else if queue.q.length = queue.capacity.toNat then true
  else if queue.busy then decide (queue.threshold.toNat ≤ queue.q.length)
  else false

end PvmfPortBaseImplQueue

/-! ## Ports -/

/-- `PvmfPortBaseImpl`; of `iConnectedPort` whether it is the peer or null. -/
structure PvmfPortBaseImpl (Msg : Type*) where
  connectedPort : Bool
  incomingQueue : PvmfPortBaseImplQueue Msg
  outgoingQueue : PvmfPortBaseImplQueue Msg
  connectedPortBusy : Bool
  inputSuspended : Bool
  deriving DecidableEq, Repr

/-- The port that is called, and its peer. -/
structure Ports (Msg : Type*) where
  port : PvmfPortBaseImpl Msg
  peer : PvmfPortBaseImpl Msg
  deriving DecidableEq, Repr

namespace PvmfPortBaseImpl

/-- `isIncomingFull`. -/
def isIncomingFull (port : PvmfPortBaseImpl Msg) : Bool := port.incomingQueue.isFull

/-- `isOutgoingFull`. -/
def isOutgoingFull (port : PvmfPortBaseImpl Msg) : Bool := port.outgoingQueue.isFull

/-- `EvaluateOutgoingBusy`. -/
def evaluateOutgoingBusy (port : PvmfPortBaseImpl Msg) : PvmfPortBaseImpl Msg :=
  if port.outgoingQueue.busy && !port.isOutgoingFull then
    { port with outgoingQueue := { port.outgoingQueue with busy := false } }
  else port

/-- `ReadyToReceive`. -/
def readyToReceive (port : PvmfPortBaseImpl Msg) : PvmfPortBaseImpl Msg := { port with connectedPortBusy := false }

/-- `Receive`. -/
def receive (port : PvmfPortBaseImpl Msg) (msg : Msg) : PvmfPortBaseImpl Msg × PVMFStatus :=
  if port.inputSuspended then (port, .errInvalidState)
  else if port.incomingQueue.busy then (port, .errBusy)
  else
    let queue := { port.incomingQueue with q := port.incomingQueue.q ++ [msg] }
    let queue :=
      if queue.threshold ≠ 0 ∧ queue.capacity.toNat ≤ queue.q.length then { queue with busy := true } else queue
    ({ port with incomingQueue := queue }, .success)

/-- `SuspendInput`. -/
def suspendInput (port : PvmfPortBaseImpl Msg) : PvmfPortBaseImpl Msg := { port with inputSuspended := true }

/-- `ResumeInput`. -/
def resumeInput (port : PvmfPortBaseImpl Msg) : PvmfPortBaseImpl Msg := { port with inputSuspended := false }

/-- `PeerConnect`. -/
def peerConnect (port : PvmfPortBaseImpl Msg) : PvmfPortBaseImpl Msg × PVMFStatus :=
  if port.connectedPort then (port, .failure) else ({ port with connectedPort := true }, .success)

/-- The flags that `Disconnect` and `PeerDisconnect` reset, so that clearing the queues tells nobody. -/
def resetBusy (port : PvmfPortBaseImpl Msg) : PvmfPortBaseImpl Msg :=
  { port with
    incomingQueue := { port.incomingQueue with busy := false }
    outgoingQueue := { port.outgoingQueue with busy := false } }

end PvmfPortBaseImpl

/-- What a port is constructed with. -/
structure PortParams where
  inCapacity : UInt32
  inThreshold : UInt32
  outCapacity : UInt32
  outThreshold : UInt32

/-- The constructor with the parameters of both queues. -/
def PortParams.new (params : PortParams) : PvmfPortBaseImpl Msg where
  connectedPort := false
  incomingQueue := .construct params.inCapacity params.inThreshold
  outgoingQueue := .construct params.outCapacity params.outThreshold
  connectedPortBusy := false
  inputSuspended := false

/-- The parameters of the other constructor. -/
def PortParams.defaults : PortParams := ⟨10, 60, 10, 60⟩

namespace Ports

/-- Two new ports. -/
def start (first second : PortParams) : Ports Msg := ⟨first.new, second.new⟩

/-- The ports seen from the peer. -/
def swap (ports : Ports Msg) : Ports Msg := ⟨ports.peer, ports.port⟩

/-- `EvaluateIncomingBusy`: the peer is told when the port can receive again. -/
def evaluateIncomingBusy (ports : Ports Msg) : Ports Msg :=
  if ports.port.incomingQueue.busy && !ports.port.isIncomingFull then
    { port := { ports.port with incomingQueue := { ports.port.incomingQueue with busy := false } }
      peer := if ports.port.connectedPort then ports.peer.readyToReceive else ports.peer }
  else ports

/-- `Connect`. -/
def connect (ports : Ports Msg) : Ports Msg × PVMFStatus :=
  if ports.port.connectedPort then (ports, .failure)
  else
    let r := ports.peer.peerConnect
    if r.2 ≠ .success then ({ ports with peer := r.1 }, .failure)
    else ({ port := { ports.port with connectedPort := true }, peer := r.1 }, .success)

/-- `ClearMsgQueues`. -/
def clearMsgQueues (ports : Ports Msg) : Ports Msg × PVMFStatus :=
  let ports := { ports with
    port := { ports.port with incomingQueue := { ports.port.incomingQueue with q := [] } } }
  let ports := if ports.port.incomingQueue.busy then ports.evaluateIncomingBusy else ports
  let port := { ports.port with outgoingQueue := { ports.port.outgoingQueue with q := [] } }
  let port := if port.outgoingQueue.busy then port.evaluateOutgoingBusy else port
  ({ ports with port := port }, .success)

/-- `PeerDisconnect`. -/
def peerDisconnect (ports : Ports Msg) : Ports Msg × PVMFStatus :=
  if !ports.port.connectedPort then (ports, .failure)
  else
    let ports := { ports with port := ports.port.resetBusy }
    let ports := ports.clearMsgQueues.1
    ({ ports with port := { ports.port with connectedPort := false } }, .success)

/-- `Disconnect`. -/
def disconnect (ports : Ports Msg) : Ports Msg × PVMFStatus :=
  if !ports.port.connectedPort then (ports, .failure)
  else
    let ports := { ports with port := ports.port.resetBusy }
    let ports := ports.swap.peerDisconnect.1.swap
    let ports := { ports with port := { ports.port with connectedPort := false } }
    (ports.clearMsgQueues.1, .success)

/-- `QueueOutgoingMsg`: the first message is handed to the peer at once, if it takes it. -/
def queueOutgoingMsg (ports : Ports Msg) (msg : Msg) : Ports Msg × PVMFStatus :=
  if !ports.port.connectedPort then (ports, .failure)
  else if ports.port.outgoingQueue.busy then (ports, .errBusy)
  else
    let queue := { ports.port.outgoingQueue with q := ports.port.outgoingQueue.q ++ [msg] }
    let r := ports.peer.receive (queue.q.headD msg)
    if r.2 = .success then
      ({ port := { ports.port with outgoingQueue := { queue with q := queue.q.tail } }, peer := r.1 }, .success)
    else
      let port := { ports.port with outgoingQueue := queue }
      let port :=
        if port.isOutgoingFull then { port with outgoingQueue := { port.outgoingQueue with busy := true } } else port
      ({ port := port, peer := r.1 }, .success)

/-- `Send`: a message that the peer refuses for another reason than being busy is dropped. -/
def send (ports : Ports Msg) : Ports Msg × PVMFStatus :=
  if !ports.port.connectedPort then (ports, .failure)
  else
    match ports.port.outgoingQueue.q with
    | [] => (ports, .failure)
    | msg :: rest =>
      if ports.port.connectedPortBusy then (ports, .errBusy)
      else
        let r := ports.peer.receive msg
        if r.2 = .errBusy then ({ port := { ports.port with connectedPortBusy := true }, peer := r.1 }, .errBusy)
        else
          let port := { ports.port with outgoingQueue := { ports.port.outgoingQueue with q := rest } }
          let port := if port.outgoingQueue.busy then port.evaluateOutgoingBusy else port
          ({ port := port, peer := r.1 }, r.2)

/-- `DequeueIncomingMsg`, with the message. -/
def dequeueIncomingMsg (ports : Ports Msg) : Ports Msg × Option Msg × PVMFStatus :=
  match ports.port.incomingQueue.q with
  | [] => (ports, none, .failure)
  | msg :: rest =>
    let ports := { ports with
      port := { ports.port with incomingQueue := { ports.port.incomingQueue with q := rest } } }
    let ports := if ports.port.incomingQueue.busy then ports.evaluateIncomingBusy else ports
    (ports, some msg, .success)

/-- `SetCapacity` and `SetThreshold`: a queue is changed, and looked at again. -/
def setQueue (ports : Ports Msg) (type : TPvmfPortBaseImplQueueType)
    (set : PvmfPortBaseImplQueue Msg → PvmfPortBaseImplQueue Msg × PVMFStatus) : Ports Msg × PVMFStatus :=
  match type with
  | .incomingDataQueue =>
    let r := set ports.port.incomingQueue
    let ports := { ports with port := { ports.port with incomingQueue := r.1 } }
    (if r.2 = .success then ports.evaluateIncomingBusy else ports, r.2)
  | .outgoingDataQueue =>
    let r := set ports.port.outgoingQueue
    let port := { ports.port with outgoingQueue := r.1 }
    ({ ports with port := if r.2 = .success then port.evaluateOutgoingBusy else port }, r.2)

/-- `SetCapacity`. -/
def setCapacity (ports : Ports Msg) (type : TPvmfPortBaseImplQueueType) (capacity : UInt32) : Ports Msg × PVMFStatus :=
  ports.setQueue type fun queue => queue.setCapacity capacity

/-- `SetThreshold`. -/
def setThreshold (ports : Ports Msg) (type : TPvmfPortBaseImplQueueType) (threshold : UInt32) :
    Ports Msg × PVMFStatus :=
  ports.setQueue type fun queue => queue.setThreshold threshold

end Ports

/-! ## Calls -/

/-- The calls that may be made on a port. -/
inductive Op (Msg : Type*)
  | connect
  | disconnect
  | queueOutgoingMsg (msg : Msg)
  | send
  | dequeueIncomingMsg
  | clearMsgQueues
  | suspendInput
  | resumeInput
  | setCapacity (type : TPvmfPortBaseImplQueueType) (capacity : UInt32)
  | setThreshold (type : TPvmfPortBaseImplQueueType) (threshold : UInt32)
  deriving DecidableEq, Repr

/-- A call on the first or on the second of two ports. -/
structure Call (Msg : Type*) where
  onPeer : Bool
  op : Op Msg
  deriving DecidableEq, Repr

namespace Ports

/-- The ports after a call on the first. -/
def apply (ports : Ports Msg) : Op Msg → Ports Msg
  | .connect => ports.connect.1
  | .disconnect => ports.disconnect.1
  | .queueOutgoingMsg msg => (ports.queueOutgoingMsg msg).1
  | .send => ports.send.1
  | .dequeueIncomingMsg => ports.dequeueIncomingMsg.1
  | .clearMsgQueues => ports.clearMsgQueues.1
  | .suspendInput => { ports with port := ports.port.suspendInput }
  | .resumeInput => { ports with port := ports.port.resumeInput }
  | .setCapacity type capacity => (ports.setCapacity type capacity).1
  | .setThreshold type threshold => (ports.setThreshold type threshold).1

/-- The ports after a call. -/
def handle (ports : Ports Msg) (call : Call Msg) : Ports Msg :=
  if call.onPeer then (ports.swap.apply call.op).swap else ports.apply call.op

end Ports

end Ftke.PvmfPort
