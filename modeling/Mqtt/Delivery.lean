import Mqtt.Packet

/-! One packet on its way through its handshake. -/
namespace Mqtt

/-- Who drives the handshake: outgoing deliveries are ours, incoming ones the broker's. -/
inductive Direction where
  | outgoing | incoming
  deriving Repr, DecidableEq

/-- The two sides number their packets separately, so the direction belongs to the identity. -/
structure Key where
  id : UInt16
  direction : Direction
  deriving Repr, DecidableEq

inductive Stage where
  | queued0 | queued1 | queued2
  | awaitPuback | awaitPubrec | awaitPubrel | awaitPubcomp
  | sendPubrel | sendSubscribe | sendUnsubscribe
  | awaitSuback | awaitUnsuback
  deriving Repr, DecidableEq

def Stage.isWaiting : Stage → Bool
  | .awaitPuback | .awaitPubrec | .awaitPubrel | .awaitPubcomp | .awaitSuback | .awaitUnsuback =>
    true
  | _ => false

def Stage.ofQos (qos : UInt8) : Stage :=
  if qos = 0 then .queued0 else if qos = 1 then .queued1 else .queued2

structure Delivery where
  packet : Packet
  stage : Stage
  direction : Direction
  id : UInt16
  /-- How often the packet of the current step has been sent. -/
  attempts : Nat
  sentAt : Option Nat
  deriving Repr, DecidableEq

namespace Delivery

/-- Our own message. It has an identifier in any case, which travels only above quality 0. -/
def publish (id : UInt16) (p : Publish) : Delivery :=
  { packet := .publish { p with id := if p.qos = 0 then none else some id }
    stage := .ofQos p.qos, direction := .outgoing, id, attempts := 0, sentAt := none }

def subscribe (p : Subscribe) : Delivery :=
  { packet := .subscribe p, stage := .sendSubscribe, direction := .outgoing, id := p.id
    attempts := 0, sentAt := none }

def unsubscribe (p : Unsubscribe) : Delivery :=
  { packet := .unsubscribe p, stage := .sendUnsubscribe, direction := .outgoing, id := p.id
    attempts := 0, sentAt := none }

/-- A message from the broker; 0 stands for no identifier. -/
def received (p : Publish) : Delivery :=
  { packet := .publish p, stage := .ofQos p.qos, direction := .incoming, id := p.id.getD 0
    attempts := 0, sentAt := none }

def key (d : Delivery) : Key :=
  { id := d.id, direction := d.direction }

def message? (d : Delivery) : Option Publish :=
  match d.packet with
  | .publish p => some p
  | _ => none

/-- Subscriptions and their removal count as quality 1. -/
def qos (d : Delivery) : UInt8 :=
  match d.message? with
  | some p => p.qos
  | none => 1

/-- Only messages above quality 0 outlive a connection. -/
def isTracked (d : Delivery) : Bool :=
  match d.message? with
  | some p => p.qos != 0
  | none => false

/-- When the answer is overdue, for what can be sent again. -/
def dueAt (d : Delivery) (delay : Nat) : Option Nat :=
  if d.direction = .outgoing ∧ d.stage.isWaiting = true then d.sentAt.map (· + delay) else none

def sent (d : Delivery) (stage : Stage) (now : Nat) : Delivery :=
  { d with stage, attempts := d.attempts + 1, sentAt := some now }

def withDup (d : Delivery) (dup : Bool) : Delivery :=
  match d.packet with
  | .publish p => { d with packet := .publish { p with dup } }
  | _ => d

/-- Back to the step that a new connection has to send again; a repeated PUBLISH is a duplicate. -/
def rewound (d : Delivery) : Delivery :=
  let d := { d with attempts := 0, sentAt := none }
  match d.direction, d.stage with
  | .outgoing, .awaitPuback => { d.withDup true with stage := .queued1 }
  | .outgoing, .awaitPubrec => { d.withDup true with stage := .queued2 }
  | .outgoing, .awaitPubcomp => { d.withDup false with stage := .sendPubrel }
  | _, _ => d

end Delivery
end Mqtt
