import Mqtt.Session

/-! The single steps of a delivery, and what the application is told of them. -/
namespace Mqtt

inductive Event where
  | received (message : Publish)
  /-- The end of a publication, acknowledged (or sent, at quality 0) or given up. -/
  | published (id : UInt16) (success : Bool)
  | subscribed (id : UInt16) (granted : Octets)
  | subscribeFailed (id : UInt16)
  | unsubscribed (id : UInt16)
  | unsubscribeFailed (id : UInt16)
  deriving Repr, DecidableEq

structure Work where
  outgoing : List Packet := []
  events : List Event := []
  deriving Repr, DecidableEq

namespace Work

def isEmpty (w : Work) : Bool :=
  w.outgoing.isEmpty && w.events.isEmpty

def append (v w : Work) : Work :=
  { outgoing := v.outgoing ++ w.outgoing, events := v.events ++ w.events }

end Work

/-- What the session is told about a delivery. -/
inductive Record where
  | keep | put (d : Delivery) | erase (key : Key)
  deriving Repr, DecidableEq

def Session.record (s : Session) : Record → Session
  | .keep => s
  | .put d => s.put d
  | .erase key => s.erase key

/-- One step of a delivery: what is left of it, what the session keeps, and the work to do. -/
structure Move where
  next : Option Delivery
  record : Record := .keep
  work : Work := {}
  deriving Repr, DecidableEq

namespace Delivery

def transmit (d : Delivery) (packet : Packet) (stage : Stage) (now : Nat) : Move :=
  let d' := d.sent stage now
  { next := some d', record := if d.isTracked then .put d' else .keep
    work := { outgoing := [packet] } }

def repeated (d : Delivery) : Packet :=
  if d.stage = .awaitPubcomp then .pubRel d.id else (d.withDup true).packet

def failure (d : Delivery) : Event :=
  match d.packet with
  | .subscribe _ => .subscribeFailed d.id
  | .unsubscribe _ => .unsubscribeFailed d.id
  | _ => .published d.id false

def report (d : Delivery) : List Event :=
  match d.message? with
  | some p => [.received p]
  | none => []

def retry (d : Delivery) (delay maxAttempts now : Nat) : Move :=
  match d.dueAt delay with
  | none => { next := some d }
  | some due =>
    if now < due then { next := some d }
    else if d.attempts < maxAttempts then (d.withDup true).transmit d.repeated d.stage now
    else { next := none, record := .erase d.key, work := { events := [d.failure] } }

def move (d : Delivery) (delay maxAttempts now : Nat) : Move :=
  match d.direction, d.stage with
  | .outgoing, .queued0 =>
    { next := none, work := { outgoing := [d.packet], events := [.published d.id true] } }
  | .outgoing, .queued1 => d.transmit d.packet .awaitPuback now
  | .outgoing, .queued2 => d.transmit d.packet .awaitPubrec now
  | .outgoing, .sendPubrel => d.transmit (.pubRel d.id) .awaitPubcomp now
  | .outgoing, .sendSubscribe => d.transmit d.packet .awaitSuback now
  | .outgoing, .sendUnsubscribe => d.transmit d.packet .awaitUnsuback now
  | .outgoing, _ => d.retry delay maxAttempts now
  | .incoming, .queued0 => { next := none, work := { events := d.report } }
  | .incoming, .queued1 =>
    { next := none, work := { outgoing := [.pubAck d.id], events := d.report } }
  | .incoming, .queued2 =>
    let d' := d.sent .awaitPubrel now
    { next := some d', record := .put d', work := { outgoing := [.pubRec d.id] } }
  | .incoming, _ => { next := some d }

end Delivery

end Mqtt
