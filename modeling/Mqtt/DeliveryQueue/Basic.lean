import Mqtt.ClientError
import Mqtt.Session

/-! Every delivery in progress on one connection. -/
namespace Mqtt

/-- The settings of a client, fixed for its lifetime. -/
structure Settings where
  /-- How long a sent packet waits for its answer before it is sent again, in milliseconds. -/
  retryDelay : Nat := 10000
  /-- How often one step is sent in all. -/
  maxAttempts : Nat := 3
  /-- How many of our own deliveries may be open. -/
  capacity : Nat := 65535
  /-- How long to wait for the answer to a greeting, and for each read inside a packet. -/
  responseTimeout : Nat := 30000
  deriving Repr, DecidableEq

/-- No limit may be 0; a delay may. -/
def Settings.check (s : Settings) : Except ClientError Unit :=
  if s.maxAttempts = 0 then .error (.invalidSetting "max_attempts" "must be at least 1")
  else if s.capacity = 0 then .error (.invalidSetting "inflight_capacity" "must be at least 1")
  else if s.responseTimeout = 0 then
    .error (.invalidSetting "response_timeout_ms" "must be non-zero")
  else .ok ()

structure DeliveryQueue where
  deliveries : List Delivery := []
  /-- The keys of the deliveries that have an identifier. -/
  index : List Key := []
  capacity : Nat
  retryDelay : Nat
  maxAttempts : Nat
  deriving Repr, DecidableEq

inductive Acceptance where
  | queued
  | duplicate
  deriving Repr, DecidableEq

/-- The delivery that an acknowledgment looks for, and the stages it answers. -/
def Packet.answers : Packet → Option (Key × List Stage)
  | .pubAck id => some (⟨id, .outgoing⟩, [.awaitPuback])
  | .pubRec id => some (⟨id, .outgoing⟩, [.awaitPubrec, .awaitPubcomp])
  | .pubComp id => some (⟨id, .outgoing⟩, [.awaitPubcomp])
  | .subAck p => some (⟨p.id, .outgoing⟩, [.awaitSuback])
  | .unsubAck id => some (⟨id, .outgoing⟩, [.awaitUnsuback])
  | .pubRel id => some (⟨id, .incoming⟩, [.awaitPubrel, .queued2])
  | _ => none

namespace DeliveryQueue

def ofSettings (s : Settings) : DeliveryQueue :=
  { capacity := s.capacity, retryDelay := s.retryDelay, maxAttempts := s.maxAttempts }

def outgoingCount (q : DeliveryQueue) : Nat :=
  q.deliveries.countP fun d => d.direction = .outgoing

/-- The capacity bounds our own deliveries; a broker's message is always taken. -/
def isFull (q : DeliveryQueue) : Bool :=
  q.capacity ≤ q.outgoingCount

def contains (q : DeliveryQueue) (key : Key) : Bool :=
  q.index.contains key

def get? (q : DeliveryQueue) (key : Key) : Option Delivery :=
  if q.contains key then q.deliveries.find? fun d => d.key = key else none

/-- Adds a key; identifier 0 is no key. -/
def note (q : DeliveryQueue) (key : Key) : List Key :=
  if key.id = 0 ∨ q.contains key then q.index else key :: q.index

def enqueue (q : DeliveryQueue) (d : Delivery) : DeliveryQueue :=
  { q with deliveries := q.deliveries ++ [d], index := q.note d.key }

/-- Adds a delivery, if it is the broker's or there is room for another one of ours. -/
def push (q : DeliveryQueue) (d : Delivery) : Except ClientError DeliveryQueue :=
  if d.direction = .outgoing ∧ q.isFull then .error (.queueFull "inflight" q.capacity)
  else .ok (q.enqueue d)

def modify (key : Key) (f : Delivery → Delivery) : List Delivery → List Delivery
  | [] => []
  | d :: rest => if d.key = key then f d :: rest else d :: modify key f rest

def remove (q : DeliveryQueue) (key : Key) : DeliveryQueue :=
  { q with deliveries := q.deliveries.eraseP fun d => d.key = key
           index := q.index.filter fun k => k ≠ key }

/-- Takes a message from the broker; one that is still held is answered again, not queued twice. -/
def accept (q : DeliveryQueue) (p : Publish) : Acceptance × DeliveryQueue :=
  let held := (if p.qos = 0 then none else p.id).bind fun id => q.get? ⟨id, .incoming⟩
  match held with
  | some d =>
    let again (e : Delivery) := if e.stage = .awaitPubrel then { e with stage := .queued2 } else e
    (.duplicate, { q with deliveries := modify d.key again q.deliveries })
  | none => (.queued, q.enqueue (.received p))

def awaits (q : DeliveryQueue) (ack : Packet) : Bool :=
  match ack.answers with
  | some (key, _) => q.contains key
  | none => false

/-- Adds resumed deliveries that fit and are not there yet; returns their number. -/
def load (q : DeliveryQueue) : List Delivery → Nat × DeliveryQueue
  | [] => (0, q)
  | d :: rest =>
    if q.contains d.key then q.load rest
    else
      match q.push d with
      | .error _ => q.load rest
      | .ok q' =>
        let (count, last) := q'.load rest
        (count + 1, last)

/-- Begins a delivery of our own under the next free identifier. -/
def issue (q : DeliveryQueue) (s : Session) (build : UInt16 → Delivery) :
    Except ClientError (UInt16 × DeliveryQueue × Session) := do
  if q.isFull then throw (.queueFull "inflight" q.capacity)
  match s.nextId fun id => q.contains ⟨id, .outgoing⟩ with
  | none => throw .identifiersExhausted
  | some (id, s) =>
    let d := build id
    let q ← q.push d
    return (id, q, if d.isTracked then s.put d else s)

/-- Takes up what a client's session still owes; a session of another client is given up. -/
def resume (q : DeliveryQueue) (s : Session) (clientId : String) (clean : Bool) :
    Nat × DeliveryQueue × Session :=
  let s := if s.clientId = clientId then s else { clientId }
  let (owed, s) := s.restore clean
  let (count, q) := q.load owed
  (count, q, s)

def nextDeadline (q : DeliveryQueue) : Option Nat :=
  (q.deliveries.filterMap fun d => d.dueAt q.retryDelay).min?

end DeliveryQueue
end Mqtt
