import Mqtt.Delivery.Move
import Mqtt.DeliveryQueue.Basic

/-!
A pass over the queue first applies acknowledgments and then moves each delivery by at most one
step; what to write and what to report are its result.
-/
namespace Mqtt.DeliveryQueue

def completion (ack : Packet) (d : Delivery) : Work :=
  match ack with
  | .pubRel id => { outgoing := [.pubComp id], events := d.report }
  | .subAck p => { events := [.subscribed p.id p.codes] }
  | .unsubAck id => { events := [.unsubscribed id] }
  | _ => { events := [.published d.id true] }

/-- An acknowledgment that answers nothing; a PUBREL is answered all the same. -/
def unmatched (ack : Packet) : Work :=
  match ack with
  | .pubRel id => { outgoing := [.pubComp id] }
  | _ => {}

/-- After a PUBREC the release is sent; a repeated one spends an attempt at it. -/
def release (maxAttempts : Nat) (d : Delivery) : Delivery :=
  if d.stage = .awaitPubrec then { d with attempts := 0, stage := .sendPubrel }
  else if d.attempts < maxAttempts then { d with stage := .sendPubrel }
  else d

def applyAck (q : DeliveryQueue) (s : Session) (ack : Packet) : DeliveryQueue × Session × Work :=
  match ack.answers with
  | none => (q, s, {})
  | some (key, stages) =>
    match q.get? key with
    | none => (q, s, unmatched ack)
    | some d =>
      if d.stage ∉ stages then (q, s, unmatched ack)
      else if ack.type = .pubRec then
        ({ q with deliveries := modify key (release q.maxAttempts) q.deliveries }, s, {})
      else (q.remove key, s.erase key, completion ack d)

def applyAcks (q : DeliveryQueue) (s : Session) : List Packet → DeliveryQueue × Session × Work
  | [] => (q, s, {})
  | ack :: acks =>
    let (q, s, first) := q.applyAck s ack
    let (q, s, rest) := q.applyAcks s acks
    (q, s, first.append rest)

def moves (q : DeliveryQueue) (now : Nat) : List (Delivery × Move) :=
  q.deliveries.map fun d => (d, d.move q.retryDelay q.maxAttempts now)

/-- Moves every delivery by one step. -/
def advance (q : DeliveryQueue) (s : Session) (now : Nat) : DeliveryQueue × Session × Work :=
  let moves := q.moves now
  let gone := moves.filterMap fun (d, m) => if m.next.isNone then some d.key else none
  ({ q with deliveries := moves.filterMap fun (_, m) => m.next
            index := q.index.filter fun k => !gone.contains k },
    moves.foldl (fun s (_, m) => s.record m.record) s,
    { outgoing := moves.flatMap fun (_, m) => m.work.outgoing
      events := moves.flatMap fun (_, m) => m.work.events })

/-- One pass: the acknowledgments first, then every delivery. -/
def pass (q : DeliveryQueue) (s : Session) (acks : List Packet) (now : Nat) :
    DeliveryQueue × Session × Work :=
  let (q, s, answered) := q.applyAcks s acks
  let (q, s, moved) := q.advance s now
  (q, s, answered.append moved)

end Mqtt.DeliveryQueue
