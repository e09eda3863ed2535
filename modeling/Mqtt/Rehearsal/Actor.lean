import Mqtt.Client.Schedule
import Mqtt.Rehearsal.Basic

/-! A client on the stage, and what the broker sees of it. -/
namespace Mqtt.Actor

def take (a : Actor) (action : Client.Action) : Actor :=
  match a.client.act action with
  | some client => { a with client }
  | none => a

/-- The broker answers CONNECT once. -/
def answer? (a : Actor) : Option Actor :=
  match a.broker.plan, a.client.connection.line.outbox with
  | some plan, _ :: _ =>
    let a := { a with broker := { a.broker with plan := none } }
    let a := match plan.answer with
      | .ok bytes => a.take (.arrive bytes)
      | .error _ => a
    some (if plan.hangUp then a.take .hangUp else a)
  | _, _ => none

/-- What the broker has seen since it was asked last. -/
def sights (a : Actor) : List Sight :=
  let line := a.client.connection.line
  if a.broker.gone then []
  else
    (line.outbox.drop a.broker.seen).map
        (fun (time, bytes) => .packet a.broker.number time bytes) ++
      match line.closedAt with
      | some time => if a.broker.sawEnd then [] else [.ended a.broker.number time]
      | none => []

def noted (a : Actor) : Actor :=
  let line := a.client.connection.line
  { a with
    broker := { a.broker with
      seen := line.outbox.length, sawEnd := a.broker.sawEnd || line.closedAt.isSome }
    told := a.client.heard.length }

end Mqtt.Actor
