import Mqtt.Client.Action

/-!
What a task does when its turn comes: a task that may stop does so, and packets are written in one
piece.
-/
namespace Mqtt.Client

/-- The loops of a connection, in the order in which they are started. -/
def loops : List Task :=
  [.receiver, .worker, .keeper, .dispatcher]

/-- The packet of a task is written whole when its turn comes. -/
def writeOf (c : Client) (task : Task) : List Action :=
  match c.connection.writes with
  | w :: _ => if w.task = task then [.write w.left.length] else []
  | [] => []

/-- What a task may do next, in order of preference. -/
def choices (c : Client) (task : Task) : List Action :=
  .stop task :: .run task :: c.writeOf task

def next (c : Client) (task : Task) : Option Client :=
  (c.choices task).findSome? c.act

def isStopped (c : Client) : Task → Bool
  | .caller => match c.caller with | .idle => true | _ => false
  | .receiver => c.connection.receiver == .stopped
  | .worker => match c.connection.worker with | .stopped => true | _ => false
  | .keeper => c.connection.keeper == .stopped
  | .dispatcher => c.connection.dispatcher == .stopped

def timers (c : Client) : List Nat :=
  let k := c.connection
  let caller := match c.caller with
    | .awaitingAck _ deadline => [deadline]
    | _ => []
  let receiver := match k.receiver with
    | .reading (some _) deadline => [deadline]
    | _ => []
  let worker := match k.worker with
    | .waiting deadline => deadline.toList
    | _ => []
  let keeper := match k.keeper with
    | .sleeping _ due => [due]
    | .awaiting _ deadline => [deadline]
    | _ => []
  caller ++ receiver ++ worker ++ keeper

def nextTimer (c : Client) : Option Nat :=
  (c.timers.filter fun t => c.now < t).min?

end Mqtt.Client
