import Mqtt.Client.Basic

/-! The loop that moves the queue, writes what it wants written and reports. -/
namespace Mqtt.Client

def toWorker (c : Client) (worker : Worker) : Client :=
  c.onConnection fun k => { k with worker }

/-- The fate of a packet; a failure ends the writing but not the reporting. -/
def workerSent (c : Client) (outcome : Except ClientError Unit) : Client :=
  match c.connection.worker, outcome with
  | .sending rest events, .ok _ => c.toWorker (.writing rest events)
  | .sending _ events, .error e => c.toWorker (.publishing events (.error e))
  | _, _ => c

def runPass (c : Client) : Client :=
  let k := c.connection
  let (queue, session, work) := k.queue.pass c.session k.acks c.now
  { c.onConnection fun k => { k with
      queue, acks := [], worker := .writing work.outgoing work.events } with session }

/-- The wait ends with its deadline. Whether the worker has been told of something does not matter:
what it was told stays with it for the next wait. -/
def expire (c : Client) : Option Client :=
  match c.connection.worker with
  | .waiting (some due) => if due ≤ c.now then some (c.toWorker .passing) else none
  | _ => none

def runWorker (c : Client) : Option Client :=
  let k := c.connection
  match k.worker with
  | .resting => some (c.toWorker (.waiting k.queue.nextDeadline))
  | .waiting _ =>
    if k.queueWake then
      some (c.onConnection fun k => { k with queueWake := false, worker := .passing })
    else c.expire
  | .passing => some c.runPass
  | .writing [] events => some (c.toWorker (.publishing events (.ok ())))
  | .writing (packet :: rest) events =>
    let c := c.toWorker (.sending rest events)
    match c.post .worker packet with
    | .ok c => some c
    | .error e => some (c.workerSent (.error e))
  | .sending _ _ =>
    if k.closing then some ((c.withdraw .worker).workerSent (.error .tooLate)) else none
  | .publishing [] outcome => some (c.toWorker (.settling outcome))
  | .publishing events outcome =>
    some (c.onConnection fun k => { k with
      events := k.events ++ events, worker := .signalling outcome })
  | .signalling outcome =>
    some (c.onConnection fun k => { k with eventWake := true, worker := .settling outcome })
  | .settling (.ok _) => some (c.toWorker .resting)
  | .settling (.error _) => some (c.beginClose.toWorker .stopped)
  | .stopped => none

/-- Stops where the loop waits; a pass runs to its end. -/
def breakWorker (c : Client) : Option Client :=
  match c.connection.worker with
  | .waiting _ => if c.connection.closing then some (c.toWorker .stopped) else none
  | _ => none

end Mqtt.Client
