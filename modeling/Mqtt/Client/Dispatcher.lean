import Mqtt.Client.Basic

/-! The loop that tells the application, and takes the connection down in the end. -/
namespace Mqtt.Client

def toDispatcher (c : Client) (dispatcher : Dispatcher) : Client :=
  c.onConnection fun k => { k with dispatcher }

/-- Tells the application one event, or goes on when none is left. -/
def deliver (c : Client) (next : Dispatcher) : Client :=
  match c.connection.events with
  | [] => c.toDispatcher next
  | event :: rest => (c.onConnection fun k => { k with events := rest }).tell (.event event)

def runDispatcher (c : Client) : Option Client :=
  let k := c.connection
  match k.dispatcher with
  | .delivering => some (c.deliver .waiting)
  | .waiting =>
    if k.eventWake then
      some (c.onConnection fun k => { k with eventWake := false, dispatcher := .delivering })
    else none
  | .joining =>
    match k.receiver, k.worker, k.keeper with
    | .stopped, .stopped, .stopped => some (c.toDispatcher .flushing)
    | _, _, _ => none
  | .flushing => some (c.deliver .shutting)
  | .shutting =>
    if k.writes = [] then
      some (c.onConnection fun k => { k with line := k.line.close c.now, dispatcher := .resetting })
    else none
  | .resetting => some { c.toDispatcher .notifying with status := .disconnected }
  | .notifying => some ((c.toDispatcher .stopped).tell .connectionClosed)
  | .stopped => none

/-- Leaves the wait for events, once the connection is to be taken down. -/
def breakDispatcher (c : Client) : Option Client :=
  match c.connection.dispatcher with
  | .waiting => if c.connection.closing then some (c.toDispatcher .joining) else none
  | _ => none

end Mqtt.Client
