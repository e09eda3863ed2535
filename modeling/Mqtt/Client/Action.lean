import Mqtt.Client.Caller
import Mqtt.Client.Dispatcher
import Mqtt.Client.Keeper
import Mqtt.Client.Receiver
import Mqtt.Client.Worker

/-! Every way in which a client's state can change. -/
namespace Mqtt

inductive Client.Action where
  | run (task : Task)
  /-- A waiting task notices that the connection is to be taken down. -/
  | stop (task : Task)
  /-- The worker goes by its deadline, even if it has been told of something as well. -/
  | expire
  /-- The line takes up to `count` bytes. -/
  | write (count : Nat)
  /-- The worker is told of a queued delivery. -/
  | signal
  | connect (options : ConnectOptions) (line : Line)
  | disconnect
  | finish
  | publish (topic : String) (payload : Octets) (qos : UInt8) (retain : Bool)
  | subscribe (topics : List String) (levels : List UInt8)
  | unsubscribe (topics : List String)
  | arrive (bytes : Octets)
  | hangUp
  | vanish
  | elapse (milliseconds : Nat)

namespace Client

def run (c : Client) : Task → Option Client
  | .caller => c.runCaller
  | .receiver => c.runReceiver
  | .worker => c.runWorker
  | .keeper => c.runKeeper
  | .dispatcher => c.runDispatcher

/-- A call is never broken off; it ends when the loops have. -/
def stop (c : Client) : Task → Option Client
  | .caller => none
  | .receiver => c.breakReceiver
  | .worker => c.breakWorker
  | .keeper => c.breakKeeper
  | .dispatcher => c.breakDispatcher

def sent (c : Client) (outcome : Except ClientError Unit) : Task → Client
  | .caller => c.callerSent outcome
  | .receiver => c.receiverSent outcome
  | .worker => c.workerSent outcome
  | .keeper => c.keeperSent outcome
  | .dispatcher => c

/-- The first packet on its way goes on by up to `count` bytes, as long as closing has not begun. -/
def write (c : Client) (count : Nat) : Option Client :=
  let k := c.connection
  match k.writes with
  | [] => none
  | w :: rest =>
    if k.closing then none
    else if k.line.broken then
      some ((c.onConnection fun k => { k with writes := rest }).sent (.error .pipeBroken) w.task)
    else if count = 0 then none
    else
      let line := k.line.write c.now (w.left.take count)
      match w.left.drop count with
      | [] =>
        some ((c.onConnection fun k => { k with line, writes := rest, lastSent := c.now }).sent
          (.ok ()) w.task)
      | left => some (c.onConnection fun k => { k with line, writes := { w with left } :: rest })

/-- A call that may begin only when no other one holds the connection. -/
def free (c : Client) (next : Client) : Option Client :=
  match c.caller with
  | .idle => some next
  | _ => none

/-- A queued call leaves its identifier with the caller. -/
def queued (c : Client) (result : Except ClientError (UInt16 × Client)) : Option Client :=
  match result with
  | .ok (_, next) => c.free next
  | .error _ => c.free c

def act (c : Client) : Action → Option Client
  | .run task => c.run task
  | .stop task => c.stop task
  | .expire => c.expire
  | .write count => c.write count
  | .signal => c.signal
  | .connect options line => c.free (c.connect options line)
  | .disconnect => c.free c.disconnect
  | .finish =>
    match c.caller with
    | .done _ => some { c with caller := .idle }
    | _ => none
  | .publish topic payload qos retain => c.queued (c.publish topic payload qos retain)
  | .subscribe topics levels => c.queued (c.subscribe topics levels)
  | .unsubscribe topics => c.queued (c.unsubscribe topics)
  | .arrive bytes => some (c.onConnection fun k => { k with line := k.line.arrive bytes })
  | .hangUp => some (c.onConnection fun k => { k with line := k.line.hangUp })
  | .vanish => some (c.onConnection fun k => { k with line := k.line.vanish })
  | .elapse milliseconds => some { c with now := c.now + milliseconds }

def acts (c : Client) (actions : List Action) : Option Client :=
  actions.foldlM act c

end Client
end Mqtt
