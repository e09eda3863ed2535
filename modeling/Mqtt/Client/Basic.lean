import Mqtt.ConnectOptions
import Mqtt.DeliveryQueue.Pass
import Mqtt.FrameReader
import Mqtt.Line

/-!
A client and its connection. Four loops serve a connection beside the call that opens or ends it;
each of the five tasks stands at a point between two of its steps.
-/
namespace Mqtt

inductive Status where
  | disconnected | connecting | connected | closing
  deriving Repr, DecidableEq

inductive Task where
  | caller | receiver | worker | keeper | dispatcher
  deriving Repr, DecidableEq

/-- An answer that one task awaits and another brings. -/
inductive Reply (α : Type) where
  | idle
  | awaited
  | answered (value : α)
  | abandoned
  deriving Repr, DecidableEq

def Reply.abandon {α : Type} : Reply α → Reply α
  | .awaited => .abandoned
  | r => r

inductive Notice where
  | event (event : Event)
  | connectionClosed
  deriving Repr, DecidableEq

/-- A packet on its way to the line, with the bytes that are not yet written. -/
structure Write where
  task : Task
  packet : Packet
  left : Octets
  deriving Repr, DecidableEq

/-- The call that opens or ends a connection; there is one at a time. -/
inductive Caller where
  | idle
  /-- The end of the connection before is awaited. -/
  | joining (options : ConnectOptions) (line : Line)
  /-- CONNECT is being written. -/
  | greeting (options : ConnectOptions)
  | awaitingAck (options : ConnectOptions) (deadline : Nat)
  | resuming (options : ConnectOptions) (ack : ConnAck)
  | releasing (options : ConnectOptions) (ack : ConnAck) (loaded : Nat)
  | opening (options : ConnectOptions) (ack : ConnAck) (loaded : Nat)
  /-- The receiver has to stop before the line is closed. -/
  | aborting (error : ClientError)
  | clearing (error : ClientError)
  /-- DISCONNECT is being written. -/
  | parting
  | leaving
  | awaitingEnd (wasClosing : Bool)
  | done (outcome : Except ClientError (Option ConnAck))

/-- The loop that reads packets and hands them on. -/
inductive Receiver where
  /-- Between packets there is no frame and no time limit. -/
  | reading (frame : Option FrameReader) (deadline : Nat)
  | routing (packet : Packet)
  /-- The packets behind CONNACK wait until the session is back in the queue. -/
  | resuming
  | waking
  /-- PUBCOMP is being written. -/
  | answering
  | failing (error : ClientError)
  | stopped
  deriving Repr, DecidableEq

/-- The loop that moves the queue, writes what it wants written and reports. -/
inductive Worker where
  | resting
  | waiting (deadline : Option Nat)
  | passing
  | writing (rest : List Packet) (events : List Event)
  | sending (rest : List Packet) (events : List Event)
  | publishing (events : List Event) (outcome : Except ClientError Unit)
  | signalling (outcome : Except ClientError Unit)
  | settling (outcome : Except ClientError Unit)
  | stopped

/-- The loop that breaks a silence of a whole period. -/
inductive Keeper where
  | resting (period : Nat)
  | sleeping (period due : Nat)
  | checking (period : Nat)
  | sending (period : Nat)
  | awaiting (period deadline : Nat)
  | failing (error : ClientError)
  | stopped
  deriving Repr, DecidableEq

/-- The loop that tells the application, and takes the connection down in the end. -/
inductive Dispatcher where
  | delivering
  | waiting
  | joining
  | flushing
  | shutting
  | resetting
  | notifying
  | stopped
  deriving Repr, DecidableEq

structure Connection where
  line : Line := {}
  /-- The connection is to be taken down; this is never undone. -/
  closing : Bool := false
  queue : DeliveryQueue
  acks : List Packet := []
  events : List Event := []
  /-- Calls that have changed the queue and not yet told the worker. -/
  unsignalled : Nat := 0
  queueWake : Bool := false
  eventWake : Bool := false
  resumed : Bool := false
  connack : Reply ConnAck := .idle
  pong : Reply Unit := .idle
  /-- Packets on their way; the first one has the line to itself. -/
  writes : List Write := []
  lastSent : Nat
  receiver : Receiver := .stopped
  worker : Worker := .stopped
  keeper : Keeper := .stopped
  dispatcher : Dispatcher := .stopped

structure Client where
  settings : Settings
  session : Session
  status : Status := .disconnected
  now : Nat := 0
  caller : Caller := .idle
  /-- There is a connection that `disconnect` can end. -/
  established : Bool := false
  connection : Connection
  heard : List (Nat × Notice) := []

namespace Client

def ofSettings (settings : Settings) (session : Session) : Except ClientError Client := do
  settings.check
  return { settings, session
           connection := { queue := .ofSettings settings, closing := true, lastSent := 0 } }

def onConnection (c : Client) (f : Connection → Connection) : Client :=
  { c with connection := f c.connection }

/-- Starts to take the connection down; only the first call has an effect. -/
def beginClose (c : Client) : Client :=
  if c.connection.closing then c
  else
    { c.onConnection fun k => { k with closing := true } with
      status := if c.status = .connected then .closing else c.status }

/-- Begins to write a packet, unless it has no bytes. -/
def post (c : Client) (task : Task) (packet : Packet) : Except ClientError Client :=
  match packet.encode with
  | .error e => .error (.ofPacket e)
  | .ok bytes =>
    .ok (c.onConnection fun k => { k with writes := k.writes ++ [{ task, packet, left := bytes }] })

def withdraw (c : Client) (task : Task) : Client :=
  c.onConnection fun k => { k with writes := k.writes.filter fun w => w.task ≠ task }

def tell (c : Client) (notice : Notice) : Client :=
  { c with heard := c.heard ++ [(c.now, notice)] }

end Client

def ClientError.tooLate : ClientError :=
  .lost "connection closing"

def ClientError.pipeBroken : ClientError :=
  .ofIoDuring { kind := .brokenPipe, text := none } "write"

end Mqtt
