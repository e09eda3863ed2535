import Mqtt.Client.Basic
import Mqtt.SessionRegistry

/-! What a rehearsal of clients against a scripted broker is made of. -/
namespace Mqtt

structure BrokerPlan where
  /-- Written in one piece when CONNECT has been read; nothing, if it has no written form. -/
  answer : Except PacketError Octets := .ok []
  /-- The broker finishes writing after the answer. -/
  hangUp : Bool := false
  /-- The broker is not there at all. -/
  gone : Bool := false

structure BrokerEnd where
  /-- Connections are numbered as they are asked for, from 1. -/
  number : Nat := 0
  /-- What is still to be answered to CONNECT. -/
  plan : Option BrokerPlan := none
  gone : Bool := false
  seen : Nat := 0
  sawEnd : Bool := false

/-- What the broker sees of a connection. -/
inductive Sight where
  | packet (number time : Nat) (bytes : Octets)
  | ended (number time : Nat)
  deriving Repr, DecidableEq

/-- A client, the place of its session, and the broker's end of its connection. -/
structure Actor where
  client : Client
  place : Nat
  broker : BrokerEnd := {}
  told : Nat := 0

/-- One of the loops that serve an actor's connection. -/
structure Loop where
  actor : Nat
  task : Task
  deriving Repr, DecidableEq

structure Rehearsal where
  settings : Settings
  registry : SessionRegistry := {}
  /-- The last one is in use; those before it live on. -/
  actors : List Actor := []
  now : Nat := 0
  asked : Nat := 0
  /-- The connection that was established last: its actor and its number. -/
  target : Option (Nat × Nat) := none
  /-- The loops that wait, in the order in which they came to rest. -/
  resting : List Loop := []
  /-- The loops that can go on, in the order in which they came to be able to. -/
  ready : List Loop := []
  sights : List Sight := []
  notices : List (Nat × Notice) := []

inductive Rehearsal.Step where
  | connect (options : ConnectOptions) (plan : BrokerPlan)
  | connectTo (address : String) (options : ConnectOptions)
  | disconnect
  | publish (topic : String) (payload : Octets) (qos : UInt8) (retain : Bool)
  | subscribe (topics : List String) (levels : List UInt8)
  | unsubscribe (topics : List String)
  /-- The broker writes, unless what it is to write has no written form. -/
  | send (bytes : Except PacketError Octets)
  | hangUp
  | vanish
  | advance (milliseconds : Nat)
  | contains (key : Key)
  /-- Another client takes over. -/
  | renew (session : Option String)

inductive Rehearsal.Outcome where
  | accepted (ack : ConnAck)
  | failed (error : ClientError)
  | queued (id : UInt16)
  | sent (arrived : Bool)
  | held (held : Bool)
  | done

structure Rehearsal.Report where
  outcome : Outcome
  now : Nat
  status : Status
  clientId : String
  sessionSize : Nat
  sights : List Sight
  notices : List (Nat × Notice)

end Mqtt
