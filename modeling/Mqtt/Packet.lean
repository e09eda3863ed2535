import Mqtt.PacketType
import Mqtt.Octets

/-! The control packets. A field holds any value of its width; encoding decides what may be sent. -/
namespace Mqtt

/-- The message a broker publishes for a client that is lost. -/
structure Will where
  retain : Bool
  qos : UInt8
  topic : String
  message : Octets
  deriving Repr, DecidableEq

structure Connect where
  /-- Level 3 or 4 of the protocol. -/
  version : UInt8
  cleanSession : Bool
  keepAlive : UInt16
  clientId : String
  will : Option Will
  username : Option String
  password : Option Octets
  deriving Repr, DecidableEq

structure ConnAck where
  sessionPresent : Bool
  returnCode : UInt8
  deriving Repr, DecidableEq

namespace ConnAck

def isAccepted (ack : ConnAck) : Bool :=
  ack.returnCode == 0

def describe (code : UInt8) : String :=
  match code.toNat with
  | 0 => "Connection accepted"
  | 1 => "Connection refused: unacceptable protocol version"
  | 2 => "Connection refused: identifier rejected"
  | 3 => "Connection refused: server unavailable"
  | 4 => "Connection refused: bad user name or password"
  | 5 => "Connection refused: not authorized"
  | _ => "Connection refused: unknown return code"

def description (ack : ConnAck) : String :=
  describe ack.returnCode

end ConnAck

structure Publish where
  dup : Bool
  qos : UInt8
  retain : Bool
  topic : String
  /-- Travels only with a quality of service above 0. -/
  id : Option UInt16
  payload : Octets
  deriving Repr, DecidableEq

structure Subscription where
  filter : String
  qos : UInt8
  deriving Repr, DecidableEq

structure Subscribe where
  id : UInt16
  subscriptions : List Subscription
  deriving Repr, DecidableEq

/-- One code for each filter asked for: the quality granted, or 128 for a refusal. -/
structure SubAck where
  id : UInt16
  codes : Octets
  deriving Repr, DecidableEq

structure Unsubscribe where
  id : UInt16
  filters : List String
  deriving Repr, DecidableEq

inductive Packet where
  | connect (packet : Connect)
  | connAck (packet : ConnAck)
  | publish (packet : Publish)
  | pubAck (id : UInt16)
  | pubRec (id : UInt16)
  | pubRel (id : UInt16)
  | pubComp (id : UInt16)
  | subscribe (packet : Subscribe)
  | subAck (packet : SubAck)
  | unsubscribe (packet : Unsubscribe)
  | unsubAck (id : UInt16)
  | pingReq
  | pingResp
  | disconnect
  deriving Repr, DecidableEq

namespace Packet

def type : Packet → PacketType
  | .connect _ => .connect | .connAck _ => .connAck | .publish _ => .publish
  | .pubAck _ => .pubAck | .pubRec _ => .pubRec | .pubRel _ => .pubRel | .pubComp _ => .pubComp
  | .subscribe _ => .subscribe | .subAck _ => .subAck | .unsubscribe _ => .unsubscribe
  | .unsubAck _ => .unsubAck | .pingReq => .pingReq | .pingResp => .pingResp
  | .disconnect => .disconnect

def id? : Packet → Option UInt16
  | .publish p => p.id
  | .pubAck id | .pubRec id | .pubRel id | .pubComp id | .unsubAck id => some id
  | .subscribe p => some p.id
  | .subAck p => some p.id
  | .unsubscribe p => some p.id
  | _ => none

end Packet
end Mqtt
