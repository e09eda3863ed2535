import Mqtt.ClientError
import Mqtt.Topic

/-! What an application chooses for one connection. -/
namespace Mqtt

structure ConnectOptions where
  clientId : String := ""
  username : Option String := none
  password : Option Octets := none
  will : Option Will := none
  cleanSession : Bool := true
  /-- Seconds; 0 is off. -/
  keepAlive : UInt16 := 60
  version : UInt8 := 4
  deriving Repr, DecidableEq

def checkQosArgument (name : String) (qos : UInt8) : Except ClientError Unit :=
  if 2 < qos.toNat then .error (.invalidArgument name s!"{qos.toNat} is not a QoS level")
  else .ok ()

def checkTopicArgument (name : String) (result : Except PacketError Unit) :
    Except ClientError Unit :=
  result.mapError fun e => .invalidArgument name e.message

namespace ConnectOptions

/-- The longest silence on the line, in milliseconds. -/
def keepAlivePeriod (o : ConnectOptions) : Option Nat :=
  if o.keepAlive = 0 then none else some (o.keepAlive.toNat * 1000)

def checkWill (w : Will) : Except ClientError Unit := do
  checkQosArgument "will.qos" w.qos
  checkTopicArgument "will.topic" (Topic.checkName w.topic)

/-- What can be refused before a byte is written. -/
def check (o : ConnectOptions) : Except ClientError Unit := do
  if o.version ≠ 3 ∧ o.version ≠ 4 then
    throw (.invalidArgument "protocol_version" s!"{o.version.toNat} is not 3 or 4")
  if o.password.isSome ∧ o.username.isNone then
    throw (.invalidArgument "password" "a password requires a username")
  match o.will with
  | some w => checkWill w
  | none => pure ()
  if o.clientId = "" ∧ o.cleanSession = false then
    throw (.invalidArgument "client_id" "an empty client id requires a clean session")

def packet (o : ConnectOptions) : Packet :=
  .connect {
    version := o.version, cleanSession := o.cleanSession, keepAlive := o.keepAlive
    clientId := o.clientId, will := o.will, username := o.username, password := o.password }

end ConnectOptions
end Mqtt
