import Mqtt.Field
import Mqtt.Packet
import Mqtt.RemainingLength

/-! From packets to bytes. A packet with a field that may not be sent has no bytes. -/
namespace Mqtt

def bit (value : Bool) (weight : Nat) : Nat :=
  if value then weight else 0

namespace Connect

def protocolName (version : UInt8) : Except PacketError String :=
  match version.toNat with
  | 3 => .ok "MQIsdp"
  | 4 => .ok "MQTT"
  | _ => .error .unsupportedVersion

/-- Says which optional fields follow. -/
def flags (p : Connect) : Except PacketError UInt8 := do
  let will ← match p.will with
    | none => pure 0
    | some w => do
      let qos ← Field.checkQos w.qos
      pure (4 + qos.toNat * 8 + bit w.retain 32)
  return UInt8.ofNat
    (bit p.cleanSession 2 + will + bit p.username.isSome 128 + bit p.password.isSome 64)

def header (p : Connect) : Except PacketError Octets := do
  let name ← Field.ofText (← protocolName p.version)
  return name ++ p.version :: (← p.flags) :: Octets.ofUInt16 p.keepAlive

def payload (p : Connect) : Except PacketError Octets := do
  let clientId ← Field.ofText p.clientId
  let will ← match p.will with
    | none => pure []
    | some w => do
      let topic ← Field.ofText w.topic
      pure (topic ++ (← Field.ofBinary w.message))
  let username ← match p.username with
    | none => pure []
    | some name => Field.ofText name
  let password ← match p.password with
    | none => pure []
    | some secret => Field.ofBinary secret
  return clientId ++ will ++ username ++ password

end Connect

namespace ConnAck

def header (p : ConnAck) : Except PacketError Octets :=
  if 5 < p.returnCode.toNat then .error (.malformed .unknownReturnCode)
  else .ok [if p.sessionPresent then 1 else 0, p.returnCode]

end ConnAck

namespace Publish

/-- Not checked; a quality above 2 spills into the other bits. -/
def flags (p : Publish) : UInt8 :=
  UInt8.ofNat (bit p.dup 8) ||| p.qos <<< 1 ||| UInt8.ofNat (bit p.retain 1)

def header (p : Publish) : Except PacketError Octets := do
  let qos ← Field.checkQos p.qos
  let topic ← Field.ofText p.topic
  if qos = 0 then return topic
  match p.id with
  | none => throw .zeroIdentifier
  | some id => return topic ++ (← Field.ofIdentifier id)

end Publish

namespace Subscribe

def ofSubscription (s : Subscription) : Except PacketError Octets := do
  let filter ← Field.ofText s.filter
  return filter ++ [← Field.checkQos s.qos]

def payload (p : Subscribe) : Except PacketError Octets :=
  if p.subscriptions = [] then .error (.malformed (.noTopicFilters .subscribe))
  else p.subscriptions.flatMapM ofSubscription

end Subscribe

namespace SubAck

/-- A code grants a quality of service, or is the refusal. -/
def checkCode (code : UInt8) : Except PacketError UInt8 :=
  if code.toNat ≤ 2 ∨ code = 128 then .ok code else .error (.malformed (.unknownGrant code))

end SubAck

namespace Unsubscribe

def payload (p : Unsubscribe) : Except PacketError Octets :=
  if p.filters = [] then .error (.malformed (.noTopicFilters .unsubscribe))
  else p.filters.flatMapM Field.ofText

end Unsubscribe

namespace Packet

def flags : Packet → UInt8
  | .publish p => p.flags
  | p => UInt8.ofNat p.type.fixedFlags

def header : Packet → Except PacketError Octets
  | .connect p => p.header
  | .connAck p => p.header
  | .publish p => p.header
  | .pubAck id | .pubRec id | .pubRel id | .pubComp id | .unsubAck id => Field.ofIdentifier id
  | .subscribe p => Field.ofIdentifier p.id
  | .subAck p => .ok (Octets.ofUInt16 p.id)
  | .unsubscribe p => Field.ofIdentifier p.id
  | .pingReq | .pingResp | .disconnect => .ok []

def payload : Packet → Except PacketError Octets
  | .connect p => p.payload
  | .publish p => .ok p.payload
  | .subscribe p => p.payload
  | .subAck p => p.codes.mapM SubAck.checkCode
  | .unsubscribe p => p.payload
  | _ => .ok []

/-- The first byte and the length of the rest, which wraps at 32 bits. -/
def fixedHeader (p : Packet) (length : Nat) : Octets :=
  (UInt8.ofNat p.type.code <<< 4 ||| p.flags) :: RemainingLength.encode (UInt32.ofNat length)

def encode (p : Packet) : Except PacketError Octets := do
  let header ← p.header
  let payload ← p.payload
  let length := header.length + payload.length
  if RemainingLength.max < length then throw .invalidLength
  return p.fixedHeader length ++ header ++ payload

end Packet
end Mqtt
