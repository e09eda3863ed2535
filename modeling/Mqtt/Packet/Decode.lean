import Mqtt.FixedHeader
import Mqtt.Packet.Encode

/-!
From bytes to packets. The body is cut out of the buffer first, so that no decoder sees a byte
beyond its packet.
-/
namespace Mqtt

/-- What a buffer begins with. -/
inductive Decoded where
  /-- A packet, and how many bytes it took. -/
  | complete (packet : Packet) (size : Nat)
  /-- The start of a packet, and how many more bytes to wait for. -/
  | incomplete (missing : Nat)
  deriving Repr, DecidableEq

def Field.optional {α : Type} (present : Bool) (field : Octets → Except PacketError (α × Octets))
    (bytes : Octets) : Except PacketError (Option α × Octets) :=
  if present then (field bytes).map fun (value, rest) => (some value, rest)
  else .ok (none, bytes)

def Field.byte : Octets → Except PacketError (UInt8 × Octets)
  | b :: rest => .ok (b, rest)
  | [] => .error .bufferTooShort

namespace Connect

/-- The name and the level must belong together. -/
def checkProtocol (name : String) (version : UInt8) : Except PacketError Unit :=
  if name = "MQTT" then if version = 4 then .ok () else .error .unsupportedVersion
  else if name = "MQIsdp" then if version = 3 then .ok () else .error .unsupportedVersion
  else .error (.malformed (.unknownProtocol name))

/-- Bit 0 is reserved, will details need a will, and a password needs a user name. -/
def checkFlags (flags : Nat) : Except PacketError Unit :=
  if flags.testBit 0 then .error (.malformed .reservedConnectFlag)
  else if !flags.testBit 2 && (flags.testBit 3 || flags.testBit 4 || flags.testBit 5) then
    .error (.malformed .willDetailsWithoutWill)
  else if flags.testBit 6 && !flags.testBit 7 then .error (.malformed .passwordWithoutUsername)
  else .ok ()

def readWill (flags : Nat) (bytes : Octets) : Except PacketError (Will × Octets) := do
  let (topic, bytes) ← Field.text bytes
  let (message, bytes) ← Field.binary bytes
  let qos ← Field.checkQos (UInt8.ofNat (flags / 8 % 4))
  return ({ retain := flags.testBit 5, qos, topic, message }, bytes)

def ofBody (body : Octets) : Except PacketError Connect := do
  let (name, bytes) ← Field.text body
  let (version, bytes) ← Field.byte bytes
  checkProtocol name version
  let (flagByte, bytes) ← Field.byte bytes
  let flags := flagByte.toNat
  checkFlags flags
  let (keepAlive, bytes) ← Field.word bytes
  let (clientId, bytes) ← Field.text bytes
  let (will, bytes) ← Field.optional (flags.testBit 2) (readWill flags) bytes
  let (username, bytes) ← Field.optional (flags.testBit 7) Field.text bytes
  let (password, bytes) ← Field.optional (flags.testBit 6) Field.binary bytes
  if bytes ≠ [] then throw .invalidLength
  return { version, cleanSession := flags.testBit 1, keepAlive, clientId, will, username, password }

end Connect

namespace ConnAck

def ofBody : Octets → Except PacketError ConnAck
  | [flags, code] =>
    if 1 < flags.toNat then .error (.malformed .reservedAckFlags)
    else if 5 < code.toNat then .error (.malformed .unknownReturnCode)
    else .ok { sessionPresent := flags = 1, returnCode := code }
  | _ => .error (.malformed (.wrongBodyLength .connAck 2))

end ConnAck

namespace Publish

def qosOfFlags (flags : Nat) : Except PacketError UInt8 :=
  Field.checkQos (UInt8.ofNat (flags / 2 % 4))

def ofBody (flags : Nat) (body : Octets) : Except PacketError Publish := do
  let qos ← qosOfFlags flags
  let (topic, bytes) ← Field.text body
  let dup := flags.testBit 3
  let retain := flags.testBit 0
  if qos = 0 then return { dup, qos, retain, topic, id := none, payload := bytes }
  match Field.word bytes with
  | .error _ => throw (.malformed .missingPublishIdentifier)
  | .ok (id, payload) =>
    if id = 0 then throw .zeroIdentifier
    return { dup, qos, retain, topic, id := some id, payload }

end Publish

def PacketType.identifier (type : PacketType) (body : Octets) :
    Except PacketError (UInt16 × Octets) :=
  match Field.word body with
  | .ok r => .ok r
  | .error _ => .error (.malformed (.missingIdentifier type))

def PacketType.onlyIdentifier (type : PacketType) : Octets → Except PacketError UInt16
  | [high, low] => .ok (Octets.toUInt16 high low)
  | _ => .error (.malformed (.wrongBodyLength type 2))

def PacketType.noBody (type : PacketType) : Octets → Except PacketError Unit
  | [] => .ok ()
  | _ => .error (.malformed (.wrongBodyLength type 0))

namespace Subscribe

def readSubscription (bytes : Octets) : Except PacketError (Subscription × Octets) := do
  let (filter, bytes) ← Field.text bytes
  match bytes with
  | [] => throw (.malformed .missingSubscriptionQos)
  | qos :: bytes => return ({ filter, qos := ← Field.checkQos qos }, bytes)

end Subscribe

/-- Reads items to the end of `bytes`; an item takes at least one byte, so `fuel` is a length. -/
def Field.many {α : Type} (item : Octets → Except PacketError (α × Octets)) :
    (fuel : Nat) → Octets → Except PacketError (List α)
  | _, [] => .ok []
  | 0, _ :: _ => .error .bufferTooShort
  | fuel + 1, bytes =>
    match item bytes with
    | .error e => .error e
    | .ok (value, rest) => (many item fuel rest).map (value :: ·)

namespace Subscribe

def ofBody (body : Octets) : Except PacketError Subscribe := do
  let (id, bytes) ← PacketType.subscribe.identifier body
  let subscriptions ← Field.many readSubscription bytes.length bytes
  if subscriptions = [] then throw (.malformed (.noTopicFilters .subscribe))
  return { id, subscriptions }

end Subscribe

namespace SubAck

def ofBody (body : Octets) : Except PacketError SubAck := do
  let (id, codes) ← PacketType.subAck.identifier body
  return { id, codes := ← codes.mapM checkCode }

end SubAck

namespace Unsubscribe

def ofBody (body : Octets) : Except PacketError Unsubscribe := do
  let (id, bytes) ← PacketType.unsubscribe.identifier body
  return { id, filters := ← Field.many Field.text bytes.length bytes }

end Unsubscribe

namespace Packet

def ofBody (type : PacketType) (flags : Nat) (body : Octets) : Except PacketError Packet :=
  match type with
  | .connect => (Connect.ofBody body).map .connect
  | .connAck => (ConnAck.ofBody body).map .connAck
  | .publish => (Publish.ofBody flags body).map .publish
  | .pubAck => (type.onlyIdentifier body).map .pubAck
  | .pubRec => (type.onlyIdentifier body).map .pubRec
  | .pubRel => (type.onlyIdentifier body).map .pubRel
  | .pubComp => (type.onlyIdentifier body).map .pubComp
  | .subscribe => (Subscribe.ofBody body).map .subscribe
  | .subAck => (SubAck.ofBody body).map .subAck
  | .unsubscribe => (Unsubscribe.ofBody body).map .unsubscribe
  | .unsubAck => (type.onlyIdentifier body).map .unsubAck
  | .pingReq => (type.noBody body).map fun _ => .pingReq
  | .pingResp => (type.noBody body).map fun _ => .pingResp
  | .disconnect => (type.noBody body).map fun _ => .disconnect

def leadingCode : Octets → Except PacketError Nat
  | [] => .error .bufferEmpty
  | first :: _ => .ok (first.toNat / 16)

/-- What the first byte alone decides; a CONNECT is known by its protocol name instead. -/
def checkFirst (type : PacketType) : Octets → Except PacketError Unit
  | [] => if type = .connect then .ok () else .error .bufferEmpty
  | first :: _ =>
    if type ≠ .connect ∧ first.toNat / 16 ≠ type.code then .error .invalidPacketType
    else if type = .publish then (Publish.qosOfFlags (first.toNat % 16)).map fun _ => ()
    else .ok ()

/-- Every type but PUBLISH has fixed flags. -/
def checkFlags (type : PacketType) (flags : Nat) : Except PacketError Unit :=
  if type ≠ .publish ∧ flags ≠ type.fixedFlags then .error (.malformed (.wrongFlags type))
  else .ok ()

def decodeAs (type : PacketType) (bytes : Octets) : Except PacketError Decoded := do
  checkFirst type bytes
  match ← FixedHeader.read bytes with
  | none => return .incomplete (FixedHeader.missing bytes)
  | some h =>
    checkFlags type h.flags
    let packet ← ofBody type h.flags (h.body bytes)
    return .complete packet h.total

def decode (bytes : Octets) : Except PacketError Decoded := do
  match PacketType.ofCode? (← leadingCode bytes) with
  | none => throw .invalidPacketType
  | some type => decodeAs type bytes

/-- Levels 3 and 4 share one layout; no other is known. -/
def decodeFor (version : UInt8) (bytes : Octets) : Except PacketError Decoded :=
  if version = 3 ∨ version = 4 then decode bytes else .error .unsupportedVersion

def ofFrame (frame : Octets) : Except PacketError Packet := do
  match ← decode frame with
  | .complete packet _ => return packet
  | .incomplete missing =>
    throw (.internal s!"complete frame reported {missing} missing bytes")

end Packet
end Mqtt
