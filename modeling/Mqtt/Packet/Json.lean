import Mqtt.Json.Reader
import Mqtt.Json.Record
import Mqtt.Json.Writer
import Mqtt.Packet

/-! Packets as JSON records; the field "type" names the kind and bytes are lists of numbers. -/
namespace Mqtt
open Json (byte? flag? list? octets? optional required text? word? writeFlag writeList writeNat
  writeObject writeOctets writeOptional writeText)

def PacketType.tag : PacketType → String
  | .connect => "Connect" | .connAck => "ConnAck" | .publish => "Publish" | .pubAck => "PubAck"
  | .pubRec => "PubRec" | .pubRel => "PubRel" | .pubComp => "PubComp"
  | .subscribe => "Subscribe" | .subAck => "SubAck" | .unsubscribe => "Unsubscribe"
  | .unsubAck => "UnsubAck" | .pingReq => "PingReq" | .pingResp => "PingResp"
  | .disconnect => "Disconnect"

def PacketType.ofTag? (tag : String) : Option PacketType :=
  ((List.range 15).filterMap ofCode?).find? fun type => type.tag == tag

def Will.ofJson (j : Json) : Option Will := do
  let [retain, qos, topic, message] ← j.fields? ["retain", "qos", "topic", "message"] | none
  return { retain := ← required flag? retain, qos := ← required byte? qos
           topic := ← required text? topic, message := ← required octets? message }

def Will.toJson (w : Will) : String :=
  writeObject [("retain", writeFlag w.retain), ("qos", writeNat w.qos.toNat),
    ("topic", writeText w.topic), ("message", writeOctets w.message)]

def Connect.ofJson (j : Json) : Option Connect := do
  let [version, clean, keepAlive, clientId, will, username, password] ← j.fields?
    ["protocol_version", "clean_session", "keep_alive", "client_id", "will", "username",
      "password"] | none
  return { version := ← required byte? version, cleanSession := ← required flag? clean
           keepAlive := ← required word? keepAlive, clientId := ← required text? clientId
           will := ← optional Will.ofJson will, username := ← optional text? username
           password := ← optional octets? password }

def Subscription.ofJson (j : Json) : Option Subscription := do
  let [filter, qos] ← j.fields? ["topic_filter", "qos"] | none
  return { filter := ← required text? filter, qos := ← required byte? qos }

def Subscription.toJson (s : Subscription) : String :=
  writeObject [("topic_filter", writeText s.filter), ("qos", writeNat s.qos.toNat)]

def Publish.ofJson (j : Json) : Option Publish := do
  let [dup, qos, retain, topic, id, payload] ← j.fields?
    ["dup", "qos", "retain", "topic_name", "message_id", "payload"] | none
  return { dup := ← required flag? dup, qos := ← required byte? qos
           retain := ← required flag? retain, topic := ← required text? topic
           id := ← optional word? id, payload := ← required octets? payload }

namespace Packet

def pairOfJson {α : Type} (name : String) (read : Json → Option α) (j : Json) :
    Option (UInt16 × α) := do
  let [id, value] ← j.fields? ["message_id", name] | none
  return (← required word? id, ← required read value)

def idOfJson (j : Json) : Option UInt16 := do
  let [id] ← j.fields? ["message_id"] | none
  required word? id

def emptyOfJson : Json → Option Unit
  | .list [] | .object [] => some ()
  | _ => none

/-- The fields of a kind; of the kinds without fields only DISCONNECT passes over others. -/
def fieldsOfJson (j : Json) : PacketType → Option Packet
  | .connect => (Connect.ofJson j).map .connect
  | .connAck => do
    let [present, code] ← j.fields? ["session_present", "return_code"] | none
    return .connAck {
      sessionPresent := ← required flag? present, returnCode := ← required byte? code }
  | .publish => (Publish.ofJson j).map .publish
  | .pubAck => (idOfJson j).map .pubAck
  | .pubRec => (idOfJson j).map .pubRec
  | .pubRel => (idOfJson j).map .pubRel
  | .pubComp => (idOfJson j).map .pubComp
  | .subscribe => do
    let (id, subscriptions) ← pairOfJson "subscriptions" (list? Subscription.ofJson) j
    return .subscribe { id, subscriptions }
  | .subAck => do
    let (id, codes) ← pairOfJson "return_codes" octets? j
    return .subAck { id, codes }
  | .unsubscribe => do
    let (id, filters) ← pairOfJson "topic_filters" (list? text?) j
    return .unsubscribe { id, filters }
  | .unsubAck => (idOfJson j).map .unsubAck
  | .pingReq => (emptyOfJson j).map fun _ => .pingReq
  | .pingResp => (emptyOfJson j).map fun _ => .pingResp
  | .disconnect => (j.fields? []).map fun _ => .disconnect

def ofJson (text : String) : Option Packet := do
  let (tag, fields) ← (← Json.ofSoundString text).tagged? "type"
  fieldsOfJson fields (← PacketType.ofTag? tag)

def jsonFields : Packet → List (String × String)
  | .connect p =>
    [("protocol_version", writeNat p.version.toNat), ("clean_session", writeFlag p.cleanSession),
      ("keep_alive", writeNat p.keepAlive.toNat), ("client_id", writeText p.clientId),
      ("will", writeOptional Will.toJson p.will),
      ("username", writeOptional writeText p.username),
      ("password", writeOptional writeOctets p.password)]
  | .connAck p =>
    [("session_present", writeFlag p.sessionPresent), ("return_code", writeNat p.returnCode.toNat)]
  | .publish p =>
    [("dup", writeFlag p.dup), ("qos", writeNat p.qos.toNat), ("retain", writeFlag p.retain),
      ("topic_name", writeText p.topic),
      ("message_id", writeOptional (fun id : UInt16 => writeNat id.toNat) p.id),
      ("payload", writeOctets p.payload)]
  | .pubAck id | .pubRec id | .pubRel id | .pubComp id | .unsubAck id =>
    [("message_id", writeNat id.toNat)]
  | .subscribe p =>
    [("message_id", writeNat p.id.toNat),
      ("subscriptions", writeList (p.subscriptions.map Subscription.toJson))]
  | .subAck p => [("message_id", writeNat p.id.toNat), ("return_codes", writeOctets p.codes)]
  | .unsubscribe p =>
    [("message_id", writeNat p.id.toNat), ("topic_filters", writeList (p.filters.map writeText))]
  | .pingReq | .pingResp | .disconnect => []

def toJson (p : Packet) : String :=
  writeObject (("type", writeText p.type.tag) :: p.jsonFields)

end Packet
end Mqtt
