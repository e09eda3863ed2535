import Mqtt.IoFault
import Mqtt.PacketType
import Mqtt.Utf8

/-! Why bytes are no packet, or a packet has no bytes. -/
namespace Mqtt

inductive Defect where
  /-- The fourth length byte asks for a fifth. -/
  | lengthOverrun
  | emptyTopicName
  | wildcardInTopicName (topic : String)
  | emptyTopicFilter
  | misplacedHash
  | misplacedPlus
  | wrongFlags (type : PacketType)
  | wrongBodyLength (type : PacketType) (expected : Nat)
  | missingIdentifier (type : PacketType)
  | unknownProtocol (name : String)
  | reservedConnectFlag
  | willDetailsWithoutWill
  | passwordWithoutUsername
  | reservedAckFlags
  | unknownReturnCode
  | missingPublishIdentifier
  | missingSubscriptionQos
  | noTopicFilters (type : PacketType)
  | unknownGrant (code : UInt8)
  /-- A text from outside the library. -/
  | other (text : String)
  deriving Repr, DecidableEq

def Defect.message : Defect → String
  | .lengthOverrun => "invalid remaining length, MSB is 1"
  | .emptyTopicName => "Topic name cannot be empty"
  | .wildcardInTopicName topic => "Topic name must not contain wildcards: " ++ topic
  | .emptyTopicFilter => "Topic filter cannot be empty"
  | .misplacedHash => "Multi-level wildcard (#) must be the only character of the last level"
  | .misplacedPlus => "Single-level wildcard (+) must be the only character in topic level"
  | .wrongFlags type => s!"{type.name} packet has invalid fixed header flags"
  | .wrongBodyLength type expected =>
    s!"{type.name} packet must have a remaining length of {expected}"
  | .missingIdentifier type => s!"{type.name} packet must have a 2-byte message identifier"
  | .unknownProtocol name => "Invalid protocol name: " ++ name
  | .reservedConnectFlag => "CONNECT reserved flag bit is not 0"
  | .willDetailsWithoutWill => "Will QoS and retain must be 0 without will flag"
  | .passwordWithoutUsername => "Password flag requires username flag"
  | .reservedAckFlags => "CONNACK session present flags reserved bits must be 0"
  | .unknownReturnCode => "Invalid CONNACK return code"
  | .missingPublishIdentifier => "Missing message ID for QoS > 0"
  | .missingSubscriptionQos => "SUBSCRIBE payload is missing QoS byte"
  | .noTopicFilters type => s!"{type.name} must contain at least one topic filter"
  | .unknownGrant code => s!"Invalid SUBACK return code: {code.toNat}"
  | .other text => text

inductive PacketError where
  /-- At least `hint` more bytes are needed. -/
  | needMore (hint : Nat) (text : String)
  | io (fault : IoFault)
  | malformed (defect : Defect)
  | invalidText (fault : Utf8.Fault)
  | fieldTooLong
  | bufferTooShort
  | bufferEmpty
  | invalidLength
  | invalidPacketType
  | invalidQos (qos : UInt8)
  | zeroIdentifier
  | unsupportedVersion
  | timedOut
  | connectionClosed
  | internal (text : String)
  deriving Repr, DecidableEq

namespace PacketError

def message : PacketError → String
  | .needMore hint text => s!"More data needed ({hint} bytes): {text}"
  | .io fault => "IO Error: " ++ fault.message
  | .malformed defect => "Parse Error: " ++ defect.message
  | .invalidText fault => "UTF-8 Error: " ++ fault.message
  | .fieldTooLong => "String Too Long"
  | .bufferTooShort => "Buffer Too Short"
  | .bufferEmpty => "Buffer Empty"
  | .invalidLength => "Invalid Length"
  | .invalidPacketType => "Invalid Packet Type"
  | .invalidQos qos => s!"Invalid QoS level: {qos.toNat}"
  | .zeroIdentifier => "Message identifier must be non-zero"
  | .unsupportedVersion => "Unsupported Protocol Version"
  | .timedOut => "Timed out reading packet"
  | .connectionClosed => "Connection closed by peer"
  | .internal text => "Internal Error: " ++ text

/-- Only a channel fault and a text fault are causes in their own right. -/
def hasSource : PacketError → Bool
  | .io _ | .invalidText _ => true
  | _ => false

end PacketError
end Mqtt
