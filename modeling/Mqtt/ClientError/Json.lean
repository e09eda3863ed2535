import Mqtt.ClientError
import Mqtt.Json.Writer

/-! Client errors as JSON: the name of the case, with the case's fields if it has any. -/
namespace Mqtt.ClientError
open Json (writeNat writeObject writeOctets writeText)

def tag : ClientError → String
  | .refused _ _ => "ConnectionRefused"
  | .lost _ => "ConnectionLost"
  | .network _ _ => "NetworkError"
  | .violation _ => "ProtocolViolation"
  | .malformed _ _ => "PacketParsing"
  | .identifiersExhausted => "PacketIdExhausted"
  | .timedOut _ _ => "OperationTimeout"
  | .notConnected => "NotConnected"
  | .alreadyConnected => "AlreadyConnected"
  | .queueFull _ _ => "BufferFull"
  | .invalidArgument _ _ => "InvalidArgument"
  | .invalidSetting _ _ => "InvalidConfiguration"
  | .internal _ => "InternalError"

/-- The kind of a network error is not written. -/
def jsonFields : ClientError → List (String × String)
  | .refused code description =>
    [("return_code", writeNat code.toNat), ("description", writeText description)]
  | .lost reason => [("reason", writeText reason)]
  | .network _ text => [("message", writeText text)]
  | .violation text => [("message", writeText text)]
  | .malformed text raw => [("parse_error", writeText text), ("raw_data", writeOctets raw)]
  | .timedOut operation milliseconds =>
    [("operation", writeText operation), ("timeout_ms", writeNat milliseconds)]
  | .queueFull queue capacity =>
    [("buffer_type", writeText queue), ("capacity", writeNat capacity)]
  | .invalidArgument name reason => [("name", writeText name), ("reason", writeText reason)]
  | .invalidSetting field reason => [("field", writeText field), ("reason", writeText reason)]
  | .internal text => [("message", writeText text)]
  | .identifiersExhausted | .notConnected | .alreadyConnected => []

def toJson (e : ClientError) : String :=
  match e.jsonFields with
  | [] => writeText e.tag
  | fields => writeObject [(e.tag, writeObject fields)]

end Mqtt.ClientError
