import Mqtt.Packet
import Mqtt.PacketError
import Mqtt.Unprintable

/-! What a client reports to its caller, grouped by what the caller can do about it. -/
namespace Mqtt

/-- Why a byte channel could not be opened or used. -/
inductive TransportError where
  | connectFailed (text : String)
  | io (fault : IoFault)
  | closed
  | timedOut
  | unsupported (text : String)
  | badAddress (address : String)
  deriving Repr, DecidableEq

def TransportError.message : TransportError → String
  | .connectFailed text => "connect failed: " ++ text
  | .io fault => fault.message
  | .closed => "channel closed"
  | .timedOut => "channel timed out"
  | .unsupported text => "not supported: " ++ text
  | .badAddress address => "bad address " ++ Quoted.quote address

inductive ClientError where
  /-- The broker answered the greeting with a code other than 0. -/
  | refused (code : UInt8) (description : String)
  | lost (reason : String)
  | network (kind : IoKind) (text : String)
  | violation (text : String)
  /-- Bytes that are no packet; `raw` holds them when they are known. -/
  | malformed (text : String) (raw : Octets)
  | identifiersExhausted
  | timedOut (operation : String) (milliseconds : Nat)
  | notConnected
  | alreadyConnected
  | queueFull (queue : String) (capacity : Nat)
  | invalidArgument (name reason : String)
  | invalidSetting (field reason : String)
  | internal (text : String)
  deriving Repr, DecidableEq

namespace ClientError

def shownBytes : Nat := 20

def message : ClientError → String
  | .refused code description =>
    s!"broker refused connection (0x{Octets.hex [code]}): {description}"
  | .lost reason => "connection lost: " ++ reason
  | .network kind text => s!"network error [{kind.name}]: {text}"
  | .violation text => "protocol violation: " ++ text
  | .malformed text [] => "malformed packet: " ++ text
  | .malformed text raw =>
    let more := if shownBytes < raw.length then ".." else ""
    s!"malformed packet: {text} [{Octets.hex (raw.take shownBytes)}{more}, {raw.length} bytes]"
  | .identifiersExhausted => "no free message identifier"
  | .timedOut operation milliseconds => s!"{operation} timed out after {milliseconds} ms"
  | .notConnected => "not connected"
  | .alreadyConnected => "already connected"
  | .queueFull queue capacity => s!"{queue} queue full ({capacity} entries)"
  | .invalidArgument name reason => s!"invalid {name}: {reason}"
  | .invalidSetting field reason => s!"invalid setting {field}: {reason}"
  | .internal text => "internal error: " ++ text

/-- The same call may succeed later. -/
def isRecoverable : ClientError → Bool
  | .lost _ | .network _ _ | .timedOut _ _ | .notConnected | .queueFull _ _
  | .identifiersExhausted => true
  | .refused code _ => code == 3
  | _ => false

/-- The connection is gone and another attempt is worth while. -/
def shouldReconnect : ClientError → Bool
  | .lost _ => true
  | .network kind _ =>
    kind == .connectionReset || kind == .connectionAborted || kind == .brokenPipe ||
      kind == .unexpectedEof
  | _ => false

def isFatal : ClientError → Bool
  | .violation _ | .invalidArgument _ _ | .invalidSetting _ _ | .internal _ => true
  | _ => false

def isAuth : ClientError → Bool
  | .refused code _ => code == 4 || code == 5
  | _ => false

def ofIo (fault : IoFault) : ClientError :=
  .network fault.kind fault.message

def ofIoDuring (fault : IoFault) (context : String) : ClientError :=
  .network fault.kind (context ++ ": " ++ fault.message)

def ofRefusal (code : UInt8) : ClientError :=
  .refused code (ConnAck.describe code)

def ofPacket (e : PacketError) : ClientError :=
  match e with
  | .io fault => ofIo fault
  | .connectionClosed => .lost e.message
  | .timedOut => .timedOut "packet read" 0
  | .zeroIdentifier => .invalidArgument "message_id" e.message
  | .invalidQos _ => .invalidArgument "qos" e.message
  | .fieldTooLong => .invalidArgument "string" e.message
  | _ => .malformed e.message []

def ofFrame (e : PacketError) (raw : Octets) : ClientError :=
  .malformed e.message raw

def ofTransport (e : TransportError) : ClientError :=
  match e with
  | .io fault => ofIo fault
  | .closed => .lost e.message
  | .timedOut => .timedOut "transport" 0
  | _ => .network .other e.message

end ClientError
end Mqtt
