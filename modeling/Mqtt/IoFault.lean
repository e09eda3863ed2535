/-! Failures of the byte channel. -/
namespace Mqtt

inductive IoKind where
  | notFound | permissionDenied | connectionRefused | connectionReset | connectionAborted
  | notConnected | addrInUse | addrNotAvailable | brokenPipe | alreadyExists | wouldBlock
  | invalidInput | invalidData | timedOut | writeZero | interrupted | unsupported
  | unexpectedEof | outOfMemory | other
  deriving Repr, DecidableEq

namespace IoKind

def all : List IoKind :=
  [.notFound, .permissionDenied, .connectionRefused, .connectionReset, .connectionAborted,
    .notConnected, .addrInUse, .addrNotAvailable, .brokenPipe, .alreadyExists, .wouldBlock,
    .invalidInput, .invalidData, .timedOut, .writeZero, .interrupted, .unsupported,
    .unexpectedEof, .outOfMemory, .other]

def name : IoKind → String
  | .notFound => "NotFound" | .permissionDenied => "PermissionDenied"
  | .connectionRefused => "ConnectionRefused" | .connectionReset => "ConnectionReset"
  | .connectionAborted => "ConnectionAborted" | .notConnected => "NotConnected"
  | .addrInUse => "AddrInUse" | .addrNotAvailable => "AddrNotAvailable"
  | .brokenPipe => "BrokenPipe" | .alreadyExists => "AlreadyExists"
  | .wouldBlock => "WouldBlock" | .invalidInput => "InvalidInput"
  | .invalidData => "InvalidData" | .timedOut => "TimedOut" | .writeZero => "WriteZero"
  | .interrupted => "Interrupted" | .unsupported => "Unsupported"
  | .unexpectedEof => "UnexpectedEof" | .outOfMemory => "OutOfMemory" | .other => "Other"

/-- The text of a fault that has none of its own. -/
def description : IoKind → String
  | .notFound => "entity not found" | .permissionDenied => "permission denied"
  | .connectionRefused => "connection refused" | .connectionReset => "connection reset"
  | .connectionAborted => "connection aborted" | .notConnected => "not connected"
  | .addrInUse => "address in use" | .addrNotAvailable => "address not available"
  | .brokenPipe => "broken pipe" | .alreadyExists => "entity already exists"
  | .wouldBlock => "operation would block" | .invalidInput => "invalid input parameter"
  | .invalidData => "invalid data" | .timedOut => "timed out" | .writeZero => "write zero"
  | .interrupted => "operation interrupted" | .unsupported => "unsupported"
  | .unexpectedEof => "unexpected end of file" | .outOfMemory => "out of memory"
  | .other => "other error"

def ofName? (name : String) : Option IoKind :=
  all.find? fun kind => kind.name == name

end IoKind

/-- A fault of the channel; an explicit text replaces the kind's description. -/
structure IoFault where
  kind : IoKind
  text : Option String
  deriving Repr, DecidableEq

def IoFault.message (fault : IoFault) : String :=
  fault.text.getD fault.kind.description

end Mqtt
