import Mqtt.Packet.Decode

/-!
Decoding by places in the buffer. Here no body is cut out beforehand: every reader walks over the
buffer with an offset, and each look at the buffer is written down. A look at what is not there is
no fault of the packet but a crash.
-/
namespace Mqtt

/-- What must not happen on a walk. -/
inductive Crash where
  | outOfBounds
  | underflow
  /-- A loop does not go forward, or goes past its end. -/
  | astray
  deriving Repr, DecidableEq

/-- A look at a buffer, by places that count from its start. -/
inductive Look where
  /-- What stands between two places is marked off. -/
  | part (start stop : Nat)
  | onward (start : Nat)
  /-- The bytes between two places are read. -/
  | read (start stop : Nat)
  deriving Repr, DecidableEq

inductive Walk.Outcome (α : Type) where
  | done (value : α)
  | failed (error : PacketError)
  | crashed (crash : Crash)
  deriving Repr, DecidableEq

/-- What is looked at, in order, and what comes of it. -/
structure Walk (α : Type) where
  looks : List Look
  outcome : Walk.Outcome α
  deriving Repr, DecidableEq

namespace Walk

variable {α β : Type}

def fail (error : PacketError) : Walk α :=
  { looks := [], outcome := .failed error }

def crash (crash : Crash) : Walk α :=
  { looks := [], outcome := .crashed crash }

def andThen (w : Walk α) (next : α → Walk β) : Walk β :=
  match w.outcome with
  | .done value => { looks := w.looks ++ (next value).looks, outcome := (next value).outcome }
  | .failed error => { looks := w.looks, outcome := .failed error }
  | .crashed crash => { looks := w.looks, outcome := .crashed crash }

instance : Monad Walk where
  pure value := { looks := [], outcome := .done value }
  bind := andThen

/-- A step that looks at nothing. -/
def lift : Except PacketError α → Walk α
  | .ok value => pure value
  | .error error => fail error

/-- The failure of a walk as a result. -/
def attempt (w : Walk α) : Walk (Except PacketError α) :=
  match w.outcome with
  | .done value => { looks := w.looks, outcome := .done (.ok value) }
  | .failed error => { looks := w.looks, outcome := .done (.error error) }
  | .crashed crash => { looks := w.looks, outcome := .crashed crash }

def note (look : Look) : Walk Unit :=
  { looks := [look], outcome := .done () }

def subtract (n m : Nat) : Walk Nat :=
  if m ≤ n then pure (n - m) else crash .underflow

/-- Repeats a step, which gives a value and the next offset, until the offset is `stop`. -/
def many (step : Nat → Walk (α × Nat)) (stop offset : Nat) : Walk (List α) :=
  if _ : offset < stop then do
    let (value, next) ← step offset
    if _ : offset < next ∧ next ≤ stop then
      let values ← many step stop next
      return value :: values
    else crash .astray
  else return []
termination_by stop - offset

end Walk

/-- A part of a buffer, and the place at which it begins. -/
structure Part where
  start : Nat
  bytes : Octets
  deriving Repr, DecidableEq

namespace Part

def length (p : Part) : Nat :=
  p.bytes.length

def between (p : Part) (start stop : Nat) : Walk Part :=
  if start ≤ stop ∧ stop ≤ p.length then do
    Walk.note (.part (p.start + start) (p.start + stop))
    return ⟨p.start + start, (p.bytes.take stop).drop start⟩
  else .crash .outOfBounds

def onward (p : Part) (start : Nat) : Walk Part :=
  if start ≤ p.length then do
    Walk.note (.onward (p.start + start))
    return ⟨p.start + start, p.bytes.drop start⟩
  else .crash .outOfBounds

def byte (p : Part) (offset : Nat) : Walk UInt8 :=
  match p.bytes[offset]? with
  | some b => do
    Walk.note (.read (p.start + offset) (p.start + offset + 1))
    return b
  | none => .crash .outOfBounds

def byteOr (p : Part) (offset : Nat) (error : PacketError) : Walk UInt8 :=
  if offset < p.length then p.byte offset else .fail error

def all (p : Part) : Walk Octets := do
  Walk.note (.read p.start (p.start + p.length))
  return p.bytes

/-! Fields at the front of a part. Readers return the value and the number of bytes it takes. -/

def word (p : Part) : Walk (UInt16 × Nat) :=
  if p.length < 2 then .fail .bufferTooShort
  else do
    let high ← p.byte 0
    let low ← p.byte 1
    return (Octets.toUInt16 high low, 2)

def binary (p : Part) : Walk (Octets × Nat) := do
  let (count, _) ← p.word
  let stop := 2 + count.toNat
  if p.length < stop then .fail .bufferTooShort
  else do
    let data ← (← p.between 2 stop).all
    return (data, stop)

def text (p : Part) : Walk (String × Nat) := do
  let (data, size) ← p.binary
  match Utf8.decode data with
  | .ok value => return (value, size)
  | .error fault => .fail (.invalidText fault)

/-- Hands a length reader one byte after the other. -/
def readLength (r : LengthReader) (place : Nat) : Octets → Walk (Nat × Nat)
  | [] => .fail (.needMore 1 "vbi: not enough bytes for remaining length")
  | b :: bytes => do
    Walk.note (.read place (place + 1))
    match ← Walk.lift (r.push b) with
    | (r', some value) => return (value, r'.taken)
    | (r', none) => readLength r' (place + 1) bytes

def remainingLength (p : Part) : Walk (Nat × Nat) :=
  if p.length = 0 then .fail .bufferTooShort else readLength {} p.start p.bytes

/-! The start of a packet. -/

def leadingCode (p : Part) : Walk Nat :=
  if p.length = 0 then .fail .bufferEmpty
  else do return (← p.byte 0).toNat / 16

def checkFirst (p : Part) (type : PacketType) : Walk Unit :=
  if type = .connect then return ()
  else do
    if (← p.leadingCode) ≠ type.code then .fail .invalidPacketType
    else if type = .publish then do
      let _ ← Walk.lift (Publish.qosOfFlags ((← p.byte 0).toNat % 16))
    else return ()

def fixedHeader (p : Part) : Walk (Option FixedHeader) :=
  if p.length = 0 then return none
  else do
    match ← (← p.onward 1).remainingLength.attempt with
    | .error (.needMore _ _) | .error .bufferTooShort => return none
    | .error e => .fail e
    | .ok (remaining, size) =>
      if p.length < 1 + size + remaining then return none
      else return some { first := ← p.byte 0, size := 1 + size, remaining }

/-- How many bytes are missing; the length is read anew. -/
def missing (p : Part) : Walk Nat := do
  let rest ← if p.length < 1 then pure ⟨0, []⟩ else p.onward 1
  match ← rest.remainingLength.attempt with
  | .ok (remaining, size) => Walk.subtract (1 + size + remaining) p.length
  | .error _ => return 1

/-! Bodies: the `size` bytes behind an offset. -/

section Bodies

variable (p : Part) (type : PacketType) (offset size stop : Nat)

def noBody : Walk Unit :=
  if size ≠ 0 then .fail (.malformed (.wrongBodyLength type 0)) else return ()

def onlyIdentifier : Walk UInt16 :=
  if size ≠ 2 then .fail (.malformed (.wrongBodyLength type 2))
  else do return (← (← p.onward offset).word).1

def connAck : Walk ConnAck :=
  if size ≠ 2 then .fail (.malformed (.wrongBodyLength .connAck 2))
  else do
    let flags ← p.byte offset
    if 1 < flags.toNat then .fail (.malformed .reservedAckFlags)
    else
      let code ← p.byte (offset + 1)
      if 5 < code.toNat then .fail (.malformed .unknownReturnCode)
      else return { sessionPresent := flags = 1, returnCode := code }

/-- Reads a field between two offsets; the offset behind it goes with the value. -/
def fieldIn {α : Type} (read : Part → Walk (α × Nat)) : Walk (α × Nat) := do
  let (value, size) ← read (← p.between offset stop)
  return (value, offset + size)

def publishIdentifier : Walk (UInt16 × Nat) :=
  if stop < offset + 2 then .fail (.malformed .missingPublishIdentifier)
  else do
    let (id, offset) ← p.fieldIn offset stop word
    if id = 0 then .fail .zeroIdentifier else return (id, offset)

def publish (flags : Nat) : Walk Publish := do
  let qos ← Walk.lift (Publish.qosOfFlags flags)
  let stop := offset + size
  let (topic, offset) ← p.fieldIn offset stop text
  let dup := flags.testBit 3
  let retain := flags.testBit 0
  if qos = 0 then do
    let payload ← (← p.between offset stop).all
    return { dup, qos, retain, topic, id := none, payload }
  else do
    let (id, offset) ← p.publishIdentifier offset stop
    let payload ← (← p.between offset stop).all
    return { dup, qos, retain, topic, id := some id, payload }

def identifier : Walk (UInt16 × Nat) :=
  if size < 2 then .fail (.malformed (.missingIdentifier type))
  else p.fieldIn offset (offset + size) word

def subscription : Walk (Subscription × Nat) := do
  let (filter, offset) ← p.fieldIn offset stop text
  let qos ← (← p.between 0 stop).byteOr offset (.malformed .missingSubscriptionQos)
  let qos ← Walk.lift (Field.checkQos qos)
  return ({ filter, qos }, offset + 1)

def subscribe : Walk Subscribe := do
  let stop := offset + size
  let (id, offset) ← p.identifier .subscribe offset size
  let subscriptions ← Walk.many (fun offset => p.subscription offset stop) stop offset
  if subscriptions = [] then .fail (.malformed (.noTopicFilters .subscribe))
  else return { id, subscriptions }

def subAck : Walk SubAck := do
  let stop := offset + size
  let (id, offset) ← p.identifier .subAck offset size
  let codes ← (← p.between offset stop).all
  return { id, codes := ← Walk.lift (codes.mapM SubAck.checkCode) }

def unsubscribe : Walk Unsubscribe := do
  let stop := offset + size
  let (id, offset) ← p.identifier .unsubscribe offset size
  return { id, filters := ← Walk.many (fun offset => p.fieldIn offset stop text) stop offset }

def field {α : Type} (read : Part → Walk (α × Nat)) : Walk (α × Nat) := do
  let (value, size) ← read (← p.onward offset)
  return (value, offset + size)

def optional {α : Type} (present : Bool) (read : Nat → Walk (α × Nat)) : Walk (Option α × Nat) :=
  if present then do
    let (value, offset) ← read offset
    return (some value, offset)
  else return (none, offset)

def will (flags : Nat) : Walk (Will × Nat) := do
  let (topic, offset) ← p.field offset text
  let (message, offset) ← p.field offset binary
  let qos ← Walk.lift (Field.checkQos (UInt8.ofNat (flags / 8 % 4)))
  return ({ retain := flags.testBit 5, qos, topic, message }, offset)

/-- The fields of a CONNECT, in a part that ends with it. -/
def connectFields : Walk Connect := do
  let (name, offset) ← p.field offset text
  let version ← p.byteOr offset .bufferTooShort
  Walk.lift (Connect.checkProtocol name version)
  let flagByte ← p.byteOr (offset + 1) .bufferTooShort
  let flags := flagByte.toNat
  Walk.lift (Connect.checkFlags flags)
  let (keepAlive, offset) ← p.field (offset + 2) word
  let (clientId, offset) ← p.field offset text
  let (will, offset) ← optional offset (flags.testBit 2) fun offset => p.will offset flags
  let (username, offset) ← optional offset (flags.testBit 7) fun offset => p.field offset text
  let (password, offset) ← optional offset (flags.testBit 6) fun offset => p.field offset binary
  if offset ≠ stop then .fail .invalidLength
  else
    return { version, cleanSession := flags.testBit 1, keepAlive, clientId, will, username, password }

def connect : Walk Connect := do
  let stop := offset + size
  (← p.between 0 stop).connectFields offset stop

def packet (flags : Nat) : Walk Packet :=
  match type with
  | .connect => .connect <$> p.connect offset size
  | .connAck => .connAck <$> p.connAck offset size
  | .publish => .publish <$> p.publish offset size flags
  | .pubAck => .pubAck <$> p.onlyIdentifier type offset size
  | .pubRec => .pubRec <$> p.onlyIdentifier type offset size
  | .pubRel => .pubRel <$> p.onlyIdentifier type offset size
  | .pubComp => .pubComp <$> p.onlyIdentifier type offset size
  | .subscribe => .subscribe <$> p.subscribe offset size
  | .subAck => .subAck <$> p.subAck offset size
  | .unsubscribe => .unsubscribe <$> p.unsubscribe offset size
  | .unsubAck => .unsubAck <$> p.onlyIdentifier type offset size
  | .pingReq => (fun _ => .pingReq) <$> noBody type size
  | .pingResp => (fun _ => .pingResp) <$> noBody type size
  | .disconnect => (fun _ => .disconnect) <$> noBody type size

end Bodies

def decodeAs (p : Part) (type : PacketType) : Walk Decoded := do
  p.checkFirst type
  match ← p.fixedHeader with
  | none => return .incomplete (← p.missing)
  | some h =>
    Walk.lift (Packet.checkFlags type h.flags)
    let packet ← p.packet type h.size h.remaining h.flags
    return .complete packet h.total

def decode (p : Part) : Walk Decoded := do
  match PacketType.ofCode? (← p.leadingCode) with
  | none => .fail .invalidPacketType
  | some type => p.decodeAs type

end Part

def Packet.walkAs (type : PacketType) (bytes : Octets) : Walk Decoded :=
  Part.decodeAs ⟨0, bytes⟩ type

/-- The walk over a buffer. -/
def Packet.walk (bytes : Octets) : Walk Decoded :=
  Part.decode ⟨0, bytes⟩

end Mqtt
