import Mqtt.PacketError

/-! The fields that packet bodies are made of. Readers return the value and the bytes behind it. -/
namespace Mqtt.Field

def word : Octets → Except PacketError (UInt16 × Octets)
  | high :: low :: rest => .ok (Octets.toUInt16 high low, rest)
  | _ => .error .bufferTooShort

def binary (bytes : Octets) : Except PacketError (Octets × Octets) := do
  let (count, rest) ← word bytes
  let data := rest.take count.toNat
  if data.length < count.toNat then throw .bufferTooShort
  return (data, rest.drop count.toNat)

def text (bytes : Octets) : Except PacketError (String × Octets) := do
  let (data, rest) ← binary bytes
  match Utf8.decode data with
  | .ok value => return (value, rest)
  | .error fault => throw (.invalidText fault)

/-- The count is kept modulo 65536; the data are all written. -/
def counted (data : Octets) : Octets :=
  Octets.ofUInt16 (UInt16.ofNat data.length) ++ data

def ofBinary (data : Octets) : Except PacketError Octets :=
  if 65535 < data.length then .error .fieldTooLong else .ok (counted data)

def ofText (value : String) : Except PacketError Octets :=
  ofBinary (Utf8.encode value)

def checkQos (qos : UInt8) : Except PacketError UInt8 :=
  if 2 < qos.toNat then .error (.invalidQos qos) else .ok qos

/-- An identifier on the wire is not 0. -/
def ofIdentifier (id : UInt16) : Except PacketError Octets :=
  if id = 0 then .error .zeroIdentifier else .ok (Octets.ofUInt16 id)

end Mqtt.Field
