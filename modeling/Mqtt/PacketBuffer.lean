import Mqtt.Packet.Decode

/-! Bytes of a stream that wait to become packets. -/
namespace Mqtt

structure PacketBuffer where
  version : UInt8 := 4
  bytes : Octets := []
  deriving Repr, DecidableEq

namespace PacketBuffer

def feed (b : PacketBuffer) (data : Octets) : PacketBuffer :=
  { b with bytes := b.bytes ++ data }

/-- Takes the first packet off the buffer, if it is all there; an error takes nothing. -/
def next (b : PacketBuffer) : Except PacketError (Option (Packet × PacketBuffer)) :=
  if b.bytes = [] then .ok none
  else
    match Packet.decodeFor b.version b.bytes with
    | .error e => .error e
    | .ok (.incomplete _) => .ok none
    | .ok (.complete packet size) => .ok (some (packet, { b with bytes := b.bytes.drop size }))

inductive Drip where
  | packet (index : Nat) (packet : Packet)
  | failed (index : Nat) (error : PacketError)
  deriving Repr, DecidableEq

/-- Feeds byte after byte and asks for a packet after each, up to the first error. -/
def drip (b : PacketBuffer) (index : Nat) : Octets → List Drip × PacketBuffer
  | [] => ([], b)
  | byte :: rest =>
    let fed := b.feed [byte]
    match fed.next with
    | .error e => ([.failed index e], fed)
    | .ok none => fed.drip (index + 1) rest
    | .ok (some (packet, b')) =>
      let (more, last) := b'.drip (index + 1) rest
      (.packet index packet :: more, last)

end PacketBuffer
end Mqtt
