import Mqtt.RemainingLength

/-! The start of every packet: a type and flags byte, then the length of the rest. -/
namespace Mqtt

structure FixedHeader where
  first : UInt8
  /-- How many bytes the first byte and the length take. -/
  size : Nat
  remaining : Nat
  deriving Repr, DecidableEq

namespace FixedHeader

/-- The header of a packet that is all there; none as long as bytes are missing. -/
def read : Octets → Except PacketError (Option FixedHeader)
  | [] => .ok none
  | first :: rest =>
    match RemainingLength.decode rest with
    | .error (.needMore _ _) | .error .bufferTooShort => .ok none
    | .error e => .error e
    | .ok (remaining, size) =>
      if rest.length < size + remaining then .ok none
      else .ok (some { first, size := size + 1, remaining })

/-- How many bytes are known to be missing, at least 1 while the length itself is not known. -/
def missing : Octets → Nat
  | [] => 1
  | bytes@(_ :: rest) =>
    match RemainingLength.decode rest with
    | .ok (remaining, size) => 1 + size + remaining - bytes.length
    | .error _ => 1

def body (h : FixedHeader) (bytes : Octets) : Octets :=
  (bytes.drop h.size).take h.remaining

def total (h : FixedHeader) : Nat :=
  h.size + h.remaining

def flags (h : FixedHeader) : Nat :=
  h.first.toNat % 16

end FixedHeader
end Mqtt
