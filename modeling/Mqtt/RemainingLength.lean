import Mqtt.PacketError

/-! The remaining length: base 128, low group first, the high bit says that another byte follows. -/
namespace Mqtt
namespace RemainingLength

/-- What four 7-bit groups can carry. -/
def max : Nat := 268435455

def groups : (fuel n : Nat) → Octets
  | 0, _ => []
  | fuel + 1, n =>
    if n < 128 then [UInt8.ofNat n] else UInt8.ofNat (128 + n % 128) :: groups fuel (n / 128)

/-- Thirty-two bits are at most five groups. -/
def encode (n : UInt32) : Octets :=
  groups 5 n.toNat

def size (n : Nat) : Nat :=
  if n ≤ 127 then 1 else if n ≤ 16383 then 2 else if n ≤ 2097151 then 3 else 4

end RemainingLength

/-- Reads a remaining length one byte at a time, in a 64-bit word. -/
structure LengthReader where
  value : Nat := 0
  /-- The weight of the next group; 0 stands for 1. -/
  weight : Nat := 0
  taken : Nat := 0
  deriving Repr, DecidableEq

namespace LengthReader

def word : Nat := UInt64.size

/-- The value once the last group is in; a fourth byte must be the last. -/
def push (r : LengthReader) (b : UInt8) : Except PacketError (LengthReader × Option Nat) :=
  if r.taken = 3 ∧ 128 ≤ b.toNat then .error (.malformed .lengthOverrun)
  else
    let weight := if r.weight = 0 then 1 else r.weight
    let value := (r.value + b.toNat % 128 * weight) % word
    let r' := { value, weight := weight * 128 % word, taken := r.taken + 1 }
    .ok (r', if b.toNat < 128 then some value else none)

/-- Pushes bytes until the value is known; also says how many bytes it took. -/
def read : LengthReader → Octets → Except PacketError (Nat × Nat)
  | _, [] => .error (.needMore 1 "vbi: not enough bytes for remaining length")
  | r, b :: bytes =>
    match r.push b with
    | .error e => .error e
    | .ok (r', some value) => .ok (value, r'.taken)
    | .ok (r', none) => r'.read bytes

end LengthReader

def RemainingLength.decode (bytes : Octets) : Except PacketError (Nat × Nat) :=
  match bytes with
  | [] => .error .bufferTooShort
  | _ :: _ => LengthReader.read {} bytes

end Mqtt
