/-! Byte sequences and their two-digit text. -/
namespace Mqtt

abbrev Octets := List UInt8

namespace Octets

def hexDigit (n : Nat) : Char :=
  if n < 10 then Char.ofNat (48 + n) else Char.ofNat (87 + n)

def hexPair (b : UInt8) : List Char :=
  [hexDigit (b.toNat / 16), hexDigit (b.toNat % 16)]

def hex (bytes : Octets) : String :=
  String.ofList (bytes.flatMap hexPair)

/-- A byte count or identifier as two bytes, high byte first. -/
def ofUInt16 (n : UInt16) : Octets :=
  [UInt8.ofNat (n.toNat / 256), UInt8.ofNat (n.toNat % 256)]

/-- The number that two bytes spell, high byte first. -/
def toUInt16 (high low : UInt8) : UInt16 :=
  UInt16.ofNat (high.toNat * 256 + low.toNat)

end Octets
end Mqtt
