import Mqtt.Octets

/-! UTF-8: the bytes of a text, and the strict reading that names the first fault. -/
namespace Mqtt.Utf8

def encodeChar (c : Char) : Octets :=
  let n := c.toNat
  if n < 0x80 then [UInt8.ofNat n]
  else if n < 0x800 then [UInt8.ofNat (0xC0 + n / 64), UInt8.ofNat (0x80 + n % 64)]
  else if n < 0x10000 then
    [UInt8.ofNat (0xE0 + n / 4096), UInt8.ofNat (0x80 + n / 64 % 64), UInt8.ofNat (0x80 + n % 64)]
  else
    [UInt8.ofNat (0xF0 + n / 262144), UInt8.ofNat (0x80 + n / 4096 % 64),
      UInt8.ofNat (0x80 + n / 64 % 64), UInt8.ofNat (0x80 + n % 64)]

def encode (text : String) : Octets :=
  text.toList.flatMap encodeChar

/-- Why bytes are no text. -/
inductive Fault where
  /-- After `offset` good bytes, `size` bytes could begin a character that does not follow. -/
  | invalid (offset size : Nat)
  /-- After `offset` good bytes, the input ends inside a character. -/
  | truncated (offset : Nat)
  deriving Repr, DecidableEq

def Fault.message : Fault → String
  | .invalid offset size => s!"invalid utf-8 sequence of {size} bytes from index {offset}"
  | .truncated offset => s!"incomplete utf-8 byte sequence from index {offset}"

/-- What a first byte announces: how many bytes follow, the range of the next one, its own bits. -/
structure Lead where
  owed : Nat
  low : Nat
  high : Nat
  bits : Nat
  deriving Repr, DecidableEq

/-- The range of the second byte excludes overlong forms, surrogates and what is above U+10FFFF. -/
def lead (b : UInt8) : Option Lead :=
  let n := b.toNat
  if n < 0x80 then some ⟨0, 0x80, 0xBF, n⟩
  else if n < 0xC2 then none
  else if n < 0xE0 then some ⟨1, 0x80, 0xBF, n - 0xC0⟩
  else if n = 0xE0 then some ⟨2, 0xA0, 0xBF, 0⟩
  else if n = 0xED then some ⟨2, 0x80, 0x9F, 0xD⟩
  else if n < 0xF0 then some ⟨2, 0x80, 0xBF, n - 0xE0⟩
  else if n = 0xF0 then some ⟨3, 0x90, 0xBF, 0⟩
  else if n < 0xF4 then some ⟨3, 0x80, 0xBF, n - 0xF0⟩
  else if n = 0xF4 then some ⟨3, 0x80, 0x8F, 4⟩
  else none

inductive Scan where
  | char (c : Char) (size : Nat) (rest : Octets)
  | invalid (size : Nat)
  | truncated
  deriving Repr, DecidableEq

/-- Reads the bytes still owed; `size` bytes of the character are taken, `bits` is their value. -/
def follow : (owed low high bits size : Nat) → Octets → Scan
  | 0, _, _, bits, size, rest => .char (Char.ofNat bits) size rest
  | _ + 1, _, _, _, _, [] => .truncated
  | owed + 1, low, high, bits, size, b :: rest =>
    if low ≤ b.toNat ∧ b.toNat ≤ high then
      follow owed 0x80 0xBF (bits * 64 + b.toNat % 64) (size + 1) rest
    else .invalid size

def scan (b : UInt8) (rest : Octets) : Scan :=
  match lead b with
  | none => .invalid 1
  | some l => follow l.owed l.low l.high l.bits 1 rest

/-- Reads characters to the end; a character takes at least one byte, so `fuel` is a length. -/
def decodeFrom : (fuel offset : Nat) → Octets → Except Fault (List Char)
  | _, _, [] => .ok []
  | 0, offset, _ :: _ => .error (.truncated offset)
  | fuel + 1, offset, b :: bytes =>
    match scan b bytes with
    | .char c size rest => (decodeFrom fuel (offset + size) rest).map (c :: ·)
    | .invalid size => .error (.invalid offset size)
    | .truncated => .error (.truncated offset)

/-- The text whose bytes these are, or the first fault. -/
def decode (bytes : Octets) : Except Fault String :=
  (decodeFrom bytes.length 0 bytes).map String.ofList

end Mqtt.Utf8
