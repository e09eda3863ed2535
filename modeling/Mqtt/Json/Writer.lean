import Mqtt.Octets

/-! Compact JSON text. -/
namespace Mqtt.Json

/-- Quotes, backslashes and control characters are escaped, and nothing else. -/
def escape (c : Char) : List Char :=
  if c = '"' ∨ c = '\\' then ['\\', c]
  else if c = '\x08' then ['\\', 'b']
  else if c = '\t' then ['\\', 't']
  else if c = '\n' then ['\\', 'n']
  else if c = '\x0c' then ['\\', 'f']
  else if c = '\r' then ['\\', 'r']
  else if c.toNat < 32 then ['\\', 'u', '0', '0'] ++ Octets.hexPair (UInt8.ofNat c.toNat)
  else [c]

def writeText (s : String) : String :=
  String.ofList ('"' :: s.toList.flatMap escape ++ ['"'])

def writeNat (n : Nat) : String :=
  toString n

def writeFlag (b : Bool) : String :=
  if b then "true" else "false"

def writeList (items : List String) : String :=
  "[" ++ ",".intercalate items ++ "]"

def writeOctets (bytes : Octets) : String :=
  writeList (bytes.map fun b => writeNat b.toNat)

def writeObject (fields : List (String × String)) : String :=
  let written := fields.map fun (name, value) => writeText name ++ ":" ++ value
  "\x7b" ++ ",".intercalate written ++ "\x7d"

def writeOptional {α : Type} (write : α → String) : Option α → String
  | some value => write value
  | none => "null"

end Mqtt.Json
