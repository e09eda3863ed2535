import Mqtt.Json

/-! The lexemes of a JSON document. -/
namespace Mqtt.Json

inductive Token where
  | openList | closeList | openObject | closeObject | comma | colon
  | null
  | flag (value : Bool)
  | number (value : Number)
  | text (value : Option String)
  deriving Repr, DecidableEq

structure TextReader where
  chars : List Char := []
  /-- A high surrogate that waits for its other half. -/
  high : Option Nat := none
  broken : Bool := false
  deriving Repr, DecidableEq

namespace TextReader

def char (r : TextReader) (c : Char) : TextReader :=
  { chars := c :: r.chars, broken := r.broken || r.high.isSome }

/-- Takes a 16-bit unit; two surrogates make one character. -/
def unit (r : TextReader) (n : Nat) : TextReader :=
  if 0xD800 ≤ n ∧ n < 0xDC00 then
    { r with high := some n, broken := r.broken || r.high.isSome }
  else if 0xDC00 ≤ n ∧ n < 0xE000 then
    match r.high with
    | some high =>
      { r with chars := Char.ofNat (0x10000 + (high - 0xD800) * 0x400 + (n - 0xDC00)) :: r.chars
               high := none }
    | none => { r with broken := true }
  else r.char (Char.ofNat n)

def finish (r : TextReader) : Option String :=
  if r.broken || r.high.isSome then none else some (String.ofList r.chars.reverse)

def hexDigit? (c : Char) : Option Nat :=
  if '0' ≤ c ∧ c ≤ '9' then some (c.toNat - 48)
  else if 'a' ≤ c ∧ c ≤ 'f' then some (c.toNat - 87)
  else if 'A' ≤ c ∧ c ≤ 'F' then some (c.toNat - 55)
  else none

def escaped? : Char → Option Char
  | '"' => some '"' | '\\' => some '\\' | '/' => some '/' | 'b' => some '\x08'
  | 'f' => some '\x0c' | 'n' => some '\n' | 'r' => some '\r' | 't' => some '\t' | _ => none

def read (r : TextReader) : List Char → Option (Option String × List Char)
  | '"' :: rest => some (r.finish, rest)
  | '\\' :: 'u' :: a :: b :: c :: d :: rest => do
    let high := (← hexDigit? a) * 16 + (← hexDigit? b)
    let n := (high * 16 + (← hexDigit? c)) * 16 + (← hexDigit? d)
    read (r.unit n) rest
  | '\\' :: c :: rest => do read (r.char (← escaped? c)) rest
  | c :: rest => if c.toNat < 32 then none else read (r.char c) rest
  | [] => none

end TextReader

def digit (c : Char) : Nat := c.toNat - 48

/-- Appends digits to a mantissa, as far as 64 bits hold it; returns what is left of them. -/
def gather (mantissa : Nat) : List Char → Nat × List Char
  | [] => (mantissa, [])
  | c :: cs =>
    if mantissa * 10 + digit c < UInt64.size then gather (mantissa * 10 + digit c) cs
    else (mantissa, c :: cs)

def digits? (cs : List Char) : Option (List Char × List Char) :=
  if (cs.takeWhile Char.isDigit).isEmpty then none
  else some (cs.takeWhile Char.isDigit, cs.dropWhile Char.isDigit)

/-- A digit sequence that begins with zero is zero. -/
def integer? : List Char → Option (List Char × List Char)
  | '0' :: rest => some (['0'], rest)
  | cs => digits? cs

def exponent? (cs : List Char) : Option (Int × List Char) := do
  let (sign, cs) := match cs with
    | '-' :: rest => (-1, rest)
    | '+' :: rest => (1, rest)
    | _ => (1, cs)
  let (ds, rest) ← digits? cs
  return (sign * (ds.foldl (fun n c => n * 10 + digit c) 0 : Nat), rest)

/-- A number without its sign. Digits of the whole part that do not fit the mantissa scale it. -/
def number? (negative : Bool) (cs : List Char) : Option (Number × List Char) := do
  let (ds, cs) ← integer? cs
  let (whole, beyond) := gather 0 ds
  let (mantissa, places, cs) ← match cs with
    | '.' :: rest => do
      let (ds, rest) ← digits? rest
      let (mantissa, left) := gather whole ds
      pure (mantissa, some (ds.length - left.length), rest)
    | _ => pure (whole, none, cs)
  let scale : Int := beyond.length - (places.getD 0 : Nat)
  match cs with
  | 'e' :: rest | 'E' :: rest => do
    let (exponent, rest) ← exponent? rest
    return (.decimal negative mantissa (exponent + scale), rest)
  | _ =>
    if negative || places.isSome || !beyond.isEmpty then
      return (.decimal negative mantissa scale, cs)
    else return (.whole mantissa, cs)

namespace Token

def first? : List Char → Option (Token × List Char)
  | '[' :: rest => some (.openList, rest)
  | ']' :: rest => some (.closeList, rest)
  | '\x7b' :: rest => some (.openObject, rest)
  | '\x7d' :: rest => some (.closeObject, rest)
  | ',' :: rest => some (.comma, rest)
  | ':' :: rest => some (.colon, rest)
  | '"' :: rest => ({} : TextReader).read rest |>.map fun (s, rest) => (.text s, rest)
  | 'n' :: 'u' :: 'l' :: 'l' :: rest => some (.null, rest)
  | 't' :: 'r' :: 'u' :: 'e' :: rest => some (.flag true, rest)
  | 'f' :: 'a' :: 'l' :: 's' :: 'e' :: rest => some (.flag false, rest)
  | '-' :: rest => (number? true rest).map fun (n, rest) => (.number n, rest)
  | cs => (number? false cs).map fun (n, rest) => (.number n, rest)

def isSpace (c : Char) : Bool :=
  c == ' ' || c == '\n' || c == '\t' || c == '\r'

/-- All tokens behind those already read; a token takes a character, so `fuel` is a length. -/
def scan : (fuel : Nat) → (tokens : List Token) → List Char → Option (List Token)
  | 0, tokens, _ => some tokens.reverse
  | fuel + 1, tokens, cs =>
    match cs.dropWhile isSpace with
    | [] => some tokens.reverse
    | cs =>
      match first? cs with
      | none => none
      | some (t, rest) => scan fuel (t :: tokens) rest

def ofString (s : String) : Option (List Token) :=
  scan s.toList.length [] s.toList

def isSound : Token → Bool
  | .text s => s.isSome
  | .number n => n.isFinite
  | _ => true

def depth (now : Nat) : List Token → Nat
  | [] => now
  | .openList :: rest | .openObject :: rest => depth (now + 1) rest |> max now
  | .closeList :: rest | .closeObject :: rest => depth (now - 1) rest |> max now
  | _ :: rest => depth now rest

end Token
end Mqtt.Json
