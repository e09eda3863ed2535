import Mqtt.Json.Token

/-! From tokens to documents, with the open containers on a stack. -/
namespace Mqtt.Json

/-- A container that is not closed yet, with its members so far, last first. -/
inductive Frame where
  | list (items : List Json)
  | object (fields : List (Option String × Json))
  | field (key : Option String) (fields : List (Option String × Json))

inductive Expected where
  | value
  | itemOrEnd
  | keyOrEnd
  | key
  | colon
  | separator
  | nothing (document : Json)

structure Reader where
  frames : List Frame := []
  expected : Expected := .value

namespace Reader

def put (v : Json) : List Frame → Option Reader
  | [] => some { expected := .nothing v }
  | .list items :: rest => some { frames := .list (v :: items) :: rest, expected := .separator }
  | .field key fields :: rest =>
    some { frames := .object ((key, v) :: fields) :: rest, expected := .separator }
  | .object _ :: _ => none

def start (frames : List Frame) : Token → Option Reader
  | .null => put .null frames
  | .flag b => put (.flag b) frames
  | .number n => put (.number n) frames
  | .text s => put (.text s) frames
  | .openList => some { frames := .list [] :: frames, expected := .itemOrEnd }
  | .openObject => some { frames := .object [] :: frames, expected := .keyOrEnd }
  | _ => none

def close (frames : List Frame) (t : Token) : Option Reader :=
  match t, frames with
  | .closeList, .list items :: rest => put (.list items.reverse) rest
  | .closeObject, .object fields :: rest => put (.object fields.reverse) rest
  | _, _ => none

def push (r : Reader) (t : Token) : Option Reader :=
  match r.expected, t, r.frames with
  | .value, t, frames => start frames t
  | .itemOrEnd, .closeList, frames => close frames .closeList
  | .itemOrEnd, t, frames => start frames t
  | .keyOrEnd, .closeObject, frames => close frames .closeObject
  | .keyOrEnd, .text key, .object fields :: rest
  | .key, .text key, .object fields :: rest =>
    some { frames := .field key fields :: rest, expected := .colon }
  | .colon, .colon, frames => some { frames, expected := .value }
  | .separator, .comma, .list items :: rest =>
    some { frames := .list items :: rest, expected := .value }
  | .separator, .comma, .object fields :: rest =>
    some { frames := .object fields :: rest, expected := .key }
  | .separator, t, frames => close frames t
  | _, _, _ => none

end Reader

def ofTokens (tokens : List Token) : Option Json :=
  match tokens.foldlM Reader.push {} with
  | some { expected := .nothing document, .. } => some document
  | _ => none

/-- Reads a document whose parts are judged when they are used. -/
def ofString (s : String) : Option Json :=
  (Token.ofString s).bind ofTokens

/-- The deepest nesting of a document that is kept as a whole. -/
def maxDepth : Nat := 127

/-- Reads a document all of whose parts are sound, used or not. -/
def ofSoundString (s : String) : Option Json := do
  let tokens ← Token.ofString s
  if tokens.all Token.isSound && Token.depth 0 tokens ≤ maxDepth then ofTokens tokens else none

end Mqtt.Json
