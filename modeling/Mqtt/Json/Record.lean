import Mqtt.Json
import Mqtt.Octets

/-! The values that records are made of. -/
namespace Mqtt.Json

def natural? (bound : Nat) : Json → Option Nat
  | .number (.whole n) => if n < bound then some n else none
  | _ => none

def byte? (j : Json) : Option UInt8 :=
  (j.natural? 256).map UInt8.ofNat

def word? (j : Json) : Option UInt16 :=
  (j.natural? 65536).map UInt16.ofNat

def flag? : Json → Option Bool
  | .flag b => some b
  | _ => none

def text? : Json → Option String
  | .text s => s
  | _ => none

def list? {α : Type} (item : Json → Option α) : Json → Option (List α)
  | .list items => items.mapM item
  | _ => none

def octets? : Json → Option Octets :=
  list? byte?

/-- The named fields: by name in an object, which may have others, or in order in a list. -/
def fields? (names : List String) : Json → Option (List (Option Json))
  | .list items => if items.length = names.length then some (items.map some) else none
  | .object fields => names.mapM fun name =>
    match fields.filter fun f => f.1 = some name with
    | [] => some none
    | [(_, value)] => some (some value)
    | _ => none
  | _ => none

def required {α : Type} (read : Json → Option α) (field : Option Json) : Option α :=
  field.bind read

def optional {α : Type} (read : Json → Option α) : Option Json → Option (Option α)
  | none | some .null => some none
  | some value => (read value).map some

/-- The text of the field that tells records apart, and the record without it. -/
def tagged? (name : String) : Json → Option (String × Json)
  | .list (.text (some tag) :: rest) => some (tag, .list rest)
  | .object fields =>
    match fields.filter fun f => f.1 = some name with
    | [(_, .text (some tag))] => some (tag, .object (fields.filter fun f => f.1 ≠ some name))
    | _ => none
  | _ => none

end Mqtt.Json
