import Mqtt.DeliveryQueue.Basic
import Mqtt.Json.Reader
import Mqtt.Json.Record
import Mqtt.Json.Writer

/-! Settings as a JSON record. -/
namespace Mqtt.Settings
open Json (writeNat writeObject)

/-- The fields by name, or as many of them as there are by place. -/
def fieldsOfJson : Json → Option (List (Option Json))
  | .list items =>
    if items.length ≤ 4 then some (items.map some ++ List.replicate (4 - items.length) none)
    else none
  | .object fields =>
    if fields.all fun f => f.1.isSome then
      (Json.object fields).fields?
        ["retry_delay_ms", "max_attempts", "inflight_capacity", "response_timeout_ms"]
    else none
  | _ => none

/-- A field that is there must be a number below `bound`; one that is not has its default. -/
def naturalOr (default bound : Nat) : Option Json → Option Nat
  | none => some default
  | some value => value.natural? bound

def ofJson (text : String) : Option Settings := do
  let j ← Json.ofString text
  let [delay, attempts, capacity, timeout] ← fieldsOfJson j | none
  let s : Settings := {}
  return { retryDelay := ← naturalOr s.retryDelay UInt64.size delay
           maxAttempts := ← naturalOr s.maxAttempts UInt32.size attempts
           capacity := ← naturalOr s.capacity UInt64.size capacity
           responseTimeout := ← naturalOr s.responseTimeout UInt64.size timeout }

def toJson (s : Settings) : String :=
  writeObject [("retry_delay_ms", writeNat s.retryDelay), ("max_attempts", writeNat s.maxAttempts),
    ("inflight_capacity", writeNat s.capacity),
    ("response_timeout_ms", writeNat s.responseTimeout)]

end Mqtt.Settings
