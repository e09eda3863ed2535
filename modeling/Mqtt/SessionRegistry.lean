import Mqtt.Session

/-! Sessions by client id. A session lives on for its holders when its entry is removed. -/
namespace Mqtt

/-- Every session ever opened, and the places of those that are registered. -/
structure SessionRegistry where
  sessions : List Session := []
  entries : List (String × Nat) := []
  deriving Repr, DecidableEq

namespace SessionRegistry

def size (r : SessionRegistry) : Nat :=
  r.entries.length

def add (r : SessionRegistry) (s : Session) : Nat × SessionRegistry :=
  (r.sessions.length, { r with sessions := r.sessions ++ [s] })

/-- The place of a client's session, which is made on first use. -/
def find (r : SessionRegistry) (clientId : String) : Nat × SessionRegistry :=
  match r.entries.lookup clientId with
  | some place => (place, r)
  | none =>
    let (place, r) := r.add { clientId }
    (place, { r with entries := (clientId, place) :: r.entries })

/-- Takes a client's entry out; returns the place it named. -/
def erase (r : SessionRegistry) (clientId : String) : Option Nat × SessionRegistry :=
  (r.entries.lookup clientId,
    { r with entries := r.entries.filter fun e => e.1 ≠ clientId })

def at? (r : SessionRegistry) (place : Nat) : Option Session :=
  r.sessions[place]?

def set (r : SessionRegistry) (place : Nat) (s : Session) : SessionRegistry :=
  { r with sessions := r.sessions.set place s }

end SessionRegistry
end Mqtt
