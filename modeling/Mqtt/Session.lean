import Mqtt.Delivery

/-! What outlives a connection: unfinished handshakes, oldest first, and the identifier counter. -/
namespace Mqtt

structure Session where
  clientId : String
  deliveries : List Delivery := []
  lastId : UInt16 := 0
  deriving Repr, DecidableEq

namespace Session

def get? (s : Session) (key : Key) : Option Delivery :=
  s.deliveries.find? fun d => d.key = key

def contains (s : Session) (key : Key) : Bool :=
  s.deliveries.any fun d => d.key = key

/-- Adds a delivery behind the others, or refreshes the stored copy where it stands. -/
def put (s : Session) (d : Delivery) : Session :=
  if s.contains d.key then
    { s with deliveries := s.deliveries.map fun e => if e.key = d.key then d else e }
  else { s with deliveries := s.deliveries ++ [d] }

def erase (s : Session) (key : Key) : Session :=
  { s with deliveries := s.deliveries.filter fun d => d.key ≠ key }

def clear (s : Session) : Session :=
  { s with deliveries := [] }

def succId (id : UInt16) : UInt16 :=
  if id = 65535 then 1 else id + 1

/-- The first free one of the `tries` identifiers behind `id`. -/
def searchId (isFree : UInt16 → Bool) : (tries : Nat) → (id : UInt16) → Option UInt16
  | 0, _ => none
  | tries + 1, id =>
    if isFree (succId id) then some (succId id) else searchId isFree tries (succId id)

/-- The next identifier that no stored outgoing delivery holds and that is not `busy`. -/
def nextId (s : Session) (busy : UInt16 → Bool) : Option (UInt16 × Session) :=
  let isFree id := !s.contains ⟨id, .outgoing⟩ && !busy id
  (searchId isFree 65535 s.lastId).map fun id => (id, { s with lastId := id })

/-- What a new connection has to take up: nothing on a clean start, else everything, rewound. -/
def restore (s : Session) (clean : Bool) : List Delivery × Session :=
  if clean then ([], s.clear)
  else
    let rewound := s.deliveries.map Delivery.rewound
    (rewound, { s with deliveries := rewound })

end Session
end Mqtt
