import Mqtt.Octets

/-! One end of a byte channel. -/
namespace Mqtt

structure Line where
  inbox : Octets := []
  /-- Nothing more will arrive. -/
  ended : Bool := false
  /-- Nothing more can be written. -/
  broken : Bool := false
  /-- What has been written, oldest first, with its time. -/
  outbox : List (Nat × Octets) := []
  closedAt : Option Nat := none
  deriving Repr, DecidableEq

namespace Line

/-- Bytes arrive, unless the other end has finished. -/
def arrive (l : Line) (bytes : Octets) : Line :=
  if l.ended then l else { l with inbox := l.inbox ++ bytes }

def hangUp (l : Line) : Line :=
  { l with ended := true }

def vanish (l : Line) : Line :=
  { l with ended := true, broken := true }

def write (l : Line) (now : Nat) (bytes : Octets) : Line :=
  { l with outbox := l.outbox ++ [(now, bytes)] }

def close (l : Line) (now : Nat) : Line :=
  { l with closedAt := some now }

end Line
end Mqtt
