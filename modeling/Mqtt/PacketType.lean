/-! The fourteen kinds of control packet, their numbers and their names. -/
namespace Mqtt

inductive PacketType where
  | connect | connAck | publish | pubAck | pubRec | pubRel | pubComp
  | subscribe | subAck | unsubscribe | unsubAck | pingReq | pingResp | disconnect
  deriving Repr, DecidableEq

namespace PacketType

def code : PacketType → Nat
  | .connect => 1 | .connAck => 2 | .publish => 3 | .pubAck => 4 | .pubRec => 5
  | .pubRel => 6 | .pubComp => 7 | .subscribe => 8 | .subAck => 9 | .unsubscribe => 10
  | .unsubAck => 11 | .pingReq => 12 | .pingResp => 13 | .disconnect => 14

/-- The kind with a number; 0 and 15 are reserved. -/
def ofCode? : Nat → Option PacketType
  | 1 => some .connect | 2 => some .connAck | 3 => some .publish | 4 => some .pubAck
  | 5 => some .pubRec | 6 => some .pubRel | 7 => some .pubComp | 8 => some .subscribe
  | 9 => some .subAck | 10 => some .unsubscribe | 11 => some .unsubAck | 12 => some .pingReq
  | 13 => some .pingResp | 14 => some .disconnect | _ => none

theorem ofCode?_code (t : PacketType) : ofCode? t.code = some t := by
  cases t <;> rfl

def name : PacketType → String
  | .connect => "CONNECT" | .connAck => "CONNACK" | .publish => "PUBLISH"
  | .pubAck => "PUBACK" | .pubRec => "PUBREC" | .pubRel => "PUBREL" | .pubComp => "PUBCOMP"
  | .subscribe => "SUBSCRIBE" | .subAck => "SUBACK" | .unsubscribe => "UNSUBSCRIBE"
  | .unsubAck => "UNSUBACK" | .pingReq => "PINGREQ" | .pingResp => "PINGRESP"
  | .disconnect => "DISCONNECT"

/-- The low half of the first byte where the kind fixes it; PUBLISH carries its own flags there. -/
def fixedFlags : PacketType → Nat
  | .pubRel => 2 | .subscribe => 2 | .unsubscribe => 2 | _ => 0

end PacketType
end Mqtt
