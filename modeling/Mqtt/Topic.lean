import Mqtt.PacketError

/-! Topic names, which are concrete, and topic filters, whose levels may be wildcards. -/
namespace Mqtt.Topic

def checkName (topic : String) : Except PacketError Unit :=
  if topic.toList = [] then .error (.malformed .emptyTopicName)
  else if '+' ∈ topic.toList ∨ '#' ∈ topic.toList then
    .error (.malformed (.wildcardInTopicName topic))
  else .ok ()

/-- The texts between slashes; there is one more of them than there are slashes. -/
def levels : List Char → List (List Char)
  | [] => [[]]
  | c :: rest =>
    if c = '/' then [] :: levels rest
    else match levels rest with
      | [] => [[c]]
      | level :: more => (c :: level) :: more

/-- A wildcard stands alone in its level, and a number sign in the last one. -/
def checkLevels : List (List Char) → Except PacketError Unit
  | [] => .ok ()
  | level :: rest =>
    if '#' ∈ level ∧ (level ≠ ['#'] ∨ rest ≠ []) then .error (.malformed .misplacedHash)
    else if '+' ∈ level ∧ level ≠ ['+'] then .error (.malformed .misplacedPlus)
    else checkLevels rest

def checkFilter (filter : String) : Except PacketError Unit :=
  if filter.toList = [] then .error (.malformed .emptyTopicFilter)
  else checkLevels (levels filter.toList)

end Mqtt.Topic
