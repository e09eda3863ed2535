/-! JSON documents, as far as their reading decides anything. -/
namespace Mqtt

inductive Json.Number where
  | whole (n : Nat)
  /-- A number with a sign, a fraction or an exponent; its value is `mantissa * 10 ^ exponent`. -/
  | decimal (negative : Bool) (mantissa : Nat) (exponent : Int)
  deriving Repr, DecidableEq

namespace Json.Number

/-- The nearest number with at most 53 binary digits and zeros behind them; ties go to even. -/
def round (n : Nat) : Nat :=
  let unit := Nat.pow 2 (n.log2 - 52)
  let units := n / unit
  let rest := 2 * (n % unit)
  if unit < rest || (rest == unit && units % 2 == 1) then (units + 1) * unit else units * unit

/-- What rounds to no finite double begins here. -/
def limit : Nat := Nat.pow 2 1024 - Nat.pow 2 970

/-- A double holds the product of the mantissa and the power of ten, each rounded beforehand. -/
def isFinite : Number → Bool
  | .whole _ => true
  | .decimal _ mantissa exponent =>
    mantissa == 0 || exponent ≤ 0 ||
      (exponent ≤ 308 && round mantissa * round (Nat.pow 10 exponent.toNat) < limit)

end Json.Number

/-- Texts with an unpaired surrogate have no characters and are `none`. -/
inductive Json where
  | null
  | flag (value : Bool)
  | number (value : Json.Number)
  | text (value : Option String)
  | list (items : List Json)
  | object (fields : List (Option String × Json))

end Mqtt
