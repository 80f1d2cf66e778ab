import ScriptDepot.Text
import ScriptDepot.Number.Binary64
/-!
# The shortest numeral of a double

A finite double is written with the fewest decimal digits that read back as the same double, and
with those of them that lie nearest to its value.  Seventeen digits always suffice; the exact
expansion stands behind them so that the result reads back by construction.
-/

namespace ScriptDepot

namespace Binary64

/-- How many decimal digits stand before the point of `num / den`; negative or zero when zeros
follow the point. -/
def decimalPlace (num den : Nat) : Int :=
  if den ≤ num then (Nat.toDigits 10 (num / den)).length
  else 1 - ((Nat.toDigits 10 ((den + num - 1) / num - 1)).length : Int)

/-- The two numerals around `num / den` on the grid of multiples of `10 ^ power`, nearer first. -/
def neighbours (num den : Nat) (power : Int) : List Decimal :=
  let n := num * Nat.pow 10 (-power).toNat
  let d := den * Nat.pow 10 power.toNat
  let low := n / d
  let up : Bool := d < 2 * (n % d) || (d == 2 * (n % d) && low % 2 == 1)
  if up then [⟨low + 1, power⟩, ⟨low, power⟩] else [⟨low, power⟩, ⟨low + 1, power⟩]

def exactDecimal (mantissa : Nat) (power : Int) : Decimal :=
  if 0 ≤ power then ⟨mantissa * Nat.pow 2 power.toNat, 0⟩
  else ⟨mantissa * Nat.pow 5 (-power).toNat, power⟩

/-- The shortest numeral that reads back as the number with this exponent and fraction. -/
def shortest (exponent : Fin 2047) (fraction : Fin leadingBit) : Decimal :=
  let (mantissa, power) := scaled exponent fraction
  let num := mantissa * Nat.pow 2 power.toNat
  let den := Nat.pow 2 (-power).toNat
  let place := decimalPlace num den
  let grids := (List.range 17).flatMap fun (i : Nat) => neighbours num den (place - (i + 1 : Nat))
  (grids.find? fun d => ofDecimal false d = .finite false exponent fraction).getD
    (exactDecimal mantissa power)

end Binary64

namespace Decimal

def trim : Nat → Decimal → Decimal
  | 0, d => d
  | fuel + 1, d =>
    if d.digits ≠ 0 ∧ d.digits % 10 = 0 then trim fuel ⟨d.digits / 10, d.power + 1⟩ else d

structure Spelling where
  lowest : Int
  highest : Int
  exponentDigits : Nat

def spelling : Spelling := ⟨-4, 15, 2⟩

def text (spelling : Spelling) (d : Decimal) : Text :=
  let d := trim 800 d
  let digits := Text.ofNat d.digits
  let exponent : Int := d.power + digits.length - 1
  if d.digits = 0 then "0.0"
  else if spelling.lowest ≤ exponent ∧ exponent ≤ spelling.highest then
    if exponent < 0 then
      "0." ++ List.replicate (-exponent - 1).toNat ('0' : CodePoint) ++ digits
    else if (digits.length : Int) ≤ exponent + 1 then
      digits ++ List.replicate (exponent + 1 - digits.length).toNat ('0' : CodePoint) ++ ".0"
    else digits.take (exponent + 1).toNat ++ "." ++ digits.drop (exponent + 1).toNat
  else
    let mark : Text := if exponent < 0 then "e-" else "e+"
    let size := Text.ofNat exponent.natAbs
    let fraction : Text := if digits.length = 1 then [] else "." ++ digits.drop 1
    digits.take 1 ++ fraction ++ mark ++
      List.replicate (spelling.exponentDigits - size.length) ('0' : CodePoint) ++ size

end Decimal

namespace Binary64

def text (infinity notANumber : Text) : Binary64 → Text
  | .finite negative exponent fraction =>
    let size := (shortest exponent fraction).text Decimal.spelling
    if negative then '-' :: size else size
  | .infinite negative => if negative then '-' :: infinity else infinity
  | .nan => notANumber

end Binary64

end ScriptDepot
