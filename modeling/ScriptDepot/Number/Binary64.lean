/-!
# Double-precision numbers

A JSON number with a fraction or an exponent denotes the nearest double, ties going to the even
neighbour.  Doubles are only read, compared and written here, never computed with, so they are kept
as sign, exponent and fraction, and every conversion is exact integer arithmetic.
-/

namespace ScriptDepot

abbrev leadingBit : Nat := 0x10000000000000

/-- A number of 64 bits in the binary interchange format.  A finite number with exponent `0` is
`fraction · 2 ^ (-1074)`, any other is `(2 ^ 52 + fraction) · 2 ^ (exponent - 1075)`. -/
inductive Binary64 where
  | finite (negative : Bool) (exponent : Fin 2047) (fraction : Fin leadingBit)
  | infinite (negative : Bool)
  | nan
deriving DecidableEq

structure Decimal where
  digits : Nat
  power : Int
deriving DecidableEq

/-- The integer nearest to `num / den`, the even one of two. -/
def roundDiv (num den : Nat) : Nat :=
  let q := num / den
  let r := num % den
  if 2 * r < den then q else if den < 2 * r then q + 1 else q + q % 2

namespace Binary64

def isFinite : Binary64 → Bool
  | .finite .. => true
  | _ => false

def zero (negative : Bool) : Binary64 := .finite negative 0 0

/-- The number `mantissa · 2 ^ power`, for a mantissa of at most `2 ^ 53` and a power of at least
`-1074` that is `-1074` when the mantissa has fewer than 53 bits. -/
def ofScaled (negative : Bool) (mantissa : Nat) (power : Int) : Binary64 :=
  if mantissa < leadingBit then .finite negative 0 (Fin.ofNat _ mantissa)
  else
    let (m, p) := if mantissa < 2 * leadingBit then (mantissa, power) else (mantissa / 2, power + 1)
    let exponent := (p + 1075).toNat
    if exponent < 2047 then .finite negative (Fin.ofNat _ exponent) (Fin.ofNat _ (m - leadingBit))
    else .infinite negative

def floorLog2 (num den : Nat) : Int :=
  let k : Int := (num.log2 : Int) - den.log2
  if den * Nat.pow 2 k.toNat ≤ num * Nat.pow 2 (-k).toNat then k else k - 1

def ofRatio (negative : Bool) (num den : Nat) : Binary64 :=
  if num = 0 then zero negative
  else
    let power := max (floorLog2 num den - 52) (-1074)
    let num := num * Nat.pow 2 (-power).toNat
    let den := den * Nat.pow 2 power.toNat
    ofScaled negative (roundDiv num den) power

/-- The number nearest to a decimal numeral.  The first two cases keep the powers of ten small: such
numerals are past the greatest number, or below half the least. -/
def ofDecimal (negative : Bool) (d : Decimal) : Binary64 :=
  if d.digits = 0 then zero negative
  else if 400 < d.power then .infinite negative
  else if (d.digits.log2 : Int) + 1 + 3 * d.power < -1100 then zero negative
  else ofRatio negative (d.digits * Nat.pow 10 d.power.toNat) (Nat.pow 10 (-d.power).toNat)

def scaled (exponent : Fin 2047) (fraction : Fin leadingBit) : Nat × Int :=
  if exponent.val = 0 then (fraction.val, -1074)
  else (leadingBit + fraction.val, (exponent.val : Int) - 1075)

end Binary64

end ScriptDepot
