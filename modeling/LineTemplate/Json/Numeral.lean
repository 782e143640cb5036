import LineTemplate.Json.Document

/-!
# Numerals

A numeral is a number as it is written. Reading one keeps a whole number of 64 bits as it is. Every
other numeral becomes a floating-point number in two rounded steps: a significand of at most 64 bits
is taken from its leading digits, and is then multiplied or divided by a power of ten. So the result
can differ from the nearest number in its last place. Whole digits behind the significand count as
powers of ten, further fraction digits are dropped, and a result beyond all finite numbers is
refused.
-/

namespace LineTemplate.Json

open Number

/-- A number as it is written: sign, digits in front of the point and behind it, exponent. -/
structure Numeral where
  negative : Bool
  whole : List Nat
  fraction : Option (List Nat)
  exponent : Option Int
deriving DecidableEq, Repr

/-- Appends digits to a significand as long as it fits 64 bits; gives the digits left over. -/
def appendDigits (significand : Nat) : List Nat → Nat × List Nat
  | [] => (significand, [])
  | digit :: digits =>
    if significand * 10 + digit < UInt64.size then appendDigits (significand * 10 + digit) digits
    else (significand, digit :: digits)

/-- The absolute value of a finite number as a quotient. -/
def quotient : Binary64 → Nat × Nat
  | .finite _ exponent fraction =>
    let power := Binary.scale exponent
    (Binary.mantissa exponent fraction * twoTo power.toNat, twoTo (-power).toNat)
  | _ => (0, 1)

/-- The floating-point number nearest to a power of ten. -/
def powerOfTen (exponent : Nat) : Binary64 :=
  Binary.round .binary64 false (tenTo exponent) 1

/-- The rounded product of two absolute values. -/
def product (x y : Binary64) : Binary64 :=
  Binary.round .binary64 false ((quotient x).1 * (quotient y).1) ((quotient x).2 * (quotient y).2)

/-- The rounded quotient of two absolute values, the second one not zero. -/
def ratio (x y : Binary64) : Binary64 :=
  Binary.round .binary64 false ((quotient x).1 * (quotient y).2) ((quotient x).2 * (quotient y).1)

/-- Divides by a power of ten, in steps of at most 10^308. -/
def scaleDown (x : Binary64) (exponent : Nat) : Binary64 :=
  if exponent ≤ 308 then ratio x (powerOfTen exponent)
  else if (quotient x).1 = 0 then x
  else scaleDown (ratio x (powerOfTen 308)) (exponent - 308)
termination_by exponent

/-- The number with a significand and a power of ten, if it is not beyond all finite ones. -/
def scaled (significand : Nat) (exponent : Int) : Option Binary64 :=
  let x : Binary64 := Binary.round .binary64 false significand 1
  if exponent < 0 then some (scaleDown x exponent.natAbs)
  else if significand = 0 then some x
  else if 308 < exponent then none
  else
    let y := product x (powerOfTen exponent.toNat)
    if y.isFinite then some y else none

/-- A number with its sign set. -/
def signed (negative : Bool) : Binary64 → Binary64
  | .finite _ exponent fraction => .finite negative exponent fraction
  | .infinity _ => .infinity negative
  | .nan => .nan

namespace Numeral

/-- The numeral is a sign and digits. -/
def isWhole (numeral : Numeral) : Bool :=
  numeral.fraction.isNone && numeral.exponent.isNone

/-- The value of a numeral as a floating-point number. -/
def float? (numeral : Numeral) : Option Binary64 :=
  let (front, excess) := appendDigits 0 numeral.whole
  let fraction := numeral.fraction.getD []
  let (significand, dropped) := appendDigits front fraction
  let shift : Int := (excess.length : Int) - ((fraction.length : Int) - (dropped.length : Int))
  (scaled significand (shift + numeral.exponent.getD 0)).map (signed numeral.negative)

/-- The value of a numeral. A negative zero and whole numbers beyond 64 bits are floating-point
numbers. -/
def quantity? (numeral : Numeral) : Option Quantity :=
  match numeral.isWhole, appendDigits 0 numeral.whole with
  | true, (n, []) =>
    if !numeral.negative then some (.natural (UInt64.ofNat n))
    else if 0 < n ∧ n ≤ twoTo 63 then some (.negative (Int64.ofInt (-(n : Int))))
    else numeral.float?.map .float
  | _, _ => numeral.float?.map .float

end Numeral

end LineTemplate.Json
