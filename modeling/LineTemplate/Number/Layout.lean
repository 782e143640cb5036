import LineTemplate.Number.Shortest

/-!
# Written numbers

A layout holds the decisions of one way to write floating-point numbers: how ties between shortest
decimals go, which numbers are written positionally, and the spelling of the rest. The digits are
always those of a shortest decimal.
-/

namespace LineTemplate.Number

/-- The text of an integer: decimal digits, with a minus sign in front of a negative one. -/
def integerText (n : Int) : List Char :=
  if n < 0 then '-' :: Nat.toDigits 10 n.natAbs else Nat.toDigits 10 n.natAbs

/-- One way to write floating-point numbers. The point position of a decimal is the count of its
digits in front of the decimal point, negative for zeros behind it; a decimal is positional when
that position lies from `firstPoint` to `lastPoint`. -/
structure Layout where
  tie : Tie
  firstPoint : Int
  lastPoint : Int
  plusSign : Bool
  nan : List Char
  infinity : List Char

namespace Layout

/-- The text that values are shown with: positional from 0.0001 to below 10^16, no plus sign in an
exponent, a tie goes up. -/
def display : Layout :=
  ⟨.up, -3, 16, false, ['N', 'a', 'N'], ['i', 'n', 'f']⟩

/-- The text of double-precision numbers in JSON: positional from 0.00001 to below 10^16, a plus
sign in front of a positive exponent, a tie goes to the even digit. -/
def json : Layout :=
  ⟨.even, -4, 16, true, ['n', 'u', 'l', 'l'], ['n', 'u', 'l', 'l']⟩

/-- The text of single-precision numbers in JSON names: positional from 0.000001 to below 10^13. -/
def jsonSingle : Layout :=
  { json with firstPoint := -5, lastPoint := 13 }

/-- Digits with the decimal point behind `point` of them. -/
def positional (digits : List Char) (point : Int) : List Char :=
  if point ≤ 0 then
    '0' :: '.' :: (List.replicate (-point).toNat '0' ++ digits)
  else if (digits.length : Int) ≤ point then
    digits ++ List.replicate (point - digits.length).toNat '0' ++ ['.', '0']
  else
    digits.take point.toNat ++ '.' :: digits.drop point.toNat

/-- One digit, the others behind the decimal point, and the power of ten. -/
def scientific (layout : Layout) (digits : List Char) (point : Int) : List Char :=
  let exponent := point - 1
  let sign := if layout.plusSign && 0 < exponent then ['+'] else []
  let tail := 'e' :: (sign ++ integerText exponent)
  match digits with
  | [] => tail
  | [digit] => digit :: tail
  | digit :: rest => digit :: '.' :: (rest ++ tail)

/-- The text of a decimal other than zero. -/
def decimal (layout : Layout) (d : Decimal) : List Char :=
  let digits := Nat.toDigits 10 d.digits
  let point := (digits.length : Int) + d.exponent
  if layout.firstPoint ≤ point ∧ point ≤ layout.lastPoint then positional digits point
  else layout.scientific digits point

/-- The text of a number; only finite numbers and infinities carry a sign. -/
def text (layout : Layout) {f : Format} : Binary f → List Char
  | .nan => layout.nan
  | .infinity negative => signed negative layout.infinity
  | .finite negative exponent fraction =>
    signed negative <|
      if exponent.val = 0 ∧ fraction.val = 0 then ['0', '.', '0']
      else layout.decimal ((Interval.ofFinite exponent fraction).shortest layout.tie)
where
  signed (negative : Bool) (cs : List Char) : List Char :=
    if negative then '-' :: cs else cs

/-- One unit of the least magnitude is written with one digit. -/
example : display.text (Binary.ofBits 1 : Binary64) = "5e-324".toList := by decide +kernel

example : json.text (Binary.ofBits 0x4341c37937e08000 : Binary64) = "1e+16".toList := by
  decide +kernel

example : display.text (Binary.ofBits 0x3fb999999999999a : Binary64) = "0.1".toList := by
  decide +kernel

/-- An exact tie: 2^-25 lies half-way between two decimals of seventeen digits. -/
example : display.text (Binary.ofBits 0x3e60000000000000 : Binary64)
    = "2.9802322387695313e-8".toList := by
  decide +kernel

example : json.text (Binary.ofBits 0x3e60000000000000 : Binary64)
    = "2.9802322387695312e-8".toList := by
  decide +kernel

end Layout

end LineTemplate.Number
