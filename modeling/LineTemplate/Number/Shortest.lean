import LineTemplate.Number.Binary

/-!
# Shortest decimals

Many decimals round to the same floating-point number; they fill an interval around it. `shortest`
picks one with the fewest digits, and of those the nearest to the number. It tries the grids of
multiples of a power of ten from coarse to fine. On each grid only the two neighbours of the number
matter: if any point of the grid lies in the interval, one of them does. The first grid with a point
in the interval gives the answer, so the digits never end in a zero.
-/

namespace LineTemplate.Number

/-- The decimal `digits · 10 ^ exponent`. -/
structure Decimal where
  digits : Nat
  exponent : Int
deriving DecidableEq, Repr

/-- Which of two equally near neighbours is taken. -/
inductive Tie where
  | up
  | even
deriving DecidableEq, Repr

/-- The positive reals that round to a number: bounds and number, each over `den`. The bounds belong
to the interval if `closed`. -/
structure Interval where
  low : Nat
  value : Nat
  high : Nat
  den : Nat
  closed : Bool
deriving DecidableEq, Repr

namespace Interval

/-- The interval of a finite magnitude other than zero. It reaches half-way to both neighbours; the
lower neighbour of a power of two is only half as far away. -/
def ofFinite {f : Format} (exponent : Fin f.exponentLimit) (fraction : Fin (twoTo f.fractionBits)) :
    Interval :=
  let quarters := 4 * Binary.mantissa exponent fraction
  let below := if fraction.val = 0 ∧ 1 < exponent.val then 1 else 2
  let power := Binary.scale exponent - 2
  let unit := twoTo power.toNat
  { low := (quarters - below) * unit
    value := quarters * unit
    high := (quarters + 2) * unit
    den := twoTo (-power).toNat
    closed := fraction.val % 2 == 0 }

/-- A decimal lies in the interval. -/
def contains (interval : Interval) (decimal : Decimal) : Bool :=
  let scaled := decimal.digits * tenTo decimal.exponent.toNat * interval.den
  let low := interval.low * tenTo (-decimal.exponent).toNat
  let high := interval.high * tenTo (-decimal.exponent).toNat
  if interval.closed then low ≤ scaled && scaled ≤ high else low < scaled && scaled < high

/-- The neighbour of the number on the grid of multiples of `10 ^ exponent` that lies in the
interval, the nearer one if both do. -/
def onGrid (tie : Tie) (interval : Interval) (exponent : Int) : Option Decimal :=
  let num := interval.value * tenTo (-exponent).toNat
  let den := interval.den * tenTo exponent.toNat
  let lower : Decimal := ⟨num / den, exponent⟩
  let upper : Decimal := ⟨num / den + 1, exponent⟩
  match interval.contains lower, interval.contains upper with
  | false, false => none
  | true, false => some lower
  | false, true => some upper
  | true, true =>
    let rest := 2 * (num % den)
    let takeUpper := den < rest || rest == den && (tie == .up || lower.digits % 2 == 1)
    some (if takeUpper then upper else lower)

/-- An exponent whose power of ten is above the number. -/
def topExponent (interval : Interval) : Int :=
  if interval.den ≤ interval.value then
    ((Nat.toDigits 10 (interval.value / interval.den)).length : Int)
  else
    2 - ((Nat.toDigits 10 (interval.den / interval.value)).length : Int)

/-- A shortest decimal of the interval. Twenty grids reach below the spacing of every number of
both formats, so the number itself is never needed. -/
def shortest (tie : Tie) (interval : Interval) : Decimal :=
  let top := interval.topExponent
  let found := (List.range 20).findSome? fun (step : Nat) =>
    interval.onGrid tie (top - (step : Int))
  found.getD ⟨interval.value, 0⟩

end Interval

end LineTemplate.Number
