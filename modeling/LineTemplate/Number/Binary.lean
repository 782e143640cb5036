/-!
# Binary floating-point numbers

A format has a width for the fraction and one for the exponent. A number of the format is not a
number, an infinity, or a finite value with its two fields. The finite magnitudes are numbered in
increasing order by their *code*, which is the bit pattern without the sign, so rounding a quotient
is one division and one half-to-even decision on the code (`round`).

`ofCode_code` says that a finite magnitude is recovered from its code.
-/

namespace LineTemplate.Number

/-- A power of two. -/
def twoTo (exponent : Nat) : Nat :=
  Nat.pow 2 exponent

/-- A power of ten. -/
def tenTo (exponent : Nat) : Nat :=
  Nat.pow 10 exponent

theorem twoTo_pos (exponent : Nat) : 0 < twoTo exponent :=
  Nat.two_pow_pos exponent

/-- The widths of a format's fields. -/
structure Format where
  fractionBits : Nat
  exponentBits : Nat
deriving DecidableEq, Repr

namespace Format

def binary32 : Format := ⟨23, 8⟩

def binary64 : Format := ⟨52, 11⟩

/-- The exponent fields below this one are those of finite numbers. -/
def exponentLimit (f : Format) : Nat :=
  twoTo f.exponentBits - 1

/-- The power of two that one unit of the least magnitude stands for. -/
def leastExponent (f : Format) : Int :=
  2 - (twoTo (f.exponentBits - 1) : Int) - (f.fractionBits : Int)

end Format

/-- A number of a format. -/
inductive Binary (f : Format) where
  | nan
  | infinity (negative : Bool)
  | finite (negative : Bool) (exponent : Fin f.exponentLimit)
    (fraction : Fin (twoTo f.fractionBits))
deriving DecidableEq, Repr

abbrev Binary32 : Type := Binary .binary32

abbrev Binary64 : Type := Binary .binary64

namespace Binary

variable {f : Format}

/-- The number of a finite magnitude in the order of magnitudes. -/
def code (exponent : Fin f.exponentLimit) (fraction : Fin (twoTo f.fractionBits)) : Nat :=
  exponent.val * twoTo f.fractionBits + fraction.val

/-- The number with the magnitude of a code; codes past the last finite one are infinite. -/
def ofCode (negative : Bool) (code : Nat) : Binary f :=
  if h : code / twoTo f.fractionBits < f.exponentLimit then
    .finite negative ⟨_, h⟩ ⟨code % twoTo f.fractionBits, Nat.mod_lt _ (twoTo_pos _)⟩
  else
    .infinity negative

theorem ofCode_code (negative : Bool) (exponent : Fin f.exponentLimit)
    (fraction : Fin (twoTo f.fractionBits)) :
    ofCode negative (code exponent fraction) = .finite negative exponent fraction := by
  have hpos : 0 < twoTo f.fractionBits := twoTo_pos _
  have hdiv : code exponent fraction / twoTo f.fractionBits = exponent.val := by
    rw [code, Nat.add_comm, Nat.add_mul_div_right _ _ hpos, Nat.div_eq_of_lt fraction.isLt,
      Nat.zero_add]
  have hmod : code exponent fraction % twoTo f.fractionBits = fraction.val := by
    rw [code, Nat.add_comm, Nat.add_mul_mod_self_right, Nat.mod_eq_of_lt fraction.isLt]
  simp [ofCode, hdiv, hmod]

/-- The number of a bit pattern. The payload of a pattern that is not a number is dropped. -/
def ofBits (bits : Nat) : Binary f :=
  let magnitude := bits % twoTo (f.fractionBits + f.exponentBits)
  let negative := bits / twoTo (f.fractionBits + f.exponentBits) % 2 == 1
  if f.exponentLimit ≤ magnitude / twoTo f.fractionBits ∧
      magnitude % twoTo f.fractionBits ≠ 0 then .nan
  else ofCode negative magnitude

/-- The whole-number factor of a finite magnitude. -/
def mantissa (exponent : Fin f.exponentLimit) (fraction : Fin (twoTo f.fractionBits)) : Nat :=
  if exponent.val = 0 then fraction.val else twoTo f.fractionBits + fraction.val

/-- The power of two that goes with `mantissa`. -/
def scale (exponent : Fin f.exponentLimit) : Int :=
  f.leastExponent + ((max exponent.val 1 - 1 : Nat) : Int)

/-- A finite number is neither an infinity nor nothing. -/
def isFinite : Binary f → Bool
  | .finite .. => true
  | _ => false

/-- Equality of values: `nan` differs from everything, and the two zeros are equal. -/
def same : Binary f → Binary f → Bool
  | .infinity s, .infinity t => s == t
  | .finite s e m, .finite t e' m' =>
    e == e' && m == m' && (s == t || (e.val == 0 && m.val == 0))
  | _, _ => false

end Binary

/-- The multiple of one nearest to `num / den`; a half goes to the even neighbour. -/
def roundHalfEven (num den : Nat) : Nat :=
  let quotient := num / den
  let remainder := num % den
  if den < 2 * remainder ∨ (2 * remainder = den ∧ quotient % 2 = 1) then quotient + 1 else quotient

/-- The `e` with `2 ^ e ≤ num / den < 2 ^ (e + 1)`, for positive `num` and `den`. -/
def binaryExponent (num den : Nat) : Int :=
  let guess : Int := (num.log2 : Int) - (den.log2 : Int)
  if den * twoTo guess.toNat ≤ num * twoTo (-guess).toNat then guess else guess - 1

namespace Binary

/-- The number of a format nearest to `num / den` (`den` positive); a half goes to the even code. -/
def round (f : Format) (negative : Bool) (num den : Nat) : Binary f :=
  if num = 0 then ofCode negative 0
  else
    let exponent := max (binaryExponent num den - (f.fractionBits : Int)) f.leastExponent
    let units := roundHalfEven (num * twoTo (-exponent).toNat) (den * twoTo exponent.toNat)
    ofCode negative ((exponent - f.leastExponent).toNat * twoTo f.fractionBits + units)

/-- The same value in another format, rounded if it has to be. -/
def convert {f : Format} (g : Format) : Binary f → Binary g
  | .nan => .nan
  | .infinity negative => .infinity negative
  | .finite negative exponent fraction =>
    let power := scale exponent
    round g negative (mantissa exponent fraction * twoTo power.toNat) (twoTo (-power).toNat)

end Binary

/-- Single-precision numbers are double-precision numbers. -/
def Binary32.widen (x : Binary32) : Binary64 :=
  Binary.convert .binary64 x

example : (Binary.round .binary64 false 1 10 : Binary64) = Binary.ofBits 0x3fb999999999999a := by
  decide +kernel

example : Binary32.widen (Binary.ofBits 0x00000001) = Binary.ofBits 0x36a0000000000000 := by
  decide +kernel

end LineTemplate.Number
