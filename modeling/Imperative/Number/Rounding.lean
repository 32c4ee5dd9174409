import Imperative.Number

/-! Rounding an exact quotient to the nearest binary64 magnitude.  Every finite magnitude is a whole
number of units of `2^-1074`, so a quotient of natural numbers counts such units exactly, and
rounding it means shifting it until 53 bits are left of the point and rounding those to a whole
number.  Halfway cases go to the even significand. -/

namespace Imperative.Number

/-- The quotient rounded to the nearest natural number, a half going to the even one. -/
def roundDiv (num den : Nat) : Nat :=
  let quotient := num / den
  let remainder := num % den
  if den < 2 * remainder ∨ 2 * remainder = den ∧ quotient % 2 = 1 then quotient + 1 else quotient

/-- How far `num / den` units are shifted to bring their leading bit down to place 52; a value that
lies below that place already is not shifted. -/
def shift (num den : Nat) : Nat := (num / den).log2 - 52

/-- The magnitude word nearest to `num / den` units of `2^-1074`.  A significand that rounds up to
the next power of two carries into the exponent by itself; a word of at least `infinityWord` is an
overflow. -/
def nearest (num den : Nat) : Nat :=
  let k := shift num den
  k * leadingBit + roundDiv num (den <<< k)

/-- The value of a finite magnitude word in units of `2^-1074`. -/
def units (magnitude : Nat) : Nat :=
  let exponent := magnitude / leadingBit
  let fraction := magnitude % leadingBit
  if exponent = 0 then fraction else (leadingBit + fraction) <<< (exponent - 1)

end Imperative.Number
