import Imperative.Number.Rounding

/-! Decimal numbers and their reading.  A decimal is a natural number times a power of ten.  A text
denotes one by an optional sign, digits with at most one point among or beside them, and an optional
exponent; reading it gives the nearest number, and a text whose nearest number is not finite is
refused. -/

namespace Imperative

/-- The decimal number `digits * 10 ^ exponent`. -/
structure Decimal where
  digits : Nat
  exponent : Int
deriving DecidableEq, Repr

namespace Decimal

/-- A power of ten. -/
def tenTo (n : Nat) : Nat := Nat.pow 10 n

/-- The magnitude word nearest to a decimal, `Number.infinityWord` if that is too large.  The two
guards only spare computing powers of ten when the result is certain: from `10^401` on every decimal
overflows, and below `10^-400` every one vanishes. -/
def magnitude (d : Decimal) : Nat :=
  if d.digits = 0 then 0
  else if 400 < d.exponent then Number.infinityWord
  else if d.exponent < -(400 + (d.digits.log2 : Int)) then 0
  else min Number.infinityWord
    (Number.nearest ((d.digits * tenTo d.exponent.toNat) <<< 1074) (tenTo (-d.exponent).toNat))

/-- The value of a decimal digit. -/
def digitValue (c : Char) : Nat := c.toNat - '0'.toNat

/-- The natural number that a list of decimal digits denotes. -/
def ofDigits (cs : List Char) : Nat := cs.foldl (fun n c => 10 * n + digitValue c) 0

/-- The largest exponent to which a digit is still added. -/
def exponentLimit : Nat := 65535

/-- The size of an exponent.  Once it is over the limit its further digits do not count. -/
def exponentSize (cs : List Char) : Nat :=
  cs.foldl (fun n c => if n ≤ exponentLimit then 10 * n + digitValue c else n) 0

/-- An optional sign and what follows it; the first component says whether it was a minus. -/
def splitSign : List Char → Bool × List Char
  | '-' :: cs => (true, cs)
  | '+' :: cs => (false, cs)
  | cs => (false, cs)

/-- A signed exponent: an optional sign and at least one digit. -/
def signedExponent? (cs : List Char) : Option Int :=
  let (negative, digits) := splitSign cs
  if digits.isEmpty || !digits.all Char.isDigit then none
  else if negative then some (-(exponentSize digits : Int))
  else some (exponentSize digits)

/-- The exponent that ends a decimal text: nothing, or a letter `e` of either case and a signed
exponent. -/
def exponent? : List Char → Option Int
  | [] => some 0
  | c :: cs => if c == 'e' || c == 'E' then signedExponent? cs else none

/-- The digits behind the point, if there is a point, and what follows them. -/
def splitFraction : List Char → List Char × List Char
  | '.' :: cs => (cs.takeWhile Char.isDigit, cs.dropWhile Char.isDigit)
  | cs => ([], cs)

/-- The decimal that an unsigned text denotes: digits before or behind a point, at least one in all,
and an exponent. -/
def ofText? (cs : List Char) : Option Decimal :=
  let whole := cs.takeWhile Char.isDigit
  let (fraction, rest) := splitFraction (cs.dropWhile Char.isDigit)
  if whole.isEmpty && fraction.isEmpty then none
  else (exponent? rest).map fun e => ⟨ofDigits (whole ++ fraction), e - fraction.length⟩

end Decimal

namespace Number

/-- The finite number that a decimal text denotes, correctly rounded; `none` if the text is no
decimal or its nearest number is not finite. -/
def ofText? (s : String) : Option Number :=
  let (negative, cs) := Decimal.splitSign s.toList
  (Decimal.ofText? cs).bind fun d =>
    if d.magnitude < infinityWord then some (ofMagnitude negative d.magnitude) else none

end Number
end Imperative
