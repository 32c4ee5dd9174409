import Imperative.Number.Shortest

/-! The text of numbers.  Two general texts write the shortest digits that read back: the plain one
writes them out and has a point only if there is a fraction, and the scientific one has a single
digit before the point and an exponent.  The language has two texts of its own.  A literal of
program text is the plain text, with a fraction added where it has none, so that every finite
literal is a word of digits around one point.  What printing writes is made from the scientific
text: its digits are taken out and laid out again around a point, unless the number is very large or
very small, and then its exponent is written anew. -/

namespace Imperative

namespace Decimal

/-! ### Plain and scientific text -/

/-- The decimal digits of a natural number, first to last. -/
def digitsOf (n : Nat) : List Char := Nat.toDigits 10 n

/-- The power of ten that the first digit counts. -/
def leadingExponent (d : Decimal) : Int := d.exponent + (digitsOf d.digits).length - 1

/-- The text of an integer; only a minus is written as a sign. -/
def integerText (e : Int) : List Char :=
  if e < 0 then '-' :: digitsOf e.natAbs else digitsOf e.natAbs

/-- The digits without an exponent.  A point stands only before a fraction, and a zero before the
point if no digit does. -/
def plainText (d : Decimal) : List Char :=
  let ds := digitsOf d.digits
  let before := d.exponent + ds.length
  if before ≤ 0 then ['0', '.'] ++ List.replicate (-before).toNat '0' ++ ds
  else if before < ds.length then ds.take before.toNat ++ '.' :: ds.drop before.toNat
  else ds ++ List.replicate (before.toNat - ds.length) '0'

/-- One digit, and a point before the others if there are any. -/
def mantissaText (d : Decimal) : List Char :=
  match digitsOf d.digits with
  | [] => []
  | [c] => [c]
  | c :: cs => c :: '.' :: cs

/-- The mantissa and the exponent. -/
def scientificText (d : Decimal) : List Char :=
  d.mantissaText ++ 'e' :: integerText d.leadingExponent

/-! ### Literals -/

/-- A text with a point: a zero is added as the fraction if there is none. -/
def withFraction (cs : List Char) : List Char := if cs.contains '.' then cs else cs ++ ['.', '0']

/-! ### Printing -/

/-- The mantissa and the exponent of a scientific text.  A text without an exponent has a zero. -/
def splitExponent (cs : List Char) : List Char × List Char :=
  match cs.dropWhile (· != 'e') with
  | [] => (cs, ['0'])
  | _ :: exponent => (cs.takeWhile (· != 'e'), exponent)

/-- The integer of 32 bits that a text denotes: an optional sign and at least one digit. -/
def integer? (cs : List Char) : Option Int :=
  let (negative, digits) := splitSign cs
  if digits.isEmpty || !digits.all Char.isDigit then none
  else
    let value : Int := if negative then -(ofDigits digits : Int) else ofDigits digits
    if -0x80000000 ≤ value ∧ value < 0x80000000 then some value else none

/-- Whether numbers whose first digit counts `10^e` are printed without an exponent. -/
def isPositional (e : Int) : Bool := decide (-4 ≤ e ∧ e < 16)

/-- Places the point among digits of which the first counts `10^e`. -/
def positionalText (digits : List Char) (e : Int) : List Char :=
  let shift := e.natAbs
  if e < 0 then ['0', '.'] ++ List.replicate (shift - 1) '0' ++ digits
  else
    let integral := shift + 1
    if digits.length ≤ integral then
      digits ++ List.replicate (integral - digits.length) '0' ++ ['.', '0']
    else digits.take integral ++ '.' :: digits.drop integral

/-- An exponent with its sign and at least two digits. -/
def exponentText (e : Int) : List Char :=
  let ds := digitsOf e.natAbs
  'e' :: (if e < 0 then '-' else '+') :: (List.replicate (2 - ds.length) '0' ++ ds)

/-- What is printed of a scientific text. -/
def printedText (scientific : List Char) : List Char :=
  let (mantissa, exponent) := splitExponent scientific
  let e := (integer? exponent).getD 0
  if isPositional e then positionalText (mantissa.filter Char.isDigit) e
  else mantissa ++ exponentText e

end Decimal

namespace Number

/-- The shortest decimal that reads back as a finite number, its sign apart. -/
def decimal (x : Number) : Decimal := if x.isZero then ⟨0, 0⟩ else .shortest x.magnitude

/-- The text of a number that is not a NaN, without its sign. -/
def unsigned (write : Decimal → List Char) (x : Number) : List Char :=
  if x.isInfinite then ['i', 'n', 'f'] else write x.decimal

/-- The text of a number whose decimal is written so.  A minus stands before every number with the
sign bit, zero included, and never before a NaN. -/
def written (write : Decimal → List Char) (x : Number) : List Char :=
  if x.isNaN then ['N', 'a', 'N']
  else (if x.isNegative then ['-'] else []) ++ x.unsigned write

/-- The plain text of a number. -/
def plain (x : Number) : List Char := x.written Decimal.plainText

/-- The scientific text of a number. -/
def scientific (x : Number) : List Char := x.written Decimal.scientificText

/-- The number without its sign. -/
def abs (x : Number) : Number := ofMagnitude false x.magnitude

/-- The text of a number as a literal of the language. -/
def literal (x : Number) : String := String.ofList (Decimal.withFraction x.plain)

/-- The text that printing a number writes. -/
def printed (x : Number) : String :=
  if x.isNaN then "nan"
  else if x.isInfinite then if zero.isBelow x then "inf" else "-inf"
  else
    let sign := if x.isNegative then ['-'] else []
    if x.equals zero then String.ofList (sign ++ ['0', '.', '0'])
    else String.ofList (sign ++ Decimal.printedText x.abs.scientific)

end Number
end Imperative
