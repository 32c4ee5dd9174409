/-! The numbers of the language: IEEE 754 binary64 values, held as their 64 bits, so that equality
tells even the two zeros apart and can be decided.  Classification and comparison are read off the
bits: the word without its sign bit, as a natural number, orders the magnitudes.  Arithmetic is that
of the machine. -/

namespace Imperative

/-- A binary64 number, given by its bit pattern. -/
structure Number where
  bits : UInt64
deriving DecidableEq, Repr

namespace Number

/-- The sign bit, `2^63`. -/
def signBit : Nat := 0x8000000000000000

/-- The leading bit of a significand, `2^52`, which is also one step of the exponent. -/
def leadingBit : Nat := 0x10000000000000

/-- The magnitude word of the first quiet NaN.  The NaNs below it are signaling. -/
def quietWord : Nat := 0x7ff8000000000000

/-- The magnitude word of an infinity.  Smaller words are finite, larger ones are not numbers. -/
def infinityWord : Nat := 0x7ff0000000000000

/-- The bits below the sign, which order the magnitudes of numbers. -/
def magnitude (x : Number) : Nat := x.bits.toNat % signBit

/-- Whether the sign bit is set. -/
def isNegative (x : Number) : Bool := decide (signBit ≤ x.bits.toNat)

/-- The number with the given sign and magnitude word. -/
def ofMagnitude (negative : Bool) (magnitude : Nat) : Number :=
  ⟨UInt64.ofNat ((if negative then signBit else 0) + magnitude)⟩

/-- Whether the bits denote no number at all. -/
def isNaN (x : Number) : Bool := decide (infinityWord < x.magnitude)

/-- Whether the bits denote a signaling NaN, which no operation may pass over. -/
def isSignaling (x : Number) : Bool := x.isNaN && decide (x.magnitude < quietWord)

/-- Whether the number is one of the two infinities. -/
def isInfinite (x : Number) : Bool := x.magnitude == infinityWord

/-- Whether the number is neither infinite nor NaN. -/
def isFinite (x : Number) : Bool := decide (x.magnitude < infinityWord)

/-- Whether the number is one of the two zeros. -/
def isZero (x : Number) : Bool := x.magnitude == 0

/-- Positive zero. -/
def zero : Number := ⟨0⟩

/-- The number one. -/
def one : Number := ⟨0x3ff0000000000000⟩

/-- A quiet NaN. -/
def nan : Number := ⟨0x7ff8000000000000⟩

/-- Truth as a number: one for true, zero for false. -/
def ofBool (b : Bool) : Number := if b then one else zero

/-- The place of a number on the line; the two zeros share one place. -/
def rank (x : Number) : Int := if x.isNegative then -(x.magnitude : Int) else x.magnitude

/-- Numeric equality: a NaN differs from everything, and the two zeros are equal. -/
def equals (x y : Number) : Bool := !x.isNaN && !y.isNaN && x.rank == y.rank

/-- Numeric order: a NaN is neither below nor above anything. -/
def isBelow (x y : Number) : Bool := !x.isNaN && !y.isNaN && decide (x.rank < y.rank)

/-- A machine operation carried over to bit patterns. -/
@[inline] def lift (f : Float → Float → Float) (x y : Number) : Number :=
  ⟨(f (Float.ofBits x.bits) (Float.ofBits y.bits)).toBits⟩

/-- The rounded sum. -/
def add (x y : Number) : Number := lift Float.add x y

/-- The rounded difference. -/
def sub (x y : Number) : Number := lift Float.sub x y

/-- The rounded product. -/
def mul (x y : Number) : Number := lift Float.mul x y

/-- The rounded quotient; a division by either zero is NaN. -/
def div (x y : Number) : Number := if y.isZero then nan else lift Float.div x y

/-- The power `x` to the `y`.  The zeroth power of a quiet NaN, and one to the power of it, is one;
a signaling NaN always makes the power NaN. -/
def pow (x y : Number) : Number :=
  if x.isSignaling || y.isSignaling then nan else lift Float.pow x y

end Number
end Imperative
