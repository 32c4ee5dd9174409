/-! Blank characters: those with the Unicode property White_Space.  They divide words and are
dropped. -/

namespace Imperative.Text

/-- The ranges of the property White_Space, as first and last code points in ascending order. -/
def blankRanges : List (Nat × Nat) :=
  [(0x09, 0x0d), (0x20, 0x20), (0x85, 0x85), (0xa0, 0xa0), (0x1680, 0x1680), (0x2000, 0x200a),
   (0x2028, 0x2029), (0x202f, 0x202f), (0x205f, 0x205f), (0x3000, 0x3000)]

/-- Whether a code point lies in one of the ranges. -/
def within (ranges : List (Nat × Nat)) (n : Nat) : Bool :=
  ranges.any fun (first, last) => decide (first ≤ n ∧ n ≤ last)

/-- Whether a character is blank. -/
def isBlank (c : Char) : Bool := within blankRanges c.toNat

end Imperative.Text
