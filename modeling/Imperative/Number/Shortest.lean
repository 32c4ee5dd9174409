import Imperative.Number.Decimal

/-! The shortest decimal that reads back as a given magnitude.  A magnitude of `n` units is exactly
`n * 5^1074` times `10^-1074`.  From coarse to fine, each power of ten below it is a grid; on each
the two neighbours of the exact value are tried, and the first grid with a neighbour that reads back
wins.  On the finest grid the value itself is a neighbour, so the search always succeeds. -/

namespace Imperative.Decimal

/-- The place of the last digit: grid `j` counts units of `10^(j - 1074)`. -/
def finest : Nat := 1074

/-- The decimal of `count` points of grid `j`. -/
def onGrid (count j : Nat) : Decimal := ⟨count, (j : Int) - finest⟩

/-- The neighbour of `exact` on grid `j` that reads back as `magnitude`.  If both do, it is the
nearer one, and the upper one of two equally near. -/
def neighbour? (magnitude exact j : Nat) : Option Decimal :=
  let below := exact / tenTo j
  let lower := onGrid below j
  let upper := onGrid (below + 1) j
  let lowerReads := lower.magnitude == magnitude
  let upperReads := upper.magnitude == magnitude
  if lowerReads && (!upperReads || decide (2 * (exact % tenTo j) < tenTo j)) then some lower
  else if upperReads then some upper
  else none

/-- The first neighbour that reads back, on grid `j` or a finer one. -/
def search (magnitude exact : Nat) : Nat → Decimal
  | 0 => onGrid exact 0
  | j + 1 => (neighbour? magnitude exact (j + 1)).getD (search magnitude exact j)

/-- A power of ten above `n`, as its exponent: 28/93 is just above the decimal logarithm of two. -/
def coarsest (n : Nat) : Nat := (n.log2 + 1) * 28 / 93 + 1

/-- The decimal with the fewest digits that reads back as a magnitude, and of these the nearest. -/
def shortest (magnitude : Nat) : Decimal :=
  let exact := Number.units magnitude * Nat.pow 5 finest
  search magnitude exact (coarsest exact)

end Imperative.Decimal
