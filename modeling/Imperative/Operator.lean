import Imperative.Number
import Imperative.Token

/-! The binary operators: their marks and what they compute. -/

namespace Imperative

/-- A binary operator. -/
inductive Operator where
  | less | greater | equal | add | subtract | multiply | divide | power
deriving DecidableEq, Repr

namespace Operator

/-- The mark that an operator is written as. -/
def mark : Operator → Mark
  | less => .less
  | greater => .greater
  | equal => .equal
  | add => .plus
  | subtract => .minus
  | multiply => .star
  | divide => .slash
  | power => .caret

/-- The operator that a mark stands for, if it stands for one. -/
def ofMark? : Mark → Option Operator
  | .less => some less
  | .greater => some greater
  | .equal => some equal
  | .plus => some add
  | .minus => some subtract
  | .star => some multiply
  | .slash => some divide
  | .caret => some power
  | _ => none

theorem ofMark?_mark (op : Operator) : ofMark? op.mark = some op := by cases op <;> rfl

/-- The operator that a token stands for, if it stands for one. -/
def ofToken? : Token → Option Operator
  | .mark m => ofMark? m
  | .word _ => none

/-- The value of an operator.  A comparison yields one or zero. -/
def apply : Operator → Number → Number → Number
  | less, x, y => .ofBool (x.isBelow y)
  | greater, x, y => .ofBool (y.isBelow x)
  | equal, x, y => .ofBool (x.equals y)
  | add, x, y => x.add y
  | subtract, x, y => x.sub y
  | multiply, x, y => x.mul y
  | divide, x, y => x.div y
  | power, x, y => x.pow y

end Operator
end Imperative
