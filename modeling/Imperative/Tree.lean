import Imperative.Operator

/-! Programs as trees: expressions, which yield numbers and may assign, and statements.  Variables
and calls remember the line of their name, for the errors they may cause. -/

namespace Imperative

/-- An expression. -/
inductive Expr where
  /-- A number written out. -/
  | literal (value : Number)
  /-- The value of a variable. -/
  | var (name : String) (line : Nat)
  /-- An operator between two operands. -/
  | binary (op : Operator) (left right : Expr)
  /-- An assignment, whose value is the assigned one. -/
  | assign (name : String) (value : Expr)
  /-- The call of a procedure. -/
  | call (name : String) (arguments : List Expr) (line : Nat)
deriving Repr

/-- A statement. -/
inductive Statement where
  /-- One statement after another. -/
  | sequence (first second : Statement)
  /-- The definition of a procedure. -/
  | procedure (name : String) (parameters : List String) (body : Statement)
  /-- A choice: the first branch if the guard is not zero. -/
  | choice (guard : Expr) (yes no : Statement)
  /-- A loop, as long as the guard is not zero. -/
  | loop (guard : Expr) (body : Statement)
  /-- Prints a value. -/
  | print (value : Expr)
  /-- An expression for its value and effects. -/
  | expression (value : Expr)
deriving Repr

/-- A procedure as a name is bound to it. -/
structure Procedure where
  name : String
  parameters : List String
  body : Statement
deriving Repr

end Imperative
