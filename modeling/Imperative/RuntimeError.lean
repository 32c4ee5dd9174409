/-! Errors of running a program.  Each names the variable or procedure at fault and the line of that
name. -/

namespace Imperative

/-- Why a program cannot go on. -/
inductive Cause where
  /-- The name is bound to nothing. -/
  | unbound
  /-- A number is called. -/
  | notAProcedure
  /-- A procedure is used as a number. -/
  | notANumber
  /-- A procedure of `expected` parameters is called with `found` arguments. -/
  | arityMismatch (expected found : Nat)
deriving DecidableEq, Repr

/-- An error that ends a run. -/
structure RuntimeError where
  cause : Cause
  name : String
  line : Nat
deriving DecidableEq, Repr

namespace RuntimeError

/-- What is wrong, in words. -/
def complaint (e : RuntimeError) : String :=
  match e.cause with
  | .unbound => "Unbound identifier '" ++ e.name ++ "'."
  | .notAProcedure => "'" ++ e.name ++ "' is not a procedure."
  | .notANumber => "Procedure '" ++ e.name ++ "' used as a number."
  | .arityMismatch expected found =>
    "Procedure '" ++ e.name ++ "' expects " ++ toString expected ++ " argument(s), but " ++
      toString found ++ " were supplied."

/-- The message of an error. -/
def message (e : RuntimeError) : String :=
  "Error on line " ++ toString e.line ++ ": " ++ e.complaint

end RuntimeError
end Imperative
