import Imperative.Cursor
import Imperative.Evaluator

/-! A session: programs run one after another, each in the environment that the ones before it left.
-/

namespace Imperative

/-- The environment and everything printed so far. -/
structure Session where
  environment : Environment
  output : String

/-- What a session answers to a program. -/
inductive Reply where
  /-- The value of the program. -/
  | value (x : Number)
  /-- The source is no program. -/
  | rejected (error : ParseError)
  /-- An error stopped the program. -/
  | aborted (error : RuntimeError)
  /-- The bound was too small. -/
  | unfinished
deriving DecidableEq, Repr

namespace Session

/-- Nothing is bound and nothing was printed. -/
def initial : Session := ⟨.empty, ""⟩

/-- Runs a program.  An error leaves the environment as it was before, but what was printed stays.
-/
def eval (bound : Nat) (source : String) (s : Session) : Reply × Session :=
  match parse source with
  | .error e => (.rejected e, s)
  | .ok p =>
    match p.execute bound ⟨s.environment, s.output, #[]⟩ with
    | .finished x ⟨env, t⟩ => (.value x, ⟨env, t.output⟩)
    | .failed e t => (.aborted e, ⟨s.environment, t.output⟩)
    | .unfinished => (.unfinished, s)

/-- Binds a name. -/
def bind (name : String) (b : Binding) (s : Session) : Session :=
  { s with environment := s.environment.bind name b }

/-- Prints a number. -/
def print (x : Number) (s : Session) : Session :=
  { s with output := ((⟨s.output, #[]⟩ : Transcript).print x).output }

end Session
end Imperative
