import Imperative.Environment
import Imperative.RuntimeError
import Imperative.Transcript

/-! Running programs.  Evaluation threads an environment and a transcript from left to right.
Statements wait their turn in a list, so that neither the length of a program nor the number of
iterations of a loop nests the evaluation.  It is defined by recursion on a bound on its steps, so
that it is a total function; with a bound that suffices the result is that of every larger bound.  A
result is a value with the state it leaves, an error with what was printed and logged before it, or
neither if the bound was too small. -/

namespace Imperative

/-- What a program reads and changes. -/
structure State where
  environment : Environment
  transcript : Transcript

namespace State

/-- Nothing is bound and nothing was printed. -/
def initial : State := ⟨.empty, .empty⟩

/-- Binds a name. -/
def bind (name : String) (b : Binding) (s : State) : State :=
  ⟨s.environment.bind name b, s.transcript⟩

/-- Prints a number. -/
def print (x : Number) (s : State) : State := ⟨s.environment, s.transcript.print x⟩

end State

/-- The outcome of an evaluation. -/
inductive Outcome (α : Type) where
  /-- A value, and the state after it. -/
  | finished (value : α) (state : State)
  /-- An error, and what was printed and logged before it. -/
  | failed (error : RuntimeError) (transcript : Transcript)
  /-- The bound was too small. -/
  | unfinished

namespace Outcome

/-- Goes on with the value and state of an evaluation that finished. -/
@[inline] def andThen {α β : Type} (o : Outcome α) (next : α → State → Outcome β) : Outcome β :=
  match o with
  | finished x s => next x s
  | failed e t => failed e t
  | unfinished => unfinished

/-- Whether there is a value or an error. -/
def isSettled {α : Type} : Outcome α → Bool
  | unfinished => false
  | _ => true

end Outcome

mutual

/-- The value of an expression. -/
def Expr.evaluate : (bound : Nat) → Expr → State → Outcome Number
  | 0, _, _ => .unfinished
  | _ + 1, .literal x, s => .finished x s
  | _ + 1, .var name line, s =>
    match s.environment.lookup name with
    | some (.number x) => .finished x s
    | some (.procedure _) => .failed ⟨.notANumber, name, line⟩ s.transcript
    | none => .failed ⟨.unbound, name, line⟩ s.transcript
  | bound + 1, .binary op left right, s =>
    (left.evaluate bound s).andThen fun x s =>
    (right.evaluate bound s).andThen fun y s =>
    .finished (op.apply x y) s
  | bound + 1, .assign name value, s =>
    (value.evaluate bound s).andThen fun x s => .finished x (s.bind name (.number x))
  | bound + 1, .call name arguments line, ⟨env, t⟩ =>
    match env.lookup name with
    | none => .failed ⟨.unbound, name, line⟩ t
    | some (.number _) => .failed ⟨.notAProcedure, name, line⟩ t
    | some (.procedure p) =>
      if p.parameters.length = arguments.length then
        -- The caller's environment comes back as it was before the arguments.
        (evaluateArguments bound arguments ⟨env, t⟩).andThen fun values s =>
        (executePending bound [p.body] .zero ⟨.ofParameters (p.parameters.zip values),
          s.transcript.record (.called line name values.length)⟩).andThen fun x s =>
        .finished x ⟨env, s.transcript⟩
      else .failed ⟨.arityMismatch p.parameters.length arguments.length, name, line⟩ t

/-- The values of arguments, each evaluated in the state that the one before it left. -/
def evaluateArguments : (bound : Nat) → List Expr → State → Outcome (List Number)
  | 0, _, _ => .unfinished
  | _ + 1, [], s => .finished [] s
  | bound + 1, e :: es, s =>
    (e.evaluate bound s).andThen fun x s =>
    (evaluateArguments bound es s).andThen fun xs s =>
    .finished (x :: xs) s

/-- Runs the pending statements, the first of them next, when the statement before them had the
given value.  The parts of a sequence and the chosen branch of a choice become pending in their
turn, so the value at the end is that of the last statement to run. -/
def executePending : (bound : Nat) → List Statement → Number → State → Outcome Number
  | 0, _, _, _ => .unfinished
  | _ + 1, [], value, s => .finished value s
  | bound + 1, .sequence first second :: pending, _, s =>
    executePending bound (first :: second :: pending) .zero s
  | bound + 1, .procedure name parameters body :: pending, _, s =>
    executePending bound pending .one (s.bind name (.procedure ⟨name, parameters, body⟩))
  | bound + 1, .choice guard yes no :: pending, _, s =>
    (guard.evaluate bound s).andThen fun x s =>
    executePending bound ((if x.isZero then no else yes) :: pending) .zero s
  | bound + 1, .loop guard body :: pending, _, s =>
    (executeLoop bound guard body 0 s).andThen fun x s => executePending bound pending x s
  | bound + 1, .print value :: pending, _, s =>
    (value.evaluate bound s).andThen fun x s => executePending bound pending .zero (s.print x)
  | bound + 1, .expression value :: pending, _, s =>
    (value.evaluate bound s).andThen fun x s => executePending bound pending x s

/-- Goes on with a loop whose body has run `iterations` times.  What the last guard assigned is
dropped, what it printed stays. -/
def executeLoop :
    (bound : Nat) → Expr → Statement → (iterations : UInt64) → State → Outcome Number
  | 0, _, _, _, _ => .unfinished
  | bound + 1, guard, body, iterations, ⟨env, t⟩ =>
    (guard.evaluate bound ⟨env, t⟩).andThen fun x s =>
    if x.isZero then .finished .zero ⟨env, s.transcript.record (.loopFinished iterations)⟩
    else (executePending bound [body] .zero s).andThen fun _ s =>
      executeLoop bound guard body (iterations + 1) s

end

/-- The value of a statement: that of its last part, one for a definition, zero for printing and for
a loop. -/
def Statement.execute (bound : Nat) (p : Statement) (s : State) : Outcome Number :=
  executePending bound [p] .zero s

end Imperative
