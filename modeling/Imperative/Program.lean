import Imperative.Cursor
import Imperative.Evaluator
import Imperative.Tree.Rendering

/-! Running a source from beginning to end: it is divided into tokens, parsed and evaluated from the
empty environment, and every stage adds to the log. -/

namespace Imperative

/-- How a run ends. -/
inductive Ending where
  /-- The program ran to its end; its canonical text, and what it printed. -/
  | completed (rendering output : String)
  /-- The source is no program. -/
  | rejected (error : ParseError)
  /-- An error stopped the program after it had printed this. -/
  | aborted (error : RuntimeError) (output : String)
  /-- The bound was too small. -/
  | unfinished
deriving DecidableEq, Repr

/-- A bound that no run on a machine ever reaches, `2^62`. -/
def ample : Nat := 0x4000000000000000

/-- Runs a program from the empty environment. -/
def Statement.run (bound : Nat) (p : Statement) : Outcome Number := p.execute bound .initial

namespace Outcome

/-- The ending of the run of a program with this canonical text. -/
def ending (rendering : String) : Outcome Number → Ending
  | finished _ s => .completed rendering s.transcript.output
  | failed e t => .aborted e t.output
  | unfinished => .unfinished

/-- The events of a run, the last of which tells of its success. -/
def events : Outcome Number → List Event
  | finished _ s => s.transcript.events.toList ++ [.finished s.environment.size]
  | failed _ t => t.events.toList
  | unfinished => []

end Outcome

/-- Runs a source and tells how it ended and what was logged. -/
def trace (bound : Nat) (source : String) : Ending × List Event :=
  let ts := tokenize source
  let scanned : List Event := [.tokenized source.utf8ByteSize ts.length, .lexed ts.length]
  match parseLexemes ts with
  | .error e => (.rejected e, scanned)
  | .ok p =>
    let rendering := p.render
    let outcome := p.run bound
    (outcome.ending rendering, scanned ++ .parsed rendering :: outcome.events)

/-- Runs a source. -/
def run (bound : Nat) (source : String) : Ending := (trace bound source).1

theorem run_eq (bound : Nat) (source : String) : run bound source =
    match parse source with
    | .error e => .rejected e
    | .ok p => (p.run bound).ending p.render := by
  simp only [run, trace, parse]
  split <;> rfl

end Imperative
