import Imperative.Number.Text

/-! What a run leaves behind besides values: the text it printed and the events it logged. -/

namespace Imperative

/-- How much detail an event belongs to. -/
inductive Level where
  | debug | trace
deriving DecidableEq, Repr

/-- Something worth logging. -/
inductive Event where
  /-- A source of so many bytes was divided into tokens. -/
  | tokenized (bytes tokens : Nat)
  /-- So many tokens are ready to be parsed. -/
  | lexed (tokens : Nat)
  /-- A program was read; this is its canonical text. -/
  | parsed (rendering : String)
  /-- A procedure is about to run. -/
  | called (line : Nat) (name : String) (arguments : Nat)
  /-- A loop ended after so many runs of its body, counted in 64 bits. -/
  | loopFinished (iterations : UInt64)
  /-- A program ended with so many names bound. -/
  | finished (bindings : Nat)
deriving DecidableEq, Repr

namespace Event

/-- The detail of an event: what happens once per program is coarse, the rest is fine. -/
def level : Event → Level
  | lexed .. | parsed .. | finished .. => .debug
  | tokenized .. | called .. | loopFinished .. => .trace

/-- An event in words. -/
def message : Event → String
  | tokenized bytes tokens =>
    "tokenized " ++ toString bytes ++ " bytes into " ++ toString tokens ++ " tokens"
  | lexed tokens => "lexed " ++ toString tokens ++ " token(s)"
  | parsed rendering => "parsed program: " ++ rendering
  | called line name arguments =>
    "line " ++ toString line ++ ": calling " ++ name ++ " with " ++ toString arguments ++
      " argument(s)"
  | loopFinished iterations => "loop finished after " ++ toString iterations ++ " iteration(s)"
  | finished bindings => "program finished with " ++ toString bindings ++ " binding(s)"

end Event

/-- The text printed and the events logged so far. -/
structure Transcript where
  output : String
  events : Array Event
deriving DecidableEq, Repr

namespace Transcript

/-- Nothing printed, nothing logged. -/
def empty : Transcript := ⟨"", #[]⟩

/-- Prints a number on a line of its own. -/
def print (x : Number) (t : Transcript) : Transcript :=
  { t with output := t.output ++ x.printed ++ "\n" }

/-- Logs an event. -/
def record (e : Event) (t : Transcript) : Transcript := { t with events := t.events.push e }

end Transcript
end Imperative
