import Imperative.Parser.Statement

/-! A place among the lexemes of a source, from which parsers are run one after another.  What a
parser consumed before it failed stays consumed, and an error is told by the place where the cursor
then stands. -/

namespace Imperative

/-- The lexemes still ahead, and the position behind the last one. -/
structure Cursor where
  rest : List Lexeme
  endPosition : Position

namespace Cursor

/-- The cursor before the first of all lexemes. -/
def ofLexemes (ts : List Lexeme) : Cursor := ⟨ts, Imperative.endPosition ts⟩

/-- The cursor at the beginning of a source. -/
def ofSource (source : String) : Cursor := ofLexemes (tokenize source)

/-- The next lexeme, if there is one. -/
def peek? (c : Cursor) : Option Lexeme := c.rest.head?

/-- Whether nothing is ahead. -/
def isAtEnd (c : Cursor) : Bool := c.rest.isEmpty

/-- The position of the next lexeme, or the end. -/
def position (c : Cursor) : Position := (c.peek?.map Lexeme.position).getD c.endPosition

/-- Whether the next token is `t`. -/
def nextIs (c : Cursor) (t : Token) : Bool := Parser.nextIs t c.rest

/-- The cursor behind the next lexeme. -/
def advance (c : Cursor) : Cursor := { c with rest := c.rest.tail }

/-- The error of expecting something else at this place. -/
def error (c : Cursor) (expected : Expected) : ParseError :=
  ⟨expected, c.peek?.map Lexeme.token, c.position⟩

/-- The cursor and the error where a parser failed. -/
def stuckAt (c : Cursor) (s : Stuck) : ParseError × Cursor :=
  let c := { c with rest := s.rest }
  (c.error s.expected, c)

/-- Runs a parser from this place; the cursor that comes back stands where the parser stopped. -/
def run {α : Type} (c : Cursor) (parser : Parser α) : Except ParseError α × Cursor :=
  match parser c.rest with
  | .ok p => (.ok p.value, { c with rest := p.rest })
  | .error s => (.error (c.stuckAt s).1, (c.stuckAt s).2)

end Cursor

/-- The program that lexemes spell. -/
def parseLexemes (ts : List Lexeme) : Except ParseError Statement :=
  match Parser.wholeProgram ts with
  | .ok s => .ok s
  | .error e => .error ((Cursor.ofLexemes ts).stuckAt e).1

/-- The program that a source spells. -/
def parse (source : String) : Except ParseError Statement := parseLexemes (tokenize source)

end Imperative
