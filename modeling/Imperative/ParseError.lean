import Imperative.Token

/-! Errors of reading a program: what was expected, what stood there, and where. -/

namespace Imperative

/-- What a place in a program calls for. -/
inductive Expected where
  /-- This very token. -/
  | token (t : Token)
  /-- A name. -/
  | identifier
  /-- The beginning of an expression. -/
  | expression
  /-- A numeral whose value is in range. -/
  | finiteNumber
  /-- More statements, or nothing. -/
  | separatorOrEnd
  /-- More statements, or the end of a block. -/
  | separatorOrBrace
  /-- More items, or the end of a list. -/
  | commaOr (closing : Token)
  /-- Something described in words. -/
  | described (text : String)
deriving DecidableEq, Repr

/-- An expectation in words. -/
def Expected.text : Expected → String
  | token t => t.quoted
  | identifier => "an identifier"
  | expression => "an expression"
  | finiteNumber => "a number literal of finite size"
  | separatorOrEnd => "';' or end of input"
  | separatorOrBrace => "';' or '\x7d'"
  | commaOr closing => "',' or " ++ closing.quoted
  | described s => s

/-- The first error of a program text. -/
structure ParseError where
  expected : Expected
  /-- The token in the way; none if the text ended too early. -/
  found : Option Token
  position : Position
deriving DecidableEq, Repr

namespace ParseError

/-- What was found, in words. -/
def foundText (e : ParseError) : String := (e.found.map Token.quoted).getD "end of input"

/-- Whether the text ended too early. -/
def isEndOfInput (e : ParseError) : Bool := e.found.isNone

/-- The message of an error. -/
def message (e : ParseError) : String :=
  "Error on " ++ e.position.text ++ ": expected " ++ e.expected.text ++ ", found " ++
    e.foundText ++ "."

end ParseError
end Imperative
