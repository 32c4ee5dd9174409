/-! Tokens of the language and where they stand in a source: punctuation marks, which are single
characters, and words, which are everything else between blanks.  Blanks only divide words.  There
is no third kind of token for them, since no source would ever contain one and no message would show
it. -/

namespace Imperative

/-- A punctuation mark. -/
inductive Mark where
  | plus | minus | slash | star | caret | comma | colon | equal | less | greater
  | leftBrace | rightBrace | leftParen | rightParen | semicolon
deriving DecidableEq, Repr

namespace Mark

/-- Every mark, once. -/
def all : List Mark :=
  [plus, minus, slash, star, caret, comma, colon, equal, less, greater,
   leftBrace, rightBrace, leftParen, rightParen, semicolon]

/-- The character that a mark is written as. -/
def char : Mark → Char
  | plus => '+'
  | minus => '-'
  | slash => '/'
  | star => '*'
  | caret => '^'
  | comma => ','
  | colon => ':'
  | equal => '='
  | less => '<'
  | greater => '>'
  | leftBrace => '\x7b'
  | rightBrace => '\x7d'
  | leftParen => '('
  | rightParen => ')'
  | semicolon => ';'

/-- The mark that a character is, if it is one. -/
def ofChar? (c : Char) : Option Mark := all.find? fun m => m.char == c

theorem ofChar?_char (m : Mark) : ofChar? m.char = some m := by cases m <;> decide

theorem char_of_ofChar? {c : Char} {m : Mark} (h : ofChar? c = some m) : m.char = c := by
  simpa using List.find?_some h

end Mark

/-- A token: a mark or a word. -/
inductive Token where
  | mark (m : Mark)
  | word (text : String)
deriving DecidableEq, Repr

namespace Token

/-- The text of a token as it stands in a source. -/
def text : Token → String
  | mark m => m.char.toString
  | word s => s

/-- The text of a token between single quotes, as error messages show it. -/
def quoted (t : Token) : String := "'" ++ t.text ++ "'"

/-- The token that a text spells: a mark for its single character, a word otherwise.  A text with
blanks in it makes a word that no source contains. -/
def ofText (s : String) : Token :=
  match s.toList with
  | [c] => ((Mark.ofChar? c).map mark).getD (word s)
  | _ => word s

end Token

/-- The place of a token: its line, counted from one, and its number among the tokens, counted from
zero. -/
structure Position where
  line : Nat
  index : Nat
deriving DecidableEq, Repr

/-- A position as messages show it. -/
def Position.text (p : Position) : String := s!"line {p.line} (token {p.index})"

/-- A token at its place in a source. -/
structure Lexeme where
  token : Token
  position : Position
deriving DecidableEq, Repr

/-- The position behind the last of all lexemes of a source: on its line, or on the first line of a
source without any. -/
def endPosition (ts : List Lexeme) : Position :=
  ⟨(ts.getLast?.map fun l => l.position.line).getD 1, ts.length⟩

end Imperative
