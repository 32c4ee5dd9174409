import Imperative.Token
import Imperative.Text.Blank

/-! Dividing a source into tokens.  The scan reads one character at a time and keeps the lexemes
found, the word begun and the current line.  A blank or a mark ends a word, and a newline ends a
line; a word is thus as long as it can be.  Every source can be divided. -/

namespace Imperative

/-- The state of a scan. -/
structure Scan where
  /-- The lexemes found so far. -/
  lexemes : Array Lexeme
  /-- The characters of the word begun, empty between words. -/
  pending : String
  /-- The current line. -/
  line : Nat

namespace Scan

/-- The scan before the first character. -/
def start : Scan := ⟨#[], "", 1⟩

/-- Adds a token at the current place. -/
def emit (t : Token) (s : Scan) : Scan :=
  { s with lexemes := s.lexemes.push ⟨t, s.line, s.lexemes.size⟩ }

/-- Ends the word begun, if there is one. -/
def endWord (s : Scan) : Scan :=
  if s.pending.isEmpty then s else { s.emit (.word s.pending) with pending := "" }

/-- Reads a blank. -/
def blank (c : Char) (s : Scan) : Scan :=
  let s := s.endWord
  if c == '\n' then { s with line := s.line + 1 } else s

/-- Reads one character. -/
def step (s : Scan) (c : Char) : Scan :=
  if Text.isBlank c then s.blank c
  else match Mark.ofChar? c with
    | some m => s.endWord.emit (.mark m)
    | none => { s with pending := s.pending.push c }

/-- Reads characters in order. -/
def run (s : Scan) (cs : List Char) : Scan := cs.foldl step s

/-- All lexemes, the word begun included. -/
def finish (s : Scan) : List Lexeme := s.endWord.lexemes.toList

end Scan

/-- The lexemes of a source, in order. -/
def tokenize (source : String) : List Lexeme := (Scan.start.run source.toList).finish

end Imperative
