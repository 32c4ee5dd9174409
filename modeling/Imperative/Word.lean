import Imperative.Text.Alphanumeric

/-! The classes of words: keywords, identifiers and numerals.  A word is in at most one class, and a
word in none of them occurs in no program. -/

namespace Imperative.Word

/-- The words with a fixed meaning, which name nothing. -/
def keywords : List String := ["proc", "if", "else", "while", "print"]

/-- Whether a word is a keyword. -/
def isKeyword (s : String) : Bool := keywords.contains s

/-- Whether a character may begin an identifier. -/
def startsIdentifier (c : Char) : Bool := c.isAlpha || c == '_'

/-- Whether a character may continue an identifier. -/
def continuesIdentifier (c : Char) : Bool := Text.isAlphanumeric c || c == '_'

/-- Whether characters have the shape of an identifier. -/
def hasIdentifierShape : List Char → Bool
  | [] => false
  | c :: cs => startsIdentifier c && cs.all continuesIdentifier

/-- Whether a word is an identifier: of their shape and no keyword. -/
def isIdentifier (s : String) : Bool := hasIdentifierShape s.toList && !isKeyword s

/-- Whether characters are decimal digits, at least one. -/
def isDigits (cs : List Char) : Bool := !cs.isEmpty && cs.all Char.isDigit

/-- Whether characters are nothing, or a point and digits. -/
def isFraction : List Char → Bool
  | [] => true
  | '.' :: cs => isDigits cs
  | _ => false

/-- Whether a word is a numeral: digits, or digits around one point. -/
def isNumeral (s : String) : Bool :=
  let cs := s.toList
  isDigits (cs.takeWhile Char.isDigit) && isFraction (cs.dropWhile Char.isDigit)

end Imperative.Word
