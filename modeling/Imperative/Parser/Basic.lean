import Imperative.ParseError
import Imperative.Word

/-! Parsers over lists of lexemes.  A parser that succeeds consumes at least one lexeme, and its
result carries the proof, so every repetition of a parser ends.  A parser that fails says what it
expected and which lexemes were left at that point. -/

namespace Imperative

/-- Where a parser failed: what it expected before the lexemes that were left. -/
structure Stuck where
  expected : Expected
  rest : List Lexeme
deriving DecidableEq, Repr

/-- What a parser made of the beginning of `ts`. -/
structure Parsed (α : Type) (ts : List Lexeme) where
  value : α
  rest : List Lexeme
  shorter : rest.length < ts.length

/-- The result of a parser on `ts`. -/
abbrev Result (α : Type) (ts : List Lexeme) : Type := Except Stuck (Parsed α ts)

/-- A parser. -/
abbrev Parser (α : Type) : Type := (ts : List Lexeme) → Result α ts

/-- A parser for the lists shorter than `ts`. -/
abbrev Below (ts : List Lexeme) (α : Type) : Type :=
  (r : List Lexeme) → r.length < ts.length → Result α r

/-- A parser for the lists no longer than `ts`. -/
abbrev Within (ts : List Lexeme) (α : Type) : Type :=
  (r : List Lexeme) → r.length ≤ ts.length → Result α r

namespace Parser

/-- Whether the next token is `t`. -/
def nextIs (t : Token) : List Lexeme → Bool
  | [] => false
  | l :: _ => l.token == t

/-- Consumes the token `t`, where `expected` describes what may stand there. -/
def consume (expected : Expected) (t : Token) : Parser Unit
  | [] => .error ⟨expected, []⟩
  | l :: rest => if l.token = t then .ok ⟨(), rest, by simp⟩ else .error ⟨expected, l :: rest⟩

/-- Consumes the token `t`, which alone may stand there. -/
def expect (t : Token) : Parser Unit := consume (.token t) t

/-- Consumes an identifier and yields it. -/
def identifier : Parser String
  | ⟨.word s, p⟩ :: rest =>
    if Word.isIdentifier s then .ok ⟨s, rest, by simp⟩
    else .error ⟨.identifier, ⟨.word s, p⟩ :: rest⟩
  | ts => .error ⟨.identifier, ts⟩

/-- One item, or two with a linking token between them. -/
def pair {α : Type} {ts : List Lexeme} (first : Result α ts) (second : Below ts α)
    (link : Token → Option (α → α → α)) : Result α ts :=
  match first with
  | .error e => .error e
  | .ok ⟨left, [], h⟩ => .ok ⟨left, [], h⟩
  | .ok ⟨left, l :: rest, h⟩ =>
    match link l.token with
    | none => .ok ⟨left, l :: rest, h⟩
    | some join =>
      have shorter : rest.length < ts.length := by simp at h; omega
      match second rest shorter with
      | .error e => .error e
      | .ok ⟨right, rest', h'⟩ => .ok ⟨join left right, rest', by omega⟩

/-- Continues a chain whose items so far are joined to `left`. -/
def chainFrom {α : Type} {ts : List Lexeme} (item : Below ts α) (link : Token → Option (α → α → α))
    (left : α) (r : List Lexeme) (h : r.length < ts.length) : Result α ts :=
  match r, h with
  | [], h => .ok ⟨left, [], h⟩
  | l :: rest, h =>
    match link l.token with
    | none => .ok ⟨left, l :: rest, h⟩
    | some join =>
      have shorter : rest.length < ts.length := by simp at h; omega
      match item rest shorter with
      | .error e => .error e
      | .ok ⟨right, rest', h'⟩ => chainFrom item link (join left right) rest' (by omega)
termination_by r.length
decreasing_by simp; omega

/-- One or more items with linking tokens between them, joined from the left.  The chain goes on as
long as a linking token follows. -/
def chain {α : Type} {ts : List Lexeme} (first : Result α ts) (item : Below ts α)
    (link : Token → Option (α → α → α)) : Result α ts :=
  match first with
  | .error e => .error e
  | .ok ⟨left, rest, h⟩ => chainFrom item link left rest h

/-- One or more items with commas between them, and the closing token.  A comma is always followed
by an item, also if it is the closing token itself. -/
def items {α : Type} {ts : List Lexeme} (item : Within ts α) (closing : Token)
    (r : List Lexeme) (h : r.length ≤ ts.length) : Result (List α) r :=
  match item r h with
  | .error e => .error e
  | .ok ⟨_, [], _⟩ => .error ⟨.commaOr closing, []⟩
  | .ok ⟨x, l :: rest, h'⟩ =>
    have shorter : rest.length < r.length := by simp at h'; omega
    if l.token = .mark .comma then
      match items item closing rest (by omega) with
      | .error e => .error e
      | .ok ⟨xs, rest', h''⟩ => .ok ⟨x :: xs, rest', by omega⟩
    else if l.token = closing then .ok ⟨[x], rest, shorter⟩
    else .error ⟨.commaOr closing, l :: rest⟩
termination_by r.length

/-- Items divided by commas, up to and including the closing token; possibly none. -/
def commaSeparated {α : Type} (closing : Token) (ts : List Lexeme) (item : Within ts α) :
    Result (List α) ts :=
  match ts with
  | [] => items item closing [] (by simp)
  | l :: rest =>
    if l.token = closing then .ok ⟨[], rest, by simp⟩ else items item closing (l :: rest) (by simp)

end Parser
end Imperative
