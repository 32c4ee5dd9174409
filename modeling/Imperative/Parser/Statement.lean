import Imperative.Parser.Expression
import Imperative.Token.Scan

/-! Reading statements and whole programs.  A keyword decides what kind of statement follows;
without one it is an expression.  Statements are divided by semicolons and grouped to the left, and
a program takes all lexemes. -/

namespace Imperative.Parser

/-- How a semicolon joins two statements. -/
def sequences (t : Token) : Option (Statement → Statement → Statement) :=
  if t = .mark .semicolon then some .sequence else none

mutual

/-- One or more statements. -/
def program (ts : List Lexeme) : Result Statement ts :=
  chain (statement ts) (fun r _ => statement r) sequences
termination_by 4 * ts.length + 1

/-- One statement. -/
def statement (ts : List Lexeme) : Result Statement ts :=
  match ts with
  | ⟨.word "proc", _⟩ :: rest => do
    let ⟨name, rest₁, h₁⟩ ← identifier rest
    let ⟨_, rest₂, h₂⟩ ← expect (.mark .leftParen) rest₁
    let ⟨parameters, rest₃, h₃⟩ ← commaSeparated (.mark .rightParen) rest₂ fun r _ => identifier r
    let ⟨body, rest₄, h₄⟩ ← block rest₃
    .ok ⟨.procedure name parameters body, rest₄, by simp; omega⟩
  | ⟨.word "if", _⟩ :: rest => do
    let ⟨guard, rest₁, h₁⟩ ← condition rest
    let ⟨yes, rest₂, h₂⟩ ← block rest₁
    let ⟨_, rest₃, h₃⟩ ← expect (.word "else") rest₂
    let ⟨no, rest₄, h₄⟩ ← block rest₃
    .ok ⟨.choice guard yes no, rest₄, by simp; omega⟩
  | ⟨.word "while", _⟩ :: rest => do
    let ⟨guard, rest₁, h₁⟩ ← condition rest
    let ⟨body, rest₂, h₂⟩ ← block rest₁
    .ok ⟨.loop guard body, rest₂, by simp; omega⟩
  | ⟨.word "print", _⟩ :: rest => do
    let ⟨value, rest₁, h₁⟩ ← condition rest
    .ok ⟨.print value, rest₁, by simp; omega⟩
  | ts => do
    let ⟨value, rest, h⟩ ← condition ts
    .ok ⟨.expression value, rest, h⟩
termination_by 4 * ts.length
decreasing_by all_goals (simp at *; omega)

/-- Statements in braces. -/
def block (ts : List Lexeme) : Result Statement ts := do
  let ⟨_, rest₁, h₁⟩ ← expect (.mark .leftBrace) ts
  let ⟨body, rest₂, h₂⟩ ← program rest₁
  let ⟨_, rest₃, h₃⟩ ← consume .separatorOrBrace (.mark .rightBrace) rest₂
  .ok ⟨body, rest₃, by omega⟩
termination_by 4 * ts.length

end

/-- A program that takes all lexemes. -/
def wholeProgram (ts : List Lexeme) : Except Stuck Statement :=
  match program ts with
  | .error e => .error e
  | .ok ⟨s, [], _⟩ => .ok s
  | .ok ⟨_, l :: rest, _⟩ => .error ⟨.separatorOrEnd, l :: rest⟩

end Imperative.Parser
