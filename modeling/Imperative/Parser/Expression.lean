import Imperative.Parser.Basic
import Imperative.Number.Decimal
import Imperative.Tree

/-! Reading expressions.  From loosest to tightest: at most one comparison, sums, products, powers,
and the primaries, which are literals, names, assignments, calls and conditions in parentheses.
Sums and products group to the left and powers to the right.  An assignment takes a whole condition
as its value, so it reaches as far to the right as it can. -/

namespace Imperative.Parser

/-- How a token joins two operands, if it is one of the given operators. -/
def joins (ops : List Operator) (t : Token) : Option (Expr → Expr → Expr) :=
  match Operator.ofToken? t with
  | some op => if op ∈ ops then some (Expr.binary op) else none
  | none => none

/-- The operators of a comparison. -/
def comparisons : List Operator := [.less, .greater, .equal]

/-- The operators of a sum. -/
def sums : List Operator := [.add, .subtract]

/-- The operators of a product. -/
def products : List Operator := [.multiply, .divide]

/-- The operator of a power. -/
def powers : List Operator := [.power]

mutual

/-- A sum, or two sums compared. -/
def condition (ts : List Lexeme) : Result Expr ts :=
  pair (additive ts) (fun r _ => additive r) (joins comparisons)
termination_by 8 * ts.length + 4

/-- One or more products, added and subtracted. -/
def additive (ts : List Lexeme) : Result Expr ts :=
  chain (multiplicative ts) (fun r _ => multiplicative r) (joins sums)
termination_by 8 * ts.length + 3

/-- One or more powers, multiplied and divided. -/
def multiplicative (ts : List Lexeme) : Result Expr ts :=
  chain (power ts) (fun r _ => power r) (joins products)
termination_by 8 * ts.length + 2

/-- A primary, possibly raised to a power. -/
def power (ts : List Lexeme) : Result Expr ts :=
  pair (primary ts) (fun r _ => power r) (joins powers)
termination_by 8 * ts.length + 1

/-- A literal, a name with what belongs to it, or a condition in parentheses. -/
def primary (ts : List Lexeme) : Result Expr ts :=
  match ts with
  | ⟨.mark .leftParen, _⟩ :: rest => do
    let ⟨inner, rest₁, h₁⟩ ← condition rest
    let ⟨_, rest₂, h₂⟩ ← expect (.mark .rightParen) rest₁
    .ok ⟨inner, rest₂, by simp; omega⟩
  | ⟨.word s, p⟩ :: rest =>
    if Word.isIdentifier s then
      match rest with
      | ⟨.mark .colon, _⟩ :: rest => do
        let ⟨_, rest₁, h₁⟩ ← expect (.mark .equal) rest
        let ⟨value, rest₂, h₂⟩ ← condition rest₁
        .ok ⟨.assign s value, rest₂, by simp; omega⟩
      | ⟨.mark .leftParen, _⟩ :: rest => do
        let ⟨arguments, rest₁, h₁⟩ ← commaSeparated (.mark .rightParen) rest fun r _ => condition r
        .ok ⟨.call s arguments p.line, rest₁, by simp; omega⟩
      | rest => .ok ⟨.var s p.line, rest, by simp⟩
    else if Word.isNumeral s then
      match Number.ofText? s with
      | some x => .ok ⟨.literal x, rest, by simp⟩
      | none => .error ⟨.finiteNumber, ⟨.word s, p⟩ :: rest⟩
    else .error ⟨.expression, ⟨.word s, p⟩ :: rest⟩
  | ts => .error ⟨.expression, ts⟩
termination_by 8 * ts.length
decreasing_by all_goals (simp at *; omega)

end

end Imperative.Parser
