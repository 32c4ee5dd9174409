import Imperative.Tree
import Imperative.Number.Text

/-! Canonical program text.  Every operator and assignment stands in parentheses of its own, so that
the text of a tree can be read in one way only; statements that follow each other are divided by
semicolons, however their sequences are nested. -/

namespace Imperative

mutual

/-- The canonical text of an expression. -/
def Expr.render : Expr → String
  | .literal x => x.literal
  | .var name _ => name
  | .binary op left right => "(" ++ left.render ++ op.mark.char.toString ++ right.render ++ ")"
  | .assign name value => "(" ++ name ++ " := " ++ value.render ++ ")"
  | .call name arguments _ => name ++ "(" ++ renderArguments arguments ++ ")"

/-- The canonical text of arguments. -/
def renderArguments : List Expr → String
  | [] => ""
  | [e] => e.render
  | e :: es => e.render ++ ", " ++ renderArguments es

end

/-- The header and body of a procedure. -/
def renderProcedure (name : String) (parameters : List String) (body : String) : String :=
  "proc " ++ name ++ "(" ++ ", ".intercalate parameters ++ ") \x7b " ++ body ++ " \x7d"

/-- How many statements a statement is made of, itself included. -/
def Statement.nodes : Statement → Nat
  | .sequence first second => first.nodes + second.nodes + 1
  | .procedure _ _ body => body.nodes + 1
  | .choice _ yes no => yes.nodes + no.nodes + 1
  | .loop _ body => body.nodes + 1
  | .print _ => 1
  | .expression _ => 1

theorem Statement.nodes_pos (s : Statement) : 0 < s.nodes := by
  cases s <;> simp [Statement.nodes]

/-- How many statements pending ones are made of. -/
def pendingNodes : List Statement → Nat
  | [] => 0
  | s :: pending => s.nodes + pendingNodes pending

mutual

/-- The canonical text of a statement. -/
def Statement.render : Statement → String
  | .sequence first second => renderPending "" "" [first, second]
  | .procedure name parameters body => renderProcedure name parameters body.render
  | .choice guard yes no =>
    "if " ++ guard.render ++ " \x7b " ++ yes.render ++ " \x7d else \x7b " ++ no.render ++ " \x7d"
  | .loop guard body => "while " ++ guard.render ++ " \x7b " ++ body.render ++ " \x7d"
  | .print value => "print " ++ value.render
  | .expression value => value.render
termination_by s => 2 * s.nodes
decreasing_by all_goals simp [Statement.nodes, pendingNodes] <;> omega

/-- Writes the pending statements behind a text, the first of them next.  The separator stands
before the first; a semicolon stands before every other.  The parts of a sequence become pending in
their turn. -/
def renderPending (text separator : String) : List Statement → String
  | [] => text
  | .sequence first second :: pending => renderPending text separator (first :: second :: pending)
  | s :: pending => renderPending (text ++ separator ++ s.render) "; " pending
termination_by pending => 2 * pendingNodes pending + 1
decreasing_by
  · simp only [Statement.nodes, pendingNodes]; omega
  · simp only [pendingNodes]; omega
  · have := s.nodes_pos
    simp only [pendingNodes]; omega

end

/-- The canonical text of the definition of a procedure. -/
def Procedure.render (p : Procedure) : String := renderProcedure p.name p.parameters p.body.render

end Imperative
