import Imperative.Tree

/-! Agreement of trees up to a comparison of their literals.  With the identity of numbers it
decides the equality of trees.  With numeric equality it is the agreement of programs: coarser than
equality on the two zeros, and false of every tree that holds a NaN. -/

namespace Imperative

mutual

/-- Whether two expressions have the same shape, names and lines, and matching literals. -/
def Expr.agreesBy (same : Number → Number → Bool) : Expr → Expr → Bool
  | .literal x, .literal y => same x y
  | .var n l, .var m k => n == m && l == k
  | .binary op a b, .binary oq c d => op == oq && a.agreesBy same c && b.agreesBy same d
  | .assign n e, .assign m f => n == m && e.agreesBy same f
  | .call n es l, .call m fs k => n == m && argumentsAgreeBy same es fs && l == k
  | _, _ => false

/-- Whether two lists of arguments agree, one by one. -/
def argumentsAgreeBy (same : Number → Number → Bool) : List Expr → List Expr → Bool
  | [], [] => true
  | e :: es, f :: fs => e.agreesBy same f && argumentsAgreeBy same es fs
  | _, _ => false

end

/-- Whether two statements have the same shape, names and lines, and matching literals. -/
def Statement.agreesBy (same : Number → Number → Bool) : Statement → Statement → Bool
  | .sequence a b, .sequence c d => a.agreesBy same c && b.agreesBy same d
  | .procedure n ps a, .procedure m qs b => n == m && ps == qs && a.agreesBy same b
  | .choice g a b, .choice h c d => g.agreesBy same h && a.agreesBy same c && b.agreesBy same d
  | .loop g a, .loop h b => g.agreesBy same h && a.agreesBy same b
  | .print e, .print f => e.agreesBy same f
  | .expression e, .expression f => e.agreesBy same f
  | _, _ => false

/-- Whether two statements agree, their literals as numbers. -/
def Statement.agrees (a b : Statement) : Bool := a.agreesBy Number.equals b

/-- Whether two procedures agree in name, parameters and body. -/
def Procedure.agrees (p q : Procedure) : Bool :=
  p.name == q.name && p.parameters == q.parameters && p.body.agrees q.body

mutual

theorem Expr.agreesBy_beq_iff (a b : Expr) : a.agreesBy (· == ·) b = true ↔ a = b := by
  cases a <;> cases b <;> simp [Expr.agreesBy]
  case binary.binary op a b oq c d =>
    rw [Expr.agreesBy_beq_iff a c, Expr.agreesBy_beq_iff b d, and_assoc]
  case assign.assign n e m f =>
    rw [Expr.agreesBy_beq_iff e f]; simp
  case call.call n es l m fs k =>
    rw [argumentsAgreeBy_beq_iff es fs, and_assoc]

theorem argumentsAgreeBy_beq_iff (es fs : List Expr) :
    argumentsAgreeBy (· == ·) es fs = true ↔ es = fs := by
  cases es <;> cases fs <;> simp [argumentsAgreeBy]
  case cons.cons e es f fs =>
    rw [Expr.agreesBy_beq_iff e f, argumentsAgreeBy_beq_iff es fs]

end

theorem Statement.agreesBy_beq_iff (a b : Statement) : a.agreesBy (· == ·) b = true ↔ a = b := by
  induction a generalizing b <;> cases b <;>
    simp_all [Statement.agreesBy, Expr.agreesBy_beq_iff, and_assoc]

instance : DecidableEq Expr := fun a b => decidable_of_iff _ (Expr.agreesBy_beq_iff a b)

instance : DecidableEq Statement := fun a b => decidable_of_iff _ (Statement.agreesBy_beq_iff a b)

instance : DecidableEq Procedure := fun p q =>
  decidable_of_iff (p.name = q.name ∧ p.parameters = q.parameters ∧ p.body = q.body)
    (by cases p; cases q; simp)

end Imperative
