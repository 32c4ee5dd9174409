import Imperative.Evaluator

/-! The meaning of programs, by rules.  Each rule gives the conclusion of an expression or statement
from the conclusions of its parts, together with the events they log, and speaks neither of pending
statements nor of bounds.  An error in a part is the conclusion of the whole. -/

namespace Imperative

/-- How an evaluation ends: with a value, and the environment and the output after it, or with an
error, and the output before it. -/
inductive Conclusion (α : Type) where
  | value (x : α) (env : Environment) (out : String)
  | fatal (error : RuntimeError) (out : String)

-- In the rules, `env` and `out` are the environment and the output before, `env₁` and `out₁` those
-- after the first part, and so on; `l₁` is what the first part logs.
set_option autoImplicit true in
mutual

/-- The conclusion of an expression, and the events logged on the way. -/
inductive Evaluates : Expr → Environment → String → Conclusion Number → List Event → Prop
  | literal : Evaluates (.literal x) env out (.value x env out) []
  | var {env : Environment} : env.lookup name = some (.number x) →
      Evaluates (.var name line) env out (.value x env out) []
  | var_procedure {env : Environment} : env.lookup name = some (.procedure p) →
      Evaluates (.var name line) env out (.fatal ⟨.notANumber, name, line⟩ out) []
  | var_unbound {env : Environment} : env.lookup name = none →
      Evaluates (.var name line) env out (.fatal ⟨.unbound, name, line⟩ out) []
  | binary : Evaluates a env out (.value x env₁ out₁) l₁ →
      Evaluates b env₁ out₁ (.value y env₂ out₂) l₂ →
      Evaluates (.binary op a b) env out (.value (op.apply x y) env₂ out₂) (l₁ ++ l₂)
  | binary_left : Evaluates a env out (.fatal error out₁) l₁ →
      Evaluates (.binary op a b) env out (.fatal error out₁) l₁
  | binary_right : Evaluates a env out (.value x env₁ out₁) l₁ →
      Evaluates b env₁ out₁ (.fatal error out₂) l₂ →
      Evaluates (.binary op a b) env out (.fatal error out₂) (l₁ ++ l₂)
  | assign {env₁ : Environment} : Evaluates e env out (.value x env₁ out₁) l₁ →
      Evaluates (.assign name e) env out (.value x (env₁.bind name (.number x)) out₁) l₁
  | assign_value : Evaluates e env out (.fatal error out₁) l₁ →
      Evaluates (.assign name e) env out (.fatal error out₁) l₁
  | call_unbound {env : Environment} : env.lookup name = none →
      Evaluates (.call name es line) env out (.fatal ⟨.unbound, name, line⟩ out) []
  | call_number {env : Environment} : env.lookup name = some (.number x) →
      Evaluates (.call name es line) env out (.fatal ⟨.notAProcedure, name, line⟩ out) []
  | call_arity {env : Environment} {p : Procedure} {es : List Expr} :
      env.lookup name = some (.procedure p) → p.parameters.length ≠ es.length →
      Evaluates (.call name es line) env out
        (.fatal ⟨.arityMismatch p.parameters.length es.length, name, line⟩ out) []
  | call_argument {env : Environment} {p : Procedure} {es : List Expr} :
      env.lookup name = some (.procedure p) → p.parameters.length = es.length →
      EvaluatesEach es env out (.fatal error out₁) l₁ →
      Evaluates (.call name es line) env out (.fatal error out₁) l₁
  /-- The body sees its parameters only, and the caller's environment comes back as it was before
  the arguments. -/
  | call {env : Environment} {p : Procedure} {es : List Expr} :
      env.lookup name = some (.procedure p) → p.parameters.length = es.length →
      EvaluatesEach es env out (.value xs env₁ out₁) l₁ →
      Executes p.body (.ofParameters (p.parameters.zip xs)) out₁ (.value x env₂ out₂) l₂ →
      Evaluates (.call name es line) env out (.value x env out₂)
        (l₁ ++ .called line name es.length :: l₂)
  | call_body {env : Environment} {p : Procedure} {es : List Expr} :
      env.lookup name = some (.procedure p) → p.parameters.length = es.length →
      EvaluatesEach es env out (.value xs env₁ out₁) l₁ →
      Executes p.body (.ofParameters (p.parameters.zip xs)) out₁ (.fatal error out₂) l₂ →
      Evaluates (.call name es line) env out (.fatal error out₂)
        (l₁ ++ .called line name es.length :: l₂)

/-- The conclusion of expressions, each evaluated from the state that the one before it left. -/
inductive EvaluatesEach :
    List Expr → Environment → String → Conclusion (List Number) → List Event → Prop
  | nil : EvaluatesEach [] env out (.value [] env out) []
  | cons : Evaluates e env out (.value x env₁ out₁) l₁ →
      EvaluatesEach es env₁ out₁ (.value xs env₂ out₂) l₂ →
      EvaluatesEach (e :: es) env out (.value (x :: xs) env₂ out₂) (l₁ ++ l₂)
  | head : Evaluates e env out (.fatal error out₁) l₁ →
      EvaluatesEach (e :: es) env out (.fatal error out₁) l₁
  | tail : Evaluates e env out (.value x env₁ out₁) l₁ →
      EvaluatesEach es env₁ out₁ (.fatal error out₂) l₂ →
      EvaluatesEach (e :: es) env out (.fatal error out₂) (l₁ ++ l₂)

/-- The conclusion of a statement, and the events logged on the way. -/
inductive Executes : Statement → Environment → String → Conclusion Number → List Event → Prop
  | sequence : Executes a env out (.value x env₁ out₁) l₁ → Executes b env₁ out₁ r l₂ →
      Executes (.sequence a b) env out r (l₁ ++ l₂)
  | sequence_first : Executes a env out (.fatal error out₁) l₁ →
      Executes (.sequence a b) env out (.fatal error out₁) l₁
  | procedure {env : Environment} : Executes (.procedure name parameters body) env out
      (.value .one (env.bind name (.procedure ⟨name, parameters, body⟩)) out) []
  | choice {x : Number} : Evaluates g env out (.value x env₁ out₁) l₁ →
      Executes (if x.isZero then no else yes) env₁ out₁ r l₂ →
      Executes (.choice g yes no) env out r (l₁ ++ l₂)
  | choice_guard : Evaluates g env out (.fatal error out₁) l₁ →
      Executes (.choice g yes no) env out (.fatal error out₁) l₁
  | loop : Iterates g body 0 env out r l₁ → Executes (.loop g body) env out r l₁
  | print {x : Number} : Evaluates e env out (.value x env₁ out₁) l₁ →
      Executes (.print e) env out (.value .zero env₁ (out₁ ++ x.printed ++ "\n")) l₁
  | print_value : Evaluates e env out (.fatal error out₁) l₁ →
      Executes (.print e) env out (.fatal error out₁) l₁
  | expression : Evaluates e env out r l₁ → Executes (.expression e) env out r l₁

/-- The conclusion of a loop whose body has run so many times before. -/
inductive Iterates :
    Expr → Statement → UInt64 → Environment → String → Conclusion Number → List Event → Prop
  /-- The environment is that from before the last guard, the output that from behind it. -/
  | stop {x : Number} : Evaluates g env out (.value x env₁ out₁) l₁ → x.isZero = true →
      Iterates g body iterations env out (.value .zero env out₁)
        (l₁ ++ [.loopFinished iterations])
  | again {x : Number} : Evaluates g env out (.value x env₁ out₁) l₁ → x.isZero = false →
      Executes body env₁ out₁ (.value y env₂ out₂) l₂ →
      Iterates g body (iterations + 1) env₂ out₂ r l₃ →
      Iterates g body iterations env out r (l₁ ++ (l₂ ++ l₃))
  | guard : Evaluates g env out (.fatal error out₁) l₁ →
      Iterates g body iterations env out (.fatal error out₁) l₁
  | body {x : Number} : Evaluates g env out (.value x env₁ out₁) l₁ → x.isZero = false →
      Executes body env₁ out₁ (.fatal error out₂) l₂ →
      Iterates g body iterations env out (.fatal error out₂) (l₁ ++ l₂)

end

end Imperative
