import Imperative.Proofs.Adequacy

/-! Programs without loops come to an end.  A call goes on with a body that the environment holds,
which may be larger than the call and may call its own name, so no measure of the evaluated tree
decreases.  But a body runs in a frame that binds numbers only: all that it can call it has defined
itself, and those bodies are parts of it.  A procedure is halting if its body comes to a conclusion
from every frame.  By induction on the tree, a statement without loops comes to a conclusion from
every environment of halting procedures, and the procedures it defines are halting too. -/

namespace Imperative

/-- Whether a statement has no loop in it, the bodies of its procedures included. -/
def Statement.isLoopFree : Statement → Bool
  | sequence first second => first.isLoopFree && second.isLoopFree
  | procedure _ _ body => body.isLoopFree
  | choice _ yes no => yes.isLoopFree && no.isLoopFree
  | loop _ _ => false
  | print _ => true
  | expression _ => true

/-! ### Environments by their procedures -/

/-- Every procedure that is bound has the property `P`. -/
def Environment.AllProcedures (P : Procedure → Prop) (env : Environment) : Prop :=
  ∀ name p, env.lookup name = some (.procedure p) → P p

namespace Environment.AllProcedures

variable {P Q : Procedure → Prop} {env : Environment}

theorem imp (h : env.AllProcedures P) (himp : ∀ p, P p → Q p) : env.AllProcedures Q :=
  fun name p hp => himp p (h name p hp)

theorem empty : Environment.empty.AllProcedures P := by
  intro name p h
  rw [lookup_empty] at h
  cases h

theorem bind_number (h : env.AllProcedures P) (name : String) (x : Number) :
    (env.bind name (.number x)).AllProcedures P := by
  intro other p hp
  rw [lookup_bind] at hp
  split at hp
  · cases hp
  · exact h other p hp

theorem bind_procedure (h : env.AllProcedures P) (name : String) {p : Procedure} (hp : P p) :
    (env.bind name (.procedure p)).AllProcedures P := by
  intro other q hq
  rw [lookup_bind] at hq
  split at hq
  · cases hq
    exact hp
  · exact h other q hq

/-- A frame binds no procedure. -/
theorem ofParameters (parameters : List (String × Number)) :
    (Environment.ofParameters parameters).AllProcedures P := by
  unfold Environment.ofParameters
  exact List.foldlRecOn parameters _ .empty fun env henv p _ => henv.bind_number p.1 p.2

end Environment.AllProcedures

/-! ### Halting -/

/-- The body comes to a conclusion whatever the arguments and the output before it are. -/
def Procedure.Halting (p : Procedure) : Prop :=
  ∀ xs out, ∃ r log, Executes p.body (.ofParameters (p.parameters.zip xs)) out r log

/-- A conclusion that leaves halting procedures only, if it leaves an environment. -/
def Conclusion.Halting {α : Type} : Conclusion α → Prop
  | value _ env _ => env.AllProcedures Procedure.Halting
  | fatal _ _ => True

mutual

/-- An expression comes to a conclusion where all procedures are halting. -/
theorem Expr.concludes {env : Environment} (henv : env.AllProcedures Procedure.Halting)
    (out : String) : (e : Expr) → ∃ r log, Evaluates e env out r log ∧ r.Halting
  | .literal x => ⟨_, _, .literal, henv⟩
  | .var name line => by
    cases h : env.lookup name with
    | none => exact ⟨_, _, .var_unbound h, trivial⟩
    | some b =>
      cases b with
      | number x => exact ⟨_, _, .var h, henv⟩
      | procedure p => exact ⟨_, _, .var_procedure h, trivial⟩
  | .binary op a b => by
    obtain ⟨r, l₁, ha, hr⟩ := a.concludes henv out
    cases r with
    | fatal error out₁ => exact ⟨_, _, .binary_left ha, trivial⟩
    | value x env₁ out₁ =>
      obtain ⟨r, l₂, hb, hr⟩ := b.concludes hr out₁
      cases r with
      | fatal error out₂ => exact ⟨_, _, .binary_right ha hb, trivial⟩
      | value y env₂ out₂ => exact ⟨_, _, .binary ha hb, hr⟩
  | .assign name e => by
    obtain ⟨r, l₁, he, hr⟩ := e.concludes henv out
    cases r with
    | fatal error out₁ => exact ⟨_, _, .assign_value he, trivial⟩
    | value x env₁ out₁ => exact ⟨_, _, .assign he, hr.bind_number name x⟩
  | .call name es line => by
    cases h : env.lookup name with
    | none => exact ⟨_, _, .call_unbound h, trivial⟩
    | some b =>
      cases b with
      | number x => exact ⟨_, _, .call_number h, trivial⟩
      | procedure p =>
        by_cases hlength : p.parameters.length = es.length
        · obtain ⟨r, l₁, hes, -⟩ := argumentsConclude henv out es
          cases r with
          | fatal error out₁ => exact ⟨_, _, .call_argument h hlength hes, trivial⟩
          | value xs env₁ out₁ =>
            -- The body is no part of the call, but the environment vouches for it.
            obtain ⟨r, l₂, hbody⟩ := henv name p h xs out₁
            cases r with
            | fatal error out₂ => exact ⟨_, _, .call_body h hlength hes hbody, trivial⟩
            | value x env₂ out₂ => exact ⟨_, _, .call h hlength hes hbody, henv⟩
        · exact ⟨_, _, .call_arity h hlength, trivial⟩

theorem argumentsConclude {env : Environment} (henv : env.AllProcedures Procedure.Halting)
    (out : String) : (es : List Expr) → ∃ r log, EvaluatesEach es env out r log ∧ r.Halting
  | [] => ⟨_, _, .nil, henv⟩
  | e :: es => by
    obtain ⟨r, l₁, he, hr⟩ := e.concludes henv out
    cases r with
    | fatal error out₁ => exact ⟨_, _, .head he, trivial⟩
    | value x env₁ out₁ =>
      obtain ⟨r, l₂, hes, hr⟩ := argumentsConclude hr out₁ es
      cases r with
      | fatal error out₂ => exact ⟨_, _, .tail he hes, trivial⟩
      | value xs env₂ out₂ => exact ⟨_, _, .cons he hes, hr⟩

end

/-- A statement without loops comes to a conclusion where all procedures are halting. -/
theorem Statement.concludes {s : Statement} (hs : s.isLoopFree = true) {env : Environment}
    (henv : env.AllProcedures Procedure.Halting) (out : String) :
    ∃ r log, Executes s env out r log ∧ r.Halting := by
  induction s generalizing env out with
  | sequence a b iha ihb =>
    obtain ⟨ha, hb⟩ := Bool.and_eq_true_iff.mp hs
    obtain ⟨r, l₁, hfirst, hr⟩ := iha ha henv out
    cases r with
    | fatal error out₁ => exact ⟨_, _, .sequence_first hfirst, trivial⟩
    | value x env₁ out₁ =>
      obtain ⟨r, l₂, hsecond, hr⟩ := ihb hb hr out₁
      exact ⟨r, _, .sequence hfirst hsecond, hr⟩
  | procedure name ps body ih =>
    -- The procedure is halting because its body is a smaller tree, run in a frame.
    have hbody : Procedure.Halting ⟨name, ps, body⟩ := by
      intro xs out
      obtain ⟨r, log, h, -⟩ := ih hs (.ofParameters (ps.zip xs)) out
      exact ⟨r, log, h⟩
    exact ⟨_, _, .procedure, henv.bind_procedure name hbody⟩
  | choice g yes no ihyes ihno =>
    obtain ⟨hyes, hno⟩ := Bool.and_eq_true_iff.mp hs
    obtain ⟨r, l₁, hg, hr⟩ := g.concludes henv out
    cases r with
    | fatal error out₁ => exact ⟨_, _, .choice_guard hg, trivial⟩
    | value x env₁ out₁ =>
      have hbranch : ∃ r log,
          Executes (if x.isZero then no else yes) env₁ out₁ r log ∧ r.Halting := by
        split
        · exact ihno hno hr out₁
        · exact ihyes hyes hr out₁
      obtain ⟨r, l₂, h, hr⟩ := hbranch
      exact ⟨r, _, .choice hg h, hr⟩
  | loop g body ih => cases hs
  | print e =>
    obtain ⟨r, l₁, he, hr⟩ := e.concludes henv out
    cases r with
    | fatal error out₁ => exact ⟨_, _, .print_value he, trivial⟩
    | value x env₁ out₁ => exact ⟨_, _, .print he, hr⟩
  | expression e =>
    obtain ⟨r, l₁, he, hr⟩ := e.concludes henv out
    exact ⟨r, l₁, .expression he, hr⟩

theorem Procedure.halting_of_isLoopFree {p : Procedure} (hp : p.body.isLoopFree = true) :
    p.Halting := by
  intro xs out
  obtain ⟨r, log, h, -⟩ :=
    Statement.concludes hp (.ofParameters (p.parameters.zip xs)) out
  exact ⟨r, log, h⟩

/-- A statement without loops, run where no procedure has a loop, settles on a value or an error,
whatever its procedures call. -/
theorem settles_of_isLoopFree {s : Statement} (hs : s.isLoopFree = true) {env : Environment}
    (henv : env.AllProcedures fun p => p.body.isLoopFree = true) (t : Transcript) :
    ∃ o, Settles (fun bound => s.execute bound ⟨env, t⟩) o ∧ o ≠ .unfinished := by
  have hhalting := henv.imp fun _ => Procedure.halting_of_isLoopFree
  obtain ⟨r, log, h, -⟩ := Statement.concludes hs hhalting t.output
  exact ⟨_, h.settles t.events (.conclusion r), r.outcome_ne_unfinished log⟩

/-- Procedures that call themselves, each other and one that they define under their own name. -/
theorem settles_calling_each_other :
    let call (name : String) : Expr := .call name [.var "n" 1] 1
    let f : Procedure := ⟨"f", ["n"], .sequence
      (.procedure "f" ["n"] (.expression (call "g"))) (.expression (call "f"))⟩
    let g : Procedure := ⟨"g", ["n"], .sequence (.print (call "f")) (.expression (call "g"))⟩
    let env := (Environment.empty.bind "f" (.procedure f)).bind "g" (.procedure g)
    let s : Statement := .sequence (.expression (.assign "n" (.literal .one)))
      (.choice (call "f") (.expression (call "g")) (.expression (call "f")))
    s.isLoopFree = true ∧ (env.AllProcedures fun p => p.body.isLoopFree = true) ∧
      ∃ o, Settles (fun bound => s.execute bound ⟨env, .empty⟩) o ∧ o ≠ .unfinished := by
  intro call f g env s
  have hs : s.isLoopFree = true := by decide
  have henv : env.AllProcedures fun p => p.body.isLoopFree = true :=
    (Environment.AllProcedures.empty.bind_procedure "f" (by decide)).bind_procedure "g" (by decide)
  exact ⟨hs, henv, settles_of_isLoopFree hs henv .empty⟩

end Imperative
