import Imperative.Program
import Imperative.Proofs.Grammar

/-! Errors of a run point into the source.  All that a run evaluates is text of the program, also
inside a procedure that it fetches from an environment several frames down: a procedure that is
bound is a definition of the program, and a number is bound by an assignment or to a parameter.  So
an error tells of a node of the program, and the parser gave that node the line of its word. -/

namespace Imperative

/-! ### Nodes -/

mutual

/-- An expression and all expressions inside it. -/
def Expr.parts : Expr → List Expr
  | .literal x => [.literal x]
  | .var name line => [.var name line]
  | .binary op left right => .binary op left right :: (left.parts ++ right.parts)
  | .assign name value => .assign name value :: value.parts
  | .call name arguments line => .call name arguments line :: argumentParts arguments

def argumentParts : List Expr → List Expr
  | [] => []
  | e :: es => e.parts ++ argumentParts es

end

namespace Statement

/-- All expressions inside a statement, those in the bodies of its procedures included. -/
def expressions : Statement → List Expr
  | sequence first second => first.expressions ++ second.expressions
  | procedure _ _ body => body.expressions
  | choice guard yes no => guard.parts ++ (yes.expressions ++ no.expressions)
  | loop guard body => guard.parts ++ body.expressions
  | print value => value.parts
  | expression value => value.parts

/-- All procedures that a statement defines, those inside the bodies of others included. -/
def procedures : Statement → List Procedure
  | sequence first second => first.procedures ++ second.procedures
  | procedure name parameters body => ⟨name, parameters, body⟩ :: body.procedures
  | choice _ yes no => yes.procedures ++ no.procedures
  | loop _ body => body.procedures
  | print _ => []
  | expression _ => []

/-- All nodes of `s` are nodes of `program`. -/
structure Inside (s program : Statement) : Prop where
  expressions : s.expressions ⊆ program.expressions
  procedures : s.procedures ⊆ program.procedures

theorem Inside.refl (s : Statement) : s.Inside s := ⟨List.Subset.refl _, List.Subset.refl _⟩

theorem Inside.trans {s t u : Statement} (h : s.Inside t) (h' : t.Inside u) : s.Inside u :=
  ⟨List.Subset.trans h.expressions h'.expressions, List.Subset.trans h.procedures h'.procedures⟩

/-- The body of a procedure is inside the statement that defines it. -/
theorem inside_of_mem_procedures {s : Statement} {p : Procedure} (h : p ∈ s.procedures) :
    p.body.Inside s := by
  induction s with
  | sequence a b iha ihb =>
    rcases List.mem_append.mp h with h | h
    · apply (iha h).trans
      constructor <;> simp [expressions, procedures]
    · apply (ihb h).trans
      constructor <;> simp [expressions, procedures]
  | procedure name ps body ih =>
    rcases List.mem_cons.mp h with rfl | h
    · constructor <;> simp [expressions, procedures]
    · apply (ih h).trans
      constructor <;> simp [expressions, procedures]
  | choice g yes no ihyes ihno =>
    rcases List.mem_append.mp h with h | h
    · apply (ihyes h).trans
      constructor <;> intro x hx <;> simp [expressions, procedures, hx]
    · apply (ihno h).trans
      constructor <;> intro x hx <;> simp [expressions, procedures, hx]
  | loop g body ih =>
    apply (ih h).trans
    constructor <;> simp [expressions, procedures]
  | print e => cases h
  | expression e => cases h

end Statement

/-! ### What the program accounts for -/

section Program

variable (program : Statement)

/-- The program assigns to the name, or has a procedure with a parameter of this name. -/
def BindsNumber (name : String) : Prop :=
  (∃ value, .assign name value ∈ program.expressions) ∨
    ∃ p ∈ program.procedures, name ∈ p.parameters

/-- The program has bound the name so. -/
def Accounts (name : String) : Binding → Prop
  | .number _ => BindsNumber program name
  | .procedure p => p ∈ program.procedures ∧ p.name = name

def Environment.AccountedBy (env : Environment) : Prop :=
  ∀ name b, env.lookup name = some b → Accounts program name b

/-- A node of the program explains the error: a variable or a call of its name in its line, and
where the name is bound to the wrong thing, the definition or the assignment that bound it. -/
def RuntimeError.ExplainedBy (error : RuntimeError) : Prop :=
  match error.cause with
  | .unbound => .var error.name error.line ∈ program.expressions ∨
      ∃ es, .call error.name es error.line ∈ program.expressions
  | .notANumber => .var error.name error.line ∈ program.expressions ∧
      ∃ p ∈ program.procedures, p.name = error.name
  | .notAProcedure => (∃ es, .call error.name es error.line ∈ program.expressions) ∧
      BindsNumber program error.name
  | .arityMismatch expected found => expected ≠ found ∧
      (∃ es, .call error.name es error.line ∈ program.expressions ∧ es.length = found) ∧
      ∃ p ∈ program.procedures, p.name = error.name ∧ p.parameters.length = expected

end Program

variable {program : Statement}

namespace Environment.AccountedBy

theorem empty : Environment.empty.AccountedBy program := by
  intro name b h
  rw [lookup_empty] at h
  cases h

theorem bind {env : Environment} (h : env.AccountedBy program) {name : String} {b : Binding}
    (hb : Accounts program name b) : (env.bind name b).AccountedBy program := by
  intro other c hc
  rw [lookup_bind] at hc
  split at hc
  · next heq =>
    cases hc
    rwa [← heq]
  · exact h other c hc

/-- A frame binds parameters only. -/
theorem ofParameters {p : Procedure} (hp : p ∈ program.procedures) (xs : List Number) :
    (Environment.ofParameters (p.parameters.zip xs)).AccountedBy program := by
  apply List.foldlRecOn (p.parameters.zip xs) _ empty
  intro env henv pair hpair
  exact henv.bind (.inr ⟨p, hp, (List.of_mem_zip hpair).1⟩)

end Environment.AccountedBy

/-! ### Runs -/

/-- What is left is fit, or the error is, unless the bound was too small. -/
def Outcome.Ensures {α : Type} (fit : Environment → Prop) (explained : RuntimeError → Prop) :
    Outcome α → Prop
  | finished _ s => fit s.environment
  | failed e _ => explained e
  | unfinished => True

theorem Outcome.Ensures.andThen {α β : Type} {fit fit' : Environment → Prop}
    {explained : RuntimeError → Prop} {o : Outcome α} {next : α → State → Outcome β}
    (h : o.Ensures fit explained)
    (hnext : ∀ x s, fit s.environment → (next x s).Ensures fit' explained) :
    (o.andThen next).Ensures fit' explained := by
  cases o with
  | finished x s => exact hnext x s h
  | failed e t => exact h
  | unfinished => trivial

/-- The program accounts for the environment that is left, or explains the error. -/
abbrev Outcome.Traced {α : Type} (program : Statement) (o : Outcome α) : Prop :=
  o.Ensures (·.AccountedBy program) (·.ExplainedBy program)

/-- Within this bound, what is evaluated inside the program is traced to it. -/
structure TracedWithin (program : Statement) (n : Nat) : Prop where
  evaluate : ∀ (e : Expr) (s : State), e.parts ⊆ program.expressions →
    s.environment.AccountedBy program → (e.evaluate n s).Traced program
  arguments : ∀ (es : List Expr) (s : State), argumentParts es ⊆ program.expressions →
    s.environment.AccountedBy program → (evaluateArguments n es s).Traced program
  pending : ∀ (ps : List Statement) (v : Number) (s : State), (∀ p ∈ ps, p.Inside program) →
    s.environment.AccountedBy program → (executePending n ps v s).Traced program
  loop : ∀ (g : Expr) (b : Statement) (i : UInt64) (s : State), g.parts ⊆ program.expressions →
    b.Inside program → s.environment.AccountedBy program → (executeLoop n g b i s).Traced program

section Step

variable {n : Nat} (ih : TracedWithin program n)

include ih

theorem call_traced {name : String} {es : List Expr} {line : Nat} {s : State}
    (hnode : .call name es line ∈ program.expressions)
    (hes : argumentParts es ⊆ program.expressions) (hs : s.environment.AccountedBy program) :
    (Expr.evaluate (n + 1) (.call name es line) s).Traced program := by
  obtain ⟨env, t⟩ := s
  rw [Expr.evaluate]
  split
  · exact .inr ⟨es, hnode⟩
  · next x hx => exact ⟨⟨es, hnode⟩, hs name _ hx⟩
  · next p hp =>
    obtain ⟨hmem, hname⟩ := hs name _ hp
    split
    · apply (ih.arguments es ⟨env, t⟩ hes hs).andThen
      intro xs s₁ _
      -- The body is text of the program, wherever the procedure was defined.
      have hbody : ∀ q ∈ [p.body], q.Inside program := by
        simpa using Statement.inside_of_mem_procedures hmem
      apply (ih.pending [p.body] .zero _ hbody (.ofParameters hmem xs)).andThen
      exact fun _ _ _ => hs
    · next hlength => exact ⟨hlength, ⟨es, hnode, rfl⟩, p, hmem, hname, rfl⟩

theorem evaluate_traced {e : Expr} {s : State} (he : e.parts ⊆ program.expressions)
    (hs : s.environment.AccountedBy program) : (e.evaluate (n + 1) s).Traced program := by
  cases e with
  | literal x => exact hs
  | var name line =>
    have hnode : .var name line ∈ program.expressions := he List.mem_cons_self
    rw [Expr.evaluate]
    split
    · exact hs
    · next p hp =>
      obtain ⟨hmem, hname⟩ := hs name _ hp
      exact ⟨hnode, p, hmem, hname⟩
    · exact .inl hnode
  | binary op a b =>
    have hparts := (List.append_subset.mp (List.cons_subset.mp he).2)
    apply (ih.evaluate a s hparts.1 hs).andThen
    intro x s₁ hs₁
    exact (ih.evaluate b s₁ hparts.2 hs₁).andThen fun _ _ hs₂ => hs₂
  | assign name e =>
    obtain ⟨hnode, hvalue⟩ := List.cons_subset.mp he
    apply (ih.evaluate e s hvalue hs).andThen
    intro x s₁ hs₁
    exact hs₁.bind (.inl ⟨e, hnode⟩)
  | call name es line =>
    obtain ⟨hnode, hes⟩ := List.cons_subset.mp he
    exact call_traced ih hnode hes hs

theorem pending_traced {ps : List Statement} {v : Number} {s : State}
    (hps : ∀ p ∈ ps, p.Inside program) (hs : s.environment.AccountedBy program) :
    (executePending (n + 1) ps v s).Traced program := by
  cases ps with
  | nil => exact hs
  | cons p ps =>
    obtain ⟨hp, hrest⟩ := List.forall_mem_cons.mp hps
    cases p with
    | sequence a b =>
      obtain ⟨ha, hb⟩ := List.append_subset.mp hp.expressions
      obtain ⟨ha', hb'⟩ := List.append_subset.mp hp.procedures
      apply ih.pending _ _ s _ hs
      exact List.forall_mem_cons.mpr ⟨⟨ha, ha'⟩, List.forall_mem_cons.mpr ⟨⟨hb, hb'⟩, hrest⟩⟩
    | procedure name ps body =>
      exact ih.pending _ _ _ hrest (hs.bind ⟨hp.procedures List.mem_cons_self, rfl⟩)
    | choice g yes no =>
      obtain ⟨hg, hbranches⟩ := List.append_subset.mp hp.expressions
      obtain ⟨hyes, hno⟩ := List.append_subset.mp hbranches
      obtain ⟨hyes', hno'⟩ := List.append_subset.mp hp.procedures
      apply (ih.evaluate g s hg hs).andThen
      intro x s₁ hs₁
      refine ih.pending _ _ s₁ (List.forall_mem_cons.mpr ⟨?_, hrest⟩) hs₁
      split
      · exact ⟨hno, hno'⟩
      · exact ⟨hyes, hyes'⟩
    | loop g b =>
      obtain ⟨hg, hb⟩ := List.append_subset.mp hp.expressions
      apply (ih.loop g b 0 s hg ⟨hb, hp.procedures⟩ hs).andThen
      exact fun x s₁ hs₁ => ih.pending _ _ s₁ hrest hs₁
    | print e =>
      apply (ih.evaluate e s hp.expressions hs).andThen
      exact fun x s₁ hs₁ => ih.pending _ _ (s₁.print x) hrest hs₁
    | expression e =>
      apply (ih.evaluate e s hp.expressions hs).andThen
      exact fun x s₁ hs₁ => ih.pending _ _ s₁ hrest hs₁

theorem loop_traced {g : Expr} {b : Statement} {i : UInt64} {s : State}
    (hg : g.parts ⊆ program.expressions) (hb : b.Inside program)
    (hs : s.environment.AccountedBy program) :
    (executeLoop (n + 1) g b i s).Traced program := by
  apply (ih.evaluate g s hg hs).andThen
  intro x s₁ hs₁
  split
  · exact hs
  · have hbody : ∀ p ∈ [b], p.Inside program := by simpa using hb
    apply (ih.pending [b] .zero s₁ hbody hs₁).andThen
    exact fun _ s₂ hs₂ => ih.loop g b (i + 1) s₂ hg hb hs₂

end Step

theorem tracedWithin (program : Statement) (n : Nat) : TracedWithin program n := by
  induction n with
  | zero => exact ⟨fun _ _ _ _ => trivial, fun _ _ _ _ => trivial, fun _ _ _ _ _ => trivial,
      fun _ _ _ _ _ _ _ => trivial⟩
  | succ n ih =>
    refine ⟨fun _ _ => evaluate_traced ih, fun es s hes hs => ?_, fun _ _ _ => pending_traced ih,
      fun _ _ _ _ => loop_traced ih⟩
    cases es with
    | nil => exact hs
    | cons e es =>
      obtain ⟨he, hes⟩ := List.append_subset.mp hes
      apply (ih.evaluate e s he hs).andThen
      intro x s₁ hs₁
      exact (ih.arguments es s₁ hes hs₁).andThen fun _ _ hs₂ => hs₂

/-- The program explains the error of its run. -/
theorem explainedBy_of_run {n : Nat} {error : RuntimeError} {t : Transcript}
    (h : program.run n = .failed error t) : error.ExplainedBy program := by
  have hprogram : ∀ p ∈ [program], p.Inside program := by simpa using Statement.Inside.refl program
  have htraced := (tracedWithin program n).pending [program] .zero .initial hprogram .empty
  rw [show executePending n [program] .zero .initial = .failed error t from h] at htraced
  exact htraced

/-! ### Words -/

/-- The word stands in the line. -/
def WordAt (ts : List Lexeme) (name : String) (line : Nat) : Prop :=
  ∃ l ∈ ts, l.token = .word name ∧ l.position.line = line

/-- The name of a variable or a call stands in its line. -/
def Located (ts : List Lexeme) : Expr → Prop
  | .var name line => WordAt ts name line
  | .call name _ line => WordAt ts name line
  | _ => True

theorem Located.mono {ts us : List Lexeme} (hsub : ts ⊆ us) {es : List Expr}
    (h : ∀ e ∈ es, Located ts e) : ∀ e ∈ es, Located us e := by
  intro e he
  have hlocated := h e he
  cases e with
  | literal _ | binary _ _ _ | assign _ _ => trivial
  | var name line | call name _ line =>
    obtain ⟨l, hl, hat⟩ := hlocated
    exact ⟨l, hsub hl, hat⟩

theorem Located.append {ts us : List Lexeme} {l : Lexeme} {es fs : List Expr}
    (h : ∀ e ∈ es, Located ts e) (h' : ∀ e ∈ fs, Located us e) :
    ∀ e ∈ es ++ fs, Located (ts ++ l :: us) e := by
  refine List.forall_mem_append.mpr ⟨?_, ?_⟩
  · exact mono (by simp) h
  · exact mono (fun x hx => by simp [hx]) h'

namespace Grammar

mutual

theorem Condition.located {ts : List Lexeme} {e : Expr} :
    Condition ts e → ∀ x ∈ e.parts, Located ts x
  | .sum h => h.located
  | .comparison _ ha hb => List.forall_mem_cons.mpr ⟨trivial, .append ha.located hb.located⟩

theorem Sum.located {ts : List Lexeme} {e : Expr} : Sum ts e → ∀ x ∈ e.parts, Located ts x
  | .product h => h.located
  | .more _ ha hb => List.forall_mem_cons.mpr ⟨trivial, .append ha.located hb.located⟩

theorem Product.located {ts : List Lexeme} {e : Expr} : Product ts e → ∀ x ∈ e.parts, Located ts x
  | .power h => h.located
  | .more _ ha hb => List.forall_mem_cons.mpr ⟨trivial, .append ha.located hb.located⟩

theorem Power.located {ts : List Lexeme} {e : Expr} : Power ts e → ∀ x ∈ e.parts, Located ts x
  | .atom h => h.located
  | .more ha hb => List.forall_mem_cons.mpr ⟨trivial, .append ha.located hb.located⟩

theorem Atom.located {ts : List Lexeme} {e : Expr} : Atom ts e → ∀ x ∈ e.parts, Located ts x
  | .group h => .mono (fun l hl => by simp [hl]) h.located
  | .assign _ h =>
    List.forall_mem_cons.mpr ⟨trivial, .mono (fun l hl => by simp [hl]) h.located⟩
  | .call _ h => List.forall_mem_cons.mpr
      ⟨⟨_, List.mem_cons_self, rfl, rfl⟩, .mono (fun l hl => by simp [hl]) h.located⟩
  | .var _ => List.forall_mem_singleton.mpr ⟨_, List.mem_cons_self, rfl, rfl⟩
  | .number _ _ => List.forall_mem_singleton.mpr trivial

theorem Arguments.located {ts : List Lexeme} {es : List Expr} :
    Arguments ts es → ∀ x ∈ argumentParts es, Located ts x
  | .none => fun _ hx => nomatch hx
  | .some h => h.located

theorem ArgumentList.located {ts : List Lexeme} {es : List Expr} :
    ArgumentList ts es → ∀ x ∈ argumentParts es, Located ts x
  | .last h => List.forall_mem_append.mpr ⟨h.located, fun _ hx => nomatch hx⟩
  | .more h hes => .append h.located hes.located

end

mutual

/-- Every name of the tree of a derivation stands in its line. -/
theorem Program.located {ts : List Lexeme} {s : Statement} :
    Program ts s → ∀ x ∈ s.expressions, Located ts x
  | .statement h => h.located
  | .more ha hb => .append ha.located hb.located

theorem Stmt.located {ts : List Lexeme} {s : Statement} :
    Stmt ts s → ∀ x ∈ s.expressions, Located ts x
  | .procedure _ _ hbody => .mono (fun l hl => by simp [hl]) hbody.located
  | .choice hguard hyes hno => List.forall_mem_append.mpr
      ⟨.mono (fun l hl => by simp [hl]) hguard.located, List.forall_mem_append.mpr
        ⟨.mono (fun l hl => by simp [hl]) hyes.located,
          .mono (fun l hl => by simp [hl]) hno.located⟩⟩
  | .loop hguard hbody => List.forall_mem_append.mpr
      ⟨.mono (fun l hl => by simp [hl]) hguard.located,
        .mono (fun l hl => by simp [hl]) hbody.located⟩
  | .print h => .mono (fun l hl => by simp [hl]) h.located
  | .expression h => h.located

theorem Block.located {ts : List Lexeme} {s : Statement} :
    Block ts s → ∀ x ∈ s.expressions, Located ts x
  | .braces h => .mono (fun l hl => by simp [hl]) h.located

end

end Grammar

theorem RuntimeError.ExplainedBy.wordAt {error : RuntimeError} {ts : List Lexeme}
    (h : error.ExplainedBy program) (hlocated : ∀ e ∈ program.expressions, Located ts e) :
    WordAt ts error.name error.line := by
  obtain ⟨cause, name, line⟩ := error
  cases cause with
  | unbound =>
    rcases h with h | ⟨_, h⟩
    · exact hlocated _ h
    · exact hlocated _ h
  | notANumber => exact hlocated _ h.1
  | notAProcedure =>
    obtain ⟨⟨_, hnode⟩, -⟩ := h
    exact hlocated _ hnode
  | arityMismatch expected found =>
    obtain ⟨-, ⟨_, hnode, -⟩, -⟩ := h
    exact hlocated _ hnode

theorem run_eq_aborted {bound : Nat} {source : String} {error : RuntimeError} {output : String}
    (h : run bound source = .aborted error output) :
    ∃ p t, parse source = .ok p ∧ p.run bound = .failed error t := by
  rw [run_eq] at h
  split at h
  · cases h
  · next p hparse =>
    refine ⟨p, ?_⟩
    cases hrun : p.run bound with
    | finished x s => simp [hrun, Outcome.ending] at h
    | unfinished => simp [hrun, Outcome.ending] at h
    | failed e t =>
      simp only [hrun, Outcome.ending, Ending.aborted.injEq] at h
      exact ⟨t, hparse, by rw [h.1]⟩

/-- The error of a run names a word that stands in its line of the source, and a node of the program
with this name and line explains it. -/
theorem aborted_run_explained {bound : Nat} {source : String} {error : RuntimeError}
    {output : String} (h : run bound source = .aborted error output) :
    WordAt (tokenize source) error.name error.line ∧
      ∃ p, parse source = .ok p ∧ error.ExplainedBy p := by
  obtain ⟨p, t, hparse, hrun⟩ := run_eq_aborted h
  have hexplained := explainedBy_of_run hrun
  have hderived := Grammar.program_of_parseLexemes hparse
  exact ⟨hexplained.wordAt hderived.located, p, hparse, hexplained⟩

/-- One run for each cause, all of them inside procedures: a variable that the body does not see, a
procedure in place of a number, a call of a parameter, and a call in a loop with an argument too
few. -/
theorem aborted_runs_explained :
    let runs : List (String × RuntimeError) := [
      ("b := 1;\nproc f(a) \x7b a +\n b \x7d; print f(2)", ⟨.unbound, "b", 3⟩),
      ("proc f() \x7b proc g() \x7b 1 \x7d;\n\n print g \x7d; f()", ⟨.notANumber, "g", 3⟩),
      ("proc f(g) \x7b proc h() \x7b 0 \x7d;\n g(h()) \x7d; f(3)", ⟨.notAProcedure, "g", 2⟩),
      ("proc f(a) \x7b\n proc g(b, c) \x7b b \x7d;\n while a \x7b a := g(a) \x7d \x7d; f(1)",
        ⟨.arityMismatch 2 1, "g", 3⟩)]
    ∀ r ∈ runs, run 50 r.1 = .aborted r.2 "" ∧ WordAt (tokenize r.1) r.2.name r.2.line ∧
      ∃ p, parse r.1 = .ok p ∧ r.2.ExplainedBy p := by
  intro runs
  have hruns : ∀ r ∈ runs, run 50 r.1 = .aborted r.2 "" := by decide +kernel
  exact fun r hr => ⟨hruns r hr, aborted_run_explained (hruns r hr)⟩

end Imperative
