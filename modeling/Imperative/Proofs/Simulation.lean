import Imperative.Program
import Imperative.Proofs.Bounds
import Imperative.Proofs.RoundTrip

/-! Programs that differ only in the lines of their names and in how their sequences are nested run
alike.  Lines are related by `R`, and chains of statements are compared one by one, so that nesting
does not count; procedures in environments are compared the same way.  Both programs then finish
with alike states, or fail with the same error up to related lines, or neither comes to an end.  So
a program that is written and read again runs as before. -/

namespace Imperative

/-! ### Alike programs -/

section Programs

variable (R : Nat → Nat → Prop)

mutual

/-- Expressions that differ in lines only. -/
inductive ExprAlike : Expr → Expr → Prop
  | literal {x : Number} : ExprAlike (.literal x) (.literal x)
  | var {name : String} {line line' : Nat} : R line line' →
      ExprAlike (.var name line) (.var name line')
  | binary {op : Operator} {a b a' b' : Expr} : ExprAlike a a' → ExprAlike b b' →
      ExprAlike (.binary op a b) (.binary op a' b')
  | assign {name : String} {e e' : Expr} : ExprAlike e e' →
      ExprAlike (.assign name e) (.assign name e')
  | call {name : String} {es es' : List Expr} {line line' : Nat} : R line line' →
      ArgumentsAlike es es' → ExprAlike (.call name es line) (.call name es' line')

/-- Arguments that differ in lines only. -/
inductive ArgumentsAlike : List Expr → List Expr → Prop
  | nil : ArgumentsAlike [] []
  | cons {e e' : Expr} {es es' : List Expr} : ExprAlike e e' → ArgumentsAlike es es' →
      ArgumentsAlike (e :: es) (e' :: es')

end

/-- Chains of statements that differ in lines only, and inside blocks and procedures also in how
sequences are nested. -/
inductive ChainAlike : List Statement → List Statement → Prop
  | nil : ChainAlike [] []
  | procedure {name : String} {ps : List String} {body body' : Statement}
      {ss ts : List Statement} : ChainAlike body.chain body'.chain → ChainAlike ss ts →
      ChainAlike (.procedure name ps body :: ss) (.procedure name ps body' :: ts)
  | choice {g g' : Expr} {yes yes' no no' : Statement} {ss ts : List Statement} :
      ExprAlike R g g' → ChainAlike yes.chain yes'.chain → ChainAlike no.chain no'.chain →
      ChainAlike ss ts → ChainAlike (.choice g yes no :: ss) (.choice g' yes' no' :: ts)
  | loop {g g' : Expr} {body body' : Statement} {ss ts : List Statement} : ExprAlike R g g' →
      ChainAlike body.chain body'.chain → ChainAlike ss ts →
      ChainAlike (.loop g body :: ss) (.loop g' body' :: ts)
  | print {e e' : Expr} {ss ts : List Statement} : ExprAlike R e e' → ChainAlike ss ts →
      ChainAlike (.print e :: ss) (.print e' :: ts)
  | expression {e e' : Expr} {ss ts : List Statement} : ExprAlike R e e' → ChainAlike ss ts →
      ChainAlike (.expression e :: ss) (.expression e' :: ts)

/-- Bindings to the same number, or to procedures with alike bodies. -/
inductive BindingAlike : Binding → Binding → Prop
  | number {x : Number} : BindingAlike (.number x) (.number x)
  | procedure {name : String} {ps : List String} {body body' : Statement} :
      ChainAlike R body.chain body'.chain →
      BindingAlike (.procedure ⟨name, ps, body⟩) (.procedure ⟨name, ps, body'⟩)

/-- Environments that bind the same names alike. -/
def EnvironmentAlike (env env' : Environment) : Prop :=
  ∀ name, Option.Rel (BindingAlike R) (env.lookup name) (env'.lookup name)

/-- States with alike environments and the same output. -/
structure StateAlike (s s' : State) : Prop where
  environment : EnvironmentAlike R s.environment s'.environment
  output : s'.transcript.output = s.transcript.output

/-- The same value in alike states, or the same error up to its line after the same output. -/
inductive OutcomeAlike {α : Type} : Outcome α → Outcome α → Prop
  | finished {x : α} {s s' : State} : StateAlike R s s' →
      OutcomeAlike (.finished x s) (.finished x s')
  | failed {cause : Cause} {name : String} {line line' : Nat} {t t' : Transcript} :
      R line line' → t'.output = t.output →
      OutcomeAlike (.failed ⟨cause, name, line⟩ t) (.failed ⟨cause, name, line'⟩ t')

end Programs

variable {R : Nat → Nat → Prop}

theorem ChainAlike.append {ss ts ss' ts' : List Statement} (h : ChainAlike R ss ts)
    (h' : ChainAlike R ss' ts') : ChainAlike R (ss ++ ss') (ts ++ ts') := by
  induction h with
  | nil => exact h'
  | procedure hbody _ _ ih => exact .procedure hbody ih
  | choice hg hyes hno _ _ _ ih => exact .choice hg hyes hno ih
  | loop hg hbody _ _ ih => exact .loop hg hbody ih
  | print he _ ih => exact .print he ih
  | expression he _ ih => exact .expression he ih

mutual

theorem ExprAlike.symm {e e' : Expr} :
    ExprAlike R e e' → ExprAlike (fun line line' => R line' line) e' e
  | .literal => .literal
  | .var hline => .var hline
  | .binary ha hb => .binary ha.symm hb.symm
  | .assign he => .assign he.symm
  | .call hline hes => .call hline hes.symm

theorem ArgumentsAlike.symm {es es' : List Expr} :
    ArgumentsAlike R es es' → ArgumentsAlike (fun line line' => R line' line) es' es
  | .nil => .nil
  | .cons he hes => .cons he.symm hes.symm

end

theorem ArgumentsAlike.length_eq {es es' : List Expr} (h : ArgumentsAlike R es es') :
    es'.length = es.length := by
  induction es generalizing es' with
  | nil =>
    cases h
    rfl
  | cons e es ih =>
    cases h with
    | cons _ hes => simp [ih hes]

theorem ChainAlike.symm {ss ts : List Statement} (h : ChainAlike R ss ts) :
    ChainAlike (fun line line' => R line' line) ts ss := by
  induction h with
  | nil => exact .nil
  | procedure _ _ ihbody ih => exact .procedure ihbody ih
  | choice hg _ _ _ ihyes ihno ih => exact .choice hg.symm ihyes ihno ih
  | loop hg _ _ ihbody ih => exact .loop hg.symm ihbody ih
  | print he _ ih => exact .print he.symm ih
  | expression he _ ih => exact .expression he.symm ih

theorem OutcomeAlike.ne_unfinished {α : Type} {o o' : Outcome α} (h : OutcomeAlike R o o') :
    o' ≠ .unfinished := by
  cases h <;> simp

/-! ### States -/

theorem EnvironmentAlike.empty : EnvironmentAlike R .empty .empty := by
  intro name
  rw [Environment.lookup_empty]
  exact .none

theorem EnvironmentAlike.bind {env env' : Environment} (h : EnvironmentAlike R env env')
    (name : String) {b b' : Binding} (hb : BindingAlike R b b') :
    EnvironmentAlike R (env.bind name b) (env'.bind name b') := by
  intro other
  rw [Environment.lookup_bind, Environment.lookup_bind]
  split
  · exact .some hb
  · exact h other

theorem StateAlike.bind {s s' : State} (h : StateAlike R s s') (name : String) {b b' : Binding}
    (hb : BindingAlike R b b') : StateAlike R (s.bind name b) (s'.bind name b') :=
  ⟨h.environment.bind name hb, h.output⟩

theorem EnvironmentAlike.refl_ofParameters (parameters : List (String × Number)) :
    EnvironmentAlike R (.ofParameters parameters) (.ofParameters parameters) := by
  have hempty : EnvironmentAlike R .empty .empty := .empty
  unfold Environment.ofParameters
  generalize Environment.empty = env at hempty
  induction parameters generalizing env with
  | nil => exact hempty
  | cons p parameters ih => exact ih _ (hempty.bind p.1 .number)

/-- What a name may be bound to on both sides. -/
theorem EnvironmentAlike.lookup {env env' : Environment} (h : EnvironmentAlike R env env')
    (name : String) : (env.lookup name = none ∧ env'.lookup name = none) ∨
      (∃ x, env.lookup name = some (.number x) ∧ env'.lookup name = some (.number x)) ∨
      ∃ n ps b b', env.lookup name = some (.procedure ⟨n, ps, b⟩) ∧
        env'.lookup name = some (.procedure ⟨n, ps, b'⟩) ∧ ChainAlike R b.chain b'.chain := by
  have hrel := h name
  cases hb : env.lookup name <;> cases hb' : env'.lookup name <;> rw [hb, hb'] at hrel
  · exact .inl ⟨rfl, rfl⟩
  · cases hrel
  · cases hrel
  · cases hrel with
    | some hbinding =>
      cases hbinding with
      | number => exact .inr (.inl ⟨_, rfl, rfl⟩)
      | procedure hbody => exact .inr (.inr ⟨_, _, _, _, rfl, rfl, hbody⟩)

/-! ### Following an outcome -/

/-- Where there is an outcome, evaluation on the other side settles on an alike one. -/
def Follows (R : Nat → Nat → Prop) {α : Type} (o : Outcome α) (f : Nat → Outcome α) : Prop :=
  o = .unfinished ∨ ∃ o', Settles f o' ∧ OutcomeAlike R o o'

namespace Follows

variable {α β : Type} {o : Outcome α} {f g : Nat → Outcome α}

theorem unfinished : Follows R .unfinished f := .inl rfl

theorem finished {x : α} {s s' : State} (h : StateAlike R s s')
    (hf : ∀ n, f (n + 1) = .finished x s') : Follows R (.finished x s) f :=
  .inr ⟨_, .step hf (.const _), .finished h⟩

theorem done {x : α} {s s' : State} (h : StateAlike R s s') :
    Follows R (.finished x s) fun _ => .finished x s' :=
  finished h fun _ => rfl

theorem failed {cause : Cause} {name : String} {line line' : Nat} {t t' : Transcript}
    (hline : R line line') (houtput : t'.output = t.output)
    (hf : ∀ n, f (n + 1) = .failed ⟨cause, name, line'⟩ t') :
    Follows R (.failed ⟨cause, name, line⟩ t) f :=
  .inr ⟨_, .step hf (.const _), .failed hline houtput⟩

theorem of_settles (hfg : ∀ {o}, Settles f o → Settles g o) (h : Follows R o f) :
    Follows R o g := by
  rcases h with h | ⟨o', hsettles, halike⟩
  · exact .inl h
  · exact .inr ⟨o', hfg hsettles, halike⟩

theorem step (hg : ∀ n, g (n + 1) = f n) (h : Follows R o f) : Follows R o g :=
  h.of_settles (.step hg)

/-- Parts that are followed make a whole that is followed. -/
theorem andThen {next : α → State → Outcome β} {next' : Nat → α → State → Outcome β}
    (h : Follows R o f)
    (hnext : ∀ x s s', StateAlike R s s' → Follows R (next x s) fun n => next' n x s') :
    Follows R (o.andThen next) fun n => (f n).andThen (next' n) := by
  rcases h with rfl | ⟨o', hsettles, halike⟩
  · exact .inl rfl
  · cases halike with
    | @finished x s s' hstate =>
      rcases hnext x s s' hstate with hun | ⟨o', hsettles', halike⟩
      · exact .inl hun
      · exact .inr ⟨o', hsettles.andThen hsettles', halike⟩
    | failed hline houtput => exact .inr ⟨_, hsettles.andThen (.const _), .failed hline houtput⟩

end Follows

/-! ### Pending statements -/

/-- The statements of all pending chains. -/
def chains (pending : List Statement) : List Statement := pending.flatMap Statement.chain

/-- A statement does not see the value before it. -/
theorem executePending_cons_value (n : Nat) (t : Statement) (ts : List Statement) (v v' : Number)
    (s : State) : executePending n (t :: ts) v s = executePending n (t :: ts) v' s := by
  cases n with
  | zero => rfl
  | succ n => cases t <;> rfl

/-- Evaluation takes pending sequences apart until the first statement of the chain comes next. -/
theorem exists_next (t : Statement) (ts : List Statement) : ∃ u us,
    chains (t :: ts) = u :: chains us ∧ ∀ {o v v' s},
      Settles (fun n => executePending n (u :: us) v s) o →
      Settles (fun n => executePending n (t :: ts) v' s) o := by
  induction t generalizing ts with
  | sequence a b iha ihb =>
    obtain ⟨u, us, hchains, hsettles⟩ := iha (b :: ts)
    refine ⟨u, us, ?_, fun h => .step (fun n => executePending_sequence n ..) (hsettles h)⟩
    rw [← hchains]
    simp [chains, Statement.chain]
  | procedure _ _ _ _ | choice _ _ _ _ _ | loop _ _ _ | print _ | expression _ =>
    refine ⟨_, ts, rfl, fun {o v v' s} h => ?_⟩
    simpa only [executePending_cons_value _ _ ts v' v s] using h

theorem chains_eq_nil {ts : List Statement} (h : chains ts = []) : ts = [] := by
  cases ts with
  | nil => rfl
  | cons t ts =>
    obtain ⟨u, us, hchains, -⟩ := exists_next t ts
    rw [hchains] at h
    cases h

/-! ### Simulation -/

/-- Alike programs in alike states follow the outcomes of this bound. -/
structure Simulated (R : Nat → Nat → Prop) (n : Nat) : Prop where
  evaluate : ∀ {e e' s s'}, ExprAlike R e e' → StateAlike R s s' →
    Follows R (e.evaluate n s) fun m => e'.evaluate m s'
  arguments : ∀ {es es' s s'}, ArgumentsAlike R es es' → StateAlike R s s' →
    Follows R (evaluateArguments n es s) fun m => evaluateArguments m es' s'
  pending : ∀ {ps ts v v' s s'}, ChainAlike R (chains ps) (chains ts) → StateAlike R s s' →
    (ps = [] → v' = v) → Follows R (executePending n ps v s) fun m => executePending m ts v' s'
  loop : ∀ {g g' b b' i s s'}, ExprAlike R g g' → ChainAlike R b.chain b'.chain →
    StateAlike R s s' → Follows R (executeLoop n g b i s) fun m => executeLoop m g' b' i s'

section Step

variable {n : Nat} (ih : Simulated R n)

include ih

theorem call_simulated {name : String} {es es' : List Expr} {line line' : Nat} {s s' : State}
    (hline : R line line') (hes : ArgumentsAlike R es es') (hs : StateAlike R s s') :
    Follows R (Expr.evaluate (n + 1) (.call name es line) s)
      fun m => Expr.evaluate m (.call name es' line') s' := by
  obtain ⟨env, t⟩ := s
  obtain ⟨env', t'⟩ := s'
  rcases hs.environment.lookup name with ⟨h, h'⟩ | ⟨x, h, h'⟩ | ⟨p, ps, b, b', h, h', hbody⟩
  · simp only [Expr.evaluate, h]
    exact .failed hline hs.output fun m => by simp only [Expr.evaluate, h']
  · simp only [Expr.evaluate, h]
    exact .failed hline hs.output fun m => by simp only [Expr.evaluate, h']
  · by_cases hlength : ps.length = es.length
    · rw [evaluate_call n h hlength]
      refine .step (fun m => evaluate_call m h' (hlength.trans hes.length_eq.symm)) ?_
      refine (ih.arguments hes hs).andThen fun xs s s' hs' => ?_
      have hframe : StateAlike R
          ⟨.ofParameters (ps.zip xs), s.transcript.record (.called line name xs.length)⟩
          ⟨.ofParameters (ps.zip xs), s'.transcript.record (.called line' name xs.length)⟩ :=
        ⟨.refl_ofParameters _, hs'.output⟩
      refine (ih.pending ?_ hframe fun _ => rfl).andThen ?_
      · simpa [chains] using hbody
      · exact fun x s s' hs'' => .done ⟨hs.environment, hs''.output⟩
    · simp only [Expr.evaluate, h, if_neg hlength]
      refine .failed hline hs.output fun m => ?_
      rw [← hes.length_eq] at hlength ⊢
      simp only [Expr.evaluate, h', if_neg hlength]

theorem evaluate_simulated {e e' : Expr} {s s' : State} (he : ExprAlike R e e')
    (hs : StateAlike R s s') : Follows R (e.evaluate (n + 1) s) fun m => e'.evaluate m s' := by
  cases he with
  | literal => exact .finished hs fun _ => rfl
  | @var name line line' hline =>
    rcases hs.environment.lookup name with ⟨h, h'⟩ | ⟨x, h, h'⟩ | ⟨p, ps, b, b', h, h', hbody⟩
    · simp only [Expr.evaluate, h]
      exact .failed hline hs.output fun m => by simp only [Expr.evaluate, h']
    · simp only [Expr.evaluate, h]
      exact .finished hs fun m => by simp only [Expr.evaluate, h']
    · simp only [Expr.evaluate, h]
      exact .failed hline hs.output fun m => by simp only [Expr.evaluate, h']
  | binary ha hb =>
    refine .step (fun m => evaluate_binary m ..) ((ih.evaluate ha hs).andThen ?_)
    intro x s s' hs
    exact (ih.evaluate hb hs).andThen fun y s s' hs => .done hs
  | @assign name e e' he =>
    refine .step (fun m => evaluate_assign m ..) ((ih.evaluate he hs).andThen ?_)
    intro x s s' hs
    exact .done (hs.bind name .number)
  | call hline hes => exact call_simulated ih hline hes hs

theorem next_simulated {p u : Statement} {ps us : List Statement} {v v' : Number} {s s' : State}
    (h : ChainAlike R (p :: chains ps) (u :: chains us)) (hs : StateAlike R s s') :
    Follows R (executePending (n + 1) (p :: ps) v s)
      fun m => executePending m (u :: us) v' s' := by
  cases h with
  | procedure hbody hrest =>
    refine .step (fun m => executePending_procedure m ..) ?_
    exact ih.pending hrest (hs.bind _ (.procedure hbody)) fun _ => rfl
  | choice hg hyes hno hrest =>
    refine .step (fun m => executePending_choice m ..) ((ih.evaluate hg hs).andThen ?_)
    intro x s s' hs
    refine ih.pending ?_ hs (by simp)
    split
    · exact hno.append hrest
    · exact hyes.append hrest
  | loop hg hbody hrest =>
    refine .step (fun m => executePending_loop m ..) ((ih.loop hg hbody hs).andThen ?_)
    exact fun x s s' hs => ih.pending hrest hs fun _ => rfl
  | print he hrest =>
    refine .step (fun m => executePending_print m ..) ((ih.evaluate he hs).andThen ?_)
    intro x s s' hs
    refine ih.pending hrest ⟨hs.environment, ?_⟩ fun _ => rfl
    simp only [State.print, Transcript.print, hs.output]
  | expression he hrest =>
    refine .step (fun m => executePending_expression m ..) ((ih.evaluate he hs).andThen ?_)
    exact fun x s s' hs => ih.pending hrest hs fun _ => rfl

theorem pending_simulated {ps ts : List Statement} {v v' : Number} {s s' : State}
    (h : ChainAlike R (chains ps) (chains ts)) (hs : StateAlike R s s') (hv : ps = [] → v' = v) :
    Follows R (executePending (n + 1) ps v s) fun m => executePending m ts v' s' := by
  cases ps with
  | nil =>
    have hts : ts = [] := by
      refine chains_eq_nil ?_
      rw [show chains [] = [] from rfl] at h
      generalize chains ts = us at h
      cases h
      rfl
    rw [hts, hv rfl]
    exact .finished hs fun _ => rfl
  | cons p ps =>
    cases ts with
    | nil =>
      obtain ⟨u, us, hchains, -⟩ := exists_next p ps
      rw [hchains] at h
      cases h
    | cons t ts =>
      cases p with
      | sequence a b =>
        have hchains : chains (a :: b :: ps) = chains (.sequence a b :: ps) := by
          simp [chains, Statement.chain]
        rw [executePending_sequence]
        exact ih.pending (hchains ▸ h) hs (by simp)
      | procedure _ _ _ | choice _ _ _ | loop _ _ | print _ | expression _ =>
        obtain ⟨u, us, hchains, hnext⟩ := exists_next t ts
        rw [hchains] at h
        exact (next_simulated ih h hs).of_settles (hnext (v := v'))

theorem loop_simulated {g g' : Expr} {b b' : Statement} {i : UInt64} {s s' : State}
    (hg : ExprAlike R g g') (hb : ChainAlike R b.chain b'.chain) (hs : StateAlike R s s') :
    Follows R (executeLoop (n + 1) g b i s) fun m => executeLoop m g' b' i s' := by
  refine .step (fun m => executeLoop_succ m ..) ((ih.evaluate hg hs).andThen ?_)
  intro x s₁ s₁' hs₁
  split
  · exact .done ⟨hs.environment, hs₁.output⟩
  · refine (ih.pending ?_ hs₁ fun _ => rfl).andThen fun y s s' hs => ih.loop hg hb hs
    simpa [chains] using hb

end Step

theorem simulated (R : Nat → Nat → Prop) (n : Nat) : Simulated R n := by
  induction n with
  | zero => exact ⟨fun _ _ => .unfinished, fun _ _ => .unfinished, fun _ _ _ => .unfinished,
      fun _ _ _ => .unfinished⟩
  | succ n ih =>
    refine ⟨evaluate_simulated ih, fun {es es' s s'} hes hs => ?_, pending_simulated ih,
      loop_simulated ih⟩
    cases hes with
    | nil => exact .finished hs fun _ => rfl
    | cons he hes =>
      refine .step (fun m => evaluateArguments_cons m ..) ((ih.evaluate he hs).andThen ?_)
      intro x s s' hs
      exact (ih.arguments hes hs).andThen fun xs s s' hs => .done hs

/-- Alike programs run alike: where one comes to an end, so does the other. -/
theorem run_simulated {s t : Statement} (h : ChainAlike R s.chain t.chain) (n : Nat) :
    Follows R (s.run n) fun m => t.run m := by
  have hinitial : StateAlike R .initial .initial := ⟨.empty, rfl⟩
  refine (simulated R n).pending ?_ hinitial fun _ => rfl
  simpa [chains] using h

/-! ### Running a program that was written and read again -/

mutual

theorem ExprAlike.atLine (line : Nat) :
    (e : Expr) → ExprAlike (fun _ line' => line' = line) e (e.atLine line)
  | .literal _ => .literal
  | .var _ _ => .var rfl
  | .binary _ a b => .binary (.atLine line a) (.atLine line b)
  | .assign _ e => .assign (.atLine line e)
  | .call _ es _ => .call rfl (.atLine line es)

theorem ArgumentsAlike.atLine (line : Nat) :
    (es : List Expr) → ArgumentsAlike (fun _ line' => line' = line) es (argumentsAtLine line es)
  | [] => .nil
  | e :: es => .cons (.atLine line e) (.atLine line es)

end

/-- What text forgets of a program does not matter to its run. -/
theorem ChainAlike.normal (line : Nat) (s : Statement) :
    ChainAlike (fun _ line' => line' = line) s.chain (s.atLine line).leftward.chain := by
  induction s with
  | sequence a b iha ihb =>
    rw [Statement.atLine, Statement.leftward, Statement.chain_followedBy]
    exact iha.append ihb
  | procedure name ps body ih => exact .procedure ih .nil
  | choice g yes no ihyes ihno => exact .choice (.atLine line g) ihyes ihno .nil
  | loop g body ih => exact .loop (.atLine line g) ih .nil
  | print e => exact .print (.atLine line e) .nil
  | expression e => exact .expression (.atLine line e) .nil

/-- Both programs succeed with the same value and output, or both fail after the same output with
the same error, which on the second side is in the given line, or neither comes to an end. -/
def SameEnding (line : Nat) (s p : Statement) : Prop :=
  (∃ x state state', Settles (fun n => s.run n) (.finished x state) ∧
    Settles (fun n => p.run n) (.finished x state') ∧
    state'.transcript.output = state.transcript.output) ∨
  (∃ error t t', Settles (fun n => s.run n) (.failed error t) ∧
    Settles (fun n => p.run n) (.failed { error with line := line } t') ∧ t'.output = t.output) ∨
  ∀ n, s.run n = .unfinished ∧ p.run n = .unfinished

theorem sameEnding_normal (line : Nat) (s : Statement) :
    SameEnding line s (s.atLine line).leftward := by
  have halike := ChainAlike.normal line s
  by_cases hend : ∃ n, s.run n ≠ .unfinished
  · obtain ⟨n, hn⟩ := hend
    have hsettles : Settles (fun n => s.run n) (s.run n) := settles_of_pending rfl hn
    rcases run_simulated halike n with hun | ⟨o, hsettles', ho⟩
    · exact absurd hun hn
    · generalize s.run n = o' at hsettles ho
      cases ho with
      | finished hstate => exact .inl ⟨_, _, _, hsettles, hsettles', hstate.output⟩
      | failed hline houtput =>
        rw [hline] at hsettles'
        exact .inr (.inl ⟨_, _, _, hsettles, hsettles', houtput⟩)
  · have hnever (n : Nat) : s.run n = .unfinished := by
      by_contra hn
      exact hend ⟨n, hn⟩
    refine .inr (.inr fun n => ⟨hnever n, ?_⟩)
    -- Were the second program to end, the first would have to as well.
    rcases run_simulated halike.symm n with hun | ⟨o, ⟨m, hm⟩, ho⟩
    · exact hun
    · exact absurd ((hm m (Nat.le_refl m)).symm.trans (hnever m)) ho.ne_unfinished

/-- A writable program, and every program that parsing returns is one, can be written and read
again without changing how it runs, except that an error is then in the first line. -/
theorem sameEnding_parse_render :
    (∀ source s, parse source = .ok s → s.isWritable = true) ∧
    ∀ s : Statement, s.isWritable = true →
      ∃ p, parse s.render = .ok p ∧ SameEnding 1 s p := by
  refine ⟨fun source s h => (normal_of_parse h).1, fun s h => ?_⟩
  exact ⟨_, parse_render_of_isWritable h, sameEnding_normal 1 s⟩

/-- A program whose error is in its seventh line, inside a procedure, with a chain nested to the
right, and a source. -/
theorem sameEnding_parse_render_nested :
    let body : Statement := .sequence (.print (.var "a" 6))
      (.sequence (.print (.var "b" 7)) (.expression (.var "a" 8)))
    let s : Statement := .sequence (.print (.literal ⟨0x3ff0000000000000⟩))
      (.sequence (.procedure "f" ["a"] body) (.expression (.call "f" [.literal ⟨0⟩] 9)))
    let source := "x := 2;\nprint x"
    let t : Statement := .sequence (.expression (.assign "x" (.literal ⟨0x4000000000000000⟩)))
      (.print (.var "x" 2))
    (s.isWritable = true ∧ ∃ p, parse s.render = .ok p ∧ SameEnding 1 s p) ∧
      parse source = .ok t ∧ t.isWritable = true := by
  intro body s source t
  have hs : s.isWritable = true := by decide +kernel
  have ht : parse source = .ok t := by decide +kernel
  exact ⟨⟨hs, sameEnding_parse_render.2 s hs⟩, ht, sameEnding_parse_render.1 source t ht⟩

end Imperative
