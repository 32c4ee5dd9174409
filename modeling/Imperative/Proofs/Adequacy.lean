import Imperative.Proofs.Bounds
import Imperative.Proofs.Semantics

/-! Evaluation follows the rules.  What a derivation concludes, evaluation settles on: a derived
statement may stand before any pending ones, which then go on from its value.  What evaluation comes
to an end with is derived: pending statements as a whole conclude as if each were run by itself. -/

namespace Imperative

/-- The outcome of an evaluation begun after these events, by its conclusion and what it logged. -/
def Conclusion.outcome {α : Type} (events : Array Event) (log : List Event) :
    Conclusion α → Outcome α
  | value x env out => .finished x ⟨env, out, events ++ log.toArray⟩
  | fatal error out => .failed error ⟨out, events ++ log.toArray⟩

namespace Conclusion

variable {α : Type} {events : Array Event}

theorem outcome_append (r : Conclusion α) (l₁ l₂ : List Event) :
    r.outcome (events ++ l₁.toArray) l₂ = r.outcome events (l₁ ++ l₂) := by
  cases r <;> simp [outcome, Array.append_assoc]

theorem outcome_push (r : Conclusion α) (event : Event) (log : List Event) :
    r.outcome (events.push event) log = r.outcome events (event :: log) := by
  cases r <;> simp [outcome]

theorem outcome_ne_unfinished (r : Conclusion α) (log : List Event) :
    r.outcome events log ≠ .unfinished := by
  cases r <;> simp [outcome]

theorem outcome_inj {r r' : Conclusion α} {log log' : List Event}
    (h : r.outcome events log = r'.outcome events log') : r = r' ∧ log = log' := by
  cases r <;> cases r' <;> simp_all [outcome, Array.append_right_inj]

end Conclusion

/-! ### Derivations are followed -/

theorem EvaluatesEach.length_eq {es : List Expr} {env env₁ : Environment} {out out₁ : String}
    {xs : List Number} {log : List Event} (h : EvaluatesEach es env out (.value xs env₁ out₁) log) :
    xs.length = es.length := by
  induction es generalizing env out xs log with
  | nil =>
    cases h
    rfl
  | cons e es ih =>
    cases h with
    | cons _ hes => simp [ih hes]

namespace Settles

variable {α β : Type} {f : Nat → Outcome α} {next : Nat → α → State → Outcome β}
  {events : Array Event} {log : List Event}

/-- When nothing is pending, a conclusion stands. -/
theorem conclusion (r : Conclusion Number) :
    Settles (fun n => (r.outcome events log).andThen (executePending n []))
      (r.outcome events log) := by
  cases r with
  | value x env out => exact step (fun n => executePending_nil n ..) (const _)
  | fatal error out => exact const _

theorem value_andThen {x : α} {env : Environment} {out : String} {o : Outcome β}
    (h : Settles f (Conclusion.outcome events log (.value x env out)))
    (hnext : Settles (fun n => next n x ⟨env, out, events ++ log.toArray⟩) o) :
    Settles (fun n => (f n).andThen (next n)) o :=
  h.andThen hnext

theorem fatal_andThen {error : RuntimeError} {out : String}
    (h : Settles f (Conclusion.outcome events log (.fatal error out))) :
    Settles (fun n => (f n).andThen (next n)) (Conclusion.outcome events log (.fatal error out)) :=
  h.andThen (const _)

end Settles

mutual

/-- Evaluation settles on what is derived of an expression. -/
theorem Evaluates.settles {e : Expr} {env : Environment} {out : String} {r : Conclusion Number}
    {log : List Event} (events : Array Event) : Evaluates e env out r log →
    Settles (fun n => e.evaluate n ⟨env, out, events⟩) (r.outcome events log)
  | .literal => .step (fun n => by simp [Expr.evaluate, Conclusion.outcome]) (.const _)
  | .var h => .step (fun n => by simp [Expr.evaluate, Conclusion.outcome, h]) (.const _)
  | .var_procedure h => .step (fun n => by simp [Expr.evaluate, Conclusion.outcome, h]) (.const _)
  | .var_unbound h => .step (fun n => by simp [Expr.evaluate, Conclusion.outcome, h]) (.const _)
  | .binary ha hb => by
    refine .step (fun n => evaluate_binary n ..) ((ha.settles events).value_andThen ?_)
    rw [← Conclusion.outcome_append]
    exact (hb.settles _).value_andThen (.const _)
  | .binary_left ha => .step (fun n => evaluate_binary n ..) (ha.settles events).fatal_andThen
  | .binary_right ha hb => by
    refine .step (fun n => evaluate_binary n ..) ((ha.settles events).value_andThen ?_)
    rw [← Conclusion.outcome_append]
    exact (hb.settles _).fatal_andThen
  | .assign h => .step (fun n => evaluate_assign n ..) ((h.settles events).value_andThen (.const _))
  | .assign_value h => .step (fun n => evaluate_assign n ..) (h.settles events).fatal_andThen
  | .call_unbound h => .step (fun n => by simp [Expr.evaluate, Conclusion.outcome, h]) (.const _)
  | .call_number h => .step (fun n => by simp [Expr.evaluate, Conclusion.outcome, h]) (.const _)
  | .call_arity h hlength =>
    .step (fun n => by simp [Expr.evaluate, Conclusion.outcome, h, hlength]) (.const _)
  | .call_argument h hlength hes =>
    .step (fun n => evaluate_call n h hlength) (hes.settles events).fatal_andThen
  | .call h hlength hes hbody => by
    refine .step (fun n => evaluate_call n h hlength) ((hes.settles events).value_andThen ?_)
    rw [← hes.length_eq, ← Conclusion.outcome_append, ← Conclusion.outcome_push]
    exact (hbody.settles _ (.conclusion _)).value_andThen (.const _)
  | .call_body h hlength hes hbody => by
    refine .step (fun n => evaluate_call n h hlength) ((hes.settles events).value_andThen ?_)
    rw [← hes.length_eq, ← Conclusion.outcome_append, ← Conclusion.outcome_push]
    exact (hbody.settles _ (.conclusion _)).fatal_andThen

theorem EvaluatesEach.settles {es : List Expr} {env : Environment} {out : String}
    {r : Conclusion (List Number)} {log : List Event} (events : Array Event) :
    EvaluatesEach es env out r log →
    Settles (fun n => evaluateArguments n es ⟨env, out, events⟩) (r.outcome events log)
  | .nil => .step (fun n => by simp [evaluateArguments, Conclusion.outcome]) (.const _)
  | .cons he hes => by
    refine .step (fun n => evaluateArguments_cons n ..) ((he.settles events).value_andThen ?_)
    rw [← Conclusion.outcome_append]
    exact (hes.settles _).value_andThen (.const _)
  | .head he => .step (fun n => evaluateArguments_cons n ..) (he.settles events).fatal_andThen
  | .tail he hes => by
    refine .step (fun n => evaluateArguments_cons n ..) ((he.settles events).value_andThen ?_)
    rw [← Conclusion.outcome_append]
    exact (hes.settles _).fatal_andThen

/-- A statement before pending ones leaves them to go on from what is derived of it. -/
theorem Executes.settles {s : Statement} {env : Environment} {out : String}
    {r : Conclusion Number} {log : List Event} (events : Array Event) {pending : List Statement}
    {v : Number} {o : Outcome Number} : Executes s env out r log →
    Settles (fun n => (r.outcome events log).andThen (executePending n pending)) o →
    Settles (fun n => executePending n (s :: pending) v ⟨env, out, events⟩) o
  | .sequence ha hb, hnext => by
    rw [← Conclusion.outcome_append] at hnext
    exact .step (fun n => executePending_sequence n ..) (ha.settles events (hb.settles _ hnext))
  | .sequence_first ha, hnext =>
    .step (fun n => executePending_sequence n ..) (ha.settles events hnext)
  | .procedure, hnext => by
    rw [Conclusion.outcome, Array.append_empty] at hnext
    exact .step (fun n => executePending_procedure n ..) hnext
  | .choice hg hs, hnext => by
    rw [← Conclusion.outcome_append] at hnext
    refine .step (fun n => executePending_choice n ..) ((hg.settles events).value_andThen ?_)
    exact hs.settles _ hnext
  | .choice_guard hg, hnext =>
    .step (fun n => executePending_choice n ..) ((hg.settles events).andThen hnext)
  | .loop h, hnext => .step (fun n => executePending_loop n ..) ((h.settles events).andThen hnext)
  | .print h, hnext =>
    .step (fun n => executePending_print n ..) ((h.settles events).value_andThen hnext)
  | .print_value h, hnext =>
    .step (fun n => executePending_print n ..) ((h.settles events).andThen hnext)
  | .expression h, hnext =>
    .step (fun n => executePending_expression n ..) ((h.settles events).andThen hnext)

theorem Iterates.settles {g : Expr} {b : Statement} {i : UInt64} {env : Environment} {out : String}
    {r : Conclusion Number} {log : List Event} (events : Array Event) :
    Iterates g b i env out r log →
    Settles (fun n => executeLoop n g b i ⟨env, out, events⟩) (r.outcome events log)
  | .stop hg hx => by
    refine .step (fun n => executeLoop_succ n ..) ((hg.settles events).value_andThen ?_)
    rw [← Conclusion.outcome_append, ← Conclusion.outcome_push, Conclusion.outcome,
      Array.append_empty]
    simp only [hx, if_true]
    exact .const _
  | .again hg hx hb hi => by
    refine .step (fun n => executeLoop_succ n ..) ((hg.settles events).value_andThen ?_)
    rw [← Conclusion.outcome_append, ← Conclusion.outcome_append]
    simp only [hx, Bool.false_eq_true, if_false]
    exact (hb.settles _ (.conclusion _)).value_andThen (hi.settles _)
  | .guard hg => .step (fun n => executeLoop_succ n ..) (hg.settles events).fatal_andThen
  | .body hg hx hb => by
    refine .step (fun n => executeLoop_succ n ..) ((hg.settles events).value_andThen ?_)
    rw [← Conclusion.outcome_append]
    simp only [hx, Bool.false_eq_true, if_false]
    exact (hb.settles _ (.conclusion _)).fatal_andThen

end

/-! ### Outcomes are derived -/

/-- An outcome is that of a conclusion which the rule allows, unless the bound was too small. -/
def Outcome.Concludes {α : Type} (o : Outcome α) (events : Array Event)
    (rule : Conclusion α → List Event → Prop) : Prop :=
  o = .unfinished ∨ ∃ r log, o = r.outcome events log ∧ rule r log

namespace Outcome.Concludes

variable {α β : Type} {o : Outcome α} {events : Array Event}
  {rule rule' : Conclusion α → List Event → Prop}

theorem value {x : α} {env : Environment} {out : String} (h : rule (.value x env out) []) :
    Concludes (.finished x ⟨env, out, events⟩) events rule :=
  .inr ⟨_, _, by simp [Conclusion.outcome], h⟩

theorem fatal {error : RuntimeError} {out : String} (h : rule (.fatal error out) []) :
    Concludes (.failed error ⟨out, events⟩) events rule :=
  .inr ⟨_, _, by simp [Conclusion.outcome], h⟩

theorem imp (h : o.Concludes events rule) (himp : ∀ r log, rule r log → rule' r log) :
    o.Concludes events rule' := by
  rcases h with h | ⟨r, log, ho, h⟩
  · exact .inl h
  · exact .inr ⟨r, log, ho, himp r log h⟩

theorem record {event : Event}
    (h : o.Concludes (events.push event) fun r log => rule r (event :: log)) :
    o.Concludes events rule := by
  rcases h with h | ⟨r, log, ho, h⟩
  · exact .inl h
  · exact .inr ⟨r, event :: log, ho.trans (r.outcome_push event log), h⟩

/-- An error of the first part is one of the whole; otherwise the second part decides. -/
theorem andThen {next : α → State → Outcome β} {whole : Conclusion β → List Event → Prop}
    (h : o.Concludes events rule)
    (hfatal : ∀ error out log, rule (.fatal error out) log → whole (.fatal error out) log)
    (hvalue : ∀ x env out log, rule (.value x env out) log →
      (next x ⟨env, out, events ++ log.toArray⟩).Concludes (events ++ log.toArray)
        fun r log' => whole r (log ++ log')) :
    (o.andThen next).Concludes events whole := by
  rcases h with rfl | ⟨r, log, rfl, h⟩
  · exact .inl rfl
  · cases r with
    | fatal error out => exact .inr ⟨.fatal error out, log, rfl, hfatal error out log h⟩
    | value x env out =>
      rcases hvalue x env out log h with hnext | ⟨r, log', hnext, hr⟩
      · exact .inl hnext
      · exact .inr ⟨r, log ++ log', hnext.trans (r.outcome_append log log'), hr⟩

end Outcome.Concludes

-- Here `v` is the value of the statement that ran before.
set_option autoImplicit true in
/-- The conclusion of pending statements, each run from the state that the one before it left. -/
inductive ExecutesEach :
    List Statement → Number → Environment → String → Conclusion Number → List Event → Prop
  | nil : ExecutesEach [] v env out (.value v env out) []
  | cons : Executes s env out (.value x env₁ out₁) l₁ → ExecutesEach pending x env₁ out₁ r l₂ →
      ExecutesEach (s :: pending) v env out r (l₁ ++ l₂)
  | stop : Executes s env out (.fatal error out₁) l₁ →
      ExecutesEach (s :: pending) v env out (.fatal error out₁) l₁

section Pending

variable {s a b : Statement} {pending : List Statement} {v : Number} {env env₁ : Environment}
  {out out₁ : String} {r : Conclusion Number} {l₁ l₂ : List Event}

theorem ExecutesEach.single (h : ExecutesEach [s] v env out r l₁) : Executes s env out r l₁ := by
  cases h with
  | cons hs hnil =>
    cases hnil
    rwa [List.append_nil]
  | stop hs => exact hs

theorem ExecutesEach.sequence (h : ExecutesEach (a :: b :: pending) .zero env out r l₁) :
    ExecutesEach (.sequence a b :: pending) v env out r l₁ := by
  cases h with
  | cons ha h =>
    cases h with
    | cons hb hpending =>
      rw [← List.append_assoc]
      exact .cons (.sequence ha hb) hpending
    | stop hb => exact .stop (.sequence ha hb)
  | stop ha => exact .stop (.sequence_first ha)

theorem ExecutesEach.choice {g : Expr} {yes no : Statement} {x : Number}
    (hg : Evaluates g env out (.value x env₁ out₁) l₁)
    (h : ExecutesEach ((if x.isZero then no else yes) :: pending) .zero env₁ out₁ r l₂) :
    ExecutesEach (.choice g yes no :: pending) v env out r (l₁ ++ l₂) := by
  cases h with
  | cons hs hpending =>
    rw [← List.append_assoc]
    exact .cons (.choice hg hs) hpending
  | stop hs => exact .stop (.choice hg hs)

end Pending

/-- What evaluation comes to an end with within this bound is derived. -/
structure Derived (n : Nat) : Prop where
  evaluate : ∀ e env out events,
    (Expr.evaluate n e ⟨env, out, events⟩).Concludes events (Evaluates e env out)
  arguments : ∀ es env out events,
    (evaluateArguments n es ⟨env, out, events⟩).Concludes events (EvaluatesEach es env out)
  pending : ∀ ps v env out events,
    (executePending n ps v ⟨env, out, events⟩).Concludes events (ExecutesEach ps v env out)
  loop : ∀ g b i env out events,
    (executeLoop n g b i ⟨env, out, events⟩).Concludes events (Iterates g b i env out)

section Step

variable {n : Nat} (ih : Derived n) (env : Environment) (out : String) (events : Array Event)

include ih

theorem evaluate_derived (e : Expr) :
    (e.evaluate (n + 1) ⟨env, out, events⟩).Concludes events (Evaluates e env out) := by
  cases e with
  | literal x => exact .value .literal
  | var name line =>
    rw [Expr.evaluate]
    split
    · next h => exact .value (.var h)
    · next h => exact .fatal (.var_procedure h)
    · next h => exact .fatal (.var_unbound h)
  | binary op a b =>
    refine (ih.evaluate a env out events).andThen (fun _ _ _ => .binary_left) ?_
    intro x env₁ out₁ l₁ ha
    refine (ih.evaluate b env₁ out₁ _).andThen (fun _ _ _ => .binary_right ha) ?_
    intro y env₂ out₂ l₂ hb
    exact .value (by simpa using Evaluates.binary ha hb)
  | assign name e =>
    refine (ih.evaluate e env out events).andThen (fun _ _ _ => .assign_value) ?_
    intro x env₁ out₁ l₁ h
    exact .value (by simpa using Evaluates.assign h)
  | call name es line =>
    rw [Expr.evaluate]
    split
    · next h => exact .fatal (.call_unbound h)
    · next h => exact .fatal (.call_number h)
    · next p h =>
      split
      · next hlength =>
        refine (ih.arguments es env out events).andThen (fun _ _ _ => .call_argument h hlength) ?_
        intro xs env₁ out₁ l₁ hes
        rw [hes.length_eq]
        refine .record ((ih.pending [p.body] .zero _ out₁ _).andThen ?_ ?_)
        · intro error out₂ l₂ hbody
          exact .call_body h hlength hes hbody.single
        · intro x env₂ out₂ l₂ hbody
          exact .value (by simpa using Evaluates.call h hlength hes hbody.single)
      · next hlength => exact .fatal (.call_arity h hlength)

theorem arguments_derived (es : List Expr) :
    (evaluateArguments (n + 1) es ⟨env, out, events⟩).Concludes events
      (EvaluatesEach es env out) := by
  cases es with
  | nil => exact .value .nil
  | cons e es =>
    refine (ih.evaluate e env out events).andThen (fun _ _ _ => .head) ?_
    intro x env₁ out₁ l₁ he
    refine (ih.arguments es env₁ out₁ _).andThen (fun _ _ _ => .tail he) ?_
    intro xs env₂ out₂ l₂ hes
    exact .value (by simpa using EvaluatesEach.cons he hes)

theorem pending_derived (ps : List Statement) (v : Number) :
    (executePending (n + 1) ps v ⟨env, out, events⟩).Concludes events
      (ExecutesEach ps v env out) := by
  cases ps with
  | nil => exact .value .nil
  | cons s pending =>
    cases s with
    | sequence a b => exact (ih.pending _ _ _ _ _).imp fun _ _ => .sequence
    | procedure name parameters body =>
      exact (ih.pending pending _ _ out events).imp fun _ _ => .cons .procedure
    | choice g yes no =>
      refine (ih.evaluate g env out events).andThen (fun _ _ _ h => .stop (.choice_guard h)) ?_
      intro x env₁ out₁ l₁ hg
      exact (ih.pending _ _ _ _ _).imp fun _ _ => .choice hg
    | loop g b =>
      refine (ih.loop g b 0 env out events).andThen (fun _ _ _ h => .stop (.loop h)) ?_
      intro x env₁ out₁ l₁ h
      exact (ih.pending _ _ _ _ _).imp fun _ _ => .cons (.loop h)
    | print e =>
      refine (ih.evaluate e env out events).andThen (fun _ _ _ h => .stop (.print_value h)) ?_
      intro x env₁ out₁ l₁ h
      exact (ih.pending _ _ _ _ _).imp fun _ _ => .cons (.print h)
    | expression e =>
      refine (ih.evaluate e env out events).andThen (fun _ _ _ h => .stop (.expression h)) ?_
      intro x env₁ out₁ l₁ h
      exact (ih.pending _ _ _ _ _).imp fun _ _ => .cons (.expression h)

theorem loop_derived (g : Expr) (b : Statement) (i : UInt64) :
    (executeLoop (n + 1) g b i ⟨env, out, events⟩).Concludes events (Iterates g b i env out) := by
  refine (ih.evaluate g env out events).andThen (fun _ _ _ => .guard) ?_
  intro x env₁ out₁ l₁ hg
  split
  · next hx => exact .record (.value (.stop hg hx))
  · next hx =>
    rw [Bool.not_eq_true] at hx
    refine (ih.pending [b] .zero env₁ out₁ _).andThen (fun _ _ _ h => .body hg hx h.single) ?_
    intro y env₂ out₂ l₂ hb
    exact (ih.loop g b (i + 1) env₂ out₂ _).imp fun _ _ => .again hg hx hb.single

end Step

/-- Whatever evaluation comes to an end with is derived. -/
theorem derived (n : Nat) : Derived n := by
  induction n with
  | zero => exact ⟨fun _ _ _ _ => .inl rfl, fun _ _ _ _ => .inl rfl, fun _ _ _ _ _ => .inl rfl,
      fun _ _ _ _ _ _ => .inl rfl⟩
  | succ n ih =>
    exact ⟨fun e env out events => evaluate_derived ih env out events e,
      fun es env out events => arguments_derived ih env out events es,
      fun ps v env out events => pending_derived ih env out events ps v,
      fun g b i env out events => loop_derived ih env out events g b i⟩

theorem Outcome.Concludes.rule {α : Type} {events : Array Event}
    {rule : Conclusion α → List Event → Prop} {r : Conclusion α} {log : List Event}
    (h : (r.outcome events log).Concludes events rule) : rule r log := by
  rcases h with h | ⟨r', log', heq, h⟩
  · exact absurd h (r.outcome_ne_unfinished log)
  · obtain ⟨rfl, rfl⟩ := Conclusion.outcome_inj heq
    exact h

/-- Evaluation ends with a conclusion and these events logged if and only if the rules derive them,
for statements as for expressions, from every environment and output. -/
theorem evaluation_iff_derivable (env : Environment) (out : String) (events : Array Event)
    (r : Conclusion Number) (log : List Event) :
    (∀ s : Statement, (∃ bound, s.execute bound ⟨env, out, events⟩ = r.outcome events log) ↔
      Executes s env out r log) ∧
    (∀ e : Expr, (∃ bound, e.evaluate bound ⟨env, out, events⟩ = r.outcome events log) ↔
      Evaluates e env out r log) := by
  refine ⟨fun s => ⟨?_, ?_⟩, fun e => ⟨?_, ?_⟩⟩
  · rintro ⟨n, hn⟩
    have hderived := (derived n).pending [s] .zero env out events
    rw [Statement.execute] at hn
    rw [hn] at hderived
    exact hderived.rule.single
  · intro h
    obtain ⟨n, hn⟩ := h.settles events (v := .zero) (.conclusion r)
    exact ⟨n, hn n (Nat.le_refl n)⟩
  · rintro ⟨n, hn⟩
    have hderived := (derived n).evaluate e env out events
    rw [hn] at hderived
    exact hderived.rule
  · intro h
    obtain ⟨n, hn⟩ := h.settles events
    exact ⟨n, hn n (Nat.le_refl n)⟩

end Imperative
