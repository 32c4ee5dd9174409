import Imperative.Evaluator

/-! Bounds on evaluation.  A bound decides only whether an evaluation comes to an end: an outcome is
that of every larger bound.  An evaluation settles on an outcome if it has it from some bound on,
and settled evaluations are put together like evaluations. -/

namespace Imperative

namespace Outcome

variable {α β : Type}

/-- The outcome `o` is `o'`, unless its bound was too small. -/
def Approximates (o o' : Outcome α) : Prop := o = .unfinished ∨ o = o'

theorem Approximates.refl (o : Outcome α) : o.Approximates o := .inr rfl

theorem Approximates.trans {o o' o'' : Outcome α} (h : o.Approximates o')
    (h' : o'.Approximates o'') : o.Approximates o'' := by
  rcases h with h | rfl
  · exact .inl h
  · exact h'

theorem Approximates.andThen {o o' : Outcome α} {next next' : α → State → Outcome β}
    (h : o.Approximates o') (hnext : ∀ x s, (next x s).Approximates (next' x s)) :
    (o.andThen next).Approximates (o'.andThen next') := by
  rcases h with rfl | rfl
  · exact .inl rfl
  · cases o with
    | finished x s => exact hnext x s
    | failed e t => exact .refl _
    | unfinished => exact .refl _

theorem eq_of_approximates {o o' : Outcome α} (h : o.Approximates o') (ho : o ≠ .unfinished) :
    o' = o := by
  rcases h with h | h
  · exact absurd h ho
  · exact h.symm

end Outcome

open Outcome

/-! ### Single steps -/

section Steps

variable (n : Nat) (s : State) (v : Number) (pending : List Statement)

theorem evaluate_binary (op : Operator) (a b : Expr) : Expr.evaluate (n + 1) (.binary op a b) s =
    (a.evaluate n s).andThen fun x s => (b.evaluate n s).andThen fun y s =>
      .finished (op.apply x y) s := rfl

theorem evaluate_assign (name : String) (e : Expr) : Expr.evaluate (n + 1) (.assign name e) s =
    (e.evaluate n s).andThen fun x s => .finished x (s.bind name (.number x)) := rfl

theorem evaluate_call {name : String} {es : List Expr} {line : Nat} {p : Procedure}
    {env : Environment} {t : Transcript} (h : env.lookup name = some (.procedure p))
    (hlength : p.parameters.length = es.length) :
    Expr.evaluate (n + 1) (.call name es line) ⟨env, t⟩ =
      (evaluateArguments n es ⟨env, t⟩).andThen fun xs s =>
      (executePending n [p.body] .zero ⟨.ofParameters (p.parameters.zip xs),
        s.transcript.record (.called line name xs.length)⟩).andThen fun x s =>
      .finished x ⟨env, s.transcript⟩ := by
  simp [Expr.evaluate, h, hlength]

theorem evaluateArguments_cons (e : Expr) (es : List Expr) :
    evaluateArguments (n + 1) (e :: es) s = (e.evaluate n s).andThen fun x s =>
      (evaluateArguments n es s).andThen fun xs s => .finished (x :: xs) s := rfl

theorem executePending_nil : executePending (n + 1) [] v s = .finished v s := rfl

theorem executePending_sequence (a b : Statement) :
    executePending (n + 1) (.sequence a b :: pending) v s =
      executePending n (a :: b :: pending) .zero s := rfl

theorem executePending_procedure (name : String) (parameters : List String) (body : Statement) :
    executePending (n + 1) (.procedure name parameters body :: pending) v s =
      executePending n pending .one (s.bind name (.procedure ⟨name, parameters, body⟩)) := rfl

theorem executePending_choice (g : Expr) (yes no : Statement) :
    executePending (n + 1) (.choice g yes no :: pending) v s = (g.evaluate n s).andThen fun x s =>
      executePending n ((if x.isZero then no else yes) :: pending) .zero s := rfl

theorem executePending_loop (g : Expr) (b : Statement) :
    executePending (n + 1) (.loop g b :: pending) v s =
      (executeLoop n g b 0 s).andThen fun x s => executePending n pending x s := rfl

theorem executePending_print (e : Expr) : executePending (n + 1) (.print e :: pending) v s =
    (e.evaluate n s).andThen fun x s => executePending n pending .zero (s.print x) := rfl

theorem executePending_expression (e : Expr) :
    executePending (n + 1) (.expression e :: pending) v s =
      (e.evaluate n s).andThen fun x s => executePending n pending x s := rfl

theorem executeLoop_succ (g : Expr) (b : Statement) (i : UInt64) :
    executeLoop (n + 1) g b i s = (g.evaluate n s).andThen fun x s' =>
      if x.isZero then
        .finished .zero ⟨s.environment, s'.transcript.record (.loopFinished i)⟩
      else (executePending n [b] .zero s').andThen fun _ s => executeLoop n g b (i + 1) s := rfl

end Steps

/-! ### Larger bounds -/

/-- What a bound gives, the next larger one gives as well. -/
structure StepApproximates (n : Nat) : Prop where
  evaluate : ∀ e s, (Expr.evaluate n e s).Approximates (Expr.evaluate (n + 1) e s)
  arguments : ∀ es s, (evaluateArguments n es s).Approximates (evaluateArguments (n + 1) es s)
  pending : ∀ ps v s, (executePending n ps v s).Approximates (executePending (n + 1) ps v s)
  loop : ∀ g b i s, (executeLoop n g b i s).Approximates (executeLoop (n + 1) g b i s)

theorem evaluate_approximates {n : Nat} (ih : StepApproximates n) (e : Expr) (s : State) :
    (e.evaluate (n + 1) s).Approximates (e.evaluate (n + 2) s) := by
  cases e with
  | literal x => exact .refl _
  | var name line => exact .refl _
  | binary op a b =>
    exact (ih.evaluate a s).andThen fun _ s => (ih.evaluate b s).andThen fun _ _ => .refl _
  | assign name e => exact (ih.evaluate e s).andThen fun _ _ => .refl _
  | call name es line =>
    obtain ⟨env, t⟩ := s
    rw [Expr.evaluate, Expr.evaluate]
    split
    · exact .refl _
    · exact .refl _
    · split
      · exact (ih.arguments es _).andThen fun _ _ => (ih.pending _ _ _).andThen fun _ _ => .refl _
      · exact .refl _

theorem pending_approximates {n : Nat} (ih : StepApproximates n) (ps : List Statement) (v : Number)
    (s : State) : (executePending (n + 1) ps v s).Approximates (executePending (n + 2) ps v s) := by
  cases ps with
  | nil => exact .refl _
  | cons p ps =>
    cases p with
    | sequence a b => exact ih.pending _ _ _
    | procedure name parameters body => exact ih.pending _ _ _
    | choice g a b => exact (ih.evaluate g s).andThen fun _ _ => ih.pending _ _ _
    | loop g b => exact (ih.loop g b 0 s).andThen fun _ _ => ih.pending _ _ _
    | print e => exact (ih.evaluate e s).andThen fun _ _ => ih.pending _ _ _
    | expression e => exact (ih.evaluate e s).andThen fun _ _ => ih.pending _ _ _

theorem loop_approximates {n : Nat} (ih : StepApproximates n) (g : Expr) (b : Statement)
    (i : UInt64) (s : State) :
    (executeLoop (n + 1) g b i s).Approximates (executeLoop (n + 2) g b i s) := by
  refine (ih.evaluate g s).andThen fun x s => ?_
  split
  · exact .refl _
  · exact (ih.pending _ _ _).andThen fun _ _ => ih.loop _ _ _ _

theorem stepApproximates (n : Nat) : StepApproximates n := by
  induction n with
  | zero => exact ⟨fun _ _ => .inl rfl, fun _ _ => .inl rfl, fun _ _ _ => .inl rfl,
      fun _ _ _ _ => .inl rfl⟩
  | succ n ih =>
    refine ⟨evaluate_approximates ih, fun es s => ?_, pending_approximates ih, loop_approximates ih⟩
    cases es with
    | nil => exact .refl _
    | cons e es =>
      exact (ih.evaluate e s).andThen fun _ s => (ih.arguments es s).andThen fun _ _ => .refl _

/-- An outcome that the next larger bound keeps is that of every larger bound. -/
theorem approximates_of_le {α : Type} {f : Nat → Outcome α}
    (hf : ∀ n, (f n).Approximates (f (n + 1))) {n m : Nat} (hnm : n ≤ m) :
    (f n).Approximates (f m) := by
  induction hnm with
  | refl => exact .refl _
  | step _ ih => exact ih.trans (hf _)

/-! ### Settling -/

/-- From some bound on, the outcome is `o`. -/
def Settles {α : Type} (f : Nat → Outcome α) (o : Outcome α) : Prop := ∃ n, ∀ m, n ≤ m → f m = o

namespace Settles

variable {α β : Type} {f g : Nat → Outcome α} {o o' : Outcome α}

theorem const (o : Outcome α) : Settles (fun _ => o) o := ⟨0, fun _ _ => rfl⟩

theorem unique (h : Settles f o) (h' : Settles f o') : o = o' := by
  obtain ⟨n, hn⟩ := h
  obtain ⟨m, hm⟩ := h'
  rw [← hn (max n m) (Nat.le_max_left n m), hm (max n m) (Nat.le_max_right n m)]

theorem of_approximates (hf : ∀ n, (f n).Approximates (f (n + 1))) {n : Nat} (h : f n = o)
    (ho : o ≠ .unfinished) : Settles f o := by
  subst h
  exact ⟨n, fun m hm => eq_of_approximates (approximates_of_le hf hm) ho⟩

/-- One more step needs one more in the bound. -/
theorem step (hg : ∀ n, g (n + 1) = f n) (h : Settles f o) : Settles g o := by
  obtain ⟨n, hn⟩ := h
  refine ⟨n + 1, fun m hm => ?_⟩
  obtain ⟨k, rfl⟩ : ∃ k, m = k + 1 := ⟨m - 1, by omega⟩
  rw [hg, hn k (by omega)]

theorem andThen {next : Nat → α → State → Outcome β} {r : Outcome β} (h : Settles f o)
    (hnext : Settles (fun n => o.andThen (next n)) r) :
    Settles (fun n => (f n).andThen (next n)) r := by
  obtain ⟨n, hn⟩ := h
  obtain ⟨m, hm⟩ := hnext
  refine ⟨max n m, fun k hk => ?_⟩
  show (f k).andThen (next k) = r
  rw [hn k (by omega), ← hm k (by omega)]

end Settles

theorem settles_of_pending {n : Nat} {ps : List Statement} {v : Number} {s : State}
    {o : Outcome Number} (h : executePending n ps v s = o) (ho : o ≠ .unfinished) :
    Settles (fun n => executePending n ps v s) o :=
  .of_approximates (fun n => (stepApproximates n).pending ps v s) h ho

theorem settles_of_evaluate {n : Nat} {e : Expr} {s : State} {o : Outcome Number}
    (h : e.evaluate n s = o) (ho : o ≠ .unfinished) : Settles (fun n => e.evaluate n s) o :=
  .of_approximates (fun n => (stepApproximates n).evaluate e s) h ho

end Imperative
