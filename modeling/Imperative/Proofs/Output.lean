import Imperative.Proofs.Bounds

/-! Output is only ever appended to.  An evaluation begun after a transcript is the one begun after
nothing, with that transcript put before all that it prints and logs: it takes the same course,
whether it finishes, fails or goes on.  What it prints is one number to a line. -/

namespace Imperative

/-- Numbers as they are printed, each on a line of its own. -/
def printedLines : List Number → String
  | [] => ""
  | x :: xs => x.printed ++ "\n" ++ printedLines xs

theorem printedLines_append (xs ys : List Number) :
    printedLines (xs ++ ys) = printedLines xs ++ printedLines ys := by
  induction xs with
  | nil => simp [printedLines]
  | cons x xs ih => simp [printedLines, ih, String.append_assoc]

namespace Transcript

/-- All of `t` and then all of `u`. -/
def append (t u : Transcript) : Transcript := ⟨t.output ++ u.output, t.events ++ u.events⟩

theorem append_empty (t : Transcript) : t.append .empty = t := by
  simp [append, empty]

theorem append_assoc (t u v : Transcript) : (t.append u).append v = t.append (u.append v) := by
  simp [append, String.append_assoc, Array.append_assoc]

theorem print_eq_append (x : Number) (t : Transcript) :
    t.print x = t.append ⟨printedLines [x], #[]⟩ := by
  simp [print, append, printedLines, String.append_assoc]

theorem record_eq_append (e : Event) (t : Transcript) :
    t.record e = t.append ⟨printedLines [], #[e]⟩ := by
  simp [record, append, printedLines]

end Transcript

namespace Outcome

variable {α : Type}

/-- The outcome with `t` before all that was printed and logged. -/
def after (t : Transcript) : Outcome α → Outcome α
  | finished x s => .finished x ⟨s.environment, t.append s.transcript⟩
  | failed e u => .failed e (t.append u)
  | unfinished => .unfinished

/-- If there is an outcome, what was printed is lines of one number each. -/
def PrintsLines : Outcome α → Prop
  | finished _ s => ∃ xs, s.transcript.output = printedLines xs
  | failed _ t => ∃ xs, t.output = printedLines xs
  | unfinished => True

theorem after_append (t u : Transcript) (o : Outcome α) :
    o.after (t.append u) = (o.after u).after t := by
  cases o <;> simp [after, Transcript.append_assoc]

theorem after_empty (o : Outcome α) : o.after .empty = o := by
  cases o <;> simp [after, Transcript.append, Transcript.empty]

theorem PrintsLines.after {o : Outcome α} (h : o.PrintsLines) {t : Transcript} {xs : List Number}
    (ht : t.output = printedLines xs) : (o.after t).PrintsLines := by
  cases o with
  | unfinished => trivial
  | finished x s =>
    obtain ⟨ys, hys⟩ := h
    exact ⟨xs ++ ys, by simp only [Transcript.append, ht, hys, printedLines_append]⟩
  | failed e u =>
    obtain ⟨ys, hys⟩ := h
    exact ⟨xs ++ ys, by simp only [Transcript.append, ht, hys, printedLines_append]⟩

end Outcome

/-! ### Evaluations that only append -/

/-- One outcome that prints lines is the outcome from every transcript, put after it. -/
def Appends {α : Type} (f : Transcript → Outcome α) : Prop :=
  ∃ o : Outcome α, o.PrintsLines ∧ ∀ t, f t = o.after t

namespace Appends

variable {α β : Type} {f : Transcript → Outcome α}

theorem unfinished : Appends fun _ => (.unfinished : Outcome α) :=
  ⟨.unfinished, trivial, fun _ => rfl⟩

theorem finished (x : α) (env : Environment) : Appends fun t => .finished x ⟨env, t⟩ :=
  ⟨.finished x ⟨env, .empty⟩, ⟨[], rfl⟩, fun t => by simp only [Outcome.after, t.append_empty]⟩

theorem failed (e : RuntimeError) : Appends fun t => (.failed e t : Outcome α) :=
  ⟨.failed e .empty, ⟨[], rfl⟩, fun t => by simp only [Outcome.after, t.append_empty]⟩

/-- What is printed and logged first comes before the rest. -/
theorem shift (h : Appends f) (xs : List Number) (events : Array Event) :
    Appends fun t => f (t.append ⟨printedLines xs, events⟩) := by
  obtain ⟨o, hlines, ho⟩ := h
  refine ⟨o.after ⟨printedLines xs, events⟩, hlines.after rfl, fun t => ?_⟩
  rw [← Outcome.after_append]
  exact ho _

theorem print (h : Appends f) (x : Number) : Appends fun t => f (t.print x) := by
  simpa only [Transcript.print_eq_append] using h.shift [x] #[]

theorem record (h : Appends f) (e : Event) : Appends fun t => f (t.record e) := by
  simpa only [Transcript.record_eq_append] using h.shift [] #[e]

theorem andThen {next : α → State → Outcome β} (h : Appends f)
    (hnext : ∀ x env, Appends fun t => next x ⟨env, t⟩) :
    Appends fun t => (f t).andThen next := by
  obtain ⟨o, hlines, ho⟩ := h
  simp only [ho]
  cases o with
  | unfinished => exact unfinished
  | failed e u => exact ⟨.failed e u, hlines, fun t => rfl⟩
  | finished x s =>
    obtain ⟨xs, hxs⟩ := hlines
    obtain ⟨o', hlines', ho'⟩ := hnext x s.environment
    refine ⟨o'.after s.transcript, hlines'.after hxs, fun t => ?_⟩
    rw [← Outcome.after_append]
    exact ho' _

end Appends

/-- Within this bound, evaluation only appends to the transcript. -/
structure AppendsWithin (n : Nat) : Prop where
  evaluate : ∀ e env, Appends fun t => Expr.evaluate n e ⟨env, t⟩
  arguments : ∀ es env, Appends fun t => evaluateArguments n es ⟨env, t⟩
  pending : ∀ ps v env, Appends fun t => executePending n ps v ⟨env, t⟩
  loop : ∀ g b i env, Appends fun t => executeLoop n g b i ⟨env, t⟩

section Step

variable {n : Nat} (ih : AppendsWithin n) (env : Environment)

include ih

theorem evaluate_appends (e : Expr) : Appends fun t => e.evaluate (n + 1) ⟨env, t⟩ := by
  cases e with
  | literal x => exact .finished x env
  | var name line =>
    simp only [Expr.evaluate]
    split
    · exact .finished _ env
    · exact .failed _
    · exact .failed _
  | binary op a b =>
    refine (ih.evaluate a env).andThen fun x env₁ => ?_
    exact (ih.evaluate b env₁).andThen fun y env₂ => .finished _ env₂
  | assign name e =>
    exact (ih.evaluate e env).andThen fun x env₁ => .finished x (env₁.bind name (.number x))
  | call name es line =>
    simp only [Expr.evaluate]
    split
    · exact .failed _
    · exact .failed _
    · next p _ =>
      split
      · refine (ih.arguments es env).andThen fun xs env₁ => ?_
        refine Appends.andThen ?_ fun x env₂ => .finished x env
        exact (ih.pending [p.body] .zero (.ofParameters (p.parameters.zip xs))).record _
      · exact .failed _

theorem arguments_appends (es : List Expr) :
    Appends fun t => evaluateArguments (n + 1) es ⟨env, t⟩ := by
  cases es with
  | nil => exact .finished [] env
  | cons e es =>
    refine (ih.evaluate e env).andThen fun x env₁ => ?_
    exact (ih.arguments es env₁).andThen fun xs env₂ => .finished _ env₂

theorem pending_appends (ps : List Statement) (v : Number) :
    Appends fun t => executePending (n + 1) ps v ⟨env, t⟩ := by
  cases ps with
  | nil => exact .finished v env
  | cons p ps =>
    cases p with
    | sequence a b => exact ih.pending _ _ env
    | procedure name parameters body =>
      exact ih.pending ps .one (env.bind name (.procedure ⟨name, parameters, body⟩))
    | choice g yes no =>
      exact (ih.evaluate g env).andThen fun x env₁ => ih.pending _ _ env₁
    | loop g b => exact (ih.loop g b 0 env).andThen fun x env₁ => ih.pending ps x env₁
    | print e =>
      exact (ih.evaluate e env).andThen fun x env₁ => (ih.pending ps .zero env₁).print x
    | expression e => exact (ih.evaluate e env).andThen fun x env₁ => ih.pending ps x env₁

theorem loop_appends (g : Expr) (b : Statement) (i : UInt64) :
    Appends fun t => executeLoop (n + 1) g b i ⟨env, t⟩ := by
  refine (ih.evaluate g env).andThen fun x env₁ => ?_
  split
  · exact (Appends.finished Number.zero env).record _
  · exact (ih.pending [b] .zero env₁).andThen fun _ env₂ => ih.loop g b (i + 1) env₂

end Step

theorem appendsWithin (n : Nat) : AppendsWithin n := by
  induction n with
  | zero => exact ⟨fun _ _ => .unfinished, fun _ _ => .unfinished, fun _ _ _ => .unfinished,
      fun _ _ _ _ => .unfinished⟩
  | succ n ih =>
    exact ⟨fun e env => evaluate_appends ih env e, fun es env => arguments_appends ih env es,
      fun ps v env => pending_appends ih env ps v, fun g b i env => loop_appends ih env g b i⟩

theorem Appends.eq_after {α : Type} {f : Transcript → Outcome α} (h : Appends f) (t : Transcript) :
    f t = (f .empty).after t ∧ (f .empty).PrintsLines := by
  obtain ⟨o, hlines, ho⟩ := h
  rw [ho t, ho .empty, o.after_empty]
  exact ⟨rfl, hlines⟩

/-- From a transcript, a statement or an expression runs exactly as from the empty one, with the
transcript before what it prints and logs, and it prints lines of one number each. -/
theorem output_appended (env : Environment) (t : Transcript) (bound : Nat) :
    (∀ s : Statement,
      s.execute bound ⟨env, t⟩ = (s.execute bound ⟨env, .empty⟩).after t ∧
      (s.execute bound ⟨env, .empty⟩).PrintsLines) ∧
    (∀ e : Expr,
      e.evaluate bound ⟨env, t⟩ = (e.evaluate bound ⟨env, .empty⟩).after t ∧
      (e.evaluate bound ⟨env, .empty⟩).PrintsLines) :=
  ⟨fun s => ((appendsWithin bound).pending [s] .zero env).eq_after t,
    fun e => ((appendsWithin bound).evaluate e env).eq_after t⟩

end Imperative
