import Imperative.Proofs.NumberText
import Imperative.Proofs.Output
import Mathlib.Data.List.Forall2

/-! The numbers that a run prints.  They are collected beside the evaluation, which is asked only
for the value and the environment in which it goes on; the text of a run is their lines, so it tells
them all, in their order, up to the difference between NaNs. -/

namespace Imperative

/-! ### Lines -/

/-- Two texts up to their first newlines. -/
theorem eq_of_append_newline {cs ds cs' ds' : List Char} (hcs : '\n' ∉ cs) (hds : '\n' ∉ ds)
    (h : cs ++ '\n' :: cs' = ds ++ '\n' :: ds') : cs = ds ∧ cs' = ds' := by
  induction cs generalizing ds with
  | nil =>
    cases ds with
    | nil => exact ⟨rfl, (List.cons.inj h).2⟩
    | cons d ds =>
      obtain ⟨rfl, -⟩ := List.cons.inj h
      exact absurd List.mem_cons_self hds
  | cons c cs ih =>
    cases ds with
    | nil =>
      obtain ⟨rfl, -⟩ := List.cons.inj h
      exact absurd List.mem_cons_self hcs
    | cons d ds =>
      obtain ⟨rfl, hrest⟩ := List.cons.inj h
      obtain ⟨rfl, hrest'⟩ := ih (List.not_mem_of_not_mem_cons hcs)
        (List.not_mem_of_not_mem_cons hds) hrest
      exact ⟨rfl, hrest'⟩

theorem toList_printedLines_cons (x : Number) (xs : List Number) :
    (printedLines (x :: xs)).toList = x.printed.toList ++ '\n' :: (printedLines xs).toList := by
  simp [printedLines]

/-- Lines of numbers tell the numbers, one by one. -/
theorem printedLines_eq_iff {xs ys : List Number} :
    printedLines xs = printedLines ys ↔ List.Forall₂ Number.Same xs ys := by
  constructor
  · intro h
    induction xs generalizing ys with
    | nil =>
      cases ys with
      | nil => exact .nil
      | cons y ys =>
        have htext := congrArg String.toList h
        rw [toList_printedLines_cons] at htext
        simp [printedLines] at htext
    | cons x xs ih =>
      have htext := congrArg String.toList h
      rw [toList_printedLines_cons] at htext
      cases ys with
      | nil => simp [printedLines] at htext
      | cons y ys =>
        rw [toList_printedLines_cons] at htext
        obtain ⟨hhead, htail⟩ :=
          eq_of_append_newline x.newline_notMem_printed y.newline_notMem_printed htext
        exact .cons (Number.printed_eq_iff.mp (String.toList_inj.mp hhead))
          (ih (String.toList_inj.mp htail))
  · intro h
    induction h with
    | nil => rfl
    | cons hhead _ ih => rw [printedLines, printedLines, Number.printed_eq_iff.mpr hhead, ih]

/-! ### What is printed -/

namespace Outcome

variable {α : Type}

/-- What was printed in all, if there is an outcome. -/
def output? : Outcome α → Option String
  | finished _ s => some s.transcript.output
  | failed _ t => some t.output
  | unfinished => none

/-- What is printed after the value, if there is one. -/
def printsThen (o : Outcome α) (next : α → Environment → List Number) : List Number :=
  match o with
  | finished x s => next x s.environment
  | _ => []

end Outcome

mutual

/-- The numbers printed while an expression is evaluated. -/
def Expr.prints : (bound : Nat) → Expr → Environment → List Number
  | 0, _, _ => []
  | _ + 1, .literal _, _ => []
  | _ + 1, .var _ _, _ => []
  | bound + 1, .binary _ left right, env =>
    left.prints bound env ++
    (left.evaluate bound ⟨env, .empty⟩).printsThen fun _ env => right.prints bound env
  | bound + 1, .assign _ value, env => value.prints bound env
  | bound + 1, .call name arguments _, env =>
    match env.lookup name with
    | some (.procedure p) =>
      if p.parameters.length = arguments.length then
        argumentsPrint bound arguments env ++
        (evaluateArguments bound arguments ⟨env, .empty⟩).printsThen fun values _ =>
        pendingPrint bound [p.body] (.ofParameters (p.parameters.zip values))
      else []
    | _ => []

def argumentsPrint : (bound : Nat) → List Expr → Environment → List Number
  | 0, _, _ => []
  | _ + 1, [], _ => []
  | bound + 1, e :: es, env =>
    e.prints bound env ++
    (e.evaluate bound ⟨env, .empty⟩).printsThen fun _ env => argumentsPrint bound es env

def pendingPrint : (bound : Nat) → List Statement → Environment → List Number
  | 0, _, _ => []
  | _ + 1, [], _ => []
  | bound + 1, .sequence first second :: pending, env =>
    pendingPrint bound (first :: second :: pending) env
  | bound + 1, .procedure name parameters body :: pending, env =>
    pendingPrint bound pending (env.bind name (.procedure ⟨name, parameters, body⟩))
  | bound + 1, .choice guard yes no :: pending, env =>
    guard.prints bound env ++
    (guard.evaluate bound ⟨env, .empty⟩).printsThen fun x env =>
    pendingPrint bound ((if x.isZero then no else yes) :: pending) env
  | bound + 1, .loop guard body :: pending, env =>
    loopPrint bound guard body env ++
    (executeLoop bound guard body 0 ⟨env, .empty⟩).printsThen fun _ env =>
    pendingPrint bound pending env
  | bound + 1, .print value :: pending, env =>
    value.prints bound env ++
    (value.evaluate bound ⟨env, .empty⟩).printsThen fun x env => x :: pendingPrint bound pending env
  | bound + 1, .expression value :: pending, env =>
    value.prints bound env ++
    (value.evaluate bound ⟨env, .empty⟩).printsThen fun _ env => pendingPrint bound pending env

def loopPrint : (bound : Nat) → Expr → Statement → Environment → List Number
  | 0, _, _, _ => []
  | bound + 1, guard, body, env =>
    guard.prints bound env ++
    (guard.evaluate bound ⟨env, .empty⟩).printsThen fun x env =>
    if x.isZero then []
    else pendingPrint bound [body] env ++
      (executePending bound [body] .zero ⟨env, .empty⟩).printsThen fun _ env =>
      loopPrint bound guard body env

end

/-- The numbers that a statement prints, in their order. -/
def Statement.prints (bound : Nat) (p : Statement) (env : Environment) : List Number :=
  pendingPrint bound [p] env

/-! ### Output is the lines of what is printed -/

/-- Begun after any transcript, an evaluation that ends has appended the lines of `xs` to it. -/
def Prints {α : Type} (f : Transcript → Outcome α) (xs : List Number) : Prop :=
  ∀ t text, (f t).output? = some text → text = t.output ++ printedLines xs

namespace Prints

variable {α β : Type} {f : Transcript → Outcome α} {xs : List Number}

theorem unfinished (xs : List Number) : Prints (fun _ => (.unfinished : Outcome α)) xs :=
  fun _ _ h => nomatch h

theorem finished (x : α) (env : Environment) : Prints (fun t => .finished x ⟨env, t⟩) [] := by
  rintro t _ ⟨⟩
  simp [printedLines]

theorem failed (e : RuntimeError) : Prints (fun t => (.failed e t : Outcome α)) [] := by
  rintro t _ ⟨⟩
  simp [printedLines]

theorem print (h : Prints f xs) (x : Number) : Prints (fun t => f (t.print x)) (x :: xs) := by
  intro t text htext
  rw [h _ text htext]
  simp [Transcript.print, printedLines, String.append_assoc]

theorem record (h : Prints f xs) (e : Event) : Prints (fun t => f (t.record e)) xs :=
  fun t text htext => h (t.record e) text htext

theorem andThen {next : α → State → Outcome β} {ys : α → Environment → List Number}
    (happends : Appends f) (h : Prints f xs)
    (hnext : ∀ x env, Prints (fun t => next x ⟨env, t⟩) (ys x env)) :
    Prints (fun t => (f t).andThen next) (xs ++ (f .empty).printsThen ys) := by
  intro t text htext
  have hft := (happends.eq_after t).1
  have ht := h t
  simp only [hft] at ht htext
  cases hf : f .empty with
  | unfinished => simp [hf, Outcome.after, Outcome.andThen, Outcome.output?] at htext
  | failed e u =>
    rw [hf] at ht htext
    simpa [Outcome.printsThen] using ht text htext
  | finished x s =>
    rw [hf] at ht htext
    have hfirst := ht _ rfl
    have hsecond := hnext x s.environment _ text htext
    rw [hsecond, hfirst, printedLines_append, String.append_assoc]
    rfl

theorem andThen_quiet {next : α → State → Outcome β} (happends : Appends f) (h : Prints f xs)
    (hnext : ∀ x env, Prints (fun t => next x ⟨env, t⟩) []) :
    Prints (fun t => (f t).andThen next) xs := by
  have hnone : (f .empty).printsThen (fun _ _ => []) = [] := by cases f .empty <;> rfl
  have hall := h.andThen happends hnext
  rwa [hnone, List.append_nil] at hall

end Prints

/-- Within this bound, evaluation appends the lines of the numbers it prints. -/
structure PrintsWithin (n : Nat) : Prop where
  evaluate : ∀ e env, Prints (fun t => Expr.evaluate n e ⟨env, t⟩) (e.prints n env)
  arguments : ∀ es env, Prints (fun t => evaluateArguments n es ⟨env, t⟩) (argumentsPrint n es env)
  pending : ∀ ps v env, Prints (fun t => executePending n ps v ⟨env, t⟩) (pendingPrint n ps env)
  loop : ∀ g b i env, Prints (fun t => executeLoop n g b i ⟨env, t⟩) (loopPrint n g b env)

section Step

variable {n : Nat} (ih : PrintsWithin n) (env : Environment)

include ih

theorem evaluate_prints (e : Expr) :
    Prints (fun t => e.evaluate (n + 1) ⟨env, t⟩) (e.prints (n + 1) env) := by
  have happends := appendsWithin n
  cases e with
  | literal x => exact .finished x env
  | var name line =>
    simp only [Expr.evaluate, Expr.prints]
    split
    · exact .finished _ env
    · exact .failed _
    · exact .failed _
  | binary op a b =>
    refine (ih.evaluate a env).andThen (happends.evaluate a env) fun x env₁ => ?_
    exact (ih.evaluate b env₁).andThen_quiet (happends.evaluate b env₁)
      fun y env₂ => .finished _ env₂
  | assign name e =>
    exact (ih.evaluate e env).andThen_quiet (happends.evaluate e env)
      fun x env₁ => .finished x (env₁.bind name (.number x))
  | call name es line =>
    simp only [Expr.evaluate, Expr.prints]
    cases env.lookup name with
    | none => exact .failed _
    | some binding =>
      cases binding with
      | number x => exact .failed _
      | procedure p =>
        by_cases harity : p.parameters.length = es.length
        · simp only [if_pos harity]
          refine (ih.arguments es env).andThen (happends.arguments es env) fun xs env₁ => ?_
          have hbody := happends.pending [p.body] .zero (.ofParameters (p.parameters.zip xs))
          have hprints := ih.pending [p.body] .zero (.ofParameters (p.parameters.zip xs))
          exact (hprints.record _).andThen_quiet (hbody.record _) fun x env₂ => .finished x env
        · simp only [if_neg harity]
          exact .failed _

theorem arguments_print (es : List Expr) :
    Prints (fun t => evaluateArguments (n + 1) es ⟨env, t⟩) (argumentsPrint (n + 1) es env) := by
  have happends := appendsWithin n
  cases es with
  | nil => exact .finished [] env
  | cons e es =>
    refine (ih.evaluate e env).andThen (happends.evaluate e env) fun x env₁ => ?_
    exact (ih.arguments es env₁).andThen_quiet (happends.arguments es env₁)
      fun xs env₂ => .finished _ env₂

theorem pending_print (ps : List Statement) (v : Number) :
    Prints (fun t => executePending (n + 1) ps v ⟨env, t⟩) (pendingPrint (n + 1) ps env) := by
  have happends := appendsWithin n
  cases ps with
  | nil => exact .finished v env
  | cons p ps =>
    cases p with
    | sequence a b => exact ih.pending _ _ env
    | procedure name parameters body =>
      exact ih.pending ps .one (env.bind name (.procedure ⟨name, parameters, body⟩))
    | choice g yes no =>
      exact (ih.evaluate g env).andThen (happends.evaluate g env)
        fun x env₁ => ih.pending _ .zero env₁
    | loop g b =>
      exact (ih.loop g b 0 env).andThen (happends.loop g b 0 env) fun x env₁ => ih.pending ps x env₁
    | print e =>
      exact (ih.evaluate e env).andThen (happends.evaluate e env)
        fun x env₁ => (ih.pending ps .zero env₁).print x
    | expression e =>
      exact (ih.evaluate e env).andThen (happends.evaluate e env)
        fun x env₁ => ih.pending ps x env₁

theorem loop_print (g : Expr) (b : Statement) (i : UInt64) :
    Prints (fun t => executeLoop (n + 1) g b i ⟨env, t⟩) (loopPrint (n + 1) g b env) := by
  have happends := appendsWithin n
  refine (ih.evaluate g env).andThen (happends.evaluate g env) fun x env₁ => ?_
  split
  · exact (Prints.finished Number.zero env).record _
  · exact (ih.pending [b] .zero env₁).andThen (happends.pending [b] .zero env₁)
      fun _ env₂ => ih.loop g b (i + 1) env₂

end Step

theorem printsWithin (n : Nat) : PrintsWithin n := by
  induction n with
  | zero => exact ⟨fun _ _ => .unfinished _, fun _ _ => .unfinished _, fun _ _ _ => .unfinished _,
      fun _ _ _ _ => .unfinished _⟩
  | succ n ih =>
    exact ⟨fun e env => evaluate_prints ih env e, fun es env => arguments_print ih env es,
      fun ps v env => pending_print ih env ps v, fun g b i env => loop_print ih env g b i⟩

theorem output_eq_printedLines {bound : Nat} {p : Statement} {env : Environment} {t : Transcript}
    {text : String} (h : (p.execute bound ⟨env, t⟩).output? = some text) :
    text = t.output ++ printedLines (p.prints bound env) :=
  (printsWithin bound).pending [p] .zero env t text h

/-- Printed numbers lose nothing: a finite one reads back as the same bits, two that are not NaN
differ in their texts, and two runs after the same transcript, if they end, leave the same text only
if they print the same numbers in the same order. -/
theorem printed_numbers_lossless :
    (∀ x : Number, x.isFinite = true → Number.ofText? x.printed = some x) ∧
    (∀ x y : Number, x.isNaN = false → y.isNaN = false → x.printed = y.printed → x = y) ∧
    ∀ (p q : Statement) (env env' : Environment) (t : Transcript) (m n : Nat) (a b : String),
      (p.execute m ⟨env, t⟩).output? = some a → (q.execute n ⟨env', t⟩).output? = some b →
      (a = b ↔ List.Forall₂ Number.Same (p.prints m env) (q.prints n env')) := by
  refine ⟨fun x => Number.ofText?_printed_of_isFinite, fun x y hx _ h => ?_, ?_⟩
  · rcases Number.printed_eq_iff.mp h with h | ⟨hnan, -⟩
    · exact h
    · rw [hx] at hnan
      cases hnan
  · intro p q env env' t m n a b ha hb
    rw [output_eq_printedLines ha, output_eq_printedLines hb, String.append_right_inj,
      printedLines_eq_iff]

/-- The smallest and the largest number read back, and the two zeros are printed apart, where one is
a literal and the other a product. -/
theorem printed_numbers_lossless_extremes :
    let least : Number := ⟨1⟩
    let greatest : Number := ⟨0x7fefffffffffffff⟩
    let minusZero : Number := ⟨0x8000000000000000⟩
    let p : Statement := .print (.literal .zero)
    let q : Statement := .print (.binary .multiply (.literal .zero)
      (.binary .subtract (.literal .zero) (.literal .one)))
    (least.printed = "5e-324" ∧ Number.ofText? least.printed = some least) ∧
    (greatest.printed = "1.7976931348623157e+308" ∧
      Number.ofText? greatest.printed = some greatest) ∧
    (Number.zero.isNaN = false ∧ minusZero.isNaN = false ∧
      Number.zero.printed ≠ minusZero.printed) ∧
    ((p.execute 9 .initial).output? = some "0.0\n" ∧
      (q.execute 9 .initial).output? = some "-0.0\n" ∧
      ¬List.Forall₂ Number.Same (p.prints 9 .empty) (q.prints 9 .empty)) := by
  intro least greatest minusZero p q
  obtain ⟨hread, happart, hruns⟩ := printed_numbers_lossless
  have hp : (p.execute 9 .initial).output? = some "0.0\n" := by decide +kernel
  have hq : (q.execute 9 .initial).output? = some "-0.0\n" := by decide +kernel
  refine ⟨⟨by decide +kernel, hread least (by decide +kernel)⟩,
    ⟨by decide +kernel, hread greatest (by decide +kernel)⟩,
    ⟨by decide +kernel, by decide +kernel, fun h => ?_⟩, hp, hq, fun h => ?_⟩
  · exact absurd (happart .zero minusZero (by decide +kernel) (by decide +kernel) h) (by decide)
  · exact absurd ((hruns p q .empty .empty .empty 9 9 _ _ hp hq).mpr h) (by decide)

end Imperative
