import Imperative.Program
import Imperative.Proofs.Bounds
import Imperative.Proofs.Rendering

/-! Evaluation never looks at a line.  It only carries lines along, into the procedures that names
are bound to, the events that are logged and the errors.  So when all lines of a program and of the
state before it are changed in the same way, the outcome is changed in that way and in no other, and
that at every bound. -/

namespace Imperative

/-! ### Lines of trees -/

mutual

/-- The expression with every line replaced. -/
def Expr.mapLines (f : Nat → Nat) : Expr → Expr
  | .literal x => .literal x
  | .var name line => .var name (f line)
  | .binary op a b => .binary op (a.mapLines f) (b.mapLines f)
  | .assign name e => .assign name (e.mapLines f)
  | .call name es line => .call name (argumentsMapLines f es) (f line)

def argumentsMapLines (f : Nat → Nat) : List Expr → List Expr
  | [] => []
  | e :: es => e.mapLines f :: argumentsMapLines f es

end

def Statement.mapLines (f : Nat → Nat) : Statement → Statement
  | .sequence a b => .sequence (a.mapLines f) (b.mapLines f)
  | .procedure name ps body => .procedure name ps (body.mapLines f)
  | .choice g yes no => .choice (g.mapLines f) (yes.mapLines f) (no.mapLines f)
  | .loop g body => .loop (g.mapLines f) (body.mapLines f)
  | .print e => .print (e.mapLines f)
  | .expression e => .expression (e.mapLines f)

variable (f g : Nat → Nat)

theorem argumentsMapLines_eq_map (es : List Expr) :
    argumentsMapLines f es = es.map (Expr.mapLines f) := by
  induction es with
  | nil => rfl
  | cons e es ih => rw [argumentsMapLines, List.map_cons, ih]

mutual

theorem Expr.mapLines_mapLines : (e : Expr) → (e.mapLines g).mapLines f = e.mapLines (f ∘ g)
  | .literal _ => rfl
  | .var _ _ => rfl
  | .binary op a b => by
    simp only [Expr.mapLines, a.mapLines_mapLines, b.mapLines_mapLines]
  | .assign name e => by simp only [Expr.mapLines, e.mapLines_mapLines]
  | .call name es line => by
    simp only [Expr.mapLines, argumentsMapLines_argumentsMapLines es, Function.comp]

theorem argumentsMapLines_argumentsMapLines : (es : List Expr) →
    argumentsMapLines f (argumentsMapLines g es) = argumentsMapLines (f ∘ g) es
  | [] => rfl
  | e :: es => by
    simp only [argumentsMapLines, e.mapLines_mapLines, argumentsMapLines_argumentsMapLines es]

end

mutual

theorem Expr.mapLines_id : (e : Expr) → e.mapLines id = e
  | .literal _ => rfl
  | .var _ _ => rfl
  | .binary op a b => by simp only [Expr.mapLines, a.mapLines_id, b.mapLines_id]
  | .assign name e => by simp only [Expr.mapLines, e.mapLines_id]
  | .call name es line => by simp only [Expr.mapLines, argumentsMapLines_id es, id]

theorem argumentsMapLines_id : (es : List Expr) → argumentsMapLines id es = es
  | [] => rfl
  | e :: es => by simp only [argumentsMapLines, e.mapLines_id, argumentsMapLines_id es]

end

mutual

theorem Expr.mapLines_const (line : Nat) : (e : Expr) → e.mapLines (fun _ => line) = e.atLine line
  | .literal _ => rfl
  | .var _ _ => rfl
  | .binary op a b => by
    simp only [Expr.mapLines, Expr.atLine, a.mapLines_const, b.mapLines_const]
  | .assign name e => by simp only [Expr.mapLines, Expr.atLine, e.mapLines_const]
  | .call name es _ => by simp only [Expr.mapLines, Expr.atLine, argumentsMapLines_const line es]

theorem argumentsMapLines_const (line : Nat) : (es : List Expr) →
    argumentsMapLines (fun _ => line) es = argumentsAtLine line es
  | [] => rfl
  | e :: es => by
    simp only [argumentsMapLines, argumentsAtLine, e.mapLines_const, argumentsMapLines_const]

end

namespace Statement

theorem mapLines_mapLines (s : Statement) : (s.mapLines g).mapLines f = s.mapLines (f ∘ g) := by
  induction s <;> simp_all [mapLines, Expr.mapLines_mapLines]

theorem mapLines_id (s : Statement) : s.mapLines id = s := by
  induction s <;> simp_all [mapLines, Expr.mapLines_id]

theorem mapLines_const (line : Nat) (s : Statement) :
    s.mapLines (fun _ => line) = s.atLine line := by
  induction s <;> simp_all [mapLines, atLine, Expr.mapLines_const]

/-- When all lines become one line, it does not matter what they were before. -/
theorem atLine_mapLines (line : Nat) (s : Statement) :
    (s.mapLines f).atLine line = s.atLine line := by
  rw [← mapLines_const, mapLines_mapLines, ← mapLines_const]
  rfl

end Statement

/-! ### Lines of states -/

def Binding.mapLines : Binding → Binding
  | number x => number x
  | procedure p => procedure ⟨p.name, p.parameters, p.body.mapLines f⟩

def Environment.mapLines (env : Environment) : Environment :=
  ⟨env.bindings.map fun _ b => b.mapLines f⟩

/-- Only calls are logged with their lines. -/
def Event.mapLines : Event → Event
  | called line name arguments => called (f line) name arguments
  | e => e

def Transcript.mapLines (t : Transcript) : Transcript :=
  ⟨t.output, t.events.map (Event.mapLines f)⟩

def State.mapLines (s : State) : State := ⟨s.environment.mapLines f, s.transcript.mapLines f⟩

def RuntimeError.mapLines (e : RuntimeError) : RuntimeError := ⟨e.cause, e.name, f e.line⟩

def Outcome.mapLines {α : Type} : Outcome α → Outcome α
  | finished x s => finished x (s.mapLines f)
  | failed e t => failed (e.mapLines f) (t.mapLines f)
  | unfinished => unfinished

namespace Environment

theorem lookup_mapLines (env : Environment) (name : String) :
    (env.mapLines f).lookup name = (env.lookup name).map (Binding.mapLines f) := by
  simp [lookup, mapLines, Std.ExtTreeMap.getElem?_map]

theorem mapLines_empty : empty.mapLines f = empty := by
  ext1 name
  rw [lookup_mapLines, lookup_empty, Option.map_none]

theorem mapLines_bind (env : Environment) (name : String) (b : Binding) :
    (env.bind name b).mapLines f = (env.mapLines f).bind name (b.mapLines f) := by
  ext1 other
  rw [lookup_mapLines, lookup_bind, lookup_bind, lookup_mapLines]
  split <;> rfl

theorem mapLines_ofParameters (parameters : List (String × Number)) :
    (ofParameters parameters).mapLines f = ofParameters parameters := by
  have hempty := mapLines_empty f
  unfold ofParameters
  generalize empty = env at hempty
  induction parameters generalizing env with
  | nil => exact hempty
  | cons p parameters ih =>
    apply ih
    rw [mapLines_bind, hempty]
    rfl

end Environment

theorem Transcript.mapLines_record (e : Event) (t : Transcript) :
    (t.record e).mapLines f = (t.mapLines f).record (e.mapLines f) := by
  simp [mapLines, record]

theorem State.mapLines_bind (name : String) (b : Binding) (s : State) :
    (s.bind name b).mapLines f = (s.mapLines f).bind name (b.mapLines f) := by
  simp only [State.bind, State.mapLines, Environment.mapLines_bind]

theorem State.mapLines_initial : initial.mapLines f = initial := by
  simp [State.mapLines, initial, Environment.mapLines_empty, Transcript.mapLines, Transcript.empty]

namespace Outcome

variable {f}

theorem mapLines_andThen {α β : Type} {o o' : Outcome α} {next next' : α → State → Outcome β}
    (ho : o' = o.mapLines f)
    (hnext : ∀ x s, next' x (s.mapLines f) = (next x s).mapLines f) :
    o'.andThen next' = (o.andThen next).mapLines f := by
  subst ho
  cases o with
  | finished x s => exact hnext x s
  | failed e t => rfl
  | unfinished => rfl

theorem mapLines_eq_unfinished_iff {α : Type} {o : Outcome α} :
    o.mapLines f = .unfinished ↔ o = .unfinished := by
  cases o <;> simp [mapLines]

end Outcome

/-! ### Evaluation -/

/-- Within this bound, lines do not matter. -/
structure Unlined (n : Nat) : Prop where
  evaluate : ∀ (e : Expr) (s : State),
    (e.mapLines f).evaluate n (s.mapLines f) = (e.evaluate n s).mapLines f
  arguments : ∀ (es : List Expr) (s : State),
    evaluateArguments n (argumentsMapLines f es) (s.mapLines f) =
      (evaluateArguments n es s).mapLines f
  pending : ∀ (ps : List Statement) (v : Number) (s : State),
    executePending n (ps.map (Statement.mapLines f)) v (s.mapLines f) =
      (executePending n ps v s).mapLines f
  loop : ∀ (g : Expr) (b : Statement) (i : UInt64) (s : State),
    executeLoop n (g.mapLines f) (b.mapLines f) i (s.mapLines f) =
      (executeLoop n g b i s).mapLines f

section Step

variable {f} {n : Nat} (ih : Unlined f n)

include ih

theorem call_unlined (name : String) (es : List Expr) (line : Nat) (s : State) :
    Expr.evaluate (n + 1) (.call name (argumentsMapLines f es) (f line)) (s.mapLines f) =
      (Expr.evaluate (n + 1) (.call name es line) s).mapLines f := by
  obtain ⟨env, t⟩ := s
  simp only [Expr.evaluate, State.mapLines, Environment.lookup_mapLines]
  have hlength : (argumentsMapLines f es).length = es.length := by
    rw [argumentsMapLines_eq_map, List.length_map]
  cases env.lookup name with
  | none => rfl
  | some b =>
    cases b with
    | number x => rfl
    | procedure p =>
      simp only [Option.map_some, Binding.mapLines, hlength]
      split
      · refine Outcome.mapLines_andThen (ih.arguments es ⟨env, t⟩) fun xs s => ?_
        refine Outcome.mapLines_andThen ?_ fun _ _ => rfl
        rw [← ih.pending]
        simp only [State.mapLines, Environment.mapLines_ofParameters, Transcript.mapLines_record]
        rfl
      · rfl

theorem evaluate_unlined (e : Expr) (s : State) :
    (e.mapLines f).evaluate (n + 1) (s.mapLines f) = (e.evaluate (n + 1) s).mapLines f := by
  cases e with
  | literal x => rfl
  | var name line =>
    simp only [Expr.mapLines, Expr.evaluate]
    rw [State.mapLines, Environment.lookup_mapLines]
    cases s.environment.lookup name with
    | none => rfl
    | some b => cases b <;> rfl
  | binary op a b =>
    refine Outcome.mapLines_andThen (ih.evaluate a s) fun x s => ?_
    exact Outcome.mapLines_andThen (ih.evaluate b s) fun _ _ => rfl
  | assign name e =>
    refine Outcome.mapLines_andThen (ih.evaluate e s) fun x s => ?_
    rw [Outcome.mapLines, State.mapLines_bind]
    rfl
  | call name es line => exact call_unlined ih name es line s

theorem pending_unlined (ps : List Statement) (v : Number) (s : State) :
    executePending (n + 1) (ps.map (Statement.mapLines f)) v (s.mapLines f) =
      (executePending (n + 1) ps v s).mapLines f := by
  cases ps with
  | nil => rfl
  | cons p ps =>
    cases p with
    | sequence a b => exact ih.pending (a :: b :: ps) .zero s
    | procedure name ps' body =>
      rw [executePending_procedure, ← ih.pending, State.mapLines_bind]
      rfl
    | choice g yes no =>
      refine Outcome.mapLines_andThen (ih.evaluate g s) fun x s => ?_
      rw [← ih.pending, List.map_cons, apply_ite (Statement.mapLines f)]
    | loop g b =>
      exact Outcome.mapLines_andThen (ih.loop g b 0 s) fun x s => ih.pending ps x s
    | print e =>
      exact Outcome.mapLines_andThen (ih.evaluate e s) fun x s => ih.pending ps .zero (s.print x)
    | expression e =>
      exact Outcome.mapLines_andThen (ih.evaluate e s) fun x s => ih.pending ps x s

theorem loop_unlined (g : Expr) (b : Statement) (i : UInt64) (s : State) :
    executeLoop (n + 1) (g.mapLines f) (b.mapLines f) i (s.mapLines f) =
      (executeLoop (n + 1) g b i s).mapLines f := by
  refine Outcome.mapLines_andThen (ih.evaluate g s) fun x s' => ?_
  split
  · simp only [Outcome.mapLines, State.mapLines, Transcript.mapLines_record]
    rfl
  · exact Outcome.mapLines_andThen (ih.pending [b] .zero s') fun _ s => ih.loop g b (i + 1) s

end Step

theorem unlined (n : Nat) : Unlined f n := by
  induction n with
  | zero => exact ⟨fun _ _ => rfl, fun _ _ => rfl, fun _ _ _ => rfl, fun _ _ _ _ => rfl⟩
  | succ n ih =>
    refine ⟨evaluate_unlined ih, fun es s => ?_, pending_unlined ih, loop_unlined ih⟩
    cases es with
    | nil => rfl
    | cons e es =>
      refine Outcome.mapLines_andThen (ih.evaluate e s) fun x s => ?_
      exact Outcome.mapLines_andThen (ih.arguments es s) fun _ _ => rfl

/-- A program and a state whose lines are changed in the same way have the outcome with its lines
changed in that way. -/
theorem Statement.execute_mapLines (n : Nat) (p : Statement) (s : State) :
    (p.mapLines f).execute n (s.mapLines f) = (p.execute n s).mapLines f :=
  (unlined f n).pending [p] .zero s

end Imperative
