import Imperative.Proofs.Occurrence
import Imperative.Proofs.Termination
import Imperative.Tree.Rendering

/-! The bodies that are active at once.  A body runs in a frame that binds numbers only, so all that
it can call it has defined itself: the bodies active at any moment of a run are nested in each other
as definitions of the program, no procedure is active twice, and the text bounds how many there are.
To speak of every moment, also of runs that go on, evaluation is put under watch: a test of the
active bodies, made each time a body is entered, calls the run off where it fails. -/

namespace Imperative

/-! ### Nested definitions -/

namespace Statement

/-- The procedures that a statement defines itself, those inside the bodies of others left out. -/
def definitions : Statement → List Procedure
  | sequence first second => first.definitions ++ second.definitions
  | procedure name parameters body => [⟨name, parameters, body⟩]
  | choice _ yes no => yes.definitions ++ no.definitions
  | loop _ body => body.definitions
  | print _ => []
  | expression _ => []

/-- How deep definitions of procedures are nested. -/
def nesting : Statement → Nat
  | sequence first second => max first.nesting second.nesting
  | procedure _ _ body => body.nesting + 1
  | choice _ yes no => max yes.nesting no.nesting
  | loop _ body => body.nesting
  | print _ => 0
  | expression _ => 0

/-- Whether the statement defines the first procedure, the body of this the second, and so on. -/
def isNested : Statement → List Procedure → Bool
  | _, [] => true
  | s, p :: active => decide (p ∈ s.definitions) && p.body.isNested active

theorem isNested_cons {s : Statement} {p : Procedure} {active : List Procedure} :
    s.isNested (p :: active) = true ↔ p ∈ s.definitions ∧ p.body.isNested active = true := by
  simp [isNested]

theorem mem_procedures_of_mem_definitions {s : Statement} {p : Procedure}
    (h : p ∈ s.definitions) : p ∈ s.procedures := by
  induction s with
  | sequence a b iha ihb | choice g a b iha ihb =>
    rcases List.mem_append.mp h with h | h
    · exact List.mem_append_left _ (iha h)
    · exact List.mem_append_right _ (ihb h)
  | procedure name ps body ih => exact List.mem_cons.mpr (.inl (List.mem_singleton.mp h))
  | loop g body ih => exact ih h
  | print e | expression e => cases h

theorem nesting_lt_of_mem_definitions {s : Statement} {p : Procedure} (h : p ∈ s.definitions) :
    p.body.nesting < s.nesting := by
  induction s with
  | sequence a b iha ihb | choice g a b iha ihb =>
    rcases List.mem_append.mp h with h | h
    · have := iha h; simp only [nesting]; omega
    · have := ihb h; simp only [nesting]; omega
  | procedure name ps body ih =>
    rw [List.mem_singleton.mp h]
    simp [nesting]
  | loop g body ih => exact ih h
  | print e | expression e => cases h

theorem nodes_lt_of_mem_procedures {s : Statement} {p : Procedure} (h : p ∈ s.procedures) :
    p.body.nodes < s.nodes := by
  induction s with
  | sequence a b iha ihb | choice g a b iha ihb =>
    rcases List.mem_append.mp h with h | h
    · have := iha h; simp only [nodes]; omega
    · have := ihb h; simp only [nodes]; omega
  | procedure name ps body ih =>
    rcases List.mem_cons.mp h with rfl | h
    · simp [nodes]
    · have := ih h; simp only [nodes]; omega
  | loop g body ih => have := ih h; simp only [nodes]; omega
  | print e | expression e => cases h

theorem length_le_nesting {s : Statement} {active : List Procedure}
    (h : s.isNested active = true) : active.length ≤ s.nesting := by
  induction active generalizing s with
  | nil => exact Nat.zero_le _
  | cons p active ih =>
    obtain ⟨hp, hrest⟩ := isNested_cons.mp h
    have hlength := ih hrest
    have hnesting := nesting_lt_of_mem_definitions hp
    rw [List.length_cons]
    omega

theorem mem_procedures_of_isNested {s : Statement} {active : List Procedure}
    (h : s.isNested active = true) : ∀ p ∈ active, p ∈ s.procedures := by
  induction active generalizing s with
  | nil => exact fun _ hp => nomatch hp
  | cons p active ih =>
    obtain ⟨hp, hrest⟩ := isNested_cons.mp h
    have hmem := mem_procedures_of_mem_definitions hp
    refine List.forall_mem_cons.mpr ⟨hmem, fun q hq => ?_⟩
    exact (inside_of_mem_procedures hmem).procedures (ih hrest q hq)

/-- Each procedure of a nested chain is defined inside the bodies of all before it. -/
theorem pairwise_of_isNested {s : Statement} {active : List Procedure}
    (h : s.isNested active = true) : active.Pairwise fun p q => q ∈ p.body.procedures := by
  induction active generalizing s with
  | nil => exact .nil
  | cons p active ih =>
    obtain ⟨-, hrest⟩ := isNested_cons.mp h
    exact .cons (mem_procedures_of_isNested hrest) (ih hrest)

/-- A body is smaller than those around it, so none is among them. -/
theorem nodup_of_isNested {s : Statement} {active : List Procedure}
    (h : s.isNested active = true) : active.Nodup := by
  apply (pairwise_of_isNested h).imp
  rintro p q hq rfl
  exact Nat.lt_irrefl _ (nodes_lt_of_mem_procedures hq)

end Statement

/-! ### Evaluation under watch -/

/-- An outcome, or the active bodies for which the run was called off, the innermost last. -/
abbrev Watched (α : Type) : Type := Except (List Procedure) (Outcome α)

def Watched.andThen {α β : Type} (w : Watched α) (next : α → State → Watched β) : Watched β :=
  match w with
  | .error active => .error active
  | .ok (.finished x s) => next x s
  | .ok (.failed e t) => .ok (.failed e t)
  | .ok .unfinished => .ok .unfinished

section Watch

variable (allowed : List Procedure → Bool)

mutual

/-- The value of an expression inside the active bodies. -/
def Expr.evaluateWatched : (bound : Nat) → (active : List Procedure) → Expr → State → Watched Number
  | 0, _, _, _ => .ok .unfinished
  | _ + 1, _, .literal x, s => .ok (.finished x s)
  | _ + 1, _, .var name line, s =>
    match s.environment.lookup name with
    | some (.number x) => .ok (.finished x s)
    | some (.procedure _) => .ok (.failed ⟨.notANumber, name, line⟩ s.transcript)
    | none => .ok (.failed ⟨.unbound, name, line⟩ s.transcript)
  | bound + 1, active, .binary op left right, s =>
    (left.evaluateWatched bound active s).andThen fun x s =>
    (right.evaluateWatched bound active s).andThen fun y s =>
    .ok (.finished (op.apply x y) s)
  | bound + 1, active, .assign name value, s =>
    (value.evaluateWatched bound active s).andThen fun x s =>
    .ok (.finished x (s.bind name (.number x)))
  | bound + 1, active, .call name arguments line, ⟨env, t⟩ =>
    match env.lookup name with
    | none => .ok (.failed ⟨.unbound, name, line⟩ t)
    | some (.number _) => .ok (.failed ⟨.notAProcedure, name, line⟩ t)
    | some (.procedure p) =>
      if p.parameters.length = arguments.length then
        (argumentsWatched bound active arguments ⟨env, t⟩).andThen fun values s =>
        -- The arguments belong to the caller; from here on the body is active.
        if allowed (active ++ [p]) then
          (pendingWatched bound (active ++ [p]) [p.body] .zero
            ⟨.ofParameters (p.parameters.zip values),
              s.transcript.record (.called line name values.length)⟩).andThen fun x s =>
          .ok (.finished x ⟨env, s.transcript⟩)
        else .error (active ++ [p])
      else .ok (.failed ⟨.arityMismatch p.parameters.length arguments.length, name, line⟩ t)

def argumentsWatched : (bound : Nat) → (active : List Procedure) → List Expr → State →
    Watched (List Number)
  | 0, _, _, _ => .ok .unfinished
  | _ + 1, _, [], s => .ok (.finished [] s)
  | bound + 1, active, e :: es, s =>
    (e.evaluateWatched bound active s).andThen fun x s =>
    (argumentsWatched bound active es s).andThen fun xs s =>
    .ok (.finished (x :: xs) s)

def pendingWatched : (bound : Nat) → (active : List Procedure) → List Statement → Number → State →
    Watched Number
  | 0, _, _, _, _ => .ok .unfinished
  | _ + 1, _, [], value, s => .ok (.finished value s)
  | bound + 1, active, .sequence first second :: pending, _, s =>
    pendingWatched bound active (first :: second :: pending) .zero s
  | bound + 1, active, .procedure name parameters body :: pending, _, s =>
    pendingWatched bound active pending .one (s.bind name (.procedure ⟨name, parameters, body⟩))
  | bound + 1, active, .choice guard yes no :: pending, _, s =>
    (guard.evaluateWatched bound active s).andThen fun x s =>
    pendingWatched bound active ((if x.isZero then no else yes) :: pending) .zero s
  | bound + 1, active, .loop guard body :: pending, _, s =>
    (loopWatched bound active guard body 0 s).andThen fun x s =>
    pendingWatched bound active pending x s
  | bound + 1, active, .print value :: pending, _, s =>
    (value.evaluateWatched bound active s).andThen fun x s =>
    pendingWatched bound active pending .zero (s.print x)
  | bound + 1, active, .expression value :: pending, _, s =>
    (value.evaluateWatched bound active s).andThen fun x s =>
    pendingWatched bound active pending x s

def loopWatched : (bound : Nat) → (active : List Procedure) → Expr → Statement →
    (iterations : UInt64) → State → Watched Number
  | 0, _, _, _, _, _ => .ok .unfinished
  | bound + 1, active, guard, body, iterations, ⟨env, t⟩ =>
    (guard.evaluateWatched bound active ⟨env, t⟩).andThen fun x s =>
    if x.isZero then .ok (.finished .zero ⟨env, s.transcript.record (.loopFinished iterations)⟩)
    else (pendingWatched bound active [body] .zero s).andThen fun _ s =>
      loopWatched bound active guard body (iterations + 1) s

end

/-- Runs a statement, where no body is active, until the active bodies are not allowed. -/
def Statement.executeWatched (bound : Nat) (p : Statement) (s : State) : Watched Number :=
  pendingWatched allowed bound [] [p] .zero s

end Watch

/-! ### The watch is never needed -/

variable {allowed : List Procedure → Bool} {body body' : Statement} {active : List Procedure}

/-- Inside the active bodies, the innermost of them `body`, what is nested is allowed. -/
def Admits (allowed : List Procedure → Bool) (active : List Procedure) (body : Statement) : Prop :=
  ∀ more, body.isNested more = true → allowed (active ++ more) = true

theorem Admits.next (h : Admits allowed active body) {p : Procedure}
    (hp : p ∈ body.definitions) : allowed (active ++ [p]) = true :=
  h [p] (Statement.isNested_cons.mpr ⟨hp, rfl⟩)

theorem Admits.enter (h : Admits allowed active body) {p : Procedure}
    (hp : p ∈ body.definitions) : Admits allowed (active ++ [p]) p.body := by
  intro more hmore
  rw [List.append_assoc, List.singleton_append]
  exact h (p :: more) (Statement.isNested_cons.mpr ⟨hp, hmore⟩)

/-- The only procedures that are bound are those that the body defines itself. -/
abbrev Environment.DefinedBy (body : Statement) (env : Environment) : Prop :=
  env.AllProcedures (· ∈ body.definitions)

/-- The watch called nothing off, and what is left the body has defined. -/
structure Undisturbed {α : Type} (body : Statement) (w : Watched α) (o : Outcome α) : Prop where
  same : w = .ok o
  defined : o.Ensures (·.DefinedBy body) fun _ => True

namespace Undisturbed

variable {α β : Type}

theorem finished (x : α) {s : State} (h : s.environment.DefinedBy body) :
    Undisturbed body (.ok (.finished x s)) (.finished x s) := ⟨rfl, h⟩

theorem failed (e : RuntimeError) (t : Transcript) :
    Undisturbed body (.ok (.failed e t) : Watched α) (.failed e t) := ⟨rfl, trivial⟩

theorem unfinished : Undisturbed body (.ok .unfinished : Watched α) .unfinished := ⟨rfl, trivial⟩

theorem andThen {w : Watched α} {o : Outcome α} {next' : α → State → Watched β}
    {next : α → State → Outcome β} (h : Undisturbed body w o)
    (hnext : ∀ x s, s.environment.DefinedBy body → Undisturbed body' (next' x s) (next x s)) :
    Undisturbed body' (w.andThen next') (o.andThen next) := by
  obtain ⟨rfl, hdefined⟩ := h
  cases o with
  | finished x s => exact hnext x s hdefined
  | failed e t => exact failed e t
  | unfinished => exact unfinished

end Undisturbed

/-- Within this bound, the watch disturbs no evaluation inside active bodies that are admitted. -/
structure UndisturbedWithin (allowed : List Procedure → Bool) (n : Nat) : Prop where
  evaluate : ∀ {active : List Procedure} {body : Statement}, Admits allowed active body →
    ∀ (e : Expr) (s : State), s.environment.DefinedBy body →
      Undisturbed body (e.evaluateWatched allowed n active s) (e.evaluate n s)
  arguments : ∀ {active : List Procedure} {body : Statement}, Admits allowed active body →
    ∀ (es : List Expr) (s : State), s.environment.DefinedBy body →
      Undisturbed body (argumentsWatched allowed n active es s) (evaluateArguments n es s)
  pending : ∀ {active : List Procedure} {body : Statement}, Admits allowed active body →
    ∀ (ps : List Statement) (v : Number) (s : State),
      (∀ p ∈ ps, p.definitions ⊆ body.definitions) → s.environment.DefinedBy body →
      Undisturbed body (pendingWatched allowed n active ps v s) (executePending n ps v s)
  loop : ∀ {active : List Procedure} {body : Statement}, Admits allowed active body →
    ∀ (g : Expr) (b : Statement) (i : UInt64) (s : State), b.definitions ⊆ body.definitions →
      s.environment.DefinedBy body →
      Undisturbed body (loopWatched allowed n active g b i s) (executeLoop n g b i s)

section Step

variable {n : Nat} (ih : UndisturbedWithin allowed n) (hadmits : Admits allowed active body)

include ih hadmits

theorem call_undisturbed (name : String) (es : List Expr) (line : Nat) {s : State}
    (hs : s.environment.DefinedBy body) :
    Undisturbed body (Expr.evaluateWatched allowed (n + 1) active (.call name es line) s)
      (Expr.evaluate (n + 1) (.call name es line) s) := by
  obtain ⟨env, t⟩ := s
  cases hlookup : env.lookup name with
  | none =>
    simp only [Expr.evaluateWatched, Expr.evaluate, hlookup]
    exact .failed _ t
  | some b =>
    cases b with
    | number x =>
      simp only [Expr.evaluateWatched, Expr.evaluate, hlookup]
      exact .failed _ t
    | procedure p =>
      simp only [Expr.evaluateWatched, Expr.evaluate, hlookup]
      by_cases hlength : p.parameters.length = es.length
      · have hp : p ∈ body.definitions := hs name p hlookup
        rw [if_pos hlength, if_pos hlength]
        apply (ih.arguments hadmits es ⟨env, t⟩ hs).andThen
        intro xs s₁ _
        rw [if_pos (hadmits.next hp)]
        -- The frame binds no procedure, so it fits the body of the callee.
        apply (ih.pending (hadmits.enter hp) [p.body] .zero _ (by simp) (.ofParameters _)).andThen
        exact fun x s₂ _ => .finished x hs
      · rw [if_neg hlength, if_neg hlength]
        exact .failed _ t

theorem evaluate_undisturbed (e : Expr) {s : State} (hs : s.environment.DefinedBy body) :
    Undisturbed body (e.evaluateWatched allowed (n + 1) active s) (e.evaluate (n + 1) s) := by
  cases e with
  | literal x => exact .finished x hs
  | var name line =>
    rw [Expr.evaluateWatched, Expr.evaluate]
    split
    · next x h => simpa only [h] using .finished x hs
    · next p h => simpa only [h] using .failed _ s.transcript
    · next h => simpa only [h] using .failed _ s.transcript
  | binary op a b =>
    apply (ih.evaluate hadmits a s hs).andThen
    intro x s₁ hs₁
    exact (ih.evaluate hadmits b s₁ hs₁).andThen fun y _ hs₂ => .finished (op.apply x y) hs₂
  | assign name e =>
    apply (ih.evaluate hadmits e s hs).andThen
    exact fun x s₁ hs₁ => .finished x (hs₁.bind_number name x)
  | call name es line => exact call_undisturbed ih hadmits name es line hs

theorem pending_undisturbed {ps : List Statement} (v : Number) {s : State}
    (hps : ∀ p ∈ ps, p.definitions ⊆ body.definitions) (hs : s.environment.DefinedBy body) :
    Undisturbed body (pendingWatched allowed (n + 1) active ps v s)
      (executePending (n + 1) ps v s) := by
  cases ps with
  | nil => exact .finished v hs
  | cons p ps =>
    obtain ⟨hp, hrest⟩ := List.forall_mem_cons.mp hps
    cases p with
    | sequence a b =>
      obtain ⟨ha, hb⟩ := List.append_subset.mp hp
      apply ih.pending hadmits _ _ s _ hs
      exact List.forall_mem_cons.mpr ⟨ha, List.forall_mem_cons.mpr ⟨hb, hrest⟩⟩
    | procedure name parameters b =>
      exact ih.pending hadmits ps _ _ hrest (hs.bind_procedure name (hp List.mem_cons_self))
    | choice g yes no =>
      obtain ⟨hyes, hno⟩ := List.append_subset.mp hp
      apply (ih.evaluate hadmits g s hs).andThen
      intro x s₁ hs₁
      refine ih.pending hadmits _ _ s₁ (List.forall_mem_cons.mpr ⟨?_, hrest⟩) hs₁
      split
      · exact hno
      · exact hyes
    | loop g b =>
      apply (ih.loop hadmits g b 0 s hp hs).andThen
      exact fun x s₁ hs₁ => ih.pending hadmits ps x s₁ hrest hs₁
    | print e =>
      apply (ih.evaluate hadmits e s hs).andThen
      exact fun x s₁ hs₁ => ih.pending hadmits ps .zero (s₁.print x) hrest hs₁
    | expression e =>
      apply (ih.evaluate hadmits e s hs).andThen
      exact fun x s₁ hs₁ => ih.pending hadmits ps x s₁ hrest hs₁

theorem loop_undisturbed (g : Expr) {b : Statement} (i : UInt64) {s : State}
    (hb : b.definitions ⊆ body.definitions) (hs : s.environment.DefinedBy body) :
    Undisturbed body (loopWatched allowed (n + 1) active g b i s)
      (executeLoop (n + 1) g b i s) := by
  apply (ih.evaluate hadmits g s hs).andThen
  intro x s₁ hs₁
  split
  · exact .finished _ hs
  · apply (ih.pending hadmits [b] .zero s₁ (by simpa using hb) hs₁).andThen
    exact fun _ s₂ hs₂ => ih.loop hadmits g b (i + 1) s₂ hb hs₂

end Step

theorem undisturbedWithin (allowed : List Procedure → Bool) (n : Nat) :
    UndisturbedWithin allowed n := by
  induction n with
  | zero => exact ⟨fun _ _ _ _ => .unfinished, fun _ _ _ _ => .unfinished,
      fun _ _ _ _ _ _ => .unfinished, fun _ _ _ _ _ _ _ => .unfinished⟩
  | succ n ih =>
    refine ⟨fun h e _ => evaluate_undisturbed ih h e, fun h es s hs => ?_,
      fun h _ v _ => pending_undisturbed ih h v, fun h g _ i _ => loop_undisturbed ih h g i⟩
    cases es with
    | nil => exact .finished [] hs
    | cons e es =>
      apply (ih.evaluate h e s hs).andThen
      intro x s₁ hs₁
      exact (ih.arguments h es s₁ hs₁).andThen fun xs _ hs₂ => .finished (x :: xs) hs₂

/-- A watch that allows all nested definitions of the program calls no run of it off. -/
theorem executeWatched_eq {program : Statement} {env : Environment} (t : Transcript) (bound : Nat)
    (henv : ∀ name p, env.lookup name ≠ some (.procedure p))
    (hallowed : ∀ active, program.isNested active = true → allowed active = true) :
    program.executeWatched allowed bound ⟨env, t⟩ = .ok (program.execute bound ⟨env, t⟩) := by
  have hadmits : Admits allowed [] program := hallowed
  have hdefined : env.DefinedBy program := fun name p h => absurd h (henv name p)
  exact ((undisturbedWithin allowed bound).pending hadmits [program] .zero ⟨env, t⟩
    (by simp) hdefined).same

/-- From an environment without procedures, the active bodies of a run are nested at every moment:
the program defines the outermost procedure itself, and each body the one it has called.  So each is
defined inside all those around it, none is active twice, and there are at most as many as
definitions are nested; a run that is called off beyond this depth is never called off. -/
theorem active_bodies_nested (program : Statement) {env : Environment}
    (henv : ∀ name p, env.lookup name ≠ some (.procedure p)) (t : Transcript) (bound : Nat) :
    program.executeWatched program.isNested bound ⟨env, t⟩ =
      .ok (program.execute bound ⟨env, t⟩) ∧
    (∀ active, program.isNested active = true →
      (∀ p ∈ active, p ∈ program.procedures) ∧
      (active.Pairwise fun p q => q ∈ p.body.procedures) ∧ active.Nodup ∧
      active.length ≤ program.nesting) ∧
    program.executeWatched (fun active => decide (active.length ≤ program.nesting)) bound ⟨env, t⟩ =
      .ok (program.execute bound ⟨env, t⟩) := by
  refine ⟨executeWatched_eq t bound henv fun _ => id, fun active h => ?_, ?_⟩
  · exact ⟨Statement.mem_procedures_of_isNested h, Statement.pairwise_of_isNested h,
      Statement.nodup_of_isNested h, Statement.length_le_nesting h⟩
  · apply executeWatched_eq t bound henv
    intro active h
    exact decide_eq_true (Statement.length_le_nesting h)

/-- A procedure that defines and calls another one in a loop: two bodies are active at once, as a
watch sees that allows one only, and the inner one finds no procedure to call. -/
theorem active_bodies_nested_two :
    let g : Procedure := ⟨"g", ["b"], .expression (.call "f" [.var "b" 1] 1)⟩
    let f : Procedure := ⟨"f", ["a"], .sequence (.procedure g.name g.parameters g.body)
      (.loop (.var "a" 2) (.expression (.assign "a" (.call "g" [.var "a" 2] 2))))⟩
    let program : Statement := .sequence (.procedure f.name f.parameters f.body)
      (.print (.call "f" [.var "x" 3] 3))
    let env := Environment.empty.bind "x" (.number .one)
    let calledOff (w : Watched Number) : List Procedure :=
      match w with
      | .error active => active
      | .ok _ => []
    (∀ name p, env.lookup name ≠ some (.procedure p)) ∧ program.nesting = 2 ∧
      calledOff (program.executeWatched (fun active => decide (active.length ≤ 1)) 50
        ⟨env, .empty⟩) = [f, g] ∧
      program.executeWatched (fun active => decide (active.length ≤ program.nesting)) 50
        ⟨env, .empty⟩ = .ok (program.execute 50 ⟨env, .empty⟩) := by
  intro g f program env calledOff
  have henv : ∀ name p, env.lookup name ≠ some (.procedure p) := by
    intro name p h
    rw [Environment.lookup_bind, Environment.lookup_empty] at h
    split at h <;> cases h
  exact ⟨henv, by decide, by decide +kernel, (active_bodies_nested program henv .empty 50).2.2⟩

end Imperative
