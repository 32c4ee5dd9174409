import Imperative.Proofs.Occurrence

/-! What an evaluation changes.  A program writes the names that it assigns and those of the
procedures that it defines.  The arguments and the body of a call do not count, since the caller's
environment comes back as it was before the arguments.  Whatever runs to its end unbinds nothing,
binds no other name anew, and leaves every other name bound as it was. -/

namespace Imperative

/-! ### Names written -/

/-- The names that an expression assigns, those in the arguments of its calls left out. -/
def Expr.writtenNames : Expr → List String
  | .literal _ => []
  | .var _ _ => []
  | .binary _ left right => left.writtenNames ++ right.writtenNames
  | .assign name value => name :: value.writtenNames
  | .call _ _ _ => []

/-- The names that a statement assigns or defines, those in the bodies of its procedures left
out. -/
def Statement.writtenNames : Statement → List String
  | sequence first second => first.writtenNames ++ second.writtenNames
  | procedure name _ _ => [name]
  | choice guard yes no => guard.writtenNames ++ (yes.writtenNames ++ no.writtenNames)
  | loop guard body => guard.writtenNames ++ body.writtenNames
  | print value => value.writtenNames
  | expression value => value.writtenNames

/-- From `before` to `after`, no name is unbound, and only `names` are bound anew or otherwise. -/
structure Frame (names : List String) (before after : Environment) : Prop where
  kept : ∀ name, (before.lookup name).isSome → (after.lookup name).isSome
  added : ∀ name, (after.lookup name).isSome → (before.lookup name).isSome ∨ name ∈ names
  outside : ∀ name, name ∉ names → after.lookup name = before.lookup name

namespace Frame

variable {names : List String} {before after : Environment}

theorem refl (names : List String) (env : Environment) : Frame names env env :=
  ⟨fun _ h => h, fun _ h => .inl h, fun _ _ => rfl⟩

theorem bind (h : Frame names before after) {name : String} (hname : name ∈ names)
    (b : Binding) : Frame names before (after.bind name b) := by
  constructor
  · intro other hother
    rw [Environment.lookup_bind]
    split
    · rfl
    · exact h.kept other hother
  · intro other hother
    rw [Environment.lookup_bind] at hother
    split at hother
    · next heq => exact .inr (heq ▸ hname)
    · exact h.added other hother
  · intro other hother
    have hne : name ≠ other := fun heq => hother (heq ▸ hname)
    rw [Environment.lookup_bind, if_neg hne]
    exact h.outside other hother

/-- A frame without names changes nothing. -/
theorem eq_of_nil (h : Frame [] before after) : after = before :=
  Environment.ext fun name => h.outside name List.not_mem_nil

end Frame

/-! ### Runs -/

/-- What is left stands in this frame to the environment `env`. -/
abbrev Outcome.Framed {α : Type} (names : List String) (env : Environment) (o : Outcome α) : Prop :=
  o.Ensures (Frame names env) fun _ => True

/-- Whatever happens before a step that leaves `env` behind, the step decides what is left. -/
theorem Outcome.Framed.of_last {α β : Type} {names : List String} {env : Environment}
    (o : Outcome α) {next : α → State → Outcome β} (hnext : ∀ x s, (next x s).Framed names env) :
    (o.andThen next).Framed names env := by
  cases o with
  | finished x s => exact hnext x s
  | failed e t => trivial
  | unfinished => trivial

/-- Within this bound, what writes to `names` only stays in their frame. -/
structure FramedWithin (names : List String) (env : Environment) (n : Nat) : Prop where
  evaluate : ∀ (e : Expr) (s : State), e.writtenNames ⊆ names → Frame names env s.environment →
    (e.evaluate n s).Framed names env
  pending : ∀ (ps : List Statement) (v : Number) (s : State),
    (∀ p ∈ ps, p.writtenNames ⊆ names) → Frame names env s.environment →
    (executePending n ps v s).Framed names env
  loop : ∀ (g : Expr) (b : Statement) (i : UInt64) (s : State), g.writtenNames ⊆ names →
    b.writtenNames ⊆ names → Frame names env s.environment →
    (executeLoop n g b i s).Framed names env

section Step

variable {names : List String} {env : Environment} {n : Nat} (ih : FramedWithin names env n)

include ih

theorem evaluate_framed {e : Expr} {s : State} (he : e.writtenNames ⊆ names)
    (hs : Frame names env s.environment) : (e.evaluate (n + 1) s).Framed names env := by
  cases e with
  | literal x => exact hs
  | var name line =>
    rw [Expr.evaluate]
    split
    · exact hs
    · trivial
    · trivial
  | binary op a b =>
    obtain ⟨ha, hb⟩ := List.append_subset.mp he
    apply (ih.evaluate a s ha hs).andThen
    intro x s₁ hs₁
    exact (ih.evaluate b s₁ hb hs₁).andThen fun _ _ hs₂ => hs₂
  | assign name e =>
    obtain ⟨hname, he⟩ := List.cons_subset.mp he
    exact (ih.evaluate e s he hs).andThen fun x _ hs₁ => hs₁.bind hname (.number x)
  | call name es line =>
    obtain ⟨caller, t⟩ := s
    rw [Expr.evaluate]
    split
    · trivial
    · trivial
    · split
      · -- Neither the arguments nor the body are looked at: the caller's environment comes back.
        apply Outcome.Framed.of_last
        intro xs s₁
        exact .of_last _ fun _ _ => hs
      · trivial

theorem pending_framed {ps : List Statement} {v : Number} {s : State}
    (hps : ∀ p ∈ ps, p.writtenNames ⊆ names) (hs : Frame names env s.environment) :
    (executePending (n + 1) ps v s).Framed names env := by
  cases ps with
  | nil => exact hs
  | cons p ps =>
    obtain ⟨hp, hrest⟩ := List.forall_mem_cons.mp hps
    cases p with
    | sequence a b =>
      obtain ⟨ha, hb⟩ := List.append_subset.mp hp
      exact ih.pending _ _ _
        (List.forall_mem_cons.mpr ⟨ha, List.forall_mem_cons.mpr ⟨hb, hrest⟩⟩) hs
    | procedure name parameters body =>
      exact ih.pending _ _ _ hrest (hs.bind (hp List.mem_cons_self) _)
    | choice g yes no =>
      obtain ⟨hg, hbranches⟩ := List.append_subset.mp hp
      obtain ⟨hyes, hno⟩ := List.append_subset.mp hbranches
      apply (ih.evaluate g s hg hs).andThen
      intro x s₁ hs₁
      refine ih.pending _ _ _ (List.forall_mem_cons.mpr ⟨?_, hrest⟩) hs₁
      split
      · exact hno
      · exact hyes
    | loop g b =>
      obtain ⟨hg, hb⟩ := List.append_subset.mp hp
      exact (ih.loop g b 0 s hg hb hs).andThen fun _ _ hs₁ => ih.pending _ _ _ hrest hs₁
    | print e =>
      exact (ih.evaluate e s hp hs).andThen fun _ _ hs₁ => ih.pending _ _ _ hrest hs₁
    | expression e =>
      exact (ih.evaluate e s hp hs).andThen fun _ _ hs₁ => ih.pending _ _ _ hrest hs₁

theorem loop_framed {g : Expr} {b : Statement} {i : UInt64} {s : State}
    (hg : g.writtenNames ⊆ names) (hb : b.writtenNames ⊆ names)
    (hs : Frame names env s.environment) :
    (executeLoop (n + 1) g b i s).Framed names env := by
  apply (ih.evaluate g s hg hs).andThen
  intro x s₁ hs₁
  split
  · -- What the last guard assigned is dropped, so the frame is that from before it.
    exact hs
  · apply (ih.pending [b] .zero s₁ (by simpa using hb) hs₁).andThen
    exact fun _ s₂ hs₂ => ih.loop g b (i + 1) s₂ hg hb hs₂

end Step

theorem framedWithin (names : List String) (env : Environment) (n : Nat) :
    FramedWithin names env n := by
  induction n with
  | zero =>
    exact ⟨fun _ _ _ _ => trivial, fun _ _ _ _ _ => trivial, fun _ _ _ _ _ _ _ => trivial⟩
  | succ n ih =>
    exact ⟨fun _ _ he hs => evaluate_framed ih he hs, fun _ _ _ hps hs => pending_framed ih hps hs,
      fun _ _ _ _ hg hb hs => loop_framed ih hg hb hs⟩

theorem Expr.frame_of_evaluate {e : Expr} {env : Environment} {t : Transcript} {bound : Nat}
    {x : Number} {s : State} (h : e.evaluate bound ⟨env, t⟩ = .finished x s) :
    Frame e.writtenNames env s.environment := by
  have hframed := (framedWithin e.writtenNames env bound).evaluate e ⟨env, t⟩
    (List.Subset.refl _) (.refl _ env)
  rwa [h] at hframed

theorem Statement.frame_of_execute {p : Statement} {env : Environment} {t : Transcript}
    {bound : Nat} {x : Number} {s : State} (h : p.execute bound ⟨env, t⟩ = .finished x s) :
    Frame p.writtenNames env s.environment := by
  have hframed := (framedWithin p.writtenNames env bound).pending [p] .zero ⟨env, t⟩
    (by simp) (.refl _ env)
  rw [Statement.execute] at h
  rwa [h] at hframed

/-- A statement or an expression that runs to its end unbinds no name, binds anew only names that it
writes, and leaves all others bound as they were.  So an expression that assigns nothing outside the
arguments of its calls leaves the environment as it was. -/
theorem frame_writtenNames (env : Environment) (t : Transcript) (bound : Nat) :
    (∀ p x s, Statement.execute bound p ⟨env, t⟩ = .finished x s →
      Frame p.writtenNames env s.environment) ∧
    (∀ e x s, Expr.evaluate bound e ⟨env, t⟩ = .finished x s →
      Frame e.writtenNames env s.environment) ∧
    ∀ e x s, e.writtenNames = [] → Expr.evaluate bound e ⟨env, t⟩ = .finished x s →
      s.environment = env := by
  refine ⟨fun p x s h => p.frame_of_execute h, fun e x s h => e.frame_of_evaluate h, ?_⟩
  intro e x s hnames h
  have hframe := e.frame_of_evaluate h
  rw [hnames] at hframe
  exact hframe.eq_of_nil

/-- A loop whose guard assigns and whose body defines and calls a procedure, from an environment
that binds another name; and a call alone, whose argument and body assign that name. -/
theorem frame_writtenNames_loop :
    let body : Statement :=
      .expression (.assign "k" (.binary .subtract (.var "k" 1) (.literal .one)))
    let call : Expr := .call "f" [.assign "k" (.var "n" 2)] 2
    let p : Statement := .loop (.assign "m" (.var "n" 1))
      (.sequence (.procedure "f" ["k"] body) (.print (.assign "n" call)))
    let f : Binding := .procedure ⟨"f", ["k"], body⟩
    let env := (Environment.empty.bind "n" (.number .one)).bind "k" (.number .nan)
    (∃ x s, p.execute 100 ⟨env, .empty⟩ = .finished x s ∧ p.writtenNames = ["m", "f", "n"] ∧
      s.environment.lookup "f" = some f ∧ Frame ["m", "f", "n"] env s.environment) ∧
    ∃ x s, call.evaluate 100 ⟨env.bind "f" f, .empty⟩ = .finished x s ∧
      s.environment = env.bind "f" f := by
  intro body call p f env
  obtain ⟨hp, -, -⟩ := frame_writtenNames env .empty 100
  obtain ⟨-, -, hcall⟩ := frame_writtenNames (env.bind "f" f) .empty 100
  exact ⟨⟨_, _, rfl, rfl, rfl, hp p _ _ rfl⟩, _, _, rfl, hcall call _ _ rfl rfl⟩

end Imperative
