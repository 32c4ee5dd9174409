import Imperative.Proofs.Bounds

/-! What an evaluation depends on.  A program reads the names of its variables and calls, and those
inside the bodies of procedures do not count, since a body runs in a frame of its own.  From two
environments that agree on the names read, a program takes the same course: it prints and logs the
same, and it ends with the same value or the same error, or goes on in both.  Of the environments it
leaves, a name is bound alike in both, or in each of them as it was before. -/

namespace Imperative

/-! ### Names read -/

mutual

/-- The names that an expression reads. -/
def Expr.readNames : Expr → List String
  | .literal _ => []
  | .var name _ => [name]
  | .binary _ left right => left.readNames ++ right.readNames
  | .assign _ value => value.readNames
  | .call name arguments _ => name :: argumentsReadNames arguments

/-- The names that arguments read. -/
def argumentsReadNames : List Expr → List String
  | [] => []
  | e :: es => e.readNames ++ argumentsReadNames es

end

/-- The names that a statement reads, those in the bodies of its procedures left out. -/
def Statement.readNames : Statement → List String
  | sequence first second => first.readNames ++ second.readNames
  | procedure _ _ _ => []
  | choice guard yes no => guard.readNames ++ (yes.readNames ++ no.readNames)
  | loop guard body => guard.readNames ++ body.readNames
  | print value => value.readNames
  | expression value => value.readNames

/-- The names that pending statements read. -/
def pendingReadNames (pending : List Statement) : List String := pending.flatMap Statement.readNames

/-! ### Pairs of environments -/

/-- Two environments bind each of these names alike. -/
def AgreeOn (names : List String) (a b : Environment) : Prop :=
  ∀ name ∈ names, a.lookup name = b.lookup name

/-- Of two environments that `a` and `b` became, each name is bound alike in both, or in each of
them as it was before. -/
def Carried (a b a' b' : Environment) : Prop :=
  ∀ name, a'.lookup name = b'.lookup name ∨
    a'.lookup name = a.lookup name ∧ b'.lookup name = b.lookup name

section Environments

variable {names others : List String} {name : String} {a b a' b' a'' b'' : Environment}

@[simp] theorem agreeOn_append :
    AgreeOn (names ++ others) a b ↔ AgreeOn names a b ∧ AgreeOn others a b :=
  List.forall_mem_append

@[simp] theorem agreeOn_cons :
    AgreeOn (name :: names) a b ↔ a.lookup name = b.lookup name ∧ AgreeOn names a b :=
  List.forall_mem_cons

theorem Carried.refl (a b : Environment) : Carried a b a b := fun _ => .inr ⟨rfl, rfl⟩

theorem Carried.same (a b env : Environment) : Carried a b env env := fun _ => .inl rfl

theorem Carried.trans (h : Carried a b a' b') (h' : Carried a' b' a'' b'') :
    Carried a b a'' b'' := by
  intro name
  rcases h' name with heq | ⟨ha, hb⟩
  · exact .inl heq
  · rw [ha, hb]
    exact h name

theorem Carried.agreeOn (h : Carried a b a' b') (hab : AgreeOn names a b) :
    AgreeOn names a' b' := by
  intro name hname
  rcases h name with heq | ⟨ha, hb⟩
  · exact heq
  · rw [ha, hb, hab name hname]

theorem Carried.bind (h : Carried a b a' b') (name : String) (x : Binding) :
    Carried a b (a'.bind name x) (b'.bind name x) := by
  intro other
  rw [Environment.lookup_bind, Environment.lookup_bind]
  split
  · exact .inl rfl
  · exact h other

end Environments

/-! ### Pairs of outcomes -/

/-- Outcomes of the same course from the environments `a` and `b`. -/
inductive Matches {α : Type} (a b : Environment) : Outcome α → Outcome α → Prop
  | finished {x : α} {a' b' : Environment} {t : Transcript} : Carried a b a' b' →
      Matches a b (.finished x ⟨a', t⟩) (.finished x ⟨b', t⟩)
  | failed {e : RuntimeError} {t : Transcript} : Matches a b (.failed e t) (.failed e t)
  | unfinished : Matches a b .unfinished .unfinished

namespace Matches

variable {α β : Type} {a b a' b' : Environment} {o o' : Outcome α}

theorem same (a b : Environment) (o : Outcome α) : Matches a b o o := by
  cases o with
  | finished x s => exact .finished (.same a b s.environment)
  | failed e t => exact .failed
  | unfinished => exact .unfinished

theorem of_carried (hab : Carried a b a' b') (h : Matches a' b' o o') : Matches a b o o' := by
  cases h with
  | finished hcarried => exact .finished (hab.trans hcarried)
  | failed => exact .failed
  | unfinished => exact .unfinished

theorem andThen {next next' : α → State → Outcome β} (h : Matches a b o o')
    (hnext : ∀ x a' b' t, Carried a b a' b' → Matches a b (next x ⟨a', t⟩) (next' x ⟨b', t⟩)) :
    Matches a b (o.andThen next) (o'.andThen next') := by
  cases h with
  | finished hcarried => exact hnext _ _ _ _ hcarried
  | failed => exact .failed
  | unfinished => exact .unfinished

end Matches

/-! ### Two runs -/

/-- Within this bound, evaluation takes the same course from environments that agree on what it
reads. -/
structure ReadsOnly (n : Nat) : Prop where
  evaluate : ∀ {e a b} t, AgreeOn (Expr.readNames e) a b →
    Matches a b (e.evaluate n ⟨a, t⟩) (e.evaluate n ⟨b, t⟩)
  arguments : ∀ {es a b} t, AgreeOn (argumentsReadNames es) a b →
    Matches a b (evaluateArguments n es ⟨a, t⟩) (evaluateArguments n es ⟨b, t⟩)
  pending : ∀ {ps a b} v t, AgreeOn (pendingReadNames ps) a b →
    Matches a b (executePending n ps v ⟨a, t⟩) (executePending n ps v ⟨b, t⟩)
  loop : ∀ {g s a b} i t, AgreeOn (Expr.readNames g ++ Statement.readNames s) a b →
    Matches a b (executeLoop n g s i ⟨a, t⟩) (executeLoop n g s i ⟨b, t⟩)

section Step

variable {n : Nat} (ih : ReadsOnly n) {a b : Environment} (t : Transcript)

include ih

theorem evaluate_readsOnly {e : Expr} (h : AgreeOn e.readNames a b) :
    Matches a b (e.evaluate (n + 1) ⟨a, t⟩) (e.evaluate (n + 1) ⟨b, t⟩) := by
  cases e with
  | literal x => exact .finished (.refl a b)
  | var name line =>
    have hname : a.lookup name = b.lookup name := (agreeOn_cons.mp h).1
    simp only [Expr.evaluate, hname]
    split
    · exact .finished (.refl a b)
    · exact .failed
    · exact .failed
  | binary op left right =>
    obtain ⟨hleft, hright⟩ := agreeOn_append.mp h
    refine (ih.evaluate t hleft).andThen fun x a₁ b₁ t₁ h₁ => ?_
    refine ((ih.evaluate t₁ (h₁.agreeOn hright)).of_carried h₁).andThen fun y a₂ b₂ t₂ h₂ => ?_
    exact .finished h₂
  | assign name e =>
    refine (ih.evaluate (e := e) t h).andThen fun x a₁ b₁ t₁ h₁ => ?_
    exact .finished (h₁.bind name (.number x))
  | call name es line =>
    obtain ⟨hname, hes⟩ := agreeOn_cons.mp h
    simp only [Expr.evaluate, hname]
    split
    · exact .failed
    · exact .failed
    · split
      · refine (ih.arguments t hes).andThen fun xs a₁ b₁ t₁ _ => ?_
        -- The body starts from the same frame on both sides, whatever the callers are.
        exact (Matches.same a b _).andThen fun x a₂ b₂ t₂ _ => .finished (.refl a b)
      · exact .failed

theorem arguments_readsOnly {es : List Expr} (h : AgreeOn (argumentsReadNames es) a b) :
    Matches a b (evaluateArguments (n + 1) es ⟨a, t⟩) (evaluateArguments (n + 1) es ⟨b, t⟩) := by
  cases es with
  | nil => exact .finished (.refl a b)
  | cons e es =>
    obtain ⟨he, hes⟩ := agreeOn_append.mp h
    refine (ih.evaluate t he).andThen fun x a₁ b₁ t₁ h₁ => ?_
    refine ((ih.arguments t₁ (h₁.agreeOn hes)).of_carried h₁).andThen fun xs a₂ b₂ t₂ h₂ => ?_
    exact .finished h₂

theorem pending_readsOnly {ps : List Statement} (v : Number)
    (h : AgreeOn (pendingReadNames ps) a b) :
    Matches a b (executePending (n + 1) ps v ⟨a, t⟩) (executePending (n + 1) ps v ⟨b, t⟩) := by
  -- The environments still agree on what the statements left to do read.
  have hrest {qs : List Statement} (hqs : AgreeOn (pendingReadNames qs) a b) (w : Number)
      (a₁ b₁ : Environment) (t₁ : Transcript) (h₁ : Carried a b a₁ b₁) :
      Matches a b (executePending n qs w ⟨a₁, t₁⟩) (executePending n qs w ⟨b₁, t₁⟩) :=
    (ih.pending w t₁ (h₁.agreeOn hqs)).of_carried h₁
  cases ps with
  | nil => exact .finished (.refl a b)
  | cons p ps =>
    obtain ⟨hp, hps⟩ := agreeOn_append.mp h
    cases p with
    | sequence p q =>
      obtain ⟨hfirst, hsecond⟩ := agreeOn_append.mp hp
      have hparts : AgreeOn (pendingReadNames (p :: q :: ps)) a b :=
        agreeOn_append.mpr ⟨hfirst, agreeOn_append.mpr ⟨hsecond, hps⟩⟩
      exact hrest hparts .zero a b t (.refl a b)
    | procedure name parameters body =>
      exact hrest hps .one _ _ t ((Carried.refl a b).bind name _)
    | choice g yes no =>
      obtain ⟨hg, hbranches⟩ := agreeOn_append.mp hp
      obtain ⟨hyes, hno⟩ := agreeOn_append.mp hbranches
      refine (ih.evaluate t hg).andThen fun x a₁ b₁ t₁ h₁ => ?_
      refine hrest (agreeOn_append.mpr ⟨?_, hps⟩) .zero a₁ b₁ t₁ h₁
      split
      · exact hno
      · exact hyes
    | loop g body => exact (ih.loop 0 t hp).andThen fun x => hrest hps x
    | print e => exact (ih.evaluate t hp).andThen fun x a₁ b₁ t₁ => hrest hps .zero a₁ b₁ _
    | expression e => exact (ih.evaluate t hp).andThen fun x => hrest hps x

theorem loop_readsOnly {g : Expr} {s : Statement} (i : UInt64)
    (h : AgreeOn (g.readNames ++ s.readNames) a b) :
    Matches a b (executeLoop (n + 1) g s i ⟨a, t⟩) (executeLoop (n + 1) g s i ⟨b, t⟩) := by
  obtain ⟨hg, hs⟩ := agreeOn_append.mp h
  refine (ih.evaluate t hg).andThen fun x a₁ b₁ t₁ h₁ => ?_
  split
  · exact .finished (.refl a b)
  · have hbody : AgreeOn (pendingReadNames [s]) a₁ b₁ := by
      simpa [pendingReadNames] using h₁.agreeOn hs
    refine ((ih.pending .zero t₁ hbody).of_carried h₁).andThen fun y a₂ b₂ t₂ h₂ => ?_
    exact (ih.loop (i + 1) t₂ (h₂.agreeOn h)).of_carried h₂

end Step

theorem readsOnly (n : Nat) : ReadsOnly n := by
  induction n with
  | zero => exact ⟨fun _ _ => .unfinished, fun _ _ => .unfinished, fun _ _ _ => .unfinished,
      fun _ _ _ => .unfinished⟩
  | succ n ih =>
    exact ⟨fun t h => evaluate_readsOnly ih t h, fun t h => arguments_readsOnly ih t h,
      fun v t h => pending_readsOnly ih t v h, fun i t h => loop_readsOnly ih t i h⟩

/-- From two environments that agree on the names it reads, a statement or an expression diverges
in both, fails in both with the same error after the same output, or finishes in both with the same
value and output, and then leaves each name bound alike in both or in each as it was. -/
theorem matches_of_agreeOn_readNames (a b : Environment) (t : Transcript) (bound : Nat) :
    (∀ s : Statement, AgreeOn s.readNames a b →
      Matches a b (s.execute bound ⟨a, t⟩) (s.execute bound ⟨b, t⟩)) ∧
    (∀ e : Expr, AgreeOn e.readNames a b →
      Matches a b (e.evaluate bound ⟨a, t⟩) (e.evaluate bound ⟨b, t⟩)) := by
  refine ⟨fun s hs => ?_, fun e he => (readsOnly bound).evaluate t he⟩
  exact (readsOnly bound).pending .zero t (by simpa [pendingReadNames] using hs)

/-- A loop that calls a procedure, and the call alone, in environments that differ in `x`, which the
body of the procedure reads as its parameter, and in `y`, which the loop assigns. -/
theorem matches_of_loop_with_call :
    let f : Procedure := ⟨"f", ["x"], .expression (.binary .subtract (.var "x" 1) (.literal .one))⟩
    let call : Expr := .call "f" [.assign "z" (.var "n" 2)] 2
    let s : Statement := .loop (.var "n" 2) (.sequence (.print (.assign "n" call))
      (.expression (.assign "y" (.var "n" 3))))
    let env := (Environment.empty.bind "f" (.procedure f)).bind "n" (.number .one)
    let a := env.bind "x" (.number .zero)
    let b := (env.bind "x" (.procedure f)).bind "y" (.number .nan)
    (AgreeOn s.readNames a b ∧
      Matches a b (s.execute 100 ⟨a, .empty⟩) (s.execute 100 ⟨b, .empty⟩)) ∧
    AgreeOn call.readNames a b ∧
      Matches a b (call.evaluate 100 ⟨a, .empty⟩) (call.evaluate 100 ⟨b, .empty⟩) := by
  intro f call s env a b
  have hs : AgreeOn s.readNames a b := by
    simp [AgreeOn, s, call, Statement.readNames, Expr.readNames, argumentsReadNames, a, b,
      Environment.lookup_bind]
  have hcall : AgreeOn call.readNames a b := by
    simp [AgreeOn, call, Expr.readNames, argumentsReadNames, a, b, Environment.lookup_bind]
  have hmatches := matches_of_agreeOn_readNames a b .empty 100
  exact ⟨⟨hs, hmatches.1 s hs⟩, hcall, hmatches.2 call hcall⟩

end Imperative
