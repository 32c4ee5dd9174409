import Imperative.Proofs.Output

/-! Loops that have come to their end.  A loop drops what its last guard assigned, so it leaves the
environment in which that guard was zero: there the guard is zero again, whatever it assigns, calls
or prints, and the loop, begun again, ends at once. -/

namespace Imperative

theorem Outcome.exists_of_andThen {α β : Type} {o : Outcome α} {next : α → State → Outcome β}
    {y : β} {s' : State} (h : o.andThen next = .finished y s') :
    ∃ x s, o = .finished x s ∧ next x s = .finished y s' := by
  cases o with
  | finished x s => exact ⟨x, s, rfl, h⟩
  | failed e t => cases h
  | unfinished => cases h

section Rounds

variable {n : Nat} {i : UInt64} {g : Expr} {b : Statement} {s s' : State} {v : Number}

/-- One round of a loop that finishes: either its guard is zero and the environment from before it
comes back, or its body runs and the loop goes on from there. -/
theorem executeLoop_cases (h : executeLoop (n + 1) g b i s = .finished v s') :
    ∃ x s₁, g.evaluate n s = .finished x s₁ ∧
      ((x.isZero = true ∧ v = .zero ∧
          s' = ⟨s.environment, s₁.transcript.record (.loopFinished i)⟩) ∨
        (x.isZero = false ∧ ∃ y s₂, executePending n [b] .zero s₁ = .finished y s₂ ∧
          executeLoop n g b (i + 1) s₂ = .finished v s')) := by
  rw [executeLoop_succ] at h
  obtain ⟨x, s₁, hguard, h⟩ := Outcome.exists_of_andThen h
  refine ⟨x, s₁, hguard, ?_⟩
  split at h
  · next hzero =>
    cases h
    exact .inl ⟨hzero, rfl, rfl⟩
  · next hzero =>
    obtain ⟨y, s₂, hbody, h⟩ := Outcome.exists_of_andThen h
    exact .inr ⟨by simpa using hzero, y, s₂, hbody, h⟩

/-- However many rounds a loop makes, where it ends its guard has just been zero. -/
theorem guard_isZero_of_executeLoop (h : executeLoop n g b i s = .finished v s') :
    ∃ m t x s₁, g.evaluate m ⟨s'.environment, t⟩ = .finished x s₁ ∧ x.isZero = true := by
  induction n generalizing i s with
  | zero => cases h
  | succ n ih =>
    obtain ⟨x, s₁, hguard, ⟨hzero, -, rfl⟩ | ⟨-, y, s₂, -, hrest⟩⟩ := executeLoop_cases h
    · exact ⟨n, s.transcript, x, s₁, hguard, hzero⟩
    · exact ih hrest

theorem executeLoop_of_execute (h : (Statement.loop g b).execute n s = .finished v s') :
    ∃ m, executeLoop m g b 0 s = .finished v s' := by
  cases n with
  | zero => cases h
  | succ n =>
    obtain ⟨x, s₁, hloop, hrest⟩ := Outcome.exists_of_andThen h
    cases n with
    | zero => cases hrest
    | succ n =>
      cases hrest
      exact ⟨n + 1, hloop⟩

end Rounds

variable {g : Expr} {env env₁ : Environment} {x : Number}

/-- A value found after some transcript is found after every other, behind which the same is then
printed and logged. -/
theorem settles_of_evaluate_finished {n : Nat} {t : Transcript} {s : State}
    (h : g.evaluate n ⟨env, t⟩ = .finished x s) :
    ∃ u, ∀ t, Settles (fun n => g.evaluate n ⟨env, t⟩)
      (.finished x ⟨s.environment, t.append u⟩) := by
  obtain ⟨o, -, ho⟩ := (appendsWithin n).evaluate g env
  have hsame : o.after t = .finished x s := (ho t).symm.trans h
  cases o with
  | finished y s₀ =>
    cases hsame
    exact ⟨s₀.transcript, fun t => settles_of_evaluate (ho t) (by simp)⟩
  | failed e u => cases hsame
  | unfinished => cases hsame

/-- Where the guard is zero the loop ends before its body has run, whichever body that is. -/
theorem settles_loop_of_isZero {t u : Transcript} (hzero : x.isZero = true)
    (hguard : Settles (fun n => g.evaluate n ⟨env, t⟩) (.finished x ⟨env₁, u⟩)) (b : Statement) :
    Settles (fun n => (Statement.loop g b).execute n ⟨env, t⟩)
      (.finished .zero ⟨env, u.record (.loopFinished 0)⟩) := by
  have hloop : Settles (fun n => executeLoop n g b 0 ⟨env, t⟩)
      (.finished .zero ⟨env, u.record (.loopFinished 0)⟩) := by
    refine .step (fun n => executeLoop_succ n ⟨env, t⟩ g b 0) (hguard.andThen ?_)
    simp only [Outcome.andThen, hzero, if_true]
    exact .const _
  refine .step (fun n => executePending_loop n ⟨env, t⟩ .zero [] g b) (hloop.andThen ?_)
  exact .step (fun n => executePending_nil n _ _) (.const _)

/-- Where a loop has ended, its guard has a value that is zero, after whatever was printed before;
and the loop, begun again there, ends with value zero after no iteration, in the same environment
and with what the guard prints behind what was printed before.  Its body has no part in this: any
other in its place makes no difference. -/
theorem loop_again_of_finished {g : Expr} {b : Statement} {bound : Nat} {s s' : State} {v : Number}
    (h : (Statement.loop g b).execute bound s = .finished v s') :
    ∃ (x : Number) (env : Environment) (u : Transcript), x.isZero = true ∧ ∀ t : Transcript,
      Settles (fun n => g.evaluate n ⟨s'.environment, t⟩) (.finished x ⟨env, t.append u⟩) ∧
      ∀ b' : Statement, Settles (fun n => (Statement.loop g b').execute n ⟨s'.environment, t⟩)
        (.finished .zero ⟨s'.environment, (t.append u).record (.loopFinished 0)⟩) := by
  obtain ⟨n, hloop⟩ := executeLoop_of_execute h
  obtain ⟨m, t₀, x, s₁, hguard, hzero⟩ := guard_isZero_of_executeLoop hloop
  obtain ⟨u, hu⟩ := settles_of_evaluate_finished hguard
  exact ⟨x, s₁.environment, u, hzero, fun t => ⟨hu t, settles_loop_of_isZero hzero (hu t)⟩⟩

/-- A guard that assigns what a printing procedure returns.  When the loop ends, `x` has the value
from the guard before the last, yet the guard is zero. -/
theorem loop_again_of_printing_guard :
    let f : Procedure := ⟨"f", ["a"], .sequence (.print (.var "a" 1)) (.expression (.var "a" 1))⟩
    let g : Expr := .assign "x" (.call "f" [.var "y" 2] 2)
    let b : Statement := .expression (.assign "y" (.binary .subtract (.var "y" 2) (.literal .one)))
    let env := (Environment.empty.bind "f" (.procedure f)).bind "y" (.number .one)
    ∃ v s', (Statement.loop g b).execute 100 ⟨env, .empty⟩ = .finished v s' ∧
      s'.transcript.output = "1.0\n0.0\n" ∧ s'.environment.lookup "x" = some (.number .one) ∧
      ∃ (x : Number) (env : Environment) (u : Transcript), x.isZero = true ∧ ∀ t : Transcript,
        Settles (fun n => g.evaluate n ⟨s'.environment, t⟩) (.finished x ⟨env, t.append u⟩) ∧
        ∀ b' : Statement, Settles (fun n => (Statement.loop g b').execute n ⟨s'.environment, t⟩)
          (.finished .zero ⟨s'.environment, (t.append u).record (.loopFinished 0)⟩) := by
  intro f g b env
  have hrun : ∃ v s', (Statement.loop g b).execute 100 ⟨env, .empty⟩ = .finished v s' ∧
      s'.transcript.output = "1.0\n0.0\n" ∧ s'.environment.lookup "x" = some (.number .one) :=
    ⟨_, _, rfl, by decide +kernel, rfl⟩
  obtain ⟨v, s', h, houtput, hx⟩ := hrun
  exact ⟨v, s', h, houtput, hx, loop_again_of_finished h⟩

end Imperative
