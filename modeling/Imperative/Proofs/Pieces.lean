import Imperative.Proofs.Adequacy
import Imperative.Proofs.Relocation
import Imperative.Proofs.RoundTrip

/-! Two programs with a semicolon between them.  The second source is scanned as if it were alone,
but further down and with other numbers, its statements are joined to the first program one by one,
and running the whole is running the first program and then, from the state that it left, the second
one, except for the lines of the second. -/

namespace Imperative

open Relocation

/-! ### Scanning -/

/-- How many lines end in a source. -/
def newlines (source : String) : Nat := source.toList.count '\n'

namespace Scan

/-- The scan as it stands behind other lexemes and lines. -/
def behind (before : Array Lexeme) (lines : Nat) (s : Scan) : Scan :=
  ⟨before ++ s.lexemes.map (only (· + lines) (before.size + ·)).move, s.pending, s.line + lines⟩

variable (before : Array Lexeme) (lines : Nat) (s : Scan)

theorem behind_emit (t : Token) :
    (s.behind before lines).emit t = (s.emit t).behind before lines := by
  simp [behind, emit, move, only]

theorem behind_endWord : (s.behind before lines).endWord = s.endWord.behind before lines := by
  unfold endWord
  rw [show (s.behind before lines).pending = s.pending from rfl]
  split
  · rfl
  · rw [behind_emit]
    rfl

theorem behind_step (c : Char) :
    (s.behind before lines).step c = (s.step c).behind before lines := by
  unfold step blank
  split
  · rw [behind_endWord]
    split
    · simp only [behind, Nat.add_right_comm]
    · rfl
  · split
    · rw [behind_endWord, behind_emit]
    · rfl

theorem behind_run (cs : List Char) :
    (s.behind before lines).run cs = (s.run cs).behind before lines := by
  induction cs generalizing s with
  | nil => rfl
  | cons c cs ih => rw [run_cons, run_cons, behind_step, ih]

theorem behind_finish : (s.behind before lines).finish =
    before.toList ++ s.finish.map (only (· + lines) (before.size + ·)).move := by
  rw [finish, behind_endWord, finish]
  simp [behind]

/-- A scan between words is the beginning of one that stands behind its lexemes and lines. -/
theorem eq_behind {s : Scan} {lines : Nat} (hpending : s.pending = "")
    (hline : s.line = 1 + lines) : s = Scan.start.behind s.lexemes lines := by
  obtain ⟨lexemes, pending, line⟩ := s
  subst hpending hline
  simp [behind, start]

/-- Between words, a text has its own lexemes, behind those found before and further down. -/
theorem finish_run {s : Scan} {lines : Nat} (hpending : s.pending = "")
    (hline : s.line = 1 + lines) (text : String) : (s.run text.toList).finish =
      s.lexemes.toList ++ (tokenize text).map (only (· + lines) (s.lexemes.size + ·)).move := by
  conv_lhs => rw [eq_behind hpending hline, behind_run, behind_finish]
  rfl

end Scan

/-- Behind a semicolon, the second source has its own lexemes, further down. -/
theorem tokenize_semicolon (a b : String) : tokenize (a ++ ";" ++ b) =
    tokenize a ++ ⟨.mark .semicolon, 1 + newlines a, (tokenize a).length⟩ ::
      (tokenize b).map (only (· + newlines a) ((tokenize a).length + 1 + ·)).move := by
  have hcs : (a ++ ";" ++ b).toList = a.toList ++ ';' :: b.toList := by simp
  let s := (Scan.start.run a.toList).endWord
  have hline : s.line = 1 + newlines a := by
    rw [Scan.endWord_line, Scan.run_line]
    rfl
  have hpending : (s.emit (.mark .semicolon)).pending = "" := Scan.endWord_pending _
  rw [tokenize, hcs, Scan.run_append, Scan.run_cons,
    Scan.step_mark _ (m := .semicolon) (by decide) (by decide), Scan.finish_run hpending hline]
  simp [tokenize, Scan.finish, s, hline]

/-! ### Parsing -/

namespace Statement

theorem isLeftward_mapLines (f : Nat → Nat) (s : Statement) :
    (s.mapLines f).isLeftward = s.isLeftward := by
  rw [← isLeftward_atLine 0, atLine_mapLines, isLeftward_atLine]

theorem chain_of_not_isSequence {s : Statement} (h : s.isSequence = false) : s.chain = [s] := by
  cases s with
  | sequence a b => cases h
  | _ => rfl

/-- The chain of a statement nested to the left is joined to another one from the left. -/
theorem followedBy_eq_foldl (s : Statement) {t : Statement} (h : t.isLeftward = true) :
    s.followedBy t = t.chain.foldl .sequence s := by
  induction t with
  | sequence a b iha _ =>
    simp only [isLeftward, Bool.and_eq_true, Bool.not_eq_true'] at h
    rw [followedBy, iha h.1.1, chain, List.foldl_append, chain_of_not_isSequence h.2]
    rfl
  | _ => rfl

end Statement

namespace Parser

variable {ts q r : List Lexeme} {s : Statement}

theorem not_isSequence_of_statement (h : Yields (statement ts) s r) : s.isSequence = false := by
  cases yields_statement_iff.mp h <;> rfl

/-- What stands before the first item of a chain of statements stands before the whole chain. -/
theorem Chained.followedBy {item : List Lexeme → Statement → List Lexeme → Prop}
    (p : Statement) {left v : Statement} (h : Chained item sequences left q v r) :
    Chained item sequences (p.followedBy left) q (p.followedBy v) r := by
  induction h with
  | stop hstops => exact .stop hstops
  | step hl hitem _ ih =>
    obtain ⟨-, rfl⟩ := sequences_eq_some_iff.mp hl
    exact .step hl hitem ih

end Parser

/-- Behind a semicolon, the statements of a second program are joined to the first. -/
theorem parseLexemes_semicolon {ts us : List Lexeme} {p q : Statement}
    (hp : parseLexemes ts = .ok p) (hq : parseLexemes us = .ok q) (place : Position) :
    parseLexemes (ts ++ ⟨.mark .semicolon, place⟩ :: us) = .ok (p.followedBy q) := by
  rw [parseLexemes_eq_ok_iff, Parser.yields_program_iff] at hp hq ⊢
  obtain ⟨left, rest, hleft, hchain⟩ := hp
  obtain ⟨first, rest', hfirst, hchain'⟩ := hq
  let m := extend (⟨.mark .semicolon, place⟩ :: us)
  have hclosed : Fits (Parser.Closed m.behind) [] := fun _ => Parser.closed_mark (by decide) _ _
  -- The chain of the first program stopped for want of a semicolon; now one comes.
  have hnext : Parser.Chained (fun us w rest => Parser.Yields (Parser.statement us) w rest)
      Parser.sequences (p.mapLines m.line) (m.apply []) (p.followedBy q) [] := by
    refine .step rfl hfirst ?_
    rw [show p.mapLines m.line = p from p.mapLines_id,
      ← Statement.followedBy_of_not_isSequence (Parser.not_isSequence_of_statement hfirst)]
    exact hchain'.followedBy p
  rw [← apply_extend]
  refine ⟨left.mapLines m.line, m.apply rest, ?_, ?_⟩
  · exact (Parser.statements_move m ts).statement.yields hleft (hchain.fits hclosed)
  · exact hchain.relocate (Parser.sequences_relabelled _)
      (fun us _ => (Parser.statements_move m us).statement) hclosed
      (Nat.le_of_lt hleft.shorter) hnext

/-! ### Evaluation -/

section Executions

variable {env : Environment} {out : String} {r : Conclusion Number} {log : List Event}

theorem executes_sequence_assoc_iff {a b c : Statement} :
    Executes (.sequence (.sequence a b) c) env out r log ↔
      Executes (.sequence a (.sequence b c)) env out r log := by
  constructor
  · intro h
    cases h with
    | sequence hab hc =>
      cases hab with
      | sequence ha hb =>
        rw [List.append_assoc]
        exact .sequence ha (.sequence hb hc)
    | sequence_first hab =>
      cases hab with
      | sequence ha hb => exact .sequence ha (.sequence_first hb)
      | sequence_first ha => exact .sequence_first ha
  · intro h
    cases h with
    | sequence ha hbc =>
      cases hbc with
      | sequence hb hc =>
        rw [← List.append_assoc]
        exact .sequence (.sequence ha hb) hc
      | sequence_first hb => exact .sequence_first (.sequence ha hb)
    | sequence_first ha => exact .sequence_first (.sequence_first ha)

theorem Executes.sequence_imp {a a' b : Statement} (h : Executes (.sequence a b) env out r log)
    (himp : ∀ r log, Executes a env out r log → Executes a' env out r log) :
    Executes (.sequence a' b) env out r log := by
  cases h with
  | sequence ha hb => exact .sequence (himp _ _ ha) hb
  | sequence_first ha => exact .sequence_first (himp _ _ ha)

/-- How the statements behind a program are nested does not matter. -/
theorem executes_followedBy_iff {p q : Statement} :
    Executes (p.followedBy q) env out r log ↔ Executes (.sequence p q) env out r log := by
  induction q generalizing r log with
  | sequence a b iha _ =>
    rw [Statement.followedBy, ← executes_sequence_assoc_iff]
    exact ⟨fun h => h.sequence_imp fun _ _ => iha.mp, fun h => h.sequence_imp fun _ _ => iha.mpr⟩
  | _ => rfl

end Executions

/-- The rule tells what evaluation comes to an end with, and evaluation settles on it. -/
structure Computes (f : Nat → Outcome Number) (events : Array Event)
    (rule : Conclusion Number → List Event → Prop) : Prop where
  concludes : ∀ n, (f n).Concludes events rule
  settles : ∀ {r log}, rule r log → Settles f (r.outcome events log)

section Computations

variable (p q : Statement) (env : Environment) (out : String) (events : Array Event)

theorem computes_execute :
    Computes (fun n => p.execute n ⟨env, out, events⟩) events (Executes p env out) where
  concludes n := ((derived n).pending [p] .zero env out events).imp fun _ _ h => h.single
  settles h := h.settles events (.conclusion _)

/-- Running one program and then another is running their sequence. -/
theorem computes_andThen :
    Computes (fun n => (p.execute n ⟨env, out, events⟩).andThen fun _ s => q.execute n s) events
      (Executes (.sequence p q) env out) where
  concludes n := by
    refine ((computes_execute p env out events).concludes n).andThen (fun _ _ _ h => ?_) ?_
    · exact .sequence_first h
    · intro x env₁ out₁ l₁ hp
      exact ((computes_execute q env₁ out₁ _).concludes n).imp fun _ _ hq => .sequence hp hq
  settles h := by
    cases h with
    | sequence hp hq =>
      rw [← Conclusion.outcome_append]
      refine ((computes_execute p env out events).settles hp).value_andThen ?_
      exact (computes_execute q _ _ _).settles hq
    | sequence_first hp => exact ((computes_execute p env out events).settles hp).fatal_andThen

end Computations

/-- Both evaluations settle, on outcomes that are the same but for their lines, or neither ever
comes to an end. -/
def SettleAlike (f g : Nat → Outcome Number) : Prop :=
  (∃ o o', Settles f o ∧ Settles g o' ∧ o ≠ .unfinished ∧
    o.mapLines (fun _ => 0) = o'.mapLines fun _ => 0) ∨
  ∀ n, f n = .unfinished ∧ g n = .unfinished

theorem settleAlike_of_computes {f g g' : Nat → Outcome Number} {events : Array Event}
    {rule rule' : Conclusion Number → List Event → Prop} (hf : Computes f events rule)
    (hg : Computes g events rule) (hg' : Computes g' events rule')
    (hlines : ∀ n, (g n).mapLines (fun _ => 0) = (g' n).mapLines fun _ => 0) :
    SettleAlike f g' := by
  by_cases hrule : ∃ r log, rule r log
  · obtain ⟨r, log, hr⟩ := hrule
    -- `g'` has an outcome at the bound where `g` has settled, and settles on it.
    have hne : r.outcome events log ≠ .unfinished := r.outcome_ne_unfinished log
    obtain ⟨n, hn⟩ := hg.settles hr
    have hsame := hlines n
    rw [hn n (Nat.le_refl n)] at hsame
    rcases hg'.concludes n with hun | ⟨r', log', heq, hr'⟩
    · rw [hun] at hsame
      exact absurd (Outcome.mapLines_eq_unfinished_iff.mp hsame) hne
    · rw [heq] at hsame
      exact .inl ⟨_, _, hf.settles hr, hg'.settles hr', hne, hsame⟩
  · have hnever {k : Nat → Outcome Number} (hk : Computes k events rule) (n : Nat) :
        k n = .unfinished := by
      rcases hk.concludes n with hun | ⟨r, log, -, hr⟩
      · exact hun
      · exact absurd ⟨r, log, hr⟩ hrule
    refine .inr fun n => ⟨hnever hf n, ?_⟩
    have hsame := hlines n
    rw [hnever hg n] at hsame
    exact Outcome.mapLines_eq_unfinished_iff.mp hsame.symm

/-- The lines of a program that runs second do not matter. -/
theorem andThen_execute_mapLines (f : Nat → Nat) (n : Nat) (q : Statement) (o : Outcome Number) :
    (o.andThen fun _ s => (q.mapLines f).execute n s).mapLines (fun _ => 0) =
      (o.andThen fun _ s => q.execute n s).mapLines fun _ => 0 := by
  cases o with
  | finished x s =>
    show ((q.mapLines f).execute n s).mapLines _ = (q.execute n s).mapLines _
    rw [← Statement.execute_mapLines, ← Statement.execute_mapLines, Statement.mapLines_mapLines]
    rfl
  | failed e t => rfl
  | unfinished => rfl

/-- Two programs with a semicolon between them are a program: the statements of the second, further
down by the lines of the first, are joined to the first from the left.  From every state, running it
is running the first and then, if that succeeds, the second from the state that is left, up to
lines. -/
theorem parse_semicolon_settleAlike {a b : String} {p q : Statement} (ha : parse a = .ok p)
    (hb : parse b = .ok q) :
    let whole := (q.mapLines (· + newlines a)).chain.foldl Statement.sequence p
    parse (a ++ ";" ++ b) = .ok whole ∧
      ∀ s : State, SettleAlike (fun n => whole.execute n s)
        fun n => (p.execute n s).andThen fun _ s => q.execute n s := by
  intro whole
  have hleftward : (q.mapLines (· + newlines a)).isLeftward = true := by
    rw [Statement.isLeftward_mapLines]
    exact (normal_of_parse hb).2
  have hwhole : whole = p.followedBy (q.mapLines (· + newlines a)) :=
    (p.followedBy_eq_foldl hleftward).symm
  constructor
  · rw [parse, tokenize_semicolon, hwhole]
    exact parseLexemes_semicolon ha (parseLexemes_moved hb _ _) _
  · rintro ⟨env, out, events⟩
    rw [hwhole]
    have hexecute := computes_execute (p.followedBy (q.mapLines (· + newlines a))) env out events
    have hrule : Executes (p.followedBy (q.mapLines (· + newlines a))) env out =
        Executes (.sequence p (q.mapLines (· + newlines a))) env out := by
      funext r log
      exact propext executes_followedBy_iff
    rw [hrule] at hexecute
    exact settleAlike_of_computes hexecute (computes_andThen p _ env out events)
      (computes_andThen p q env out events) fun n => andThen_execute_mapLines _ n q _

/-- A program over four lines that defines a procedure, and one over three lines that calls it and
then fails in its third line, which is the sixth of the whole. -/
theorem parse_semicolon_settleAlike_procedures :
    let a := "x := 2;\nproc f(n) \x7b\n print n\n\x7d"
    let b := "f(x);\nproc g() \x7b\n y \x7d; g()"
    let p : Statement := .sequence (.expression (.assign "x" (.literal ⟨0x4000000000000000⟩)))
      (.procedure "f" ["n"] (.print (.var "n" 3)))
    let q : Statement := .sequence (.sequence (.expression (.call "f" [.var "x" 1] 1))
      (.procedure "g" [] (.expression (.var "y" 3)))) (.expression (.call "g" [] 3))
    let whole : Statement := .sequence (.sequence (.sequence p
      (.expression (.call "f" [.var "x" 4] 4))) (.procedure "g" [] (.expression (.var "y" 6))))
      (.expression (.call "g" [] 6))
    parse a = .ok p ∧ parse b = .ok q ∧ parse (a ++ ";" ++ b) = .ok whole ∧
      ∀ s : State, SettleAlike (fun n => whole.execute n s)
        fun n => (p.execute n s).andThen fun _ s => q.execute n s := by
  intro a b p q whole
  have ha : parse a = .ok p := by decide +kernel
  have hb : parse b = .ok q := by decide +kernel
  have hwhole : (q.mapLines (· + newlines a)).chain.foldl Statement.sequence p = whole := by
    decide +kernel
  rw [← hwhole]
  exact ⟨ha, hb, parse_semicolon_settleAlike ha hb⟩

end Imperative
