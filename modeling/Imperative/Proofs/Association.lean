import Imperative.Proofs.Adequacy
import Imperative.Proofs.Rendering

/-! The nesting of sequences leaves no trace in canonical text.  Although a sequence is written from
a list of pending statements, its text is that of its parts with a semicolon between them, so a
program is written as `composed` says, by recursion on the tree.  The text is that of the chain of
statements, each written once, and running the program is running this chain in the same order. -/

namespace Imperative

/-- The canonical text of a statement, put together from the texts of its parts. -/
def Statement.composed : Statement → String
  | .sequence first second => first.composed ++ "; " ++ second.composed
  | .procedure name parameters body => renderProcedure name parameters body.composed
  | .choice guard yes no =>
    "if " ++ guard.render ++ " \x7b " ++ yes.composed ++ " \x7d else \x7b " ++ no.composed ++
      " \x7d"
  | .loop guard body => "while " ++ guard.render ++ " \x7b " ++ body.composed ++ " \x7d"
  | .print value => "print " ++ value.render
  | .expression value => value.render

theorem Statement.render_eq_composed (s : Statement) : s.render = s.composed := by
  induction s with
  | sequence a b iha ihb => rw [render_sequence, iha, ihb, composed]
  | procedure name ps body ih => rw [render, ih, composed]
  | choice guard yes no ihyes ihno => rw [render, ihyes, ihno, composed]
  | loop guard body ih => rw [render, ih, composed]
  | print e => rw [render, composed]
  | expression e => rw [render, composed]

/-! ### Nesting -/

/-- Statements that differ only in how their sequences are nested, inside blocks and procedures as
well: the least congruence for which sequencing is associative. -/
inductive Reassociated : Statement → Statement → Prop
  | refl (s : Statement) : Reassociated s s
  | symm {s t : Statement} : Reassociated s t → Reassociated t s
  | trans {s t u : Statement} : Reassociated s t → Reassociated t u → Reassociated s u
  | assoc (a b c : Statement) :
      Reassociated (.sequence (.sequence a b) c) (.sequence a (.sequence b c))
  | sequence {a a' b b' : Statement} : Reassociated a a' → Reassociated b b' →
      Reassociated (.sequence a b) (.sequence a' b')
  | procedure {name : String} {parameters : List String} {body body' : Statement} :
      Reassociated body body' →
      Reassociated (.procedure name parameters body) (.procedure name parameters body')
  | choice {guard : Expr} {yes yes' no no' : Statement} : Reassociated yes yes' →
      Reassociated no no' → Reassociated (.choice guard yes no) (.choice guard yes' no')
  | loop {guard : Expr} {body body' : Statement} : Reassociated body body' →
      Reassociated (.loop guard body) (.loop guard body')

theorem Reassociated.composed_eq {s t : Statement} (h : Reassociated s t) :
    s.composed = t.composed := by
  induction h with
  | refl s => rfl
  | symm _ ih => exact ih.symm
  | trans _ _ ih ih' => exact ih.trans ih'
  | assoc a b c => simp only [Statement.composed, String.append_assoc]
  | sequence _ _ iha ihb => rw [Statement.composed, iha, ihb, Statement.composed]
  | procedure _ ih => rw [Statement.composed, ih, Statement.composed]
  | choice _ _ ihyes ihno => rw [Statement.composed, ihyes, ihno, Statement.composed]
  | loop _ ih => rw [Statement.composed, ih, Statement.composed]

namespace Statement

theorem chain_ne_nil (s : Statement) : s.chain ≠ [] := by
  induction s with
  | sequence a b iha _ => simp [chain, iha]
  | _ => simp [chain]

theorem not_isSequence_of_mem_chain {s p : Statement} (h : p ∈ s.chain) : p.isSequence = false := by
  induction s with
  | sequence a b iha ihb =>
    rw [chain, List.mem_append] at h
    rcases h with h | h
    · exact iha h
    · exact ihb h
  | _ => rw [List.mem_singleton.mp h]; rfl

/-- The text of a statement is that of the statements of its chain, divided by semicolons. -/
theorem render_eq_intercalate (s : Statement) :
    s.render = "; ".intercalate (s.chain.map render) := by
  induction s with
  | sequence a b iha ihb =>
    have ha : a.chain.map render ≠ [] := by simpa using a.chain_ne_nil
    have hb : b.chain.map render ≠ [] := by simpa using b.chain_ne_nil
    rw [render_sequence, iha, ihb, chain, List.map_append,
      String.intercalate_append_of_ne_nil ha hb]
  | _ => simp [chain]

end Statement

/-! ### Order of execution -/

section Executions

variable {s a b : Statement} {ps qs : List Statement} {v w : Number} {env : Environment}
  {out : String} {r : Conclusion Number} {log : List Event}

namespace ExecutesEach

/-- The value before the first statement does not matter. -/
theorem of_value (h : ExecutesEach (s :: ps) v env out r log) :
    ExecutesEach (s :: ps) w env out r log := by
  cases h with
  | cons hs hps => exact .cons hs hps
  | stop hs => exact .stop hs

theorem imp_tail (h : ExecutesEach (s :: ps) v env out r log)
    (himp : ∀ {x env₁ out₁ l}, ExecutesEach ps x env₁ out₁ r l →
      ExecutesEach qs x env₁ out₁ r l) :
    ExecutesEach (s :: qs) v env out r log := by
  cases h with
  | cons hs hps => exact .cons hs (himp hps)
  | stop hs => exact .stop hs

theorem of_sequence (h : ExecutesEach (.sequence a b :: ps) v env out r log) :
    ExecutesEach (a :: b :: ps) w env out r log := by
  cases h with
  | cons hs hps =>
    cases hs with
    | sequence ha hb =>
      rw [List.append_assoc]
      exact .cons ha (.cons hb hps)
  | stop hs =>
    cases hs with
    | sequence ha hb => exact .cons ha (.stop hb)
    | sequence_first ha => exact .stop ha

/-- What is derived of pending statements, evaluation settles on. -/
theorem settles (h : ExecutesEach ps v env out r log) (events : Array Event) :
    Settles (fun n => executePending n ps v ⟨env, out, events⟩) (r.outcome events log) := by
  induction h generalizing events with
  | nil =>
    rw [Conclusion.outcome, Array.append_empty]
    exact .step (fun n => executePending_nil n ..) (.const _)
  | cons hs _ ih =>
    rw [← Conclusion.outcome_append]
    exact hs.settles events (ih _)
  | stop hs => exact hs.settles events (.const _)

end ExecutesEach

/-- A statement may be replaced by its chain where it is pending. -/
theorem executesEach_chain_iff : ExecutesEach (s.chain ++ ps) v env out r log ↔
    ExecutesEach (s :: ps) v env out r log := by
  induction s generalizing ps v env out r log with
  | sequence a b iha ihb =>
    rw [Statement.chain, List.append_assoc, iha]
    constructor
    · intro h
      exact (h.imp_tail ihb.mp).of_value.sequence
    · intro h
      exact h.of_sequence.imp_tail ihb.mpr
  | _ => rfl

theorem exists_executePending {st : State} {o : Outcome Number} (ho : o ≠ .unfinished)
    (himp : ∀ {env out r log}, ExecutesEach ps v env out r log → ExecutesEach qs w env out r log)
    (h : ∃ bound, executePending bound ps v st = o) :
    ∃ bound, executePending bound qs w st = o := by
  obtain ⟨env, out, events⟩ := st
  obtain ⟨n, hn⟩ := h
  rcases (derived n).pending ps v env out events with hun | ⟨r, log, heq, hr⟩
  · exact absurd (hn.symm.trans hun) ho
  · obtain ⟨m, hm⟩ := (himp hr).settles events
    exact ⟨m, (hm m (Nat.le_refl m)).trans (heq.symm.trans hn)⟩

end Executions

/-- A sequence is written as its parts with a semicolon between them, and so every program as
`composed` says; programs that differ only in how sequences are nested have the same text.  It holds
the statements of the chain one after the other, each once, none of them a sequence, and they are
run in this order: the program ends as its chain does as a list of pending statements. -/
theorem render_chain :
    (∀ a b : Statement, (Statement.sequence a b).render = a.render ++ "; " ++ b.render) ∧
    (∀ s : Statement, s.render = s.composed) ∧
    (∀ s t : Statement, Reassociated s t → s.render = t.render) ∧
    ∀ s : Statement, s.render = "; ".intercalate (s.chain.map Statement.render) ∧
      (∀ p ∈ s.chain, p.isSequence = false) ∧
      ∀ (st : State) (o : Outcome Number), o ≠ .unfinished →
        ((∃ bound, s.execute bound st = o) ↔
          ∃ bound, executePending bound s.chain .zero st = o) := by
  refine ⟨Statement.render_sequence, Statement.render_eq_composed, fun s t h => ?_, fun s =>
    ⟨s.render_eq_intercalate, fun p => Statement.not_isSequence_of_mem_chain, fun st o ho => ?_⟩⟩
  · rw [s.render_eq_composed, t.render_eq_composed, h.composed_eq]
  · have hchain {env : Environment} {out : String} {r : Conclusion Number} {log : List Event} :
        ExecutesEach s.chain .zero env out r log ↔ ExecutesEach [s] .zero env out r log := by
      rw [← executesEach_chain_iff, List.append_nil]
    exact ⟨exists_executePending ho hchain.mpr, exists_executePending ho hchain.mp⟩

/-- A procedure with three statements and two statements behind it, nested to the left inside and to
the right outside, and the other way round. -/
theorem render_chain_procedure :
    let one : Statement := .print (.var "a" 1)
    let two : Statement := .print (.var "b" 1)
    let s : Statement := .sequence (.procedure "f" ["a", "b"] (.sequence (.sequence one two) one))
      (.sequence two one)
    let t : Statement := .sequence (.sequence (.procedure "f" ["a", "b"]
      (.sequence one (.sequence two one))) two) one
    Reassociated s t ∧ s.render = t.render ∧
      s.render = "proc f(a, b) \x7b print a; print b; print a \x7d; print b; print a" := by
  intro one two s t
  obtain ⟨-, hcomposed, hnested, -⟩ := render_chain
  have h : Reassociated s t :=
    .trans (.sequence (.procedure (.assoc one two one)) (.refl _)) (.symm (.assoc _ two one))
  refine ⟨h, hnested s t h, ?_⟩
  rw [hcomposed]
  decide +kernel

end Imperative
