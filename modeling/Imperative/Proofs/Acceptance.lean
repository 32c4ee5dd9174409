import Imperative.Tree.Agreement
import Imperative.Proofs.Grammar

/-! Parsing accepts exactly what the grammar derives.

The derivation that a parser finds need not be the one at hand: of `x := 1 < 2 < 3` the assignment
may end before or behind the first comparison, and parsing gives it as much as it can take.  What
counts is only how many comparisons are open.  A run is an expression as it stands in the source,
read from the left: operands and operators in turn, where each assignment opens one more comparison
and each comparison closes one.  Every derivation is a run, and parsers take runs. -/

namespace Imperative.Grammar

open Imperative.Parser

/-- How many comparisons an operator takes: one or none. -/
def slots (op : Operator) : Nat := if op ∈ comparisons then 1 else 0

mutual

/-- An operand other than an assignment. -/
inductive Operand : List Lexeme → Prop
  | group {ts : List Lexeme} {p q : Position} : Run 1 ts →
      Operand (⟨.mark .leftParen, p⟩ :: (ts ++ [⟨.mark .rightParen, q⟩]))
  | call {name : String} {p q r : Position} : Word.isIdentifier name = true →
      Operand [⟨.word name, p⟩, ⟨.mark .leftParen, q⟩, ⟨.mark .rightParen, r⟩]
  | callWith {name : String} {ts : List Lexeme} {p q r : Position} :
      Word.isIdentifier name = true → RunList ts →
      Operand (⟨.word name, p⟩ :: ⟨.mark .leftParen, q⟩ :: (ts ++ [⟨.mark .rightParen, r⟩]))
  | var {name : String} {p : Position} : Word.isIdentifier name = true →
      Operand [⟨.word name, p⟩]
  | number {numeral : String} {p : Position} {x : Number} : Word.isNumeral numeral = true →
      Number.ofText? numeral = some x → Operand [⟨.word numeral, p⟩]

/-- Operands and operators in turn, where `n` comparisons are open from the start. -/
inductive Run : Nat → List Lexeme → Prop
  | operand {n : Nat} {ts : List Lexeme} : Operand ts → Run n ts
  | assign {n : Nat} {name : String} {ts : List Lexeme} {p q r : Position} :
      Word.isIdentifier name = true → Run (n + 1) ts →
      Run n (⟨.word name, p⟩ :: ⟨.mark .colon, q⟩ :: ⟨.mark .equal, r⟩ :: ts)
  | operator {n : Nat} {op : Operator} {ts us : List Lexeme} {p : Position} : Operand ts →
      Run n us → Run (n + slots op) (ts ++ ⟨.mark op.mark, p⟩ :: us)

/-- One or more runs with commas between them, each with one comparison open. -/
inductive RunList : List Lexeme → Prop
  | last {ts : List Lexeme} : Run 1 ts → RunList ts
  | more {ts us : List Lexeme} {p : Position} : Run 1 ts → RunList us →
      RunList (ts ++ ⟨.mark .comma, p⟩ :: us)

end

/-! ### Derivations are runs -/

theorem Run.mono {n : Nat} {ts : List Lexeme} (k : Nat) : Run n ts → Run (n + k) ts
  | .operand h => .operand h
  | .assign hname h => by
    have hmono := h.mono k
    rw [Nat.add_right_comm] at hmono
    exact .assign hname hmono
  | .operator h hrest => by
    rw [Nat.add_right_comm]
    exact .operator h (hrest.mono k)

/-- An operator and a run that opens no comparison may follow a run. -/
theorem Run.append {n : Nat} {ts us : List Lexeme} (op : Operator) (p : Position) :
    Run n ts → Run 0 us → Run (n + slots op) (ts ++ ⟨.mark op.mark, p⟩ :: us)
  | .operand h, hus => by
    have hmono := hus.mono n
    rw [Nat.zero_add] at hmono
    exact .operator h hmono
  | .assign hname h, hus => by
    have happend := h.append op p hus
    rw [Nat.add_right_comm] at happend
    exact .assign hname happend
  | .operator h hrest, hus => by
    rw [List.append_assoc, Nat.add_right_comm]
    exact .operator h (hrest.append op p hus)

theorem slots_of_mem_comparisons {op : Operator} (h : op ∈ comparisons) : slots op = 1 := if_pos h

theorem slots_of_mem_sums : ∀ op ∈ sums, slots op = 0 := by decide

theorem slots_of_mem_products : ∀ op ∈ products, slots op = 0 := by decide

mutual

theorem Condition.run {ts : List Lexeme} {e : Expr} : Condition ts e → Run 1 ts
  | .sum h => h.run.mono 1
  | @Condition.comparison _ _ p op _ _ hop ha hb => by
    have happend := ha.run.append op p hb.run
    rwa [slots_of_mem_comparisons hop] at happend

theorem Sum.run {ts : List Lexeme} {e : Expr} : Sum ts e → Run 0 ts
  | .product h => h.run
  | @Sum.more _ _ p op _ _ hop ha hb => by
    have happend := ha.run.append op p hb.run
    rwa [slots_of_mem_sums op hop] at happend

theorem Product.run {ts : List Lexeme} {e : Expr} : Product ts e → Run 0 ts
  | .power h => h.run
  | @Product.more _ _ p op _ _ hop ha hb => by
    have happend := ha.run.append op p hb.run
    rwa [slots_of_mem_products op hop] at happend

theorem Power.run {ts : List Lexeme} {e : Expr} : Power ts e → Run 0 ts
  | .atom h => h.run
  | @Power.more _ _ p _ _ ha hb => ha.run.append .power p hb.run

theorem Atom.run {ts : List Lexeme} {e : Expr} : Atom ts e → Run 0 ts
  | .group h => .operand (.group h.run)
  | .assign hname h => .assign hname h.run
  | .call hname .none => .operand (.call hname)
  | .call hname (.some h) => .operand (.callWith hname h.run)
  | .var hname => .operand (.var hname)
  | .number hnumeral hx => .operand (.number hnumeral hx)

theorem ArgumentList.run {ts : List Lexeme} {es : List Expr} : ArgumentList ts es → RunList ts
  | .last h => .last h.run
  | .more h hes => .more h.run hes.run

end

/-! ### Parsers take runs -/

/-- What is left of a run with `r` behind it, when `n` comparisons are open: nothing of the run, or
an admitted operator and a run again. -/
inductive Remains (admitted : Operator → Prop) (n : Nat) (r : List Lexeme) : List Lexeme → Prop
  | nothing : Remains admitted n r r
  | operator {op : Operator} {m : Nat} {us : List Lexeme} {p : Position} : admitted op →
      n = m + slots op → Run m us → Remains admitted n r (⟨.mark op.mark, p⟩ :: (us ++ r))

section Rest

variable {admitted : Operator → Prop} {n : Nat} {r q : List Lexeme}

theorem Remains.endsName (hr : Closed r) (h : Remains admitted n r q) : EndsName q := by
  cases h with
  | nothing => exact hr.endsName
  | operator _ _ _ => exact endsName_operator _ _ _

theorem Remains.stops {ops : List Operator} (hr : Closed r) (hops : ∀ op, admitted op → op ∉ ops)
    (h : Remains admitted n r q) : Stops (joins ops) q := by
  cases h with
  | nothing => exact hr.stops ops
  | operator hop _ _ => exact stops_of_notMem (hops _ hop) _ _

theorem Remains.imp {admitted' : Operator → Prop} (himp : ∀ op, admitted op → admitted' op)
    (h : Remains admitted n r q) : Remains admitted' n r q := by
  cases h with
  | nothing => exact .nothing
  | operator hop hn hus => exact .operator (himp _ hop) hn hus

/-- When no comparison is open and only comparisons may be left, nothing is. -/
theorem Remains.eq_of_comparisons (h : Remains (· ∈ comparisons) 0 r q) : q = r := by
  cases h with
  | nothing => rfl
  | operator hop hn _ =>
    rw [slots_of_mem_comparisons hop] at hn
    omega

/-- A chain takes what its operators link. -/
theorem Remains.chained {item : Parser Expr} {ops : List Operator} {ts : List Lexeme}
    (hops : ∀ op ∈ ops, slots op = 0) (hr : Closed r)
    (hitem : ∀ us, us.length < ts.length → Run n us →
      ∃ e q, Yields (item (us ++ r)) e q ∧ Remains admitted n r q)
    (h : Remains admitted n r q) (hq : q.length < (ts ++ r).length) (left : Expr) :
    ∃ v q', Chained (fun us w rest => Yields (item us) w rest) (joins ops) left q v q' ∧
      Remains (fun op => admitted op ∧ op ∉ ops) n r q' := by
  induction hk : q.length using Nat.strong_induction_on generalizing q left with
  | _ k ih =>
  cases h with
  | nothing =>
    exact ⟨left, r, .stop (hr.stops ops), .nothing⟩
  | @operator op m us p hop hn hus =>
    by_cases hmem : op ∈ ops
    · obtain rfl : n = m := by rw [hn, hops op hmem]; rfl
      have hlength : us.length < ts.length := by simp at hq; omega
      obtain ⟨right, q, hright, hremains⟩ := hitem us hlength hus
      have hshorter := hright.shorter
      obtain ⟨v, q', hchain, hremains'⟩ := ih q.length (by simp at hk; simp at hshorter; omega)
        hremains (by simp at hq hshorter ⊢; omega) (.binary op left right) rfl
      exact ⟨v, q', .step (joins_of_mem hmem) hright hchain, hremains'⟩
    · have hremains : Remains (fun op => admitted op ∧ op ∉ ops) n r
          (⟨.mark op.mark, p⟩ :: (us ++ r)) := .operator ⟨hop, hmem⟩ hn hus
      exact ⟨left, _, .stop (hremains.stops hr fun _ h => h.2), hremains⟩

end Rest

/-- The parsers of expressions take the runs `ts`, each up to an operator that it does not link. -/
structure Taken (ts : List Lexeme) : Prop where
  primary : ∀ n r, Closed r → Run n ts → ∃ e q, Yields (primary (ts ++ r)) e q ∧
    Remains (fun _ => True) n r q
  power : ∀ n r, Closed r → Run n ts → ∃ e q, Yields (power (ts ++ r)) e q ∧
    Remains (· ∉ powers) n r q
  product : ∀ n r, Closed r → Run n ts → ∃ e q, Yields (multiplicative (ts ++ r)) e q ∧
    Remains (fun op => op ∉ powers ∧ op ∉ products) n r q
  sum : ∀ n r, Closed r → Run n ts → ∃ e q, Yields (additive (ts ++ r)) e q ∧
    Remains (· ∈ comparisons) n r q
  condition : ∀ n r, Closed r → Run (n + 1) ts → ∃ e q, Yields (condition (ts ++ r)) e q ∧
    Remains (· ∈ comparisons) n r q

theorem Taken.whole {ts r : List Lexeme} (h : Taken ts) (hr : Closed r) (hts : Run 1 ts) :
    ∃ e, Yields (Parser.condition (ts ++ r)) e r := by
  obtain ⟨e, q, he, hq⟩ := h.condition 0 r hr hts
  rw [hq.eq_of_comparisons] at he
  exact ⟨e, he⟩

theorem RunList.listed {ts : List Lexeme} {p : Position} {r : List Lexeme} :
    RunList ts → (∀ us, us.length ≤ ts.length → Taken us) →
    ∃ es, Listed (fun us w rest => Yields (condition us) w rest) (.mark .rightParen)
      (ts ++ ⟨.mark .rightParen, p⟩ :: r) es r
  | .last h, htaken => by
    have hclosed := closed_mark (m := .rightParen) (by decide) p r
    obtain ⟨e, he⟩ := (htaken ts (Nat.le_refl _)).whole hclosed h
    exact ⟨[e], .last he (by simp) rfl⟩
  | @RunList.more us vs q h hrest, htaken => by
    obtain ⟨e, he⟩ := (htaken us (by simp)).whole
      (closed_mark (m := .comma) (by decide) q (vs ++ ⟨.mark .rightParen, p⟩ :: r)) h
    obtain ⟨es, hes⟩ := hrest.listed fun ws hws => htaken ws (by grind)
    refine ⟨e :: es, ?_⟩
    rw [List.append_assoc]
    exact .more he rfl hes

/-- An operand is taken whole, if nothing behind a single name makes more of it. -/
theorem Operand.yields {ts rest : List Lexeme} (htaken : ∀ us, us.length < ts.length → Taken us)
    (hrest : ts.length = 1 → EndsName rest) (h : Operand ts) :
    ∃ e, Yields (primary (ts ++ rest)) e rest := by
  simp only [yields_primary_iff]
  cases h with
  | @group us p q hus =>
    have hclosed := closed_mark (m := .rightParen) (by decide) q rest
    obtain ⟨e, he⟩ := (htaken us (by grind)).whole hclosed hus
    exact ⟨e, by simpa using PrimaryYields.group (l := ⟨.mark .leftParen, p⟩) rfl he rfl⟩
  | @call name p q t hname =>
    have harguments : Yields (commaSeparated (.mark .rightParen)
        (⟨.mark .rightParen, t⟩ :: rest) fun r _ => condition r) [] rest :=
      yields_commaSeparated_iff.mpr (.inl ⟨_, rfl, rfl, rfl⟩)
    exact ⟨_, .call (l := ⟨.word name, p⟩) (p := ⟨.mark .leftParen, q⟩) rfl hname rfl harguments⟩
  | @callWith name us p q t hname hus =>
    obtain ⟨es, hes⟩ := hus.listed (p := t) (r := rest) fun vs hvs => htaken vs (by grind)
    have harguments := yields_arguments_of_listed hes
    refine ⟨.call name es p.line, ?_⟩
    simpa using PrimaryYields.call (l := ⟨.word name, p⟩) (p := ⟨.mark .leftParen, q⟩) rfl hname rfl
      harguments
  | @var name p hname => exact ⟨_, .var (l := ⟨.word name, p⟩) rfl hname (hrest rfl)⟩
  | @number numeral p x hnumeral hx =>
    exact ⟨_, .literal (l := ⟨.word numeral, p⟩) rfl (Word.not_isIdentifier_of_isNumeral hnumeral)
      hnumeral hx⟩

theorem primary_taken {ts r : List Lexeme} (ih : ∀ us, us.length < ts.length → Taken us) {n : Nat}
    (hr : Closed r) (h : Run n ts) :
    ∃ e q, Yields (primary (ts ++ r)) e q ∧ Remains (fun _ => True) n r q := by
  cases h with
  | operand h =>
    obtain ⟨e, he⟩ := h.yields ih fun _ => hr.endsName
    exact ⟨e, r, he, .nothing⟩
  | @assign _ name us p q t hname hus =>
    obtain ⟨e, q', he, hq'⟩ := (ih us (by grind)).condition n r hr hus
    have hprimary : PrimaryYields (⟨.word name, p⟩ :: ⟨.mark .colon, q⟩ :: ⟨.mark .equal, t⟩ ::
        (us ++ r)) (.assign name e) q' := .assign rfl hname rfl rfl he
    exact ⟨_, q', yields_primary_iff.mpr hprimary, hq'.imp fun _ _ => trivial⟩
  | @operator m op us vs p hus hvs =>
    have hremains : Remains (fun _ => True) (m + slots op) r (⟨.mark op.mark, p⟩ :: (vs ++ r)) :=
      .operator trivial rfl hvs
    obtain ⟨e, he⟩ := hus.yields (fun ws hws => ih ws (by grind)) fun _ => hremains.endsName hr
    rw [List.append_assoc]
    exact ⟨e, _, he, hremains⟩

/-- The parsers of expressions take every run. -/
theorem taken (ts : List Lexeme) : Taken ts := by
  induction hk : ts.length using Nat.strong_induction_on generalizing ts with
  | _ k ih =>
  have ih' (us : List Lexeme) (hus : us.length < ts.length) : Taken us :=
    ih us.length (by omega) us rfl
  have hpower (n : Nat) (r : List Lexeme) (hr : Closed r) (h : Run n ts) :
      ∃ e q, Yields (Parser.power (ts ++ r)) e q ∧ Remains (· ∉ powers) n r q := by
    obtain ⟨left, q, hleft, hq⟩ := primary_taken ih' hr h
    have hshorter := hleft.shorter
    cases hq with
    | nothing =>
      exact ⟨left, r, yields_power_iff.mpr (.inl ⟨hleft, hr.stops powers⟩), .nothing⟩
    | @operator op m us p _ hn hus =>
      by_cases hmem : op ∈ powers
      · obtain rfl : n = m := by cases List.mem_singleton.mp hmem; exact hn
        obtain ⟨right, q', hright, hq'⟩ := (ih' us (by simp at hshorter; omega)).power n r hr hus
        exact ⟨_, q', yields_power_iff.mpr
          (.inr ⟨left, _, _, _, right, hleft, joins_of_mem hmem, hright, rfl⟩), hq'⟩
      · have hremains : Remains (· ∉ powers) n r (⟨.mark op.mark, p⟩ :: (us ++ r)) :=
          .operator hmem hn hus
        have hstops := hremains.stops hr fun _ => id
        exact ⟨left, _, yields_power_iff.mpr (.inl ⟨hleft, hstops⟩), hremains⟩
  have hproduct (n : Nat) (r : List Lexeme) (hr : Closed r) (h : Run n ts) :
      ∃ e q, Yields (multiplicative (ts ++ r)) e q ∧
        Remains (fun op => op ∉ powers ∧ op ∉ products) n r q := by
    obtain ⟨left, q, hleft, hq⟩ := hpower n r hr h
    obtain ⟨e, q', hchain, hq'⟩ := hq.chained slots_of_mem_products hr
      (fun us hus hrun => (ih' us hus).power n r hr hrun) hleft.shorter left
    exact ⟨e, q', yields_multiplicative_iff.mpr ⟨left, q, hleft, hchain⟩, hq'⟩
  have hsum (n : Nat) (r : List Lexeme) (hr : Closed r) (h : Run n ts) :
      ∃ e q, Yields (additive (ts ++ r)) e q ∧ Remains (· ∈ comparisons) n r q := by
    obtain ⟨left, q, hleft, hq⟩ := hproduct n r hr h
    obtain ⟨e, q', hchain, hq'⟩ := hq.chained slots_of_mem_sums hr
      (fun us hus hrun => (ih' us hus).product n r hr hrun) hleft.shorter left
    have hrest (op : Operator) (h : (op ∉ powers ∧ op ∉ products) ∧ op ∉ sums) :
        op ∈ comparisons := by
      revert h
      cases op <;> decide
    exact ⟨e, q', yields_additive_iff.mpr ⟨left, q, hleft, hchain⟩, hq'.imp hrest⟩
  refine ⟨fun n r hr h => primary_taken ih' hr h, hpower, hproduct, hsum, fun n r hr h => ?_⟩
  obtain ⟨left, q, hleft, hq⟩ := hsum (n + 1) r hr h
  have hshorter := hleft.shorter
  cases hq with
  | nothing =>
    exact ⟨left, r, yields_condition_iff.mpr (.inl ⟨hleft, hr.stops comparisons⟩), .nothing⟩
  | @operator op m us p hop hn hus =>
    obtain rfl : n = m := by rw [slots_of_mem_comparisons hop] at hn; omega
    obtain ⟨right, q', hright, hq'⟩ := (ih' us (by simp at hshorter; omega)).sum n r hr hus
    exact ⟨_, q', yields_condition_iff.mpr
      (.inr ⟨left, _, _, _, right, hleft, joins_of_mem hop, hright, rfl⟩), hq'⟩

theorem Block.closed {ts : List Lexeme} {s : Statement} (h : Block ts s) (r : List Lexeme) :
    Closed (ts ++ r) := by
  cases h
  exact closed_mark (m := .leftBrace) (by decide) _ _

theorem Condition.yields {ts r : List Lexeme} {e : Expr} (h : Condition ts e) (hr : Closed r) :
    ∃ e', Yields (condition (ts ++ r)) e' r :=
  (taken ts).whole hr h.run

/-! ### Statements -/

/-- The statement ends with a condition, and not with a block. -/
def EndsOpen : Statement → Prop
  | .print _ | .expression _ => True
  | _ => False

mutual

/-- What is derived as a program is taken as one, together with what goes on with it. -/
theorem Program.yields {ts q r : List Lexeme} {s : Statement} (hq : Closed q)
    (hnext : ∀ left, ∃ v,
      Chained (fun us w rest => Yields (statement us) w rest) sequences left q v r) :
    Program ts s → ∃ s', Yields (program (ts ++ q)) s' r
  | .statement h => by
    obtain ⟨left, hleft⟩ := h.yields fun _ => hq
    obtain ⟨v, hchain⟩ := hnext left
    exact ⟨v, yields_program_iff.mpr ⟨left, q, hleft, hchain⟩⟩
  | @Program.more us vs p _ _ ha hb => by
    rw [List.append_assoc]
    refine ha.yields (closed_mark (m := .semicolon) (by decide) p (vs ++ q)) fun left => ?_
    obtain ⟨right, hright⟩ := hb.yields fun _ => hq
    obtain ⟨v, hchain⟩ := hnext (.sequence left right)
    exact ⟨v, .step (sequences_eq_some_iff.mpr ⟨rfl, rfl⟩) hright hchain⟩

theorem Stmt.yields {ts r : List Lexeme} {s : Statement} :
    Stmt ts s → (EndsOpen s → Closed r) → ∃ s', Yields (statement (ts ++ r)) s' r
  | @Stmt.procedure name us vs p q t u names _ hname hnames hbody, _ => by
    obtain ⟨body', hbody'⟩ := hbody.yields r
    have hprocedure : StatementYields (⟨.word "proc", p⟩ :: ⟨.word name, q⟩ ::
        ⟨.mark .leftParen, t⟩ :: (us ++ ⟨.mark .rightParen, u⟩ :: (vs ++ r)))
        (.procedure name names body') r :=
      .procedure rfl (yields_identifier_iff.mpr ⟨_, rfl, rfl, hname⟩) rfl hnames.yields hbody'
    exact ⟨_, yields_statement_iff.mpr (by simpa using hprocedure)⟩
  | @Stmt.choice us vs ws p q _ _ _ hguard hyes hno, _ => by
    obtain ⟨no', hno'⟩ := hno.yields r
    obtain ⟨yes', hyes'⟩ := hyes.yields (⟨.word "else", q⟩ :: (ws ++ r))
    obtain ⟨guard', hguard'⟩ := hguard.yields (hyes.closed (⟨.word "else", q⟩ :: (ws ++ r)))
    have hchoice : StatementYields (⟨.word "if", p⟩ :: (us ++ (vs ++ ⟨.word "else", q⟩ ::
        (ws ++ r)))) (.choice guard' yes' no') r := .choice rfl hguard' hyes' rfl hno'
    exact ⟨_, yields_statement_iff.mpr (by simpa using hchoice)⟩
  | @Stmt.loop us vs p _ _ hguard hbody, _ => by
    obtain ⟨body', hbody'⟩ := hbody.yields r
    obtain ⟨guard', hguard'⟩ := hguard.yields (hbody.closed r)
    have hloop : StatementYields (⟨.word "while", p⟩ :: (us ++ (vs ++ r))) (.loop guard' body') r :=
      .loop rfl hguard' hbody'
    exact ⟨_, yields_statement_iff.mpr (by simpa using hloop)⟩
  | .print h, hr => by
    obtain ⟨e, he⟩ := h.yields (hr trivial)
    exact ⟨_, yields_statement_iff.mpr (.print rfl he)⟩
  | .expression h, hr => by
    obtain ⟨e, he⟩ := h.yields (hr trivial)
    exact ⟨_, yields_statement_iff.mpr (.expression he)⟩

theorem Block.yields {ts : List Lexeme} {s : Statement} (r : List Lexeme) :
    Block ts s → ∃ s', Yields (block (ts ++ r)) s' r
  | @Block.braces us p q _ h => by
    have hstops : Stops sequences (⟨.mark .rightBrace, q⟩ :: r) :=
      sequences_eq_none_iff.mpr (by simp)
    have hclosed := closed_mark (m := .rightBrace) (by decide) q r
    obtain ⟨s', hs'⟩ := h.yields hclosed fun left => ⟨left, .stop hstops⟩
    exact ⟨s', yields_block_iff.mpr ⟨⟨.mark .leftBrace, p⟩, us ++ ⟨.mark .rightBrace, q⟩ :: r,
      ⟨.mark .rightBrace, q⟩, by simp, rfl, hs', rfl⟩⟩

end

/-- Parsing accepts exactly the lexemes that the grammar derives as a program, and the tree it
returns is the tree of one of their derivations. -/
theorem parseLexemes_iff_derivable (ts : List Lexeme) :
    ((∃ s, parseLexemes ts = .ok s) ↔ ∃ s, Program ts s) ∧
      ∀ s, parseLexemes ts = .ok s → Program ts s := by
  refine ⟨⟨?_, ?_⟩, fun s => program_of_parseLexemes⟩
  · rintro ⟨s, hs⟩
    exact ⟨s, program_of_parseLexemes hs⟩
  · rintro ⟨s, hs⟩
    have hclosed : Closed [] := trivial
    obtain ⟨s', hs'⟩ := hs.yields hclosed fun left => ⟨left, .stop trivial⟩
    rw [List.append_nil] at hs'
    exact ⟨s', parseLexemes_eq_ok_iff.mpr hs'⟩

/-- Of two comparisons behind an assignment, the first belongs to the assigned value. -/
theorem comparison_of_assignment_derived :
    let ts := tokenize "x := 1 < y < z"
    let s := Statement.expression (.binary .less
      (.assign "x" (.binary .less (.literal ⟨0x3ff0000000000000⟩) (.var "y" 1))) (.var "z" 1))
    parseLexemes ts = .ok s ∧ Program ts s := by
  intro ts s
  have hparse : parseLexemes ts = .ok s := by decide +kernel
  exact ⟨hparse, (parseLexemes_iff_derivable ts).2 s hparse⟩

end Imperative.Grammar
