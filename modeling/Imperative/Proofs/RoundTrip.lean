import Imperative.Tree.Agreement
import Imperative.Proofs.Grammar
import Imperative.Proofs.Rendering

/-! Canonical text is undone by parsing.  Every operand of the text is a primary of its own, because
operators and assignments stand in parentheses, so an expression is read back as it stands.  The
statements of a chain are read one after another and joined to the left, however their sequences
were nested. -/

namespace Imperative

open Imperative.Parser

/-! ### Operands and operators -/

section Levels

variable {ts us r : List Lexeme} {a b e : Expr} {op : Operator} {p : Position}

theorem power_of_primary (h : Yields (primary ts) e r) (hr : Stops (joins powers) r) :
    Yields (power ts) e r :=
  yields_power_iff.mpr (.inl ⟨h, hr⟩)

theorem multiplicative_of_power (h : Yields (power ts) e r) (hr : Stops (joins products) r) :
    Yields (multiplicative ts) e r :=
  yields_multiplicative_iff.mpr ⟨e, r, h, .stop hr⟩

theorem additive_of_multiplicative (h : Yields (multiplicative ts) e r)
    (hr : Stops (joins sums) r) : Yields (additive ts) e r :=
  yields_additive_iff.mpr ⟨e, r, h, .stop hr⟩

theorem additive_of_primary (h : Yields (primary ts) e r)
    (hr : ∀ ops ∈ [powers, products, sums], Stops (joins ops) r) : Yields (additive ts) e r :=
  additive_of_multiplicative
    (multiplicative_of_power (power_of_primary h (hr powers (by simp))) (hr products (by simp)))
    (hr sums (by simp))

theorem condition_of_additive (h : Yields (additive ts) e r) (hr : Closed r) :
    Yields (condition ts) e r :=
  yields_condition_iff.mpr (.inl ⟨h, hr.stops comparisons⟩)

theorem condition_of_primary (h : Yields (primary ts) e r) (hr : Closed r) :
    Yields (condition ts) e r :=
  condition_of_additive (additive_of_primary h fun ops _ => hr.stops ops) hr

theorem condition_of_power (h : Yields (power ts) e r) (hr : Closed r) :
    Yields (condition ts) e r :=
  condition_of_additive (additive_of_multiplicative
    (multiplicative_of_power h (hr.stops products)) (hr.stops sums)) hr

/-- Two operands with an operator between them are a condition. -/
theorem condition_of_operator (ha : Yields (primary ts) a (⟨.mark op.mark, p⟩ :: us))
    (hb : Yields (primary us) b r) (hr : Closed r) : Yields (condition ts) (.binary op a b) r := by
  have hclass : op ∈ comparisons ∨ op ∈ sums ∨ op ∈ products ∨ op ∈ powers := by
    cases op <;> decide
  have hpower := power_of_primary hb (hr.stops powers)
  have hproduct := multiplicative_of_power hpower (hr.stops products)
  have hsum := additive_of_multiplicative hproduct (hr.stops sums)
  -- The operand before an operator is read at the level that joins it: the tighter ones stop there.
  rcases hclass with hop | hop | hop | hop
  · have hlevels : ∀ op ∈ comparisons, ∀ ops ∈ [powers, products, sums], op ∉ ops := by decide
    have hleft := additive_of_primary ha fun ops hops =>
      stops_of_notMem (hlevels op hop ops hops) p us
    exact yields_condition_iff.mpr (.inr ⟨a, _, us, _, b, hleft, joins_of_mem hop, hsum, rfl⟩)
  · have hlevels : ∀ op ∈ sums, op ∉ powers ∧ op ∉ products := by decide
    have hleft := multiplicative_of_power
      (power_of_primary ha (stops_of_notMem (hlevels op hop).1 p us))
      (stops_of_notMem (hlevels op hop).2 p us)
    have hchain := yields_additive_iff.mpr
      ⟨a, _, hleft, .step (joins_of_mem hop) hproduct (.stop (hr.stops sums))⟩
    exact condition_of_additive hchain hr
  · have hlevels : ∀ op ∈ products, op ∉ powers := by decide
    have hleft := power_of_primary ha (stops_of_notMem (hlevels op hop) p us)
    have hchain := yields_multiplicative_iff.mpr
      ⟨a, _, hleft, .step (joins_of_mem hop) hpower (.stop (hr.stops products))⟩
    exact condition_of_additive (additive_of_multiplicative hchain (hr.stops sums)) hr
  · exact condition_of_power
      (yields_power_iff.mpr (.inr ⟨a, _, us, _, b, ha, joins_of_mem hop, hpower, rfl⟩)) hr

end Levels

/-! ### Expressions -/

theorem Number.tokens_of_isWritable {x : Number} (h : x.isWritable = true) :
    x.tokens = [.word x.literal] := by
  simp only [Number.isWritable, Bool.and_eq_true, Bool.not_eq_true'] at h
  simp [Number.tokens, Number.not_isNaN_of_isFinite h.1, h.2, Number.abs_of_not_isNegative h.2]

mutual

/-- The tokens of a writable expression are a primary that spells it. -/
theorem Expr.yields (line : Nat) : (e : Expr) → e.isWritable = true → (index : Nat) →
    (r : List Lexeme) → EndsName r →
    Yields (primary (inLine line index e.tokens ++ r)) (e.atLine line) r
  | .literal x, h, index, r, _ => by
    have hwritable : x.isWritable = true := h
    have hx := Bool.and_eq_true_iff.mp hwritable
    have hnumeral := Number.isNumeral_literal hx.1 (by simpa using hx.2)
    rw [Expr.tokens, Number.tokens_of_isWritable hwritable]
    exact yields_primary_iff.mpr (.literal (l := ⟨.word x.literal, line, index⟩) rfl
      (Word.not_isIdentifier_of_isNumeral hnumeral) hnumeral (Number.ofText?_literal hx.1))
  | .var name _, h, index, r, hr =>
    yields_primary_iff.mpr (.var (l := ⟨.word name, line, index⟩) rfl h hr)
  | .binary op a b, h, index, r, _ => by
    obtain ⟨ha, hb⟩ := Bool.and_eq_true_iff.mp h
    let behind := index + 1 + a.tokens.length
    let close : Position := ⟨line, behind + 1 + b.tokens.length⟩
    have hclosed := closed_mark (m := .rightParen) (by decide) close r
    have hright := b.yields line hb (behind + 1) _ hclosed.endsName
    have hleft := a.yields line ha (index + 1) _ (endsName_operator op ⟨line, behind⟩
      (inLine line (behind + 1) b.tokens ++ ⟨.mark .rightParen, close⟩ :: r))
    have hgroup := PrimaryYields.group (l := ⟨.mark .leftParen, line, index⟩) rfl
      (condition_of_operator hleft hright hclosed) rfl
    rw [yields_primary_iff]
    simpa [Expr.tokens, Expr.atLine, behind, close] using hgroup
  | .assign name e, h, index, r, _ => by
    obtain ⟨hname, he⟩ := Bool.and_eq_true_iff.mp h
    let close : Position := ⟨line, index + 4 + e.tokens.length⟩
    have hclosed := closed_mark (m := .rightParen) (by decide) close r
    have hvalue := e.yields line he (index + 4) _ hclosed.endsName
    have hassign : PrimaryYields _ (.assign name (e.atLine line)) _ :=
      .assign (l := ⟨.word name, line, index + 1⟩) (c := ⟨.mark .colon, line, index + 2⟩)
        (q := ⟨.mark .equal, line, index + 3⟩) rfl hname rfl rfl
        (condition_of_primary hvalue hclosed)
    have hgroup := PrimaryYields.group (l := ⟨.mark .leftParen, line, index⟩) rfl
      (condition_of_primary (yields_primary_iff.mpr hassign) hclosed) rfl
    rw [yields_primary_iff]
    simpa [Expr.tokens, Expr.atLine, close] using hgroup
  | .call name es _, h, index, r, _ => by
    obtain ⟨hname, hes⟩ := Bool.and_eq_true_iff.mp h
    let close : Position := ⟨line, index + 2 + (argumentTokens es).length⟩
    have harguments : Yields (commaSeparated (.mark .rightParen)
        (inLine line (index + 2) (argumentTokens es) ++ ⟨.mark .rightParen, close⟩ :: r)
        fun r _ => condition r) (argumentsAtLine line es) r := by
      by_cases hnone : es = []
      · subst hnone
        exact yields_commaSeparated_iff.mpr (.inl ⟨_, rfl, rfl, rfl⟩)
      · exact yields_arguments_of_listed (listed_arguments line es hes hnone (index + 2) close r)
    have hcall := PrimaryYields.call (l := ⟨.word name, line, index⟩)
      (p := ⟨.mark .leftParen, line, index + 1⟩) rfl hname rfl harguments
    rw [yields_primary_iff]
    simpa [Expr.tokens, Expr.atLine, close] using hcall

theorem listed_arguments (line : Nat) : (es : List Expr) →
    argumentsAll Word.isIdentifier Number.isWritable es = true → es ≠ [] → (index : Nat) →
    (close : Position) → (r : List Lexeme) →
    Listed (fun us w rest => Yields (condition us) w rest) (.mark .rightParen)
      (inLine line index (argumentTokens es) ++ ⟨.mark .rightParen, close⟩ :: r)
      (argumentsAtLine line es) r
  | [], _, hne, _, _, _ => absurd rfl hne
  | [e], h, _, index, close, r => by
    have hclosed := closed_mark (m := .rightParen) (by decide) close r
    have he := e.yields line (Bool.and_eq_true_iff.mp h).1 index _ hclosed.endsName
    exact .last (condition_of_primary he hclosed) (by simp) rfl
  | e :: f :: es, h, _, index, close, r => by
    obtain ⟨he, hes⟩ := Bool.and_eq_true_iff.mp h
    let behind := index + e.tokens.length
    have hclosed := closed_mark (m := .comma) (by decide) ⟨line, behind⟩
      (inLine line (behind + 1) (argumentTokens (f :: es)) ++ ⟨.mark .rightParen, close⟩ :: r)
    have hfirst := condition_of_primary (e.yields line he index _ hclosed.endsName) hclosed
    have hrest := listed_arguments line (f :: es) hes (by simp) (behind + 1) close r
    simpa [argumentTokens, argumentsAtLine, behind] using Listed.more hfirst rfl hrest

end

/-! ### Statements -/

theorem parameterList_tokens (line : Nat) {ps : List String} (h : ps.all Word.isIdentifier = true)
    (hne : ps ≠ []) (index : Nat) :
    Grammar.ParameterList (inLine line index (parameterTokens ps)) ps := by
  induction ps generalizing index with
  | nil => exact absurd rfl hne
  | cons p ps ih =>
    rw [List.all_cons, Bool.and_eq_true] at h
    cases ps with
    | nil => exact .last h.1
    | cons q ps => exact .more h.1 (ih h.2 (by simp) (index + 2))

theorem parameters_tokens (line : Nat) {ps : List String} (h : ps.all Word.isIdentifier = true)
    (index : Nat) : Grammar.Parameters (inLine line index (parameterTokens ps)) ps := by
  by_cases hne : ps = []
  · subst hne
    exact .none
  · exact .some (parameterList_tokens line h hne index)

/-- How a program goes on behind the statements read so far. -/
abbrev Continues : Statement → List Lexeme → Statement → List Lexeme → Prop :=
  Chained (fun us w rest => Yields (statement us) w rest) sequences

/-- The tokens of a statement are read as its normal form: as a statement if it is not a sequence,
and in any case at the beginning of a program and behind other statements. -/
structure Statement.Spelled (line : Nat) (s : Statement) : Prop where
  alone : s.isSequence = false → ∀ index q, Closed q →
    Yields (statement (inLine line index s.tokens ++ q)) (s.atLine line).leftward q
  first : ∀ index q v r, Closed q → Continues (s.atLine line).leftward q v r →
    Yields (program (inLine line index s.tokens ++ q)) v r
  next : ∀ index q left p v r, Closed q →
    Continues (left.followedBy (s.atLine line).leftward) q v r →
    Continues left (⟨.mark .semicolon, p⟩ :: (inLine line index s.tokens ++ q)) v r

namespace Statement

variable {line : Nat} {s : Statement}

theorem spelled_of_statement (hs : s.isSequence = false) (h : ∀ index q, Closed q →
    Yields (statement (inLine line index s.tokens ++ q)) (s.atLine line).leftward q) :
    s.Spelled line := by
  have hnormal : (s.atLine line).leftward.isSequence = false := by
    rw [isSequence_leftward, isSequence_atLine, hs]
  refine ⟨fun _ => h, ?_, ?_⟩
  · intro index q v r hq hnext
    exact yields_program_iff.mpr ⟨_, q, h index q hq, hnext⟩
  · intro index q left p v r hq hnext
    rw [followedBy_of_not_isSequence hnormal] at hnext
    exact .step (sequences_eq_some_iff.mpr ⟨rfl, rfl⟩) (h index q hq) hnext

theorem spelled_sequence {a b : Statement} (ha : a.Spelled line) (hb : b.Spelled line) :
    (Statement.sequence a b).Spelled line := by
  have htokens (index : Nat) (q : List Lexeme) : inLine line index (sequence a b).tokens ++ q =
      inLine line index a.tokens ++ ⟨.mark .semicolon, line, index + a.tokens.length⟩ ::
        (inLine line (index + a.tokens.length + 1) b.tokens ++ q) := by
    simp [tokens]
  refine ⟨fun hs => absurd hs (by simp [isSequence]), ?_, ?_⟩
  · intro index q v r hq hnext
    rw [htokens]
    exact ha.first _ _ _ _ (closed_mark (by decide) _ _) (hb.next _ _ _ _ _ _ hq hnext)
  · intro index q left p v r hq hnext
    rw [atLine, leftward, ← followedBy_assoc] at hnext
    rw [htokens]
    exact ha.next _ _ _ _ _ _ (closed_mark (by decide) _ _) (hb.next _ _ _ _ _ _ hq hnext)

theorem Spelled.block (h : s.Spelled line) (index : Nat) (r : List Lexeme) :
    Yields (Parser.block (inLine line index (blockTokens s.tokens) ++ r)) (s.atLine line).leftward
      r := by
  let close : Lexeme := ⟨.mark .rightBrace, line, index + 1 + s.tokens.length⟩
  have hstops : Stops sequences (close :: r) := sequences_eq_none_iff.mpr (by simp [close])
  have hbody := h.first (index + 1) (close :: r) _ (close :: r)
    (closed_mark (m := .rightBrace) (by decide) _ r) (.stop hstops)
  rw [yields_block_iff]
  exact ⟨⟨.mark .leftBrace, line, index⟩, _, close, by simp [blockTokens, close], rfl, hbody, rfl⟩

theorem closed_block (line index : Nat) (ts : List Token) (q : List Lexeme) :
    Closed (inLine line index (blockTokens ts) ++ q) :=
  closed_mark (m := .leftBrace) (by decide) _ _

theorem spelled_procedure {name : String} {ps : List String} {body : Statement}
    (hname : Word.isIdentifier name = true) (hps : ps.all Word.isIdentifier = true)
    (hbody : body.Spelled line) : (Statement.procedure name ps body).Spelled line := by
  refine spelled_of_statement rfl fun index q _ => ?_
  let behind := index + 3 + (parameterTokens ps).length
  have hidentifier : Yields (identifier (⟨.word name, line, index + 1⟩ ::
      ⟨.mark .leftParen, line, index + 2⟩ :: (inLine line (index + 3) (parameterTokens ps) ++
        ⟨.mark .rightParen, line, behind⟩ ::
          (inLine line (behind + 1) (blockTokens body.tokens) ++ q)))) name _ :=
    yields_identifier_iff.mpr ⟨_, rfl, rfl, hname⟩
  have hprocedure := StatementYields.procedure (k := ⟨.word "proc", line, index⟩) rfl
    hidentifier rfl (parameters_tokens line hps (index + 3)).yields (hbody.block (behind + 1) q)
  rw [yields_statement_iff]
  simpa [tokens, atLine, leftward, behind] using hprocedure

theorem spelled_choice {guard : Expr} {yes no : Statement} (hguard : guard.isWritable = true)
    (hyes : yes.Spelled line) (hno : no.Spelled line) :
    (Statement.choice guard yes no).Spelled line := by
  refine spelled_of_statement rfl fun index q _ => ?_
  let behind := index + 1 + guard.tokens.length
  let middle := behind + (blockTokens yes.tokens).length
  let tail :=
    ⟨.word "else", line, middle⟩ :: (inLine line (middle + 1) (blockTokens no.tokens) ++ q)
  have hclosed := closed_block line behind yes.tokens tail
  have hcondition := condition_of_primary
    (guard.yields line hguard (index + 1) _ hclosed.endsName) hclosed
  have hchoice := StatementYields.choice (k := ⟨.word "if", line, index⟩) rfl hcondition
    (hyes.block behind tail) rfl (hno.block (middle + 1) q)
  rw [yields_statement_iff]
  simpa [tokens, atLine, leftward, behind, middle, tail] using hchoice

theorem spelled_loop {guard : Expr} {body : Statement} (hguard : guard.isWritable = true)
    (hbody : body.Spelled line) : (Statement.loop guard body).Spelled line := by
  refine spelled_of_statement rfl fun index q _ => ?_
  let behind := index + 1 + guard.tokens.length
  have hclosed := closed_block line behind body.tokens q
  have hcondition := condition_of_primary
    (guard.yields line hguard (index + 1) _ hclosed.endsName) hclosed
  have hloop := StatementYields.loop (k := ⟨.word "while", line, index⟩) rfl hcondition
    (hbody.block behind q)
  rw [yields_statement_iff]
  simpa [tokens, atLine, leftward, behind] using hloop

/-- The tokens of a writable statement are read as its normal form. -/
theorem spelled (line : Nat) (s : Statement) (h : s.isWritable = true) : s.Spelled line := by
  induction s with
  | sequence a b iha ihb =>
    obtain ⟨ha, hb⟩ := Bool.and_eq_true_iff.mp h
    exact spelled_sequence (iha ha) (ihb hb)
  | procedure name ps body ih =>
    obtain ⟨hheader, hbody⟩ := Bool.and_eq_true_iff.mp h
    obtain ⟨hname, hps⟩ := Bool.and_eq_true_iff.mp hheader
    exact spelled_procedure hname hps (ih hbody)
  | choice guard yes no ihyes ihno =>
    obtain ⟨hfirst, hno⟩ := Bool.and_eq_true_iff.mp h
    obtain ⟨hguard, hyes⟩ := Bool.and_eq_true_iff.mp hfirst
    exact spelled_choice hguard (ihyes hyes) (ihno hno)
  | loop guard body ih =>
    obtain ⟨hguard, hbody⟩ := Bool.and_eq_true_iff.mp h
    exact spelled_loop hguard (ih hbody)
  | print e =>
    refine spelled_of_statement rfl fun index q hq => yields_statement_iff.mpr ?_
    have he := condition_of_primary (e.yields line h (index + 1) q hq.endsName) hq
    exact .print rfl he
  | expression e =>
    refine spelled_of_statement rfl fun index q hq => yields_statement_iff.mpr ?_
    exact .expression (condition_of_primary (e.yields line h index q hq.endsName) hq)

end Statement

/-! ### Programs -/

theorem parse_render_of_isWritable {s : Statement} (h : s.isWritable = true) :
    parse s.render = .ok (s.atLine 1).leftward := by
  have hnames : s.all Word.isIdentifier (fun _ => true) = true := s.all_imp (fun _ _ => rfl) h
  have htokens : tokenize s.render = inLine 1 0 s.tokens := tokenize_of_reads (s.reads hnames)
  have hclosed : Closed [] := trivial
  have hyields := (s.spelled 1 h).first 0 [] _ [] hclosed (.stop trivial)
  rw [List.append_nil] at hyields
  rw [parse, htokens]
  exact parseLexemes_eq_ok_iff.mpr hyields

/-- What parsing returns is writable, with its chains nested to the left. -/
theorem normal_of_parse {source : String} {s : Statement} (h : parse source = .ok s) :
    s.isWritable = true ∧ s.isLeftward = true := by
  have hprogram := Grammar.program_of_parseLexemes h
  exact ⟨hprogram.isWritable, hprogram.isLeftward⟩

/-- Canonical text is undone by parsing: the text of a writable statement is read as the statement
with all names in the first line and all chains nested to the left, which keeps the statements of
each chain and their order.  What parsing returns is writable and has its chains so nested already;
its text is read as itself with all names in the first line, which has the same text again. -/
theorem parse_render :
    (∀ s : Statement, s.isWritable = true → parse s.render = .ok (s.atLine 1).leftward ∧
      (s.atLine 1).leftward.isLeftward = true ∧
      (s.atLine 1).leftward.chain = (s.atLine 1).chain.map Statement.leftward) ∧
    ∀ source s, parse source = .ok s → s.isWritable = true ∧ s.isLeftward = true ∧
      parse s.render = .ok (s.atLine 1) ∧ (s.atLine 1).render = s.render := by
  refine ⟨fun s h => ?_, fun source s h => ?_⟩
  · exact ⟨parse_render_of_isWritable h, Statement.isLeftward_leftward _,
      Statement.chain_leftward _⟩
  · obtain ⟨hwritable, hleftward⟩ := normal_of_parse h
    have hstay : (s.atLine 1).leftward = s.atLine 1 :=
      Statement.leftward_of_isLeftward (by rw [Statement.isLeftward_atLine, hleftward])
    refine ⟨hwritable, hleftward, ?_, s.render_atLine 1⟩
    rw [parse_render_of_isWritable hwritable, hstay]

/-- A chain nested to the right around a procedure, whose body is one too, and a source that spans
two lines. -/
theorem parse_render_nested :
    let tenth : Expr := .literal ⟨0x3fb999999999999a⟩
    let body : Statement := .sequence (.print (.var "a" 4))
      (.sequence (.print (.call "g" [tenth, .assign "b" tenth] 5)) (.expression tenth))
    let s : Statement := .sequence (.print (.binary .power tenth (.var "x" 2)))
      (.sequence (.procedure "f" ["a", "b"] body) (.loop (.var "y" 9) body))
    let source := "x := 2 < y;\nprint x"
    let t : Statement := .sequence
      (.expression (.assign "x" (.binary .less (.literal ⟨0x4000000000000000⟩) (.var "y" 1))))
      (.print (.var "x" 2))
    (s.isWritable = true ∧ parse s.render = .ok (s.atLine 1).leftward) ∧
      parse source = .ok t ∧ parse t.render = .ok (t.atLine 1) := by
  intro tenth body s source t
  have hs : s.isWritable = true := by decide +kernel
  have ht : parse source = .ok t := by decide +kernel
  exact ⟨⟨hs, (parse_render.1 s hs).1⟩, ht, (parse_render.2 source t ht).2.2.1⟩

end Imperative
