import Imperative.Proofs.Progress

/-! Parsers take as much as any derivation does.  Where a rule derives several beginnings of the
same lexemes, the parser of the rule goes on to the end of the longest: of `x := 1 < y < z` a
primary takes the first comparison and a condition also the second.

What a derivation takes is read once more from the left, now with the operators that its rule admits
before the first assignment; inside an assignment all of them are.  A parser that leaves some of
such a reading leaves an operator first, and one that its rule does not admit. -/

namespace Imperative.Grammar

open Imperative.Parser

/-! ### Derivations as readings -/

/-- A run with `n` comparisons open from the start, and only admitted operators before its first
assignment. -/
inductive Reading (admitted : Operator → Prop) : Nat → List Lexeme → Prop
  | operand {n : Nat} {ts : List Lexeme} : Operand ts → Reading admitted n ts
  | assign {n : Nat} {name : String} {ts : List Lexeme} {p q r : Position} :
      Word.isIdentifier name = true → Run (n + 1) ts →
      Reading admitted n (⟨.word name, p⟩ :: ⟨.mark .colon, q⟩ :: ⟨.mark .equal, r⟩ :: ts)
  | operator {n : Nat} {op : Operator} {ts us : List Lexeme} {p : Position} : admitted op →
      Operand ts → Reading admitted n us →
      Reading admitted (n + slots op) (ts ++ ⟨.mark op.mark, p⟩ :: us)

section Readings

variable {admitted : Operator → Prop} {n : Nat} {ts us : List Lexeme}

theorem Run.reading {n : Nat} {ts : List Lexeme} (hall : ∀ op, admitted op) :
    Run n ts → Reading admitted n ts
  | .operand h => .operand h
  | .assign hname h => .assign hname h
  | .operator h hrest => .operator (hall _) h (hrest.reading hall)

theorem Reading.run (h : Reading admitted n ts) : Run n ts := by
  induction h with
  | operand h => exact .operand h
  | assign hname h => exact .assign hname h
  | operator _ h _ ih => exact .operator h ih

theorem Reading.mono (k : Nat) (h : Reading admitted n ts) : Reading admitted (n + k) ts := by
  induction h with
  | operand h => exact .operand h
  | assign hname h =>
    have hmono := h.mono k
    rw [Nat.add_right_comm] at hmono
    exact .assign hname hmono
  | operator hop h _ ih =>
    rw [Nat.add_right_comm]
    exact .operator hop h ih

theorem Reading.append {op : Operator} (hop : admitted op) (p : Position)
    (h : Reading admitted n ts) (hus : Reading admitted 0 us) :
    Reading admitted (n + slots op) (ts ++ ⟨.mark op.mark, p⟩ :: us) := by
  induction h with
  | @operand n ts h =>
    have hmono := hus.mono n
    rw [Nat.zero_add] at hmono
    exact .operator hop h hmono
  | assign hname h =>
    have happend := h.append op p hus.run
    rw [Nat.add_right_comm] at happend
    exact .assign hname happend
  | operator hop' h _ ih =>
    rw [List.append_assoc, Nat.add_right_comm]
    exact .operator hop' h ih

end Readings

theorem Atom.reading {admitted : Operator → Prop} {ts : List Lexeme} {e : Expr} (h : Atom ts e) :
    Reading admitted 0 ts := by
  cases h with
  | group h => exact .operand (.group h.run)
  | assign hname h => exact .assign hname h.run
  | call hname h =>
    cases h with
    | none => exact .operand (.call hname)
    | some h => exact .operand (.callWith hname h.run)
  | var hname => exact .operand (.var hname)
  | number hnumeral hx => exact .operand (.number hnumeral hx)

theorem Power.reading {admitted : Operator → Prop} {ts : List Lexeme} {e : Expr}
    (hadmitted : ∀ op ∈ powers, admitted op) (h : Power ts e) : Reading admitted 0 ts := by
  cases h with
  | atom h => exact h.reading
  | more ha hb =>
    exact ha.reading.append (hadmitted .power (by decide)) _ (hb.reading hadmitted)

theorem Product.reading {admitted : Operator → Prop} {ts : List Lexeme} {e : Expr}
    (hpowers : ∀ op ∈ powers, admitted op) (hproducts : ∀ op ∈ products, admitted op)
    (h : Product ts e) : Reading admitted 0 ts := by
  cases h with
  | power h => exact h.reading hpowers
  | @more _ _ p op _ _ hop ha hb =>
    have happend := (ha.reading hpowers hproducts).append (hproducts op hop) p (hb.reading hpowers)
    rwa [slots_of_mem_products op hop] at happend

/-! ### What parsers leave of readings -/

/-- What a parser leaves of a reading with `r` behind it, when `n` comparisons are open: no more
than `r`, or a stopping operator and a reading again. -/
inductive Leaves (admitted stopping : Operator → Prop) (n : Nat) (r : List Lexeme) :
    List Lexeme → Prop
  | beyond {q : List Lexeme} : q.length ≤ r.length → Leaves admitted stopping n r q
  | operator {op : Operator} {m : Nat} {us : List Lexeme} {p : Position} : stopping op →
      n = m + slots op → Reading admitted m us →
      Leaves admitted stopping n r (⟨.mark op.mark, p⟩ :: (us ++ r))

theorem condition_of_assignment {name : String} {p c t : Position} {ts r : List Lexeme} {e : Expr}
    (hname : Word.isIdentifier name = true)
    (h : Yields (primary (⟨.word name, p⟩ :: ⟨.mark .colon, c⟩ :: ⟨.mark .equal, t⟩ :: ts)) e r) :
    ∃ value, e = .assign name value ∧ Yields (condition ts) value r := by
  cases yields_primary_iff.mp h with
  | group hl => cases hl
  | assign hl _ _ _ hvalue =>
    cases hl
    exact ⟨_, rfl, hvalue⟩
  | call _ _ hparen => cases hparen
  | var _ _ hends => exact absurd rfl hends.1
  | literal hl hno =>
    cases hl
    rw [hname] at hno
    cases hno

/-- An operand is taken whole, whatever follows it. -/
theorem Operand.beyond {ts r q : List Lexeme} {e : Expr} (h : Operand ts)
    (hyields : Yields (primary (ts ++ r)) e q) : q.length ≤ r.length := by
  by_cases hlength : ts.length = 1
  · have hshorter := hyields.shorter
    simp [hlength] at hshorter
    omega
  · have hopen : ts.length = 1 → EndsName r := fun h => absurd h hlength
    obtain ⟨e', he'⟩ := h.yields (fun us _ => taken us) hopen
    rw [(hyields.unique he').2]

section Levels

variable {admitted stopping : Operator → Prop} {n : Nat} {ts r q : List Lexeme}

theorem Leaves.imp {stopping' : Operator → Prop} (himp : ∀ op, stopping op → stopping' op)
    (h : Leaves admitted stopping n r q) : Leaves admitted stopping' n r q := by
  cases h with
  | beyond h => exact .beyond h
  | operator hop hn hus => exact .operator (himp _ hop) hn hus

theorem Leaves.length_le (hstopping : ∀ op, ¬stopping op) (h : Leaves admitted stopping n r q) :
    q.length ≤ r.length := by
  cases h with
  | beyond h => exact h
  | operator hop _ _ => exact absurd hop (hstopping _)

theorem Leaves.length_le_of_comparisons (h : Leaves admitted (· ∈ comparisons) 0 r q) :
    q.length ≤ r.length := by
  cases h with
  | beyond h => exact h
  | operator hop hn _ =>
    rw [slots_of_mem_comparisons hop] at hn
    omega

/-- A chain goes on past the operators that it links. -/
theorem Leaves.chained {item : Parser Expr} {ops : List Operator} {left v : Expr}
    {q' : List Lexeme} (hops : ∀ op ∈ ops, slots op = 0)
    (hitem : ∀ us, us.length < ts.length → Reading admitted n us → ∀ e q,
      Yields (item (us ++ r)) e q → Leaves admitted stopping n r q)
    (hchain : Chained (fun us w rest => Yields (item us) w rest) (joins ops) left q v q')
    (h : Leaves admitted stopping n r q) (hq : q.length < (ts ++ r).length) :
    Leaves admitted (fun op => stopping op ∧ op ∉ ops) n r q' := by
  induction hchain with
  | @stop left q hstops =>
    cases h with
    | beyond h => exact .beyond h
    | operator hop hn hus => exact .operator ⟨hop, stops_operator_iff.mp hstops⟩ hn hus
  | @step left right v l rest rest' q' join hlink hright _ ih =>
    have hshorter := hright.shorter
    refine ih ?_ (by simp at hq ⊢; omega)
    cases h with
    | beyond h => exact .beyond (by simp at h; omega)
    | @operator op m us p hop hn hus =>
      obtain rfl : n = m := by rw [hn, hops op (mem_of_joins hlink)]; rfl
      exact hitem us (by simp at hq; omega) hus right rest' hright

/-- If the parsers of expressions leave any of a reading `ts`, an operator comes first that they do
not link.  Comparisons are open only where all operators are admitted. -/
structure Reached (ts : List Lexeme) : Prop where
  primary : ∀ admitted n r, n = 0 ∨ (∀ op, admitted op) → Reading admitted n ts →
    ∀ e q, Yields (primary (ts ++ r)) e q → Leaves admitted admitted n r q
  power : ∀ admitted n r, n = 0 ∨ (∀ op, admitted op) → Reading admitted n ts →
    ∀ e q, Yields (power (ts ++ r)) e q →
      Leaves admitted (fun op => admitted op ∧ op ∉ powers) n r q
  product : ∀ admitted n r, n = 0 ∨ (∀ op, admitted op) → Reading admitted n ts →
    ∀ e q, Yields (multiplicative (ts ++ r)) e q →
      Leaves admitted (fun op => (admitted op ∧ op ∉ powers) ∧ op ∉ products) n r q
  sum : ∀ n r, Run n ts → ∀ e q, Yields (additive (ts ++ r)) e q →
    Leaves (fun _ => True) (· ∈ comparisons) n r q
  condition : ∀ n r, Run (n + 1) ts → ∀ e q, Yields (condition (ts ++ r)) e q →
    Leaves (fun _ => True) (· ∈ comparisons) n r q

theorem primary_reached (ih : ∀ us, us.length < ts.length → Reached us)
    (hopen : n = 0 ∨ ∀ op, admitted op) (h : Reading admitted n ts) {e : Expr}
    (hyields : Yields (primary (ts ++ r)) e q) : Leaves admitted admitted n r q := by
  cases h with
  | operand h => exact .beyond (h.beyond hyields)
  | @assign _ name us p c t hname h =>
    obtain ⟨value, -, hvalue⟩ := condition_of_assignment hname hyields
    cases (ih us (by simp; omega)).condition n r h value q hvalue with
    | beyond hq => exact .beyond hq
    | @operator op m vs _ hop hn hvs =>
      -- A comparison is left, so one was open, and then every operator is admitted.
      have hall (op : Operator) : admitted op := by
        rw [slots_of_mem_comparisons hop] at hn
        exact hopen.resolve_left (by omega) op
      exact .operator (hall op) hn (hvs.run.reading hall)
  | @operator m op us vs p hop hus hvs =>
    rw [List.append_assoc] at hyields
    obtain ⟨e', he'⟩ := hus.yields (fun ws _ => taken ws)
      fun _ => endsName_operator op p (vs ++ r)
    rw [(hyields.unique he').2]
    exact .operator hop rfl hvs

theorem power_reached (ih : ∀ us, us.length < ts.length → Reached us)
    (hopen : n = 0 ∨ ∀ op, admitted op) (h : Reading admitted n ts) {e : Expr}
    (hyields : Yields (power (ts ++ r)) e q) :
    Leaves admitted (fun op => admitted op ∧ op ∉ powers) n r q := by
  rcases yields_power_iff.mp hyields with
    ⟨hleft, hstops⟩ | ⟨left, l, rest, join, right, hleft, hjoin, hright, -⟩
  · cases primary_reached ih hopen h hleft with
    | beyond hq => exact .beyond hq
    | operator hop hn hus => exact .operator ⟨hop, stops_operator_iff.mp hstops⟩ hn hus
  · have hshorter := hleft.shorter
    have hshorter' := hright.shorter
    cases primary_reached ih hopen h hleft with
    | beyond hq => exact .beyond (by simp at hq; omega)
    | @operator op m us p hop hn hus =>
      obtain rfl : n = m := by cases List.mem_singleton.mp (mem_of_joins hjoin); exact hn
      exact (ih us (by simp at hshorter; omega)).power admitted n r hopen hus right q hright

theorem reached (ts : List Lexeme) : Reached ts := by
  induction hk : ts.length using Nat.strong_induction_on generalizing ts with
  | _ k ih =>
  have ih' (us : List Lexeme) (hus : us.length < ts.length) : Reached us :=
    ih us.length (by omega) us rfl
  have hproduct (admitted : Operator → Prop) (n : Nat) (r : List Lexeme)
      (hopen : n = 0 ∨ ∀ op, admitted op) (h : Reading admitted n ts) (e : Expr) (q : List Lexeme)
      (hyields : Yields (multiplicative (ts ++ r)) e q) :
      Leaves admitted (fun op => (admitted op ∧ op ∉ powers) ∧ op ∉ products) n r q := by
    obtain ⟨left, q₁, hleft, hchain⟩ := yields_multiplicative_iff.mp hyields
    exact .chained slots_of_mem_products
      (fun us hus hreading => (ih' us hus).power admitted n r hopen hreading) hchain
      (power_reached ih' hopen h hleft) hleft.shorter
  have hsum (n : Nat) (r : List Lexeme) (h : Run n ts) (e : Expr) (q : List Lexeme)
      (hyields : Yields (additive (ts ++ r)) e q) :
      Leaves (fun _ => True) (· ∈ comparisons) n r q := by
    have hall : n = 0 ∨ ∀ op : Operator, True := .inr fun _ => trivial
    obtain ⟨left, q₁, hleft, hchain⟩ := yields_additive_iff.mp hyields
    have hleaves := Leaves.chained slots_of_mem_sums
      (fun us hus hreading => (ih' us hus).product _ n r hall hreading) hchain
      (hproduct _ n r hall (h.reading fun _ => trivial) left q₁ hleft) hleft.shorter
    refine hleaves.imp fun op => ?_
    cases op <;> decide
  refine ⟨fun admitted n r hopen h e q => primary_reached ih' hopen h,
    fun admitted n r hopen h e q => power_reached ih' hopen h, hproduct, hsum,
    fun n r h e q hyields => ?_⟩
  rcases yields_condition_iff.mp hyields with
    ⟨hleft, hstops⟩ | ⟨left, l, rest, join, right, hleft, hjoin, hright, -⟩
  · cases hsum (n + 1) r h e q hleft with
    | beyond hq => exact .beyond hq
    | operator hop _ _ => exact absurd hop (stops_operator_iff.mp hstops)
  · have hshorter := hleft.shorter
    have hshorter' := hright.shorter
    cases hsum (n + 1) r h left (l :: rest) hleft with
    | beyond hq => exact .beyond (by simp at hq; omega)
    | @operator op m us p hop hn hus =>
      obtain rfl : n = m := by rw [slots_of_mem_comparisons hop] at hn; omega
      exact (ih' us (by simp at hshorter; omega)).sum n r hus.run right q hright

end Levels

/-- The parser goes as far as any beginning of the lexemes that the rule derives. -/
def Covers {α : Type} (parser : Parser α) (rule : List Lexeme → α → Prop) : Prop :=
  ∀ us w r v q, rule us w → Yields (parser (us ++ r)) v q → q.length ≤ r.length

theorem covers_primary : Covers primary Atom := by
  intro us w r v q h hyields
  have hreading : Reading (fun _ => False) 0 us := h.reading
  exact ((reached us).primary _ 0 r (.inl rfl) hreading v q hyields).length_le fun _ => id

theorem covers_power : Covers power Power := by
  intro us w r v q h hyields
  have hreading : Reading (· ∈ powers) 0 us := h.reading fun _ => id
  have hleaves := (reached us).power _ 0 r (.inl rfl) hreading v q hyields
  exact hleaves.length_le fun op hop => hop.2 hop.1

theorem covers_multiplicative : Covers multiplicative Product := by
  intro us w r v q h hyields
  have hreading : Reading (fun op => op ∈ powers ∨ op ∈ products) 0 us :=
    h.reading (fun _ => .inl) (fun _ => .inr)
  have hleaves := (reached us).product _ 0 r (.inl rfl) hreading v q hyields
  exact hleaves.length_le fun op hop => hop.1.1.elim hop.1.2 hop.2

theorem covers_additive : Covers additive Sum := fun us _ r v q h hyields =>
  ((reached us).sum 0 r h.run v q hyields).length_le_of_comparisons

theorem covers_condition : Covers condition Condition := fun us _ r v q h hyields =>
  ((reached us).condition 0 r h.run v q hyields).length_le_of_comparisons

/-! ### Statements -/

/-- Lexemes that begin with a condition are read as one: no keyword begins them. -/
theorem Condition.of_statement {us r q : List Lexeme} {e : Expr} {s : Statement}
    (h : Condition us e) (hyields : Yields (statement (us ++ r)) s q) :
    ∃ e', Yields (condition (us ++ r)) e' q := by
  obtain ⟨e', he'⟩ := h.yields (r := []) trivial
  obtain ⟨l, rest, heq, hl⟩ := startsExpression_of_condition he'
  rw [List.append_nil] at heq
  subst heq
  have hkeyword (w : String) (hw : w ∈ Word.keywords) : l.token ≠ .word w :=
    fun heq => not_startsExpression_keyword hw (heq ▸ hl)
  cases yields_statement_iff.mp hyields with
  | procedure hk => exact absurd hk (hkeyword "proc" (by decide))
  | choice hk => exact absurd hk (hkeyword "if" (by decide))
  | loop hk => exact absurd hk (hkeyword "while" (by decide))
  | print hk => exact absurd hk (hkeyword "print" (by decide))
  | expression he => exact ⟨_, he⟩

theorem condition_of_print {p : Position} {ts q : List Lexeme} {s : Statement}
    (hyields : Yields (statement (⟨.word "print", p⟩ :: ts)) s q) :
    ∃ e, Yields (condition ts) e q := by
  cases yields_statement_iff.mp hyields with
  | procedure hk => simp at hk
  | choice hk => simp at hk
  | loop hk => simp at hk
  | print _ he => exact ⟨_, he⟩
  | expression he => exact absurd (by decide) (notMem_keywords_of_condition he)

theorem covers_statement : Covers statement Stmt := by
  intro us w r v q h hyields
  by_cases hopen : EndsOpen w
  · cases h with
    | procedure => exact hopen.elim
    | choice => exact hopen.elim
    | loop => exact hopen.elim
    | print h =>
      obtain ⟨e, he⟩ := condition_of_print hyields
      exact covers_condition _ _ r e q h he
    | expression h =>
      obtain ⟨e, he⟩ := h.of_statement hyields
      exact covers_condition us _ r e q h he
  · obtain ⟨v', hv'⟩ := h.yields (r := r) fun h => absurd h hopen
    rw [(hyields.unique hv').2]

/-- A chain never goes back. -/
theorem length_le_of_chained {α : Type} {item : Parser α} {link : Token → Option (α → α → α)}
    {left v : α} {q r : List Lexeme}
    (h : Chained (fun us w rest => Yields (item us) w rest) link left q v r) :
    r.length ≤ q.length := by
  induction h with
  | stop _ => exact Nat.le_refl _
  | step _ hright _ ih =>
    have hshorter := hright.shorter
    simp
    omega

/-- What is derived as a program is taken as one, and the chain goes on with what follows. -/
theorem chained_of_program {us r q : List Lexeme} {w s : Statement} (hr : Closed r)
    (hyields : Yields (program (us ++ r)) s q) : Program us w →
    ∃ left, Chained (fun us w rest => Yields (statement us) w rest) sequences left r s q
  | .statement h => by
    obtain ⟨left, q₁, hleft, hchain⟩ := yields_program_iff.mp hyields
    obtain ⟨left', hleft'⟩ := h.yields fun _ => hr
    obtain ⟨rfl, rfl⟩ := hleft.unique hleft'
    exact ⟨left, hchain⟩
  | @Program.more us vs p _ _ ha hb => by
    rw [List.append_assoc] at hyields
    have hclosed := closed_mark (m := .semicolon) (by decide) p (vs ++ r)
    obtain ⟨left, hchain⟩ := chained_of_program hclosed hyields ha
    cases hchain with
    | stop hstops => exact absurd rfl (sequences_eq_none_iff.mp hstops)
    | step _ hright hchain =>
      obtain ⟨right', hright'⟩ := hb.yields fun _ => hr
      obtain ⟨rfl, rfl⟩ := hright.unique hright'
      exact ⟨_, hchain⟩

theorem covers_program : Covers program Program := by
  intro us w r v q h hyields
  cases h with
  | statement h =>
    obtain ⟨left, q₁, hleft, hchain⟩ := yields_program_iff.mp hyields
    have hle := covers_statement us _ r left q₁ h hleft
    exact (length_le_of_chained hchain).trans hle
  | @more us vs p _ _ ha hb =>
    rw [List.append_assoc] at hyields
    have hclosed := closed_mark (m := .semicolon) (by decide) p (vs ++ r)
    obtain ⟨left, hchain⟩ := chained_of_program hclosed hyields ha
    cases hchain with
    | stop hstops => exact absurd rfl (sequences_eq_none_iff.mp hstops)
    | step _ hright hchain =>
      have hle := covers_statement vs _ r _ _ hb hright
      exact (length_le_of_chained hchain).trans hle

/-! ### The longest beginning -/

/-- The first `k` of the lexemes are derived with the tree `v`, and no more of them are derived
with any tree. -/
structure Longest {α : Type} (rule : List Lexeme → α → Prop) (ts : List Lexeme) (v : α) (k : Nat) :
    Prop where
  within : k ≤ ts.length
  derived : rule (ts.take k) v
  longest : ∀ j ≤ ts.length, ∀ w, rule (ts.take j) w → j ≤ k

/-- Where the parser succeeds it takes the longest beginning that the rule derives. -/
def TakesLongest {α : Type} (parser : Parser α) (rule : List Lexeme → α → Prop) (c : Cursor) :
    Prop :=
  ∀ v c', c.run parser = (.ok v, c') → ∃ k, c' = Cursor.advance^[k] c ∧ Longest rule c.rest v k

theorem longest_of_covers {α : Type} {parser : Parser α} {rule : List Lexeme → α → Prop}
    {ts r : List Lexeme} {v : α} (hcovers : Covers parser rule) (hderives : Derives rule ts v r)
    (hyields : Yields (parser ts) v r) : ∃ k, r = ts.drop k ∧ Longest rule ts v k := by
  obtain ⟨us, rfl, hus⟩ := hderives
  refine ⟨us.length, List.drop_left.symm, by simp, by rwa [List.take_left], fun j hj w hw => ?_⟩
  rw [← List.take_append_drop j (us ++ r)] at hyields
  have hle := hcovers _ w _ v r hw hyields
  simp at hle hj
  omega

theorem takesLongest_of_covers {α : Type} {parser : Parser α} {rule : List Lexeme → α → Prop}
    {c : Cursor} (hcovers : Covers parser rule)
    (hderives : ∀ v r, Yields (parser c.rest) v r → Derives rule c.rest v r) :
    TakesLongest parser rule c := by
  rintro v ⟨r, _⟩ hrun
  obtain ⟨hyields, rfl⟩ := run_eq_ok_iff.mp hrun
  obtain ⟨k, rfl, hlongest⟩ := longest_of_covers hcovers (hderives v r hyields) hyields
  exact ⟨k, (c.iterate_advance k).symm, hlongest⟩

/-- From every cursor, each parser takes the longest beginning of what is ahead that its rule
derives.  So the value of an assignment reaches as far to the right as a condition can. -/
theorem parsers_take_longest (c : Cursor) :
    TakesLongest primary Atom c ∧ TakesLongest power Power c ∧
    TakesLongest multiplicative Product c ∧ TakesLongest additive Sum c ∧
    TakesLongest condition Condition c ∧ TakesLongest statement Stmt c ∧
    TakesLongest program Program c ∧
    ∀ name p q r ts e c', Word.isIdentifier name = true →
      c.rest = ⟨.word name, p⟩ :: ⟨.mark .colon, q⟩ :: ⟨.mark .equal, r⟩ :: ts →
      c.run primary = (.ok e, c') →
      ∃ value k, e = .assign name value ∧ c' = Cursor.advance^[k + 3] c ∧
        Longest Condition ts value k := by
  have hexpressions := expressions_derived c.rest
  have hstatements := statements_derived c.rest
  refine ⟨takesLongest_of_covers covers_primary hexpressions.atom,
    takesLongest_of_covers covers_power hexpressions.power,
    takesLongest_of_covers covers_multiplicative hexpressions.product,
    takesLongest_of_covers covers_additive hexpressions.sum,
    takesLongest_of_covers covers_condition hexpressions.condition,
    takesLongest_of_covers covers_statement hstatements.statement,
    takesLongest_of_covers covers_program hstatements.program, ?_⟩
  intro name p q r ts e c' hname hrest hrun
  obtain ⟨hyields, hend⟩ := run_eq_ok_iff.mp hrun
  rw [hrest] at hyields
  obtain ⟨value, rfl, hvalue⟩ := condition_of_assignment hname hyields
  obtain ⟨k, hk, hlongest⟩ := longest_of_covers covers_condition (condition_derived hvalue) hvalue
  refine ⟨value, k, rfl, ?_, hlongest⟩
  obtain ⟨_, _⟩ := c'
  cases hend
  cases hk
  rw [c.iterate_advance, hrest]
  rfl

/-- Of two comparisons behind an assignment, a primary takes the first and no reading of it takes
the second. -/
theorem parsers_take_longest_two_comparisons :
    let c := Cursor.ofSource "x := 1 < y < z"
    let value := Expr.binary .less (.literal ⟨0x3ff0000000000000⟩) (.var "y" 1)
    Word.isIdentifier "x" = true ∧ (c.run primary).1 = .ok (.assign "x" value) ∧
      Longest Atom c.rest (.assign "x" value) 6 ∧ Longest Condition (c.rest.drop 3) value 3 := by
  intro c value
  have hname : Word.isIdentifier "x" = true := by decide +kernel
  have hrest : c.rest = ⟨.word "x", ⟨1, 0⟩⟩ :: ⟨.mark .colon, ⟨1, 1⟩⟩ ::
      ⟨.mark .equal, ⟨1, 2⟩⟩ :: c.rest.drop 3 := by decide +kernel
  have hvalue : (c.run primary).1 = .ok (.assign "x" value) := by decide +kernel
  have hleft : (c.run primary).2.rest.length = 2 := by decide +kernel
  have hlength : c.rest.length = 8 := by decide +kernel
  have hrun : c.run primary = (.ok (.assign "x" value), (c.run primary).2) := Prod.ext hvalue rfl
  obtain ⟨hprimary, -, -, -, -, -, -, hassign⟩ := parsers_take_longest c
  obtain ⟨k, hk, hatom⟩ := hprimary _ _ hrun
  obtain ⟨_, j, hj, hj', hcondition⟩ := hassign "x" _ _ _ _ _ _ hname hrest hrun
  cases hj
  have hwithin := hatom.within
  have hwithin' := hcondition.within
  rw [hk, c.iterate_advance, List.length_drop, hlength] at hleft
  obtain rfl : k = 6 := by omega
  rw [hk, c.iterate_advance, c.iterate_advance] at hj'
  have hdrop := congrArg (fun c => c.rest.length) hj'
  simp [hlength] at hdrop hwithin'
  obtain rfl : j = 3 := by omega
  exact ⟨hname, hvalue, hatom, hcondition⟩

end Imperative.Grammar
