import Imperative.Proofs.Parsing
import Imperative.Proofs.NormalForm
import Imperative.Proofs.Literal

/-! The grammar of programs, as derivations of lexemes beside the trees they stand for.  The rules
say what may follow what and nothing about how it is found: they are ambiguous where an assignment
stands inside a sum or a comparison, since an assignment takes a whole condition as its value and is
itself an operand.  Every tree that a parser makes is the tree of a derivation, and trees of
derivations are writable with all chains nested to the left. -/

namespace Imperative.Grammar

mutual

/-- A sum, or two sums with a comparison between them. -/
inductive Condition : List Lexeme → Expr → Prop
  | sum {ts : List Lexeme} {e : Expr} : Sum ts e → Condition ts e
  | comparison {ts us : List Lexeme} {p : Position} {op : Operator} {a b : Expr} :
      op ∈ [Operator.less, .greater, .equal] → Sum ts a → Sum us b →
      Condition (ts ++ ⟨.mark op.mark, p⟩ :: us) (.binary op a b)

/-- Products with plus or minus between them, grouped to the left. -/
inductive Sum : List Lexeme → Expr → Prop
  | product {ts : List Lexeme} {e : Expr} : Product ts e → Sum ts e
  | more {ts us : List Lexeme} {p : Position} {op : Operator} {a b : Expr} :
      op ∈ [Operator.add, .subtract] → Sum ts a → Product us b →
      Sum (ts ++ ⟨.mark op.mark, p⟩ :: us) (.binary op a b)

/-- Powers with a star or a slash between them, grouped to the left. -/
inductive Product : List Lexeme → Expr → Prop
  | power {ts : List Lexeme} {e : Expr} : Power ts e → Product ts e
  | more {ts us : List Lexeme} {p : Position} {op : Operator} {a b : Expr} :
      op ∈ [Operator.multiply, .divide] → Product ts a → Power us b →
      Product (ts ++ ⟨.mark op.mark, p⟩ :: us) (.binary op a b)

/-- Atoms with carets between them, grouped to the right. -/
inductive Power : List Lexeme → Expr → Prop
  | atom {ts : List Lexeme} {e : Expr} : Atom ts e → Power ts e
  | more {ts us : List Lexeme} {p : Position} {a b : Expr} : Atom ts a → Power us b →
      Power (ts ++ ⟨.mark .caret, p⟩ :: us) (.binary .power a b)

/-- A condition in parentheses, an assignment, a call, a variable or a number. -/
inductive Atom : List Lexeme → Expr → Prop
  | group {ts : List Lexeme} {p q : Position} {e : Expr} : Condition ts e →
      Atom (⟨.mark .leftParen, p⟩ :: (ts ++ [⟨.mark .rightParen, q⟩])) e
  | assign {name : String} {ts : List Lexeme} {p q r : Position} {e : Expr} :
      Word.isIdentifier name = true → Condition ts e →
      Atom (⟨.word name, p⟩ :: ⟨.mark .colon, q⟩ :: ⟨.mark .equal, r⟩ :: ts) (.assign name e)
  | call {name : String} {ts : List Lexeme} {p q r : Position} {es : List Expr} :
      Word.isIdentifier name = true → Arguments ts es →
      Atom (⟨.word name, p⟩ :: ⟨.mark .leftParen, q⟩ :: (ts ++ [⟨.mark .rightParen, r⟩]))
        (.call name es p.line)
  | var {name : String} {p : Position} : Word.isIdentifier name = true →
      Atom [⟨.word name, p⟩] (.var name p.line)
  | number {numeral : String} {p : Position} {x : Number} : Word.isNumeral numeral = true →
      Number.ofText? numeral = some x → Atom [⟨.word numeral, p⟩] (.literal x)

/-- Conditions with commas between them, or nothing. -/
inductive Arguments : List Lexeme → List Expr → Prop
  | none : Arguments [] []
  | some {ts : List Lexeme} {es : List Expr} : ArgumentList ts es → Arguments ts es

/-- One or more conditions with commas between them. -/
inductive ArgumentList : List Lexeme → List Expr → Prop
  | last {ts : List Lexeme} {e : Expr} : Condition ts e → ArgumentList ts [e]
  | more {ts us : List Lexeme} {p : Position} {e : Expr} {es : List Expr} : Condition ts e →
      ArgumentList us es → ArgumentList (ts ++ ⟨.mark .comma, p⟩ :: us) (e :: es)

end

/-- One or more identifiers with commas between them. -/
inductive ParameterList : List Lexeme → List String → Prop
  | last {name : String} {p : Position} : Word.isIdentifier name = true →
      ParameterList [⟨.word name, p⟩] [name]
  | more {name : String} {p q : Position} {ts : List Lexeme} {names : List String} :
      Word.isIdentifier name = true → ParameterList ts names →
      ParameterList (⟨.word name, p⟩ :: ⟨.mark .comma, q⟩ :: ts) (name :: names)

/-- Identifiers with commas between them, or nothing. -/
inductive Parameters : List Lexeme → List String → Prop
  | none : Parameters [] []
  | some {ts : List Lexeme} {names : List String} : ParameterList ts names → Parameters ts names

mutual

/-- Statements with semicolons between them, grouped to the left. -/
inductive Program : List Lexeme → Statement → Prop
  | statement {ts : List Lexeme} {s : Statement} : Stmt ts s → Program ts s
  | more {ts us : List Lexeme} {p : Position} {a b : Statement} : Program ts a → Stmt us b →
      Program (ts ++ ⟨.mark .semicolon, p⟩ :: us) (.sequence a b)

/-- A statement: its keyword decides its form, and without a keyword it is a condition. -/
inductive Stmt : List Lexeme → Statement → Prop
  | procedure {name : String} {ts us : List Lexeme} {p q r t : Position} {names : List String}
      {body : Statement} : Word.isIdentifier name = true → Parameters ts names → Block us body →
      Stmt (⟨.word "proc", p⟩ :: ⟨.word name, q⟩ :: ⟨.mark .leftParen, r⟩ ::
        (ts ++ ⟨.mark .rightParen, t⟩ :: us)) (.procedure name names body)
  | choice {ts us vs : List Lexeme} {p q : Position} {guard : Expr} {yes no : Statement} :
      Condition ts guard → Block us yes → Block vs no →
      Stmt (⟨.word "if", p⟩ :: (ts ++ (us ++ ⟨.word "else", q⟩ :: vs))) (.choice guard yes no)
  | loop {ts us : List Lexeme} {p : Position} {guard : Expr} {body : Statement} :
      Condition ts guard → Block us body →
      Stmt (⟨.word "while", p⟩ :: (ts ++ us)) (.loop guard body)
  | print {ts : List Lexeme} {p : Position} {e : Expr} : Condition ts e →
      Stmt (⟨.word "print", p⟩ :: ts) (.print e)
  | expression {ts : List Lexeme} {e : Expr} : Condition ts e → Stmt ts (.expression e)

/-- A program in braces. -/
inductive Block : List Lexeme → Statement → Prop
  | braces {ts : List Lexeme} {p q : Position} {s : Statement} : Program ts s →
      Block (⟨.mark .leftBrace, p⟩ :: (ts ++ [⟨.mark .rightBrace, q⟩])) s

end

/-! ### Trees of derivations -/

mutual

theorem Condition.isWritable {ts : List Lexeme} {e : Expr} :
    Condition ts e → e.isWritable = true
  | .sum h => h.isWritable
  | .comparison _ ha hb => Bool.and_eq_true_iff.mpr ⟨ha.isWritable, hb.isWritable⟩

theorem Sum.isWritable {ts : List Lexeme} {e : Expr} : Sum ts e → e.isWritable = true
  | .product h => h.isWritable
  | .more _ ha hb => Bool.and_eq_true_iff.mpr ⟨ha.isWritable, hb.isWritable⟩

theorem Product.isWritable {ts : List Lexeme} {e : Expr} : Product ts e → e.isWritable = true
  | .power h => h.isWritable
  | .more _ ha hb => Bool.and_eq_true_iff.mpr ⟨ha.isWritable, hb.isWritable⟩

theorem Power.isWritable {ts : List Lexeme} {e : Expr} : Power ts e → e.isWritable = true
  | .atom h => h.isWritable
  | .more ha hb => Bool.and_eq_true_iff.mpr ⟨ha.isWritable, hb.isWritable⟩

theorem Atom.isWritable {ts : List Lexeme} {e : Expr} : Atom ts e → e.isWritable = true
  | .group h => h.isWritable
  | .assign hname h => Bool.and_eq_true_iff.mpr ⟨hname, h.isWritable⟩
  | .call hname h => Bool.and_eq_true_iff.mpr ⟨hname, h.isWritable⟩
  | .var hname => hname
  | .number hnumeral hx => by
    obtain ⟨hfinite, hsign⟩ := Number.finite_of_isNumeral hnumeral hx
    simp [Expr.isWritable, Expr.all, Number.isWritable, hfinite, hsign]

theorem Arguments.isWritable {ts : List Lexeme} {es : List Expr} :
    Arguments ts es → argumentsAll Word.isIdentifier Number.isWritable es = true
  | .none => rfl
  | .some h => h.isWritable

theorem ArgumentList.isWritable {ts : List Lexeme} {es : List Expr} :
    ArgumentList ts es → argumentsAll Word.isIdentifier Number.isWritable es = true
  | .last h => Bool.and_eq_true_iff.mpr ⟨h.isWritable, rfl⟩
  | .more h hes => Bool.and_eq_true_iff.mpr ⟨h.isWritable, hes.isWritable⟩

end

theorem ParameterList.isWritable {ts : List Lexeme} {names : List String}
    (h : ParameterList ts names) : names.all Word.isIdentifier = true := by
  induction h with
  | last hname => simp [hname]
  | more hname _ ih => simp [hname, ih]

theorem Parameters.isWritable {ts : List Lexeme} {names : List String} (h : Parameters ts names) :
    names.all Word.isIdentifier = true := by
  cases h with
  | none => rfl
  | some h => exact h.isWritable

mutual

/-- The tree of a derivation can be written again. -/
theorem Program.isWritable {ts : List Lexeme} {s : Statement} : Program ts s → s.isWritable = true
  | .statement h => h.isWritable
  | .more ha hb => Bool.and_eq_true_iff.mpr ⟨ha.isWritable, hb.isWritable⟩

theorem Stmt.isWritable {ts : List Lexeme} {s : Statement} : Stmt ts s → s.isWritable = true
  | .procedure hname hnames hbody => by
    have hbody := hbody.isWritable
    simp_all [Statement.isWritable, Statement.all, hnames.isWritable]
  | .choice hguard hyes hno => by
    have hyes := hyes.isWritable
    have hno := hno.isWritable
    have hguard := hguard.isWritable
    simp_all [Statement.isWritable, Statement.all, Expr.isWritable]
  | .loop hguard hbody => Bool.and_eq_true_iff.mpr ⟨hguard.isWritable, hbody.isWritable⟩
  | .print h => h.isWritable
  | .expression h => h.isWritable

theorem Block.isWritable {ts : List Lexeme} {s : Statement} : Block ts s → s.isWritable = true
  | .braces h => h.isWritable

end

theorem Stmt.not_isSequence {ts : List Lexeme} {s : Statement} (h : Stmt ts s) :
    s.isSequence = false := by
  cases h <;> rfl

mutual

/-- The tree of a derivation has its chains nested to the left. -/
theorem Program.isLeftward {ts : List Lexeme} {s : Statement} : Program ts s → s.isLeftward = true
  | .statement h => h.isLeftward
  | .more ha hb => by
    have hsequence := hb.not_isSequence
    have ha := ha.isLeftward
    have hb := hb.isLeftward
    simp [Statement.isLeftward, ha, hb, hsequence]

theorem Stmt.isLeftward {ts : List Lexeme} {s : Statement} : Stmt ts s → s.isLeftward = true
  | .procedure _ _ hbody => hbody.isLeftward
  | .choice _ hyes hno => Bool.and_eq_true_iff.mpr ⟨hyes.isLeftward, hno.isLeftward⟩
  | .loop _ hbody => hbody.isLeftward
  | .print _ => rfl
  | .expression _ => rfl

theorem Block.isLeftward {ts : List Lexeme} {s : Statement} : Block ts s → s.isLeftward = true
  | .braces h => h.isLeftward

end

/-! ### Derivations of what parsers yield -/

/-- The lexemes taken from the beginning of `ts`, up to `r`, are derived with the tree `v`. -/
def Derives {α : Type} (rule : List Lexeme → α → Prop) (ts : List Lexeme) (v : α)
    (r : List Lexeme) : Prop :=
  ∃ us, ts = us ++ r ∧ rule us v

section Lists

variable {α : Type} {item : List Lexeme → α → List Lexeme → Prop} (one : List Lexeme → α → Prop)

theorem derives_of_chained (many : List Lexeme → α → Prop) {link : Token → Option (α → α → α)}
    {ts q r : List Lexeme} {left v : α}
    (hmany : ∀ us vs l join a b, link l.token = some join → many us a → one vs b →
      many (us ++ l :: vs) (join a b))
    (hitem : ∀ us, us.length < ts.length → ∀ w rest, item us w rest → Derives one us w rest)
    (h : Parser.Chained item link left q v r) (hleft : Derives many ts left q) :
    Derives many ts v r := by
  induction h with
  | stop _ => exact hleft
  | @step left right v l rest rest' r join hlink hright _ ih =>
    obtain ⟨us, hts, hus⟩ := hleft
    have hlength : rest.length < ts.length := by simp [hts]; omega
    obtain ⟨vs, rfl, hvs⟩ := hitem rest hlength right rest' hright
    exact ih ⟨us ++ l :: vs, by simp [hts], hmany us vs l join left right hlink hus hvs⟩

theorem derives_of_listed (list : List Lexeme → List α → Prop) {closing : Token}
    {ts q r : List Lexeme} {xs : List α} (hlast : ∀ us x, one us x → list us [x])
    (hmore : ∀ us vs l x xs, l.token = .mark .comma → one us x → list vs xs →
      list (us ++ l :: vs) (x :: xs))
    (hitem : ∀ us, us.length ≤ ts.length → ∀ w rest, item us w rest → Derives one us w rest)
    (h : Parser.Listed item closing q xs r) (hq : q.length ≤ ts.length) :
    ∃ us l, q = us ++ l :: r ∧ l.token = closing ∧ list us xs := by
  induction h with
  | @last x l q r hx _ hclosing =>
    obtain ⟨us, hq', hus⟩ := hitem q hq x (l :: r) hx
    exact ⟨us, l, hq', hclosing, hlast us x hus⟩
  | @more x xs l q rest r hx hcomma _ ih =>
    obtain ⟨us, hq', hus⟩ := hitem q hq x (l :: rest) hx
    have hrest : rest.length ≤ ts.length := by simp [hq'] at hq; omega
    obtain ⟨vs, l', rfl, hclosing, hvs⟩ := ih hrest
    exact ⟨us ++ l :: vs, l', by simp [hq'], hclosing, hmore us vs l x xs hcomma hus hvs⟩

end Lists

open Imperative.Parser

variable {ts us r : List Lexeme}

/-! A linking token between two derivations, as the parsers see it. -/

theorem Condition.join {l : Lexeme} {join : Expr → Expr → Expr} {a b : Expr}
    (hjoin : joins comparisons l.token = some join) (ha : Sum ts a) (hb : Sum us b) :
    Condition (ts ++ l :: us) (join a b) := by
  obtain ⟨op, hop, hl, rfl⟩ := joins_eq_some_iff.mp hjoin
  obtain ⟨t, p⟩ := l
  cases hl
  exact .comparison hop ha hb

theorem Sum.join {l : Lexeme} {join : Expr → Expr → Expr} {a b : Expr}
    (hjoin : joins sums l.token = some join) (ha : Sum ts a) (hb : Product us b) :
    Sum (ts ++ l :: us) (join a b) := by
  obtain ⟨op, hop, hl, rfl⟩ := joins_eq_some_iff.mp hjoin
  obtain ⟨t, p⟩ := l
  cases hl
  exact .more hop ha hb

theorem Product.join {l : Lexeme} {join : Expr → Expr → Expr} {a b : Expr}
    (hjoin : joins products l.token = some join) (ha : Product ts a) (hb : Power us b) :
    Product (ts ++ l :: us) (join a b) := by
  obtain ⟨op, hop, hl, rfl⟩ := joins_eq_some_iff.mp hjoin
  obtain ⟨t, p⟩ := l
  cases hl
  exact .more hop ha hb

theorem Power.join {l : Lexeme} {join : Expr → Expr → Expr} {a b : Expr}
    (hjoin : joins powers l.token = some join) (ha : Atom ts a) (hb : Power us b) :
    Power (ts ++ l :: us) (join a b) := by
  obtain ⟨op, hop, hl, rfl⟩ := joins_eq_some_iff.mp hjoin
  obtain ⟨t, p⟩ := l
  cases hl
  cases List.mem_singleton.mp hop
  exact .more ha hb

theorem ArgumentList.join {l : Lexeme} {e : Expr} {es : List Expr}
    (hl : l.token = .mark .comma) (he : Condition ts e) (hes : ArgumentList us es) :
    ArgumentList (ts ++ l :: us) (e :: es) := by
  obtain ⟨t, p⟩ := l
  cases hl
  exact .more he hes

theorem Program.join {l : Lexeme} {join : Statement → Statement → Statement} {a b : Statement}
    (hjoin : sequences l.token = some join) (ha : Program ts a) (hb : Stmt us b) :
    Program (ts ++ l :: us) (join a b) := by
  obtain ⟨hl, rfl⟩ := sequences_eq_some_iff.mp hjoin
  obtain ⟨t, p⟩ := l
  cases hl
  exact .more ha hb

/-- A parameter is a single lexeme. -/
def Parameter (ts : List Lexeme) (name : String) : Prop :=
  ∃ p, ts = [⟨.word name, p⟩] ∧ Word.isIdentifier name = true

theorem Parameter.list {name : String} (h : Parameter ts name) : ParameterList ts [name] := by
  obtain ⟨p, rfl, hname⟩ := h
  exact .last hname

theorem ParameterList.join {l : Lexeme} {name : String} {names : List String}
    (hl : l.token = .mark .comma) (h : Parameter ts name) (hnames : ParameterList us names) :
    ParameterList (ts ++ l :: us) (name :: names) := by
  obtain ⟨p, rfl, hname⟩ := h
  obtain ⟨t, q⟩ := l
  cases hl
  exact .more hname hnames

theorem parameter_derived {name : String} (h : Yields (identifier ts) name r) :
    Derives Parameter ts name r := by
  obtain ⟨⟨t, p⟩, rfl, hl, hname⟩ := yields_identifier_iff.mp h
  cases hl
  exact ⟨[_], rfl, p, rfl, hname⟩

/-- What the parsers of expressions make of the beginning of `ts` is derived by the rule of the
same kind. -/
structure ExpressionsDerived (ts : List Lexeme) : Prop where
  atom : ∀ e r, Yields (primary ts) e r → Derives Atom ts e r
  power : ∀ e r, Yields (power ts) e r → Derives Power ts e r
  product : ∀ e r, Yields (multiplicative ts) e r → Derives Product ts e r
  sum : ∀ e r, Yields (additive ts) e r → Derives Sum ts e r
  condition : ∀ e r, Yields (condition ts) e r → Derives Condition ts e r

theorem arguments_derived {es : List Expr}
    (hcondition : ∀ us, us.length ≤ ts.length → ∀ e r, Yields (condition us) e r →
      Derives Condition us e r)
    (h : Yields (commaSeparated (.mark .rightParen) ts fun r _ => condition r) es r) :
    ∃ us l, ts = us ++ l :: r ∧ l.token = .mark .rightParen ∧ Arguments us es := by
  rcases yields_commaSeparated_iff.mp h with ⟨l, rfl, hl, rfl⟩ | ⟨-, hlist⟩
  · exact ⟨[], l, rfl, hl, .none⟩
  · obtain ⟨us, l, hts, hl, hus⟩ := derives_of_listed Condition ArgumentList
      (fun _ _ => .last) (fun _ _ _ _ _ => .join) hcondition hlist (Nat.le_refl _)
    exact ⟨us, l, hts, hl, .some hus⟩

theorem parameters_derived {names : List String}
    (h : Yields (commaSeparated (.mark .rightParen) ts fun r _ => identifier r) names r) :
    ∃ us l, ts = us ++ l :: r ∧ l.token = .mark .rightParen ∧ Parameters us names := by
  rcases yields_commaSeparated_iff.mp h with ⟨l, rfl, hl, rfl⟩ | ⟨-, hlist⟩
  · exact ⟨[], l, rfl, hl, .none⟩
  · obtain ⟨us, l, hts, hl, hus⟩ := derives_of_listed Parameter ParameterList
      (fun _ _ => Parameter.list) (fun _ _ _ _ _ => .join)
      (fun _ _ _ _ => parameter_derived) hlist (Nat.le_refl _)
    exact ⟨us, l, hts, hl, .some hus⟩

theorem ParameterList.listed {ts r : List Lexeme} {names : List String} {p : Position}
    (h : ParameterList ts names) :
    Listed (fun us w rest => Yields (identifier us) w rest) (.mark .rightParen)
      (ts ++ ⟨.mark .rightParen, p⟩ :: r) names r := by
  induction h with
  | last hname => exact .last (yields_identifier_iff.mpr ⟨_, rfl, rfl, hname⟩) (by simp) rfl
  | more hname _ ih => exact .more (yields_identifier_iff.mpr ⟨_, rfl, rfl, hname⟩) rfl ih

theorem Parameters.yields {ts r : List Lexeme} {names : List String} {p : Position}
    (h : Parameters ts names) :
    Yields (commaSeparated (.mark .rightParen) (ts ++ ⟨.mark .rightParen, p⟩ :: r)
      fun r _ => identifier r) names r := by
  refine yields_commaSeparated_iff.mpr ?_
  cases h with
  | none => exact .inl ⟨_, rfl, rfl, rfl⟩
  | some h =>
    refine .inr ⟨fun l rest heq => ?_, h.listed⟩
    cases h <;> cases heq <;> simp

theorem atom_derived (ih : ∀ us, us.length < ts.length → ExpressionsDerived us) {e : Expr}
    (h : Yields (primary ts) e r) : Derives Atom ts e r := by
  cases yields_primary_iff.mp h with
  | @group l l' us r e hl hinner hl' =>
    obtain ⟨vs, rfl, hvs⟩ := (ih us (by simp)).condition e (l' :: r) hinner
    obtain ⟨t, p⟩ := l
    obtain ⟨t', p'⟩ := l'
    cases hl
    cases hl'
    exact ⟨_, by simp, .group (p := p) (q := p') hvs⟩
  | @assign l c q us r name e hl hname hc hq hvalue =>
    obtain ⟨vs, rfl, hvs⟩ := (ih us (by grind)).condition e r hvalue
    obtain ⟨tl, pl⟩ := l
    obtain ⟨tc, pc⟩ := c
    obtain ⟨tq, pq⟩ := q
    cases hl
    cases hc
    cases hq
    exact ⟨_, by simp, .assign (p := pl) (q := pc) (r := pq) hname hvs⟩
  | @call l p us r name es hl hname hp harguments =>
    have hcondition (vs : List Lexeme) (hvs : vs.length ≤ us.length) :
        ∀ e r, Yields (condition vs) e r → Derives Condition vs e r :=
      (ih vs (by grind)).condition
    obtain ⟨vs, l', rfl, hl', hvs⟩ := arguments_derived hcondition harguments
    obtain ⟨tl, pl⟩ := l
    obtain ⟨tp, pp⟩ := p
    obtain ⟨t', p'⟩ := l'
    cases hl
    cases hp
    cases hl'
    exact ⟨_, by simp, .call (p := pl) (q := pp) (r := p') hname hvs⟩
  | @var l r name hl hname _ =>
    obtain ⟨t, p⟩ := l
    cases hl
    exact ⟨[_], rfl, .var hname⟩
  | @literal l r numeral x hl _ hnumeral hx =>
    obtain ⟨t, p⟩ := l
    cases hl
    exact ⟨[_], rfl, .number hnumeral hx⟩

/-- What the parsers of expressions yield is derived. -/
theorem expressions_derived (ts : List Lexeme) : ExpressionsDerived ts := by
  induction hn : ts.length using Nat.strong_induction_on generalizing ts with
  | _ n ih =>
  have ih' (us : List Lexeme) (hus : us.length < ts.length) : ExpressionsDerived us :=
    ih us.length (by omega) us rfl
  have hatom (e : Expr) (r : List Lexeme) (h : Yields (primary ts) e r) : Derives Atom ts e r :=
    atom_derived ih' h
  have hpower (e : Expr) (r : List Lexeme) (h : Yields (Parser.power ts) e r) :
      Derives Power ts e r := by
    rcases yields_power_iff.mp h with ⟨h, -⟩ | ⟨a, l, rest, join, b, ha, hjoin, hb, rfl⟩
    · obtain ⟨us, hts, hus⟩ := hatom e r h
      exact ⟨us, hts, .atom hus⟩
    · obtain ⟨us, rfl, hus⟩ := hatom a (l :: rest) ha
      obtain ⟨vs, rfl, hvs⟩ := (ih' rest (by grind)).power b r hb
      exact ⟨us ++ l :: vs, by simp, .join hjoin hus hvs⟩
  have hproduct (e : Expr) (r : List Lexeme) (h : Yields (multiplicative ts) e r) :
      Derives Product ts e r := by
    obtain ⟨left, q, hleft, hchain⟩ := yields_multiplicative_iff.mp h
    obtain ⟨us, hts, hus⟩ := hpower left q hleft
    exact derives_of_chained Power Product (fun _ _ _ _ _ _ => .join)
      (fun us hus => (ih' us hus).power) hchain ⟨us, hts, .power hus⟩
  have hsum (e : Expr) (r : List Lexeme) (h : Yields (additive ts) e r) : Derives Sum ts e r := by
    obtain ⟨left, q, hleft, hchain⟩ := yields_additive_iff.mp h
    obtain ⟨us, hts, hus⟩ := hproduct left q hleft
    exact derives_of_chained Product Sum (fun _ _ _ _ _ _ => .join)
      (fun us hus => (ih' us hus).product) hchain ⟨us, hts, .product hus⟩
  refine ⟨hatom, hpower, hproduct, hsum, fun e r h => ?_⟩
  rcases yields_condition_iff.mp h with ⟨h, -⟩ | ⟨a, l, rest, join, b, ha, hjoin, hb, rfl⟩
  · obtain ⟨us, hts, hus⟩ := hsum e r h
    exact ⟨us, hts, .sum hus⟩
  · obtain ⟨us, rfl, hus⟩ := hsum a (l :: rest) ha
    obtain ⟨vs, rfl, hvs⟩ := (ih' rest (by grind)).sum b r hb
    exact ⟨us ++ l :: vs, by simp, .join hjoin hus hvs⟩

theorem condition_derived {e : Expr} (h : Yields (condition ts) e r) : Derives Condition ts e r :=
  (expressions_derived ts).condition e r h

/-- What the parsers of statements make of the beginning of `ts` is derived. -/
structure StatementsDerived (ts : List Lexeme) : Prop where
  statement : ∀ s r, Yields (statement ts) s r → Derives Stmt ts s r
  program : ∀ s r, Yields (program ts) s r → Derives Program ts s r
  block : ∀ s r, Yields (block ts) s r → Derives Block ts s r

theorem statement_derived (ih : ∀ us, us.length < ts.length → StatementsDerived us) {s : Statement}
    (h : Yields (statement ts) s r) : Derives Stmt ts s r := by
  cases yields_statement_iff.mp h with
  | @procedure k l us vs ws r name names body hk hname hl hparameters hbody =>
    obtain ⟨n, rfl, hn, hidentifier⟩ := yields_identifier_iff.mp hname
    obtain ⟨us, l', rfl, hl', hus⟩ := parameters_derived hparameters
    obtain ⟨xs, rfl, hxs⟩ := (ih ws (by grind)).block body r hbody
    obtain ⟨tk, pk⟩ := k
    obtain ⟨tn, pn⟩ := n
    obtain ⟨tl, pl⟩ := l
    obtain ⟨t', p'⟩ := l'
    cases hk
    cases hn
    cases hl
    cases hl'
    exact ⟨_, by simp, .procedure (p := pk) (q := pn) (r := pl) (t := p') hidentifier hus hxs⟩
  | @choice k l us vs ws r guard yes no hk hguard hyes hl hno =>
    obtain ⟨gs, rfl, hgs⟩ := condition_derived hguard
    obtain ⟨ys, rfl, hys⟩ := (ih vs (by grind)).block yes (l :: ws) hyes
    obtain ⟨ns, rfl, hns⟩ := (ih ws (by grind)).block no r hno
    obtain ⟨tk, pk⟩ := k
    obtain ⟨tl, pl⟩ := l
    cases hk
    cases hl
    exact ⟨_, by simp, .choice (p := pk) (q := pl) hgs hys hns⟩
  | @loop k us vs r guard body hk hguard hbody =>
    obtain ⟨gs, rfl, hgs⟩ := condition_derived hguard
    obtain ⟨bs, rfl, hbs⟩ := (ih vs (by grind)).block body r hbody
    obtain ⟨tk, pk⟩ := k
    cases hk
    exact ⟨_, by simp, .loop (p := pk) hgs hbs⟩
  | @print k us r e hk he =>
    obtain ⟨es, rfl, hes⟩ := condition_derived he
    obtain ⟨tk, pk⟩ := k
    cases hk
    exact ⟨_, by simp, .print (p := pk) hes⟩
  | @expression us r e he =>
    obtain ⟨es, rfl, hes⟩ := condition_derived he
    exact ⟨es, rfl, .expression hes⟩

/-- What the parsers of statements yield is derived. -/
theorem statements_derived (ts : List Lexeme) : StatementsDerived ts := by
  induction hn : ts.length using Nat.strong_induction_on generalizing ts with
  | _ n ih =>
  have ih' (us : List Lexeme) (hus : us.length < ts.length) : StatementsDerived us :=
    ih us.length (by omega) us rfl
  refine ⟨fun s r => statement_derived ih', fun s r h => ?_, fun s r h => ?_⟩
  · obtain ⟨left, q, hleft, hchain⟩ := yields_program_iff.mp h
    obtain ⟨us, hts, hus⟩ := statement_derived ih' hleft
    exact derives_of_chained Stmt Program (fun _ _ _ _ _ _ => .join)
      (fun us hus => (ih' us hus).statement) hchain ⟨us, hts, .statement hus⟩
  · obtain ⟨l, us, l', rfl, hl, hbody, hl'⟩ := yields_block_iff.mp h
    obtain ⟨vs, rfl, hvs⟩ := (ih' us (by simp)).program s (l' :: r) hbody
    obtain ⟨t, p⟩ := l
    obtain ⟨t', p'⟩ := l'
    cases hl
    cases hl'
    exact ⟨_, by simp, .braces (p := p) (q := p') hvs⟩

/-- The tree of lexemes that are a program is the tree of a derivation. -/
theorem program_of_parseLexemes {s : Statement} (h : parseLexemes ts = .ok s) : Program ts s := by
  obtain ⟨us, hts, hus⟩ := (statements_derived ts).program s [] (parseLexemes_eq_ok_iff.mp h)
  rw [List.append_nil] at hts
  rwa [hts]

end Imperative.Grammar
