import Imperative.Proofs.Acceptance
import Imperative.Proofs.Relocation
import Imperative.Proofs.Scanning

/-! Parsing stops at the first lexeme that cannot be right.  Wherever a parser fails, some tokens
would complete what stands before that place: the closing tokens that are still open, and a name or
a block where one is missing.  So an error at the end of the source means that the source is
incomplete, and an error before a lexeme remains whatever follows. -/

namespace Imperative

/-! ### Spelling tokens -/

/-- Whether a text can spell the token: marks, and words without blanks and marks in them. -/
def Token.isSpellable : Token → Bool
  | mark _ => true
  | word s => Word.isPlainText s.toList

/-- Tokens that can be spelled have a text. -/
theorem Reads.exists_of_isSpellable {ts : List Token} (h : ts.all Token.isSpellable = true) :
    ∃ text : String, Reads text.toList ts := by
  induction ts with
  | nil => exact ⟨"", .nil⟩
  | cons t ts ih =>
    obtain ⟨ht, hts⟩ := Bool.and_eq_true_iff.mp h
    obtain ⟨text, htext⟩ := ih hts
    cases t with
    | mark m =>
      refine ⟨String.ofList (m.char :: text.toList), ?_⟩
      rw [String.toList_ofList]
      exact .mark_first m htext
    | word s =>
      refine ⟨s ++ " " ++ text, ?_⟩
      simpa using (Reads.word ht).blank htext

theorem map_token_eq_cons {us : List Lexeme} {t : Token} {ts : List Token}
    (h : us.map Lexeme.token = t :: ts) :
    ∃ p vs, us = ⟨t, p⟩ :: vs ∧ vs.map Lexeme.token = ts := by
  obtain ⟨l, vs, rfl, rfl, hvs⟩ := List.map_eq_cons_iff.mp h
  exact ⟨l.position, vs, rfl, hvs⟩

theorem map_token_eq_singleton {us : List Lexeme} {t : Token} (h : us.map Lexeme.token = [t]) :
    ∃ p, us = [⟨t, p⟩] := by
  obtain ⟨p, vs, rfl, hvs⟩ := map_token_eq_cons h
  rw [List.map_eq_nil_iff.mp hvs]
  exact ⟨p, rfl⟩

namespace Grammar

open Imperative.Parser

variable {α β : Type} {rule : List Lexeme → α → Prop} {rule' : List Lexeme → β → Prop}
  {ts us r : List Lexeme} {e : Stuck}

/-- Tokens that can be spelled, wherever they then stand, complete the lexemes to something that
the rule derives. -/
def Completable (rule : List Lexeme → α → Prop) (ts : List Lexeme) : Prop :=
  ∃ tokens : List Token, tokens.all Token.isSpellable = true ∧
    ∀ us, us.map Lexeme.token = tokens → ∃ v, rule (ts ++ us) v

/-- The lexemes before the place of a failure can be completed. -/
def Resumes (rule : List Lexeme → α → Prop) (ts : List Lexeme) (e : Stuck) : Prop :=
  ∃ before, ts = before ++ e.rest ∧ Completable rule before

/-- These tokens are missing where the failure is. -/
theorem Resumes.missing (before : List Lexeme) (tokens : List Token)
    (htokens : tokens.all Token.isSpellable = true) {expected : Expected}
    (h : ∀ vs, vs.map Lexeme.token = tokens → ∃ v, rule (before ++ vs) v) :
    Resumes rule (before ++ r) ⟨expected, r⟩ :=
  ⟨before, rfl, tokens, htokens, h⟩

/-- What completes a part completes the whole, if what the whole lacks behind the part is added. -/
theorem Resumes.wrap (h : Resumes rule us e) (before : List Lexeme) (tokens : List Token)
    (htokens : tokens.all Token.isSpellable = true)
    (hrule : ∀ ts vs v, rule ts v → vs.map Lexeme.token = tokens →
      ∃ w, rule' (before ++ (ts ++ vs)) w) : Resumes rule' (before ++ us) e := by
  obtain ⟨part, rfl, inner, hinner, hpart⟩ := h
  refine ⟨before ++ part, by simp, inner ++ tokens, by simp_all, fun vs hvs => ?_⟩
  obtain ⟨vs₁, vs₂, rfl, h₁, h₂⟩ := List.map_eq_append_iff.mp hvs
  obtain ⟨v, hv⟩ := hpart vs₁ h₁
  simpa using hrule (part ++ vs₁) vs₂ v hv h₂

/-- What completes the last part completes the whole. -/
theorem Resumes.last (h : Resumes rule us e) (before : List Lexeme)
    (hrule : ∀ ts v, rule ts v → ∃ w, rule' (before ++ ts) w) : Resumes rule' (before ++ us) e := by
  refine h.wrap before [] rfl fun ts vs v hv hvs => ?_
  rw [List.map_eq_nil_iff.mp hvs, List.append_nil]
  exact hrule ts v hv

theorem Resumes.behind (h : Resumes rule r e) (us : List Lexeme) {l : Lexeme}
    (hrule : ∀ ts v, rule ts v → ∃ w, rule' (us ++ l :: ts) w) :
    Resumes rule' (us ++ l :: r) e := by
  have hresumes : Resumes rule' (us ++ [l] ++ r) e :=
    h.last (us ++ [l]) fun ts v hv => by simpa using hrule ts v hv
  simpa using hresumes

theorem Resumes.imp {rule' : List Lexeme → α → Prop} (h : Resumes rule ts e)
    (hrule : ∀ us v, rule us v → rule' us v) : Resumes rule' ts e :=
  h.last [] fun us v hv => ⟨v, hrule us v hv⟩

/-! ### What is missing -/

/-- A name, which is the shortest expression and the shortest statement. -/
def someName : List Token := [.word "x"]

/-- The shortest block. -/
def someBlock : List Token := [.mark .leftBrace, .word "x", .mark .rightBrace]

theorem Atom.condition {e : Expr} (h : Atom ts e) : Condition ts e :=
  .sum (.product (.power (.atom h)))

theorem atom_someName (h : us.map Lexeme.token = someName) : ∃ e, Atom us e := by
  obtain ⟨p, rfl⟩ := map_token_eq_singleton h
  exact ⟨_, .var (by decide)⟩

theorem block_someBlock (h : us.map Lexeme.token = someBlock) : ∃ s, Block us s := by
  obtain ⟨p, vs, rfl, hvs⟩ := map_token_eq_cons h
  obtain ⟨q, ws, rfl, hws⟩ := map_token_eq_cons hvs
  obtain ⟨r, rfl⟩ := map_token_eq_singleton hws
  have hname : Atom [⟨.word "x", q⟩] (.var "x" q.line) := .var (by decide)
  exact ⟨_, .braces (.statement (.expression hname.condition))⟩

/-! ### Chains and lists -/

theorem resumes_of_broken {item : Parser α} {link : Token → Option (α → α → α)}
    (one many : List Lexeme → α → Prop) {q : List Lexeme} {left : α}
    (hmany : ∀ us vs l join a b, link l.token = some join → many us a → one vs b →
      many (us ++ l :: vs) (join a b))
    (hitem : ∀ us, us.length < ts.length → ∀ w rest, Yields (item us) w rest →
      Derives one us w rest)
    (hfails : ∀ us, us.length < ts.length → ∀ e, Fails (item us) e → Resumes one us e)
    (h : Broken item link q e) (hleft : Derives many ts left q) : Resumes many ts e := by
  -- Along the items that are found, what stands before `q` grows and remains derived.
  induction h generalizing left with
  | @item l rest e join hlink hrest =>
    obtain ⟨us, rfl, hus⟩ := hleft
    exact (hfails rest (by simp; omega) e hrest).behind us fun vs w hvs =>
      ⟨join left w, hmany us vs l join left w hlink hus hvs⟩
  | @step l rest rest' e join right hlink hright _ ih =>
    obtain ⟨us, hts, hus⟩ := hleft
    have hlength : rest.length < ts.length := by simp [hts]; omega
    obtain ⟨vs, rfl, hvs⟩ := hitem rest hlength right rest' hright
    exact ih ⟨us ++ l :: vs, by simp [hts], hmany us vs l join left right hlink hus hvs⟩

/-- A list with the parenthesis that closes it. -/
def Enclosed (list : List Lexeme → α → Prop) (ts : List Lexeme) (xs : α) : Prop :=
  ∃ us p, ts = us ++ [⟨.mark .rightParen, p⟩] ∧ list us xs

theorem resumes_of_listBroken {item : Parser α} (one : List Lexeme → α → Prop)
    (list : List Lexeme → List α → Prop) {q : List Lexeme}
    (hlast : ∀ us x, one us x → list us [x])
    (hmore : ∀ us vs l x xs, l.token = .mark .comma → one us x → list vs xs →
      list (us ++ l :: vs) (x :: xs))
    (hitem : ∀ us, us.length ≤ ts.length → ∀ w rest, Yields (item us) w rest →
      Derives one us w rest)
    (hfails : ∀ us, us.length ≤ ts.length → ∀ e, Fails (item us) e → Resumes one us e)
    (h : ListBroken item (.mark .rightParen) q e) (hq : q.length ≤ ts.length) :
    Resumes (Enclosed list) q e := by
  have hclose (us vs : List Lexeme) (x : α) (hx : one us x)
      (hvs : vs.map Lexeme.token = [.mark .rightParen]) : ∃ xs, Enclosed list (us ++ vs) xs := by
    obtain ⟨p, rfl⟩ := map_token_eq_singleton hvs
    exact ⟨[x], us, p, rfl, hlast us x hx⟩
  induction h with
  | @item q e hrest => exact (hfails q hq e hrest).wrap [] [.mark .rightParen] rfl hclose
  | @stop q r x hx _ =>
    obtain ⟨us, rfl, hus⟩ := hitem q hq x r hx
    exact .missing us [.mark .rightParen] rfl fun vs hvs => hclose us vs x hus hvs
  | @more q rest x l e hx hcomma _ ih =>
    obtain ⟨us, rfl, hus⟩ := hitem q hq x (l :: rest) hx
    have hrest : rest.length ≤ ts.length := by simp at hq; omega
    refine (ih hrest).behind us ?_
    rintro _ xs ⟨vs, p, rfl, hvs⟩
    exact ⟨x :: xs, us ++ l :: vs, p, by simp, hmore us vs l x xs hcomma hus hvs⟩

/-! ### Expressions -/

/-- Where the parsers of expressions fail on `ts`, the rule of the same kind resumes. -/
structure ExpressionsResumed (ts : List Lexeme) : Prop where
  atom : ∀ e, Fails (primary ts) e → Resumes Atom ts e
  power : ∀ e, Fails (power ts) e → Resumes Power ts e
  product : ∀ e, Fails (multiplicative ts) e → Resumes Product ts e
  sum : ∀ e, Fails (additive ts) e → Resumes Sum ts e
  condition : ∀ e, Fails (condition ts) e → Resumes Condition ts e

theorem arguments_resumed
    (hcondition : ∀ us, us.length ≤ ts.length → ∀ e, Fails (condition us) e →
      Resumes Condition us e)
    (h : Fails (commaSeparated (.mark .rightParen) ts fun r _ => condition r) e) :
    Resumes (Enclosed Arguments) ts e := by
  have hlist : Resumes (Enclosed ArgumentList) ts e :=
    resumes_of_listBroken Condition ArgumentList (fun _ _ => .last) (fun _ _ _ _ _ => .join)
      (fun _ _ _ _ => condition_derived) hcondition (fails_commaSeparated_iff.mp h).2
      (Nat.le_refl _)
  refine hlist.imp ?_
  rintro _ es ⟨us, p, rfl, hus⟩
  exact ⟨us, p, rfl, .some hus⟩

theorem atom_resumed (ih : ∀ us, us.length < ts.length → ExpressionsResumed us)
    (h : Fails (primary ts) e) : Resumes Atom ts e := by
  cases fails_primary_iff.mp h with
  | start _ => exact .missing [] someName rfl fun vs => atom_someName
  | @group l us e hl hinner =>
    obtain ⟨t, p⟩ := l
    cases hl
    refine ((ih us (by simp)).condition e hinner).wrap [_] [.mark .rightParen] rfl ?_
    intro ts vs inner hts hvs
    obtain ⟨q, rfl⟩ := map_token_eq_singleton hvs
    exact ⟨inner, .group hts⟩
  | @group_close l us r inner hl hinner _ =>
    obtain ⟨t, p⟩ := l
    cases hl
    obtain ⟨ts, rfl, hts⟩ := condition_derived hinner
    refine .missing (_ :: ts) [.mark .rightParen] rfl fun vs hvs => ?_
    obtain ⟨q, rfl⟩ := map_token_eq_singleton hvs
    exact ⟨inner, .group hts⟩
  | @assign l c us s hl hs hc _ =>
    obtain ⟨tl, pl⟩ := l
    obtain ⟨tc, pc⟩ := c
    cases hl
    cases hc
    refine .missing [_, _] (.mark .equal :: someName) rfl fun vs hvs => ?_
    obtain ⟨q, ws, rfl, hws⟩ := map_token_eq_cons hvs
    obtain ⟨value, hvalue⟩ := atom_someName hws
    exact ⟨_, .assign hs hvalue.condition⟩
  | @assign_value l c q us s e hl hs hc hq hvalue =>
    obtain ⟨tl, pl⟩ := l
    obtain ⟨tc, pc⟩ := c
    obtain ⟨tq, pq⟩ := q
    cases hl
    cases hc
    cases hq
    refine ((ih us (by simp; omega)).condition e hvalue).last [_, _, _] fun ts value hts => ?_
    exact ⟨_, .assign hs hts⟩
  | @call l p us s e hl hs hp harguments =>
    obtain ⟨tl, pl⟩ := l
    obtain ⟨tp, pp⟩ := p
    cases hl
    cases hp
    have hresumes := arguments_resumed (fun vs hvs => (ih vs (by simp; omega)).condition) harguments
    refine hresumes.last [_, _] ?_
    rintro _ es ⟨ts, q, rfl, hts⟩
    exact ⟨_, .call hs hts⟩
  | literal _ _ _ _ =>
    -- The numeral in the way has no value, but another operand might stand there.
    exact .missing [] someName rfl fun vs => atom_someName

theorem expressions_resumed (ts : List Lexeme) : ExpressionsResumed ts := by
  induction hn : ts.length using Nat.strong_induction_on generalizing ts with
  | _ n ih =>
  have ih' (us : List Lexeme) (hus : us.length < ts.length) : ExpressionsResumed us :=
    ih us.length (by omega) us rfl
  have hatom (e : Stuck) (h : Fails (primary ts) e) : Resumes Atom ts e := atom_resumed ih' h
  have hpower (e : Stuck) (h : Fails (Parser.power ts) e) : Resumes Power ts e := by
    rcases fails_power_iff.mp h with h | ⟨left, l, rest, join, hleft, hjoin, hright⟩
    · exact (hatom e h).imp fun _ _ => .atom
    · obtain ⟨us, rfl, hus⟩ := (expressions_derived ts).atom left (l :: rest) hleft
      exact ((ih' rest (by simp; omega)).power e hright).behind us fun vs right hvs =>
        ⟨join left right, .join hjoin hus hvs⟩
  have hproduct (e : Stuck) (h : Fails (multiplicative ts) e) : Resumes Product ts e := by
    rcases fails_multiplicative_iff.mp h with h | ⟨left, q, hleft, hbroken⟩
    · exact (hpower e h).imp fun _ _ => .power
    · obtain ⟨us, hts, hus⟩ := (expressions_derived ts).power left q hleft
      exact resumes_of_broken Power Product (fun _ _ _ _ _ _ => .join)
        (fun us _ => (expressions_derived us).power) (fun us hus => (ih' us hus).power) hbroken
        ⟨us, hts, .power hus⟩
  have hsum (e : Stuck) (h : Fails (additive ts) e) : Resumes Sum ts e := by
    rcases fails_additive_iff.mp h with h | ⟨left, q, hleft, hbroken⟩
    · exact (hproduct e h).imp fun _ _ => .product
    · obtain ⟨us, hts, hus⟩ := (expressions_derived ts).product left q hleft
      exact resumes_of_broken Product Sum (fun _ _ _ _ _ _ => .join)
        (fun us _ => (expressions_derived us).product) (fun us hus => (ih' us hus).product) hbroken
        ⟨us, hts, .product hus⟩
  refine ⟨hatom, hpower, hproduct, hsum, fun e h => ?_⟩
  rcases fails_condition_iff.mp h with h | ⟨left, l, rest, join, hleft, hjoin, hright⟩
  · exact (hsum e h).imp fun _ _ => .sum
  · obtain ⟨us, rfl, hus⟩ := (expressions_derived ts).sum left (l :: rest) hleft
    exact ((ih' rest (by simp; omega)).sum e hright).behind us fun vs right hvs =>
      ⟨join left right, .join hjoin hus hvs⟩

theorem condition_resumed (h : Fails (condition ts) e) : Resumes Condition ts e :=
  (expressions_resumed ts).condition e h

/-! ### Statements -/

/-- Where the parsers of statements fail on `ts`, the rule of the same kind resumes. -/
structure StatementsResumed (ts : List Lexeme) : Prop where
  statement : ∀ e, Fails (statement ts) e → Resumes Stmt ts e
  program : ∀ e, Fails (program ts) e → Resumes Program ts e
  block : ∀ e, Fails (block ts) e → Resumes Block ts e

theorem parameters_resumed
    (h : Fails (commaSeparated (.mark .rightParen) ts fun r _ => identifier r) e) :
    Resumes (Enclosed Parameters) ts e := by
  have hname (us : List Lexeme) (e : Stuck) (he : Fails (identifier us) e) :
      Resumes Parameter us e := by
    obtain ⟨-, rfl⟩ := fails_identifier_iff.mp he
    refine .missing [] someName rfl fun vs hvs => ?_
    obtain ⟨p, rfl⟩ := map_token_eq_singleton hvs
    exact ⟨"x", p, rfl, by decide⟩
  have hlist : Resumes (Enclosed ParameterList) ts e :=
    resumes_of_listBroken Parameter ParameterList (fun _ _ => Parameter.list)
      (fun _ _ _ _ _ => .join) (fun _ _ _ _ => parameter_derived) (fun us _ => hname us)
      (fails_commaSeparated_iff.mp h).2 (Nat.le_refl _)
  refine hlist.imp ?_
  rintro _ names ⟨us, p, rfl, hus⟩
  exact ⟨us, p, rfl, .some hus⟩

/-- What a procedure lacks behind its name. -/
def someProcedure : List Token := .mark .leftParen :: .mark .rightParen :: someBlock

/-- What a choice lacks behind its first block. -/
def someElse : List Token := .word "else" :: someBlock

theorem stmt_someProcedure {name : String} {p q : Position} (hname : Word.isIdentifier name = true)
    (h : us.map Lexeme.token = someProcedure) :
    ∃ s, Stmt (⟨.word "proc", p⟩ :: ⟨.word name, q⟩ :: us) s := by
  obtain ⟨r, vs, rfl, hvs⟩ := map_token_eq_cons h
  obtain ⟨t, ws, rfl, hws⟩ := map_token_eq_cons hvs
  obtain ⟨body, hbody⟩ := block_someBlock hws
  exact ⟨_, .procedure hname .none hbody⟩

theorem stmt_someElse {gs ys : List Lexeme} {p : Position} {guard : Expr} {yes : Statement}
    (hguard : Condition gs guard) (hyes : Block ys yes) (h : us.map Lexeme.token = someElse) :
    ∃ s, Stmt (⟨.word "if", p⟩ :: (gs ++ (ys ++ us))) s := by
  obtain ⟨q, vs, rfl, hvs⟩ := map_token_eq_cons h
  obtain ⟨no, hno⟩ := block_someBlock hvs
  exact ⟨_, .choice hguard hyes hno⟩

theorem statement_resumed (ih : ∀ us, us.length < ts.length → StatementsResumed us)
    (h : Fails (statement ts) e) : Resumes Stmt ts e := by
  cases fails_statement_iff.mp h with
  | @procedure_name k us e hk hname =>
    obtain ⟨t, p⟩ := k
    cases hk
    obtain ⟨-, rfl⟩ := fails_identifier_iff.mp hname
    refine .missing [_] (.word "x" :: someProcedure) rfl fun vs hvs => ?_
    obtain ⟨q, ws, rfl, hws⟩ := map_token_eq_cons hvs
    exact stmt_someProcedure (by decide) hws
  | @procedure_open k us vs name hk hname _ =>
    obtain ⟨t, p⟩ := k
    cases hk
    obtain ⟨_, rfl, q, rfl, hidentifier⟩ := parameter_derived hname
    exact .missing [_, _] someProcedure rfl fun vs hvs => stmt_someProcedure hidentifier hvs
  | @procedure_parameters k l us vs name e hk hname hl hparameters =>
    obtain ⟨t, p⟩ := k
    obtain ⟨tl, pl⟩ := l
    cases hk
    cases hl
    obtain ⟨_, rfl, q, rfl, hidentifier⟩ := parameter_derived hname
    refine (parameters_resumed hparameters).wrap [_, _, _] someBlock rfl ?_
    rintro _ bs names ⟨ps, t, rfl, hps⟩ hbs
    obtain ⟨body, hbody⟩ := block_someBlock hbs
    exact ⟨_, by simpa using Stmt.procedure hidentifier hps hbody⟩
  | @procedure_body k l us vs ws name names e hk hname hl hparameters hbody =>
    have hws := length_behind_parameters (k := k) hname hparameters
    obtain ⟨t, p⟩ := k
    obtain ⟨tl, pl⟩ := l
    cases hk
    cases hl
    obtain ⟨_, rfl, q, rfl, hidentifier⟩ := parameter_derived hname
    obtain ⟨ps, ⟨t', p'⟩, rfl, hl', hps⟩ := parameters_derived hparameters
    cases hl'
    refine ((ih ws hws).block e hbody).behind (_ :: _ :: _ :: ps) fun bs body hbs => ?_
    exact ⟨_, .procedure hidentifier hps hbs⟩
  | @choice_guard k us e hk hguard =>
    obtain ⟨t, p⟩ := k
    cases hk
    refine (condition_resumed hguard).wrap [_] (someBlock ++ someElse) rfl ?_
    intro gs vs guard hgs hvs
    obtain ⟨ys, ns, rfl, hys, hns⟩ := List.map_eq_append_iff.mp hvs
    obtain ⟨yes, hyes⟩ := block_someBlock hys
    simpa using stmt_someElse (p := p) hgs hyes hns
  | @choice_yes k us vs guard e hk hguard hyes =>
    have hvs : vs.length < (k :: us).length := Nat.lt_succ_of_lt hguard.shorter
    obtain ⟨t, p⟩ := k
    cases hk
    obtain ⟨gs, rfl, hgs⟩ := condition_derived hguard
    refine ((ih vs hvs).block e hyes).wrap (_ :: gs) someElse rfl ?_
    intro ys ns yes hys hns
    simpa using stmt_someElse (p := p) hgs hys hns
  | @choice_else k us vs ws guard yes hk hguard hyes _ =>
    obtain ⟨t, p⟩ := k
    cases hk
    obtain ⟨gs, rfl, hgs⟩ := condition_derived hguard
    obtain ⟨ys, rfl, hys⟩ := (statements_derived vs).block yes ws hyes
    have hresumes : Resumes Stmt (_ :: (gs ++ ys) ++ ws) ⟨.token (.word "else"), ws⟩ :=
      .missing _ someElse rfl fun ns hns => by simpa using stmt_someElse (p := p) hgs hys hns
    simpa using hresumes
  | @choice_no k l us vs ws guard yes e hk hguard hyes hl hno =>
    have hws := length_behind_block (k := k) hguard hyes
    obtain ⟨t, p⟩ := k
    obtain ⟨tl, pl⟩ := l
    cases hk
    cases hl
    obtain ⟨gs, rfl, hgs⟩ := condition_derived hguard
    obtain ⟨ys, rfl, hys⟩ := (statements_derived vs).block yes _ hyes
    have hresumes : Resumes Stmt (_ :: (gs ++ ys) ++ ⟨.word "else", pl⟩ :: ws) e :=
      ((ih ws hws).block e hno).behind (_ :: (gs ++ ys)) fun ns no hns =>
        ⟨_, by simpa using Stmt.choice (p := p) (q := pl) hgs hys hns⟩
    simpa using hresumes
  | @loop_guard k us e hk hguard =>
    obtain ⟨t, p⟩ := k
    cases hk
    refine (condition_resumed hguard).wrap [_] someBlock rfl ?_
    intro gs bs guard hgs hbs
    obtain ⟨body, hbody⟩ := block_someBlock hbs
    exact ⟨_, by simpa using Stmt.loop (p := p) hgs hbody⟩
  | @loop_body k us vs guard e hk hguard hbody =>
    have hvs : vs.length < (k :: us).length := Nat.lt_succ_of_lt hguard.shorter
    obtain ⟨t, p⟩ := k
    cases hk
    obtain ⟨gs, rfl, hgs⟩ := condition_derived hguard
    exact ((ih vs hvs).block e hbody).last (_ :: gs) fun bs body hbs =>
      ⟨_, by simpa using Stmt.loop (p := p) hgs hbs⟩
  | @print k us e hk hvalue =>
    obtain ⟨t, p⟩ := k
    cases hk
    exact (condition_resumed hvalue).last [_] fun us value hus => ⟨_, .print hus⟩
  | expression _ hvalue =>
    exact (condition_resumed hvalue).last [] fun us value hus => ⟨_, .expression hus⟩

theorem block_resumed (ih : ∀ us, us.length < ts.length → StatementsResumed us)
    (h : Fails (block ts) e) : Resumes Block ts e := by
  cases fails_block_iff.mp h with
  | start _ => exact .missing [] someBlock rfl fun vs => block_someBlock
  | @body l us e hl hbody =>
    obtain ⟨t, p⟩ := l
    cases hl
    refine ((ih us (by simp)).program e hbody).wrap [_] [.mark .rightBrace] rfl ?_
    intro ss vs s hss hvs
    obtain ⟨q, rfl⟩ := map_token_eq_singleton hvs
    exact ⟨s, .braces hss⟩
  | @close l us r s hl hbody _ =>
    obtain ⟨t, p⟩ := l
    cases hl
    obtain ⟨ss, rfl, hss⟩ := (statements_derived us).program s r hbody
    refine .missing (_ :: ss) [.mark .rightBrace] rfl fun vs hvs => ?_
    obtain ⟨q, rfl⟩ := map_token_eq_singleton hvs
    exact ⟨s, .braces hss⟩

theorem statements_resumed (ts : List Lexeme) : StatementsResumed ts := by
  induction hn : ts.length using Nat.strong_induction_on generalizing ts with
  | _ n ih =>
  have ih' (us : List Lexeme) (hus : us.length < ts.length) : StatementsResumed us :=
    ih us.length (by omega) us rfl
  have hstatement (e : Stuck) (h : Fails (statement ts) e) : Resumes Stmt ts e :=
    statement_resumed ih' h
  refine ⟨hstatement, fun e h => ?_, fun e h => block_resumed ih' h⟩
  rcases fails_program_iff.mp h with h | ⟨left, q, hleft, hbroken⟩
  · exact (hstatement e h).imp fun _ _ => .statement
  · obtain ⟨us, hts, hus⟩ := (statements_derived ts).statement left q hleft
    exact resumes_of_broken Stmt Program (fun _ _ _ _ _ _ => .join)
      (fun us _ => (statements_derived us).statement) (fun us hus => (ih' us hus).statement)
      hbroken ⟨us, hts, .statement hus⟩

/-- What is derived as a program is accepted. -/
theorem Program.accepted {s : Statement} (h : Program ts s) : ∃ s', parseLexemes ts = .ok s' := by
  have hclosed : Closed [] := trivial
  obtain ⟨s', hs'⟩ := h.yields hclosed fun left => ⟨left, .stop trivial⟩
  rw [List.append_nil] at hs'
  exact ⟨s', parseLexemes_eq_ok_iff.mpr hs'⟩

theorem resumes_of_parseLexemes {error : ParseError} (h : parseLexemes ts = .error error) :
    ∃ e, error = ((Cursor.ofLexemes ts).stuckAt e).1 ∧ Resumes Program ts e := by
  obtain ⟨e, herror, hfails | ⟨s, l, r, hyields, rfl⟩⟩ := parseLexemes_eq_error_iff.mp h
  · exact ⟨e, herror, (statements_resumed ts).program e hfails⟩
  · -- A whole program stands before the place, so nothing is missing there.
    obtain ⟨us, rfl, hus⟩ := (statements_derived ts).program s (l :: r) hyields
    refine ⟨_, herror, .missing us [] rfl fun vs hvs => ⟨s, ?_⟩⟩
    rwa [List.map_eq_nil_iff.mp hvs, List.append_nil]

end Grammar

/-! ### Errors of sources -/

/-- An error tells how many lexemes stand before its place. -/
theorem index_stuckAt {source : String} {before : List Lexeme} {e : Stuck}
    (h : tokenize source = before ++ e.rest) :
    ((Cursor.ofLexemes (tokenize source)).stuckAt e).1.position.index = before.length := by
  obtain ⟨expected, rest⟩ := e
  -- The end is numbered by the count of all lexemes, another place by its lexeme.
  cases rest with
  | nil =>
    rw [List.append_nil] at h
    rw [← h]
    rfl
  | cons l rest => exact index_of_tokenize h

/-- Before the place of an error stands what can be completed; at the end, that is the whole
source. -/
theorem completable_of_parse {source : String} {e : ParseError} (h : parse source = .error e) :
    Grammar.Completable Grammar.Program ((tokenize source).take e.position.index) ∧
      (e.isEndOfInput = true → (tokenize source).take e.position.index = tokenize source) := by
  obtain ⟨stuck, rfl, before, hsource, hbefore⟩ := Grammar.resumes_of_parseLexemes h
  have htake : (tokenize source).take before.length = before := by simp [hsource]
  rw [index_stuckAt hsource, htake]
  refine ⟨hbefore, fun hend => ?_⟩
  obtain ⟨expected, rest⟩ := stuck
  cases rest with
  | nil => rw [hsource, List.append_nil]
  | cons l rest => cases hend

/-- An error before some lexeme remains whatever is written behind the source. -/
theorem parse_append {source : String} {e : ParseError} (h : parse source = .error e)
    (hend : e.isEndOfInput = false) (text : String) :
    parse (source ++ " " ++ text) = .error e := by
  obtain ⟨us, hus⟩ := tokenize_append source text
  rw [parse, hus]
  exact parseLexemes_append h hend us

/-- An error at the end goes away with the right text behind the source. -/
theorem exists_parse_append {source : String} {e : ParseError} (h : parse source = .error e)
    (hend : e.isEndOfInput = true) : ∃ text p, parse (source ++ " " ++ text) = .ok p := by
  obtain ⟨⟨tokens, hspellable, hcomplete⟩, hall⟩ := completable_of_parse h
  obtain ⟨text, htext⟩ := Reads.exists_of_isSpellable hspellable
  obtain ⟨us, hus, htokens⟩ := tokenize_append_of_reads source htext
  obtain ⟨s, hs⟩ := hcomplete us htokens
  rw [hall hend, ← hus] at hs
  exact ⟨text, hs.accepted⟩

/-- Parsing fails at the first hopeless token.  What stands before the error can be completed to a
program; an error before a token remains whatever is written behind the source; and an error is at
the end exactly if some text behind the source makes it a program. -/
theorem parse_error_at_first_hopeless {source : String} {e : ParseError}
    (h : parse source = .error e) :
    (∃ tokens : List Token, ∀ us, us.map Lexeme.token = tokens →
      ∃ p, parseLexemes ((tokenize source).take e.position.index ++ us) = .ok p) ∧
    (e.isEndOfInput = false → ∀ text, parse (source ++ " " ++ text) = .error e) ∧
    (e.isEndOfInput = true ↔ ∃ text p, parse (source ++ " " ++ text) = .ok p) := by
  refine ⟨?_, parse_append h, exists_parse_append h, ?_⟩
  · obtain ⟨⟨tokens, -, hcomplete⟩, -⟩ := completable_of_parse h
    refine ⟨tokens, fun us hus => ?_⟩
    obtain ⟨s, hs⟩ := hcomplete us hus
    exact hs.accepted
  · rintro ⟨text, p, hp⟩
    rw [← Bool.not_eq_false]
    intro hend
    rw [parse_append h hend text] at hp
    cases hp

/-- An open call is incomplete; a choice with a semicolon for its `else` is hopeless, though it
could be completed up to there. -/
theorem open_call_incomplete_choice_hopeless :
    let call := "while x < f(1, 2"
    let choice := "if x { y } ; z"
    let atEnd : ParseError := ⟨.commaOr (.mark .rightParen), none, ⟨1, 8⟩⟩
    let atSemicolon : ParseError := ⟨.token (.word "else"), some (.mark .semicolon), ⟨1, 5⟩⟩
    (parse call = .error atEnd ∧ ∃ text p, parse (call ++ " " ++ text) = .ok p) ∧
    (parse choice = .error atSemicolon ∧
      (∃ tokens : List Token, ∀ us, us.map Lexeme.token = tokens →
        ∃ p, parseLexemes ((tokenize choice).take 5 ++ us) = .ok p) ∧
      ∀ text, parse (choice ++ " " ++ text) = .error atSemicolon) := by
  intro call choice atEnd atSemicolon
  have hcall : parse call = .error atEnd := by decide +kernel
  have hchoice : parse choice = .error atSemicolon := by decide +kernel
  obtain ⟨hcomplete, hremains, -⟩ := parse_error_at_first_hopeless hchoice
  exact ⟨⟨hcall, (parse_error_at_first_hopeless hcall).2.2.mp rfl⟩,
    hchoice, hcomplete, hremains rfl⟩

end Imperative
