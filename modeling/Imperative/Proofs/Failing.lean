import Imperative.Proofs.Parsing

/-! Where the parsers fail, as relations.  `Fails result e` says that a parser expected `e.expected`
before the lexemes `e.rest`.  Beside the lemma that says what a combinator or a parser yields stands
one that says exactly when it fails and how. -/

namespace Imperative.Parser

/-- A parser failed, with what it expected before the lexemes that were left. -/
def Fails {α : Type} {ts : List Lexeme} (result : Result α ts) (e : Stuck) : Prop :=
  result = .error e

section Results

variable {α β : Type} {ts us : List Lexeme}

@[simp] theorem fails_error_iff {e e' : Stuck} :
    Fails (.error e : Result α ts) e' ↔ e' = e := by
  constructor
  · intro h
    cases h
    rfl
  · rintro rfl
    rfl

@[simp] theorem not_fails_ok {p : Parsed α ts} {e : Stuck} : ¬Fails (.ok p : Result α ts) e := by
  intro h
  cases h

theorem Yields.not_fails {result : Result α us} {v : α} {r : List Lexeme} {e : Stuck}
    (h : Yields result v r) : ¬Fails result e := by
  obtain ⟨_, rfl⟩ := h
  exact not_fails_ok

theorem fails_bind_iff {first : Result α ts} {next : Parsed α ts → Result β us} {e : Stuck} :
    Fails (first >>= next) e ↔ Fails first e ∨
      ∃ w rest, ∃ h : rest.length < ts.length,
        Yields first w rest ∧ Fails (next ⟨w, rest, h⟩) e := by
  cases first with
  | error e' =>
    have hbind : ((.error e' : Result α ts) >>= next) = .error e' := rfl
    simp [hbind]
  | ok p =>
    obtain ⟨w, rest, h⟩ := p
    have hbind : ((.ok ⟨w, rest, h⟩ : Result α ts) >>= next) = next ⟨w, rest, h⟩ := rfl
    rw [hbind]
    simp only [not_fails_ok, false_or, yields_ok_iff]
    constructor
    · exact fun hnext => ⟨w, rest, h, ⟨rfl, rfl⟩, hnext⟩
    · rintro ⟨w', rest', h', ⟨rfl, rfl⟩, hnext⟩
      exact hnext

theorem Fails.bind {first : Result α ts} {next : Parsed α ts → Result β us} {e : Stuck}
    (h : Fails first e) : Fails (first >>= next) e :=
  fails_bind_iff.mpr (.inl h)

theorem Yields.bind_fails {first : Result α ts} {next : Parsed α ts → Result β us} {w : α}
    {rest : List Lexeme} {e : Stuck} (h : Yields first w rest)
    (hnext : Fails (next ⟨w, rest, h.shorter⟩) e) : Fails (first >>= next) e :=
  fails_bind_iff.mpr (.inr ⟨w, rest, h.shorter, h, hnext⟩)

end Results

/-! ### Single lexemes -/

/-- The next lexeme, if there is one, has no token of this kind. -/
def Lacks (kind : Token → Prop) : List Lexeme → Prop
  | [] => True
  | l :: _ => ¬kind l.token

/-- A word that is an identifier. -/
def IsName (t : Token) : Prop := ∃ s, t = .word s ∧ Word.isIdentifier s = true

variable {ts : List Lexeme} {e : Stuck}

theorem fails_consume_iff {expected : Expected} {t : Token} :
    Fails (consume expected t ts) e ↔ Lacks (· = t) ts ∧ e = ⟨expected, ts⟩ := by
  cases ts with
  | nil => simp [consume, Lacks]
  | cons l rest =>
    rw [consume]
    split
    · next hl => simp [Lacks, hl]
    · next hl => simp [Lacks, hl]

theorem fails_expect_iff {t : Token} :
    Fails (expect t ts) e ↔ Lacks (· = t) ts ∧ e = ⟨.token t, ts⟩ := fails_consume_iff

theorem yields_expect {l : Lexeme} {t : Token} (hl : l.token = t) (r : List Lexeme) :
    Yields (expect t (l :: r)) () r := yields_expect_iff.mpr ⟨l, rfl, hl⟩

theorem fails_expect {t : Token} (h : Lacks (· = t) ts) : Fails (expect t ts) ⟨.token t, ts⟩ :=
  fails_expect_iff.mpr ⟨h, rfl⟩

theorem fails_identifier_iff :
    Fails (identifier ts) e ↔ Lacks IsName ts ∧ e = ⟨.identifier, ts⟩ := by
  unfold identifier
  split
  · next s p rest =>
    split
    · next hs => simp [Lacks, IsName, hs]
    · next hs => simp [Lacks, IsName, hs]
  · next hne =>
    rw [fails_error_iff, iff_and_self]
    rintro -
    cases ts with
    | nil => trivial
    | cons l rest =>
      rintro ⟨s, hl, -⟩
      obtain ⟨t, p⟩ := l
      cases hl
      exact hne s p rest rfl

/-! ### Pairs, chains and lists -/

variable {α : Type} {link : Token → Option (α → α → α)}

theorem fails_pair_iff {first : Result α ts} {second : Parser α} :
    Fails (pair first (fun r _ => second r) link) e ↔ Fails first e ∨
      ∃ left l rest join, Yields first left (l :: rest) ∧ link l.token = some join ∧
        Fails (second rest) e := by
  cases first with
  | error e' => simp [pair]
  | ok p =>
    obtain ⟨left, q, hq⟩ := p
    cases q with
    | nil => simp [pair]
    | cons l rest =>
      simp only [not_fails_ok, false_or, yields_ok_iff]
      cases hlink : link l.token with
      | none =>
        simp only [pair, hlink, not_fails_ok, false_iff]
        rintro ⟨_, _, _, _, ⟨-, heq⟩, hlink', -⟩
        cases heq
        rw [hlink] at hlink'
        cases hlink'
      | some join =>
        have hpair : Fails (pair (.ok ⟨left, l :: rest, hq⟩) (fun r _ => second r) link) e ↔
            Fails (second rest) e := by
          cases hsecond : second rest with
          | error e' => simp [pair, hlink, hsecond]
          | ok p => simp [pair, hlink, hsecond]
        rw [hpair]
        constructor
        · exact fun h => ⟨left, l, rest, join, ⟨rfl, rfl⟩, hlink, h⟩
        · rintro ⟨_, _, _, _, ⟨-, heq⟩, -, h⟩
          cases heq
          exact h

/-- A chain that breaks: linking tokens and items in turn, until an item fails. -/
inductive Broken (item : Parser α) (link : Token → Option (α → α → α)) :
    List Lexeme → Stuck → Prop
  | item {l : Lexeme} {rest : List Lexeme} {e : Stuck} {join : α → α → α} :
      link l.token = some join → Fails (item rest) e → Broken item link (l :: rest) e
  | step {l : Lexeme} {rest rest' : List Lexeme} {e : Stuck} {join : α → α → α} {right : α} :
      link l.token = some join → Yields (item rest) right rest' → Broken item link rest' e →
      Broken item link (l :: rest) e

theorem fails_chainFrom_iff {item : Parser α} {left : α} {q : List Lexeme}
    {h : q.length < ts.length} :
    Fails (chainFrom (fun r _ => item r) link left q h) e ↔ Broken item link q e := by
  fun_induction chainFrom (fun r _ => item r) link left q h with
  | case1 left h =>
    simp only [not_fails_ok, false_iff]
    intro hbroken
    cases hbroken
  | case2 left l rest h hnone =>
    simp only [not_fails_ok, false_iff]
    intro hbroken
    cases hbroken with
    | item hlink _ => simp [hnone] at hlink
    | step hlink _ _ => simp [hnone] at hlink
  | case3 left l rest h join hlink e' _ shorter herror =>
    rw [fails_error_iff]
    constructor
    · rintro rfl
      exact .item hlink herror
    · intro hbroken
      cases hbroken with
      | item _ hfails => simpa [herror] using hfails
      | step _ hyields _ => simp [herror] at hyields
  | case4 left l rest h join hlink right rest' h' _ shorter hok ih =>
    rw [ih]
    constructor
    · exact .step hlink (by rw [hok]; exact yields_ok_iff.mpr ⟨rfl, rfl⟩)
    · intro hbroken
      cases hbroken with
      | item _ hfails => simp [hok] at hfails
      | step _ hyields hrest =>
        rw [hok, yields_ok_iff] at hyields
        obtain ⟨-, rfl⟩ := hyields
        exact hrest

theorem fails_chain_iff {first : Result α ts} {item : Parser α} :
    Fails (chain first (fun r _ => item r) link) e ↔
      Fails first e ∨ ∃ left q, Yields first left q ∧ Broken item link q e := by
  cases first with
  | error e' => simp [chain]
  | ok p =>
    obtain ⟨left, q, hq⟩ := p
    simp only [chain, fails_chainFrom_iff, not_fails_ok, false_or, yields_ok_iff]
    constructor
    · exact fun h => ⟨left, q, ⟨rfl, rfl⟩, h⟩
    · rintro ⟨_, _, ⟨-, rfl⟩, h⟩
      exact h

/-- A list that breaks: an item fails, or something else than a comma or the closing token follows
one. -/
inductive ListBroken (item : Parser α) (closing : Token) : List Lexeme → Stuck → Prop
  | item {q : List Lexeme} {e : Stuck} : Fails (item q) e → ListBroken item closing q e
  | stop {q r : List Lexeme} {x : α} : Yields (item q) x r →
      Lacks (fun t => t = .mark .comma ∨ t = closing) r →
      ListBroken item closing q ⟨.commaOr closing, r⟩
  | more {q rest : List Lexeme} {x : α} {l : Lexeme} {e : Stuck} : Yields (item q) x (l :: rest) →
      l.token = .mark .comma → ListBroken item closing rest e → ListBroken item closing q e

/-- Where a list breaks, by what its first item leaves. -/
theorem ListBroken.of_yields {item : Parser α} {closing : Token} {q r : List Lexeme} {x : α}
    (hx : Yields (item q) x r) (h : ListBroken item closing q e) :
    (Lacks (fun t => t = .mark .comma ∨ t = closing) r ∧ e = ⟨.commaOr closing, r⟩) ∨
      ∃ l rest, r = l :: rest ∧ l.token = .mark .comma ∧ ListBroken item closing rest e := by
  cases h with
  | item hfails =>
    obtain ⟨_, hx⟩ := hx
    rw [hx] at hfails
    cases hfails
  | stop hx' hlacks =>
    obtain ⟨-, rfl⟩ := hx.unique hx'
    exact .inl ⟨hlacks, rfl⟩
  | more hx' hcomma hrest =>
    obtain ⟨-, rfl⟩ := hx.unique hx'
    exact .inr ⟨_, _, rfl, hcomma, hrest⟩

theorem fails_items_iff {item : Parser α} {closing : Token} {q : List Lexeme}
    {h : q.length ≤ ts.length} :
    Fails (items (fun r _ => item r) closing q h) e ↔ ListBroken item closing q e := by
  fun_induction items (fun r _ => item r) closing q h with
  | case1 q h e' herror =>
    rw [fails_error_iff]
    constructor
    · rintro rfl
      exact .item herror
    · intro hbroken
      cases hbroken with
      | item hfails => simpa [herror] using hfails
      | stop hx _ => simp [herror] at hx
      | more hx _ _ => simp [herror] at hx
  | case2 q h x h' hok =>
    have hx : Yields (item q) x [] := ⟨h', hok⟩
    rw [fails_error_iff]
    constructor
    · rintro rfl
      exact .stop hx trivial
    · intro hbroken
      rcases hbroken.of_yields hx with ⟨-, he⟩ | ⟨_, _, hnil, -⟩
      · exact he
      · cases hnil
  | case3 q h x l rest h' hok shorter hcomma e' herror ih =>
    have hx : Yields (item q) x (l :: rest) := ⟨h', hok⟩
    rw [herror, fails_error_iff] at ih
    rw [fails_error_iff, ih]
    constructor
    · exact .more hx hcomma
    · intro hbroken
      rcases hbroken.of_yields hx with ⟨hlacks, -⟩ | ⟨_, _, heq, -, hrest⟩
      · exact absurd (.inl hcomma) hlacks
      · cases heq
        exact hrest
  | case4 q h x l rest h' hok shorter hcomma ys rest' h'' hrest ih =>
    have hx : Yields (item q) x (l :: rest) := ⟨h', hok⟩
    rw [hrest] at ih
    simp only [not_fails_ok, false_iff] at ih ⊢
    intro hbroken
    rcases hbroken.of_yields hx with ⟨hlacks, -⟩ | ⟨_, _, heq, -, hrest⟩
    · exact hlacks (.inl hcomma)
    · cases heq
      exact ih hrest
  | case5 q h x l rest h' hok shorter hcomma hclosing =>
    have hx : Yields (item q) x (l :: rest) := ⟨h', hok⟩
    simp only [not_fails_ok, false_iff]
    intro hbroken
    rcases hbroken.of_yields hx with ⟨hlacks, -⟩ | ⟨_, _, heq, hcomma', -⟩
    · exact hlacks (.inr hclosing)
    · cases heq
      exact hcomma hcomma'
  | case6 q h x l rest h' hok shorter hcomma hclosing =>
    have hx : Yields (item q) x (l :: rest) := ⟨h', hok⟩
    rw [fails_error_iff]
    constructor
    · rintro rfl
      exact .stop hx (not_or.mpr ⟨hcomma, hclosing⟩)
    · intro hbroken
      rcases hbroken.of_yields hx with ⟨-, he⟩ | ⟨_, _, heq, hcomma', -⟩
      · exact he
      · cases heq
        exact absurd hcomma' hcomma

theorem fails_commaSeparated_iff {item : Parser α} {closing : Token} :
    Fails (commaSeparated closing ts fun r _ => item r) e ↔
      Lacks (· = closing) ts ∧ ListBroken item closing ts e := by
  cases ts with
  | nil => rw [commaSeparated, fails_items_iff]; simp [Lacks]
  | cons l rest =>
    rw [commaSeparated]
    split
    · next hclosing => simp [Lacks, hclosing]
    · next hclosing =>
      rw [fails_items_iff]
      simp [Lacks, hclosing]

/-! ### Expressions -/

theorem fails_condition_iff : Fails (condition ts) e ↔ Fails (additive ts) e ∨
    ∃ left l rest join, Yields (additive ts) left (l :: rest) ∧
      joins comparisons l.token = some join ∧ Fails (additive rest) e := by
  rw [condition, fails_pair_iff]

theorem fails_additive_iff : Fails (additive ts) e ↔ Fails (multiplicative ts) e ∨
    ∃ left q, Yields (multiplicative ts) left q ∧ Broken multiplicative (joins sums) q e := by
  rw [additive, fails_chain_iff]

theorem fails_multiplicative_iff : Fails (multiplicative ts) e ↔ Fails (power ts) e ∨
    ∃ left q, Yields (power ts) left q ∧ Broken power (joins products) q e := by
  rw [multiplicative, fails_chain_iff]

theorem fails_power_iff : Fails (power ts) e ↔ Fails (primary ts) e ∨
    ∃ left l rest join, Yields (primary ts) left (l :: rest) ∧
      joins powers l.token = some join ∧ Fails (power rest) e := by
  rw [power, fails_pair_iff]

/-- Where a primary fails, by its first lexemes. -/
inductive PrimaryFails : List Lexeme → Stuck → Prop
  | start {ts : List Lexeme} : Lacks StartsExpression ts → PrimaryFails ts ⟨.expression, ts⟩
  | group {l : Lexeme} {us : List Lexeme} {e : Stuck} : l.token = .mark .leftParen →
      Fails (condition us) e → PrimaryFails (l :: us) e
  | group_close {l : Lexeme} {us r : List Lexeme} {inner : Expr} : l.token = .mark .leftParen →
      Yields (condition us) inner r → Lacks (· = .mark .rightParen) r →
      PrimaryFails (l :: us) ⟨.token (.mark .rightParen), r⟩
  | assign {l c : Lexeme} {us : List Lexeme} {s : String} : l.token = .word s →
      Word.isIdentifier s = true → c.token = .mark .colon → Lacks (· = .mark .equal) us →
      PrimaryFails (l :: c :: us) ⟨.token (.mark .equal), us⟩
  | assign_value {l c q : Lexeme} {us : List Lexeme} {s : String} {e : Stuck} :
      l.token = .word s → Word.isIdentifier s = true → c.token = .mark .colon →
      q.token = .mark .equal → Fails (condition us) e → PrimaryFails (l :: c :: q :: us) e
  | call {l p : Lexeme} {us : List Lexeme} {s : String} {e : Stuck} : l.token = .word s →
      Word.isIdentifier s = true → p.token = .mark .leftParen →
      Fails (commaSeparated (.mark .rightParen) us fun r _ => condition r) e →
      PrimaryFails (l :: p :: us) e
  | literal {l : Lexeme} {r : List Lexeme} {s : String} : l.token = .word s →
      Word.isIdentifier s = false → Word.isNumeral s = true → Number.ofText? s = none →
      PrimaryFails (l :: r) ⟨.finiteNumber, l :: r⟩

theorem primaryFails_of_fails (h : Fails (primary ts) e) : PrimaryFails ts e := by
  rw [primary.eq_def] at h
  split at h
  · next p rest =>
    rcases fails_bind_iff.mp h with hinner | ⟨inner, rest₁, _, hinner, h⟩
    · exact .group rfl hinner
    rcases fails_bind_iff.mp h with hclose | ⟨_, _, _, _, h⟩
    · obtain ⟨hlacks, rfl⟩ := fails_expect_iff.mp hclose
      exact .group_close rfl hinner hlacks
    · exact absurd h not_fails_ok
  · next s p rest =>
    split at h
    · next hs =>
      split at h
      · next pc rest =>
        rcases fails_bind_iff.mp h with hequal | ⟨_, rest₁, _, hequal, h⟩
        · obtain ⟨hlacks, rfl⟩ := fails_expect_iff.mp hequal
          exact .assign rfl hs rfl hlacks
        obtain ⟨q, rfl, hq⟩ := yields_expect_iff.mp hequal
        rcases fails_bind_iff.mp h with hvalue | ⟨_, _, _, _, h⟩
        · exact .assign_value rfl hs rfl hq hvalue
        · exact absurd h not_fails_ok
      · next pp rest =>
        rcases fails_bind_iff.mp h with harguments | ⟨_, _, _, _, h⟩
        · exact .call rfl hs rfl harguments
        · exact absurd h not_fails_ok
      · exact absurd h not_fails_ok
    · next hs =>
      split at h
      · next hnumeral =>
        split at h
        · exact absurd h not_fails_ok
        · next hx =>
          rw [fails_error_iff.mp h]
          exact .literal rfl (by simpa using hs) hnumeral hx
      · next hnumeral =>
        rw [fails_error_iff.mp h]
        refine .start ?_
        rintro (hparen | ⟨_, hword, hstarts⟩)
        · cases hparen
        · cases hword
          exact hstarts.elim hs hnumeral
  · next hparen hword =>
    rw [fails_error_iff.mp h]
    refine .start ?_
    cases ts with
    | nil => trivial
    | cons l rest =>
      obtain ⟨t, p⟩ := l
      rintro (ht | ⟨s, ht, -⟩)
      · cases ht
        exact hparen p rest rfl
      · cases ht
        exact hword s p rest rfl

theorem fails_of_primaryFails (h : PrimaryFails ts e) : Fails (primary ts) e := by
  rw [primary.eq_def]
  cases h with
  | start hlacks =>
    split
    · exact absurd (.inl rfl) hlacks
    · next s p rest =>
      have hs : ¬Word.isIdentifier s = true := fun hs => hlacks (.inr ⟨s, rfl, .inl hs⟩)
      have hnumeral : ¬Word.isNumeral s = true := fun hs => hlacks (.inr ⟨s, rfl, .inr hs⟩)
      simp [hs, hnumeral]
    · rfl
  | @group l us e hl hinner =>
    obtain ⟨t, p⟩ := l
    cases hl
    exact hinner.bind
  | @group_close l us r inner hl hinner hlacks =>
    obtain ⟨t, p⟩ := l
    cases hl
    refine hinner.bind_fails ?_
    exact (fails_expect hlacks).bind
  | @assign l c us s hl hs hc hlacks =>
    obtain ⟨tl, pl⟩ := l
    obtain ⟨tc, pc⟩ := c
    cases hl
    cases hc
    simp only [hs, if_true]
    exact (fails_expect hlacks).bind
  | @assign_value l c q us s e hl hs hc hq hvalue =>
    obtain ⟨tl, pl⟩ := l
    obtain ⟨tc, pc⟩ := c
    cases hl
    cases hc
    simp only [hs, if_true]
    refine (yields_expect hq us).bind_fails ?_
    exact hvalue.bind
  | @call l p us s e hl hs hp harguments =>
    obtain ⟨tl, pl⟩ := l
    obtain ⟨tp, pp⟩ := p
    cases hl
    cases hp
    simp only [hs, if_true]
    exact harguments.bind
  | @literal l r s hl hs hnumeral hx =>
    obtain ⟨tl, pl⟩ := l
    cases hl
    simp [hs, hnumeral, hx]

theorem fails_primary_iff : Fails (primary ts) e ↔ PrimaryFails ts e :=
  ⟨primaryFails_of_fails, fails_of_primaryFails⟩

/-! ### Statements -/

theorem fails_program_iff : Fails (program ts) e ↔ Fails (statement ts) e ∨
    ∃ left q, Yields (statement ts) left q ∧ Broken statement sequences q e := by
  rw [program, fails_chain_iff]

/-- Where a block fails. -/
inductive BlockFails : List Lexeme → Stuck → Prop
  | start {ts : List Lexeme} : Lacks (· = .mark .leftBrace) ts →
      BlockFails ts ⟨.token (.mark .leftBrace), ts⟩
  | body {l : Lexeme} {us : List Lexeme} {e : Stuck} : l.token = .mark .leftBrace →
      Fails (program us) e → BlockFails (l :: us) e
  | close {l : Lexeme} {us r : List Lexeme} {s : Statement} : l.token = .mark .leftBrace →
      Yields (program us) s r → Lacks (· = .mark .rightBrace) r →
      BlockFails (l :: us) ⟨.separatorOrBrace, r⟩

theorem fails_block_iff : Fails (block ts) e ↔ BlockFails ts e := by
  rw [block]
  constructor
  · intro h
    rcases fails_bind_iff.mp h with hopen | ⟨_, us, _, hopen, h⟩
    · obtain ⟨hlacks, rfl⟩ := fails_expect_iff.mp hopen
      exact .start hlacks
    obtain ⟨l, rfl, hl⟩ := yields_expect_iff.mp hopen
    rcases fails_bind_iff.mp h with hbody | ⟨s, r, _, hbody, h⟩
    · exact .body hl hbody
    rcases fails_bind_iff.mp h with hclose | ⟨_, _, _, _, h⟩
    · obtain ⟨hlacks, rfl⟩ := fails_consume_iff.mp hclose
      exact .close hl hbody hlacks
    · exact absurd h not_fails_ok
  · intro h
    cases h with
    | start hlacks => exact (fails_expect hlacks).bind
    | @body l us e hl hbody =>
      refine (yields_expect hl us).bind_fails ?_
      exact hbody.bind
    | @close l us r s hl hbody hlacks =>
      refine (yields_expect hl us).bind_fails ?_
      refine hbody.bind_fails ?_
      exact (fails_consume_iff.mpr ⟨hlacks, rfl⟩).bind

/-- A keyword that begins a statement. -/
def StartsStatement (t : Token) : Prop :=
  t = .word "proc" ∨ t = .word "if" ∨ t = .word "while" ∨ t = .word "print"

/-- Where a statement fails, by its first lexeme. -/
inductive StatementFails : List Lexeme → Stuck → Prop
  | procedure_name {k : Lexeme} {us : List Lexeme} {e : Stuck} : k.token = .word "proc" →
      Fails (identifier us) e → StatementFails (k :: us) e
  | procedure_open {k : Lexeme} {us vs : List Lexeme} {name : String} : k.token = .word "proc" →
      Yields (identifier us) name vs → Lacks (· = .mark .leftParen) vs →
      StatementFails (k :: us) ⟨.token (.mark .leftParen), vs⟩
  | procedure_parameters {k l : Lexeme} {us vs : List Lexeme} {name : String} {e : Stuck} :
      k.token = .word "proc" → Yields (identifier us) name (l :: vs) →
      l.token = .mark .leftParen →
      Fails (commaSeparated (.mark .rightParen) vs fun r _ => identifier r) e →
      StatementFails (k :: us) e
  | procedure_body {k l : Lexeme} {us vs ws : List Lexeme} {name : String} {ps : List String}
      {e : Stuck} : k.token = .word "proc" → Yields (identifier us) name (l :: vs) →
      l.token = .mark .leftParen →
      Yields (commaSeparated (.mark .rightParen) vs fun r _ => identifier r) ps ws →
      Fails (block ws) e → StatementFails (k :: us) e
  | choice_guard {k : Lexeme} {us : List Lexeme} {e : Stuck} : k.token = .word "if" →
      Fails (condition us) e → StatementFails (k :: us) e
  | choice_yes {k : Lexeme} {us vs : List Lexeme} {guard : Expr} {e : Stuck} :
      k.token = .word "if" → Yields (condition us) guard vs → Fails (block vs) e →
      StatementFails (k :: us) e
  | choice_else {k : Lexeme} {us vs ws : List Lexeme} {guard : Expr} {yes : Statement} :
      k.token = .word "if" → Yields (condition us) guard vs → Yields (block vs) yes ws →
      Lacks (· = .word "else") ws → StatementFails (k :: us) ⟨.token (.word "else"), ws⟩
  | choice_no {k l : Lexeme} {us vs ws : List Lexeme} {guard : Expr} {yes : Statement}
      {e : Stuck} : k.token = .word "if" → Yields (condition us) guard vs →
      Yields (block vs) yes (l :: ws) → l.token = .word "else" → Fails (block ws) e →
      StatementFails (k :: us) e
  | loop_guard {k : Lexeme} {us : List Lexeme} {e : Stuck} : k.token = .word "while" →
      Fails (condition us) e → StatementFails (k :: us) e
  | loop_body {k : Lexeme} {us vs : List Lexeme} {guard : Expr} {e : Stuck} :
      k.token = .word "while" → Yields (condition us) guard vs → Fails (block vs) e →
      StatementFails (k :: us) e
  | print {k : Lexeme} {us : List Lexeme} {e : Stuck} : k.token = .word "print" →
      Fails (condition us) e → StatementFails (k :: us) e
  | expression {ts : List Lexeme} {e : Stuck} : Lacks StartsStatement ts →
      Fails (condition ts) e → StatementFails ts e

theorem statementFails_of_fails (h : Fails (statement ts) e) : StatementFails ts e := by
  rw [statement.eq_def] at h
  split at h
  · next p rest =>
    rcases fails_bind_iff.mp h with hname | ⟨name, rest₁, _, hname, h⟩
    · exact .procedure_name rfl hname
    rcases fails_bind_iff.mp h with hopen | ⟨_, rest₂, _, hopen, h⟩
    · obtain ⟨hlacks, rfl⟩ := fails_expect_iff.mp hopen
      exact .procedure_open rfl hname hlacks
    obtain ⟨l, rfl, hl⟩ := yields_expect_iff.mp hopen
    rcases fails_bind_iff.mp h with hparameters | ⟨ps, rest₃, _, hparameters, h⟩
    · exact .procedure_parameters rfl hname hl hparameters
    rcases fails_bind_iff.mp h with hbody | ⟨_, _, _, _, h⟩
    · exact .procedure_body rfl hname hl hparameters hbody
    · exact absurd h not_fails_ok
  · next p rest =>
    rcases fails_bind_iff.mp h with hguard | ⟨guard, rest₁, _, hguard, h⟩
    · exact .choice_guard rfl hguard
    rcases fails_bind_iff.mp h with hyes | ⟨yes, rest₂, _, hyes, h⟩
    · exact .choice_yes rfl hguard hyes
    rcases fails_bind_iff.mp h with helse | ⟨_, rest₃, _, helse, h⟩
    · obtain ⟨hlacks, rfl⟩ := fails_expect_iff.mp helse
      exact .choice_else rfl hguard hyes hlacks
    obtain ⟨l, rfl, hl⟩ := yields_expect_iff.mp helse
    rcases fails_bind_iff.mp h with hno | ⟨_, _, _, _, h⟩
    · exact .choice_no rfl hguard hyes hl hno
    · exact absurd h not_fails_ok
  · next p rest =>
    rcases fails_bind_iff.mp h with hguard | ⟨guard, rest₁, _, hguard, h⟩
    · exact .loop_guard rfl hguard
    rcases fails_bind_iff.mp h with hbody | ⟨_, _, _, _, h⟩
    · exact .loop_body rfl hguard hbody
    · exact absurd h not_fails_ok
  · next p rest =>
    rcases fails_bind_iff.mp h with hvalue | ⟨_, _, _, _, h⟩
    · exact .print rfl hvalue
    · exact absurd h not_fails_ok
  · next hproc hif hwhile hprint =>
    rcases fails_bind_iff.mp h with hvalue | ⟨_, _, _, _, h⟩
    · refine .expression ?_ hvalue
      cases ts with
      | nil => trivial
      | cons l rest =>
        obtain ⟨t, p⟩ := l
        rintro (ht | ht | ht | ht) <;> cases ht
        · exact hproc p rest rfl
        · exact hif p rest rfl
        · exact hwhile p rest rfl
        · exact hprint p rest rfl
    · exact absurd h not_fails_ok

theorem fails_of_statementFails (h : StatementFails ts e) : Fails (statement ts) e := by
  rw [statement.eq_def]
  cases h with
  | @procedure_name k us e hk hname =>
    obtain ⟨t, p⟩ := k
    cases hk
    exact hname.bind
  | @procedure_open k us vs name hk hname hlacks =>
    obtain ⟨t, p⟩ := k
    cases hk
    refine hname.bind_fails ?_
    exact (fails_expect hlacks).bind
  | @procedure_parameters k l us vs name e hk hname hl hparameters =>
    obtain ⟨t, p⟩ := k
    cases hk
    refine hname.bind_fails ?_
    refine (yields_expect hl vs).bind_fails ?_
    exact hparameters.bind
  | @procedure_body k l us vs ws name ps e hk hname hl hparameters hbody =>
    obtain ⟨t, p⟩ := k
    cases hk
    refine hname.bind_fails ?_
    refine (yields_expect hl vs).bind_fails ?_
    refine hparameters.bind_fails ?_
    exact hbody.bind
  | @choice_guard k us e hk hguard =>
    obtain ⟨t, p⟩ := k
    cases hk
    exact hguard.bind
  | @choice_yes k us vs guard e hk hguard hyes =>
    obtain ⟨t, p⟩ := k
    cases hk
    refine hguard.bind_fails ?_
    exact hyes.bind
  | @choice_else k us vs ws guard yes hk hguard hyes hlacks =>
    obtain ⟨t, p⟩ := k
    cases hk
    refine hguard.bind_fails ?_
    refine hyes.bind_fails ?_
    exact (fails_expect hlacks).bind
  | @choice_no k l us vs ws guard yes e hk hguard hyes hl hno =>
    obtain ⟨t, p⟩ := k
    cases hk
    refine hguard.bind_fails ?_
    refine hyes.bind_fails ?_
    refine (yields_expect hl ws).bind_fails ?_
    exact hno.bind
  | @loop_guard k us e hk hguard =>
    obtain ⟨t, p⟩ := k
    cases hk
    exact hguard.bind
  | @loop_body k us vs guard e hk hguard hbody =>
    obtain ⟨t, p⟩ := k
    cases hk
    refine hguard.bind_fails ?_
    exact hbody.bind
  | @print k us e hk hvalue =>
    obtain ⟨t, p⟩ := k
    cases hk
    exact hvalue.bind
  | expression hlacks hvalue =>
    split
    · exact absurd (.inl rfl) hlacks
    · exact absurd (.inr (.inl rfl)) hlacks
    · exact absurd (.inr (.inr (.inl rfl))) hlacks
    · exact absurd (.inr (.inr (.inr rfl))) hlacks
    · exact hvalue.bind

theorem fails_statement_iff : Fails (statement ts) e ↔ StatementFails ts e :=
  ⟨statementFails_of_fails, fails_of_statementFails⟩

end Imperative.Parser

namespace Imperative

/-- Lexemes are no program if a statement fails, or if one ends before something else than a
semicolon. -/
theorem parseLexemes_eq_error_iff {ts : List Lexeme} {error : ParseError} :
    parseLexemes ts = .error error ↔ ∃ e, error = ((Cursor.ofLexemes ts).stuckAt e).1 ∧
      (Parser.Fails (Parser.program ts) e ∨ ∃ s l r,
        Parser.Yields (Parser.program ts) s (l :: r) ∧ e = ⟨.separatorOrEnd, l :: r⟩) := by
  unfold parseLexemes Parser.wholeProgram
  cases h : Parser.program ts with
  | error e => simp [eq_comm]
  | ok p =>
    obtain ⟨s, rest, hrest⟩ := p
    cases rest with
    | nil => simp
    | cons l rest =>
      simp only [Except.error.injEq, Parser.not_fails_ok, false_or, Parser.yields_ok_iff]
      constructor
      · rintro rfl
        exact ⟨_, rfl, s, l, rest, ⟨rfl, rfl⟩, rfl⟩
      · rintro ⟨_, rfl, _, _, _, ⟨-, heq⟩, rfl⟩
        cases heq
        rfl

end Imperative
