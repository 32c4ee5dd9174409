import Imperative.Cursor

/-! What the parsers yield, as relations.  `Yields result v rest` says that a parser made `v` of the
beginning of its lexemes and left `rest`.  Each combinator and each parser has one lemma that says
exactly when it yields what, so that later proofs unfold none of them. -/

namespace Imperative.Parser

/-- A parser made `v` of the beginning of its lexemes and left `rest`. -/
def Yields {α : Type} {ts : List Lexeme} (result : Result α ts) (v : α)
    (rest : List Lexeme) : Prop :=
  ∃ h, result = .ok ⟨v, rest, h⟩

section Results

variable {α β : Type} {ts us : List Lexeme}

theorem Yields.shorter {result : Result α ts} {v : α} {rest : List Lexeme}
    (h : Yields result v rest) : rest.length < ts.length := h.1

/-- A parser yields one thing only. -/
theorem Yields.unique {result : Result α ts} {v w : α} {r q : List Lexeme} (h : Yields result v r)
    (h' : Yields result w q) : v = w ∧ r = q := by
  obtain ⟨_, h⟩ := h
  obtain ⟨_, h'⟩ := h'
  rw [h] at h'
  cases h'
  exact ⟨rfl, rfl⟩

@[simp] theorem yields_ok_iff {v w : α} {rest r : List Lexeme} {h : rest.length < ts.length} :
    Yields (.ok ⟨v, rest, h⟩ : Result α ts) w r ↔ v = w ∧ rest = r := by
  constructor
  · rintro ⟨_, heq⟩
    cases heq
    exact ⟨rfl, rfl⟩
  · rintro ⟨rfl, rfl⟩
    exact ⟨h, rfl⟩

@[simp] theorem not_yields_error {e : Stuck} {v : α} {r : List Lexeme} :
    ¬Yields (.error e : Result α ts) v r := by
  rintro ⟨_, heq⟩
  cases heq

theorem yields_bind_iff {first : Result α ts} {next : Parsed α ts → Result β us} {v : β}
    {r : List Lexeme} : Yields (first >>= next) v r ↔
      ∃ w rest, ∃ h : rest.length < ts.length,
        Yields first w rest ∧ Yields (next ⟨w, rest, h⟩) v r := by
  constructor
  · intro h
    cases first with
    | error e => exact absurd h not_yields_error
    | ok p => exact ⟨p.value, p.rest, p.shorter, ⟨p.shorter, rfl⟩, h⟩
  · rintro ⟨w, rest, h, ⟨h', rfl⟩, hnext⟩
    exact hnext

end Results

/-! ### Single lexemes -/

theorem yields_consume_iff {expected : Expected} {t : Token} {ts r : List Lexeme} {u : Unit} :
    Yields (consume expected t ts) u r ↔ ∃ l, ts = l :: r ∧ l.token = t := by
  cases ts with
  | nil => simp [consume]
  | cons l rest =>
    rw [consume]
    split
    · next hl =>
      rw [yields_ok_iff]
      constructor
      · rintro ⟨-, rfl⟩
        exact ⟨l, rfl, hl⟩
      · rintro ⟨l', heq, -⟩
        cases heq
        exact ⟨rfl, rfl⟩
    · next hl =>
      simp only [not_yields_error, false_iff]
      rintro ⟨l', heq, hl'⟩
      cases heq
      exact hl hl'

theorem yields_expect_iff {t : Token} {ts r : List Lexeme} {u : Unit} :
    Yields (expect t ts) u r ↔ ∃ l, ts = l :: r ∧ l.token = t := yields_consume_iff

theorem yields_identifier_iff {ts r : List Lexeme} {s : String} : Yields (identifier ts) s r ↔
    ∃ l, ts = l :: r ∧ l.token = .word s ∧ Word.isIdentifier s = true := by
  unfold identifier
  split
  · next s' p rest =>
    split
    · next hs =>
      simp only [yields_ok_iff, List.cons.injEq]
      constructor
      · rintro ⟨rfl, rfl⟩
        exact ⟨_, ⟨rfl, rfl⟩, rfl, hs⟩
      · rintro ⟨l, ⟨rfl, rfl⟩, hl, -⟩
        exact ⟨Token.word.inj hl, rfl⟩
    · next hs =>
      simp only [not_yields_error, List.cons.injEq, false_iff]
      rintro ⟨l, ⟨rfl, rfl⟩, hl, hs'⟩
      cases hl
      exact hs hs'
  · next hne =>
    simp only [not_yields_error, false_iff]
    rintro ⟨⟨t, p⟩, rfl, hl, -⟩
    cases hl
    exact hne s p r rfl

/-! ### Pairs and chains -/

/-- Nothing stands before `r` that links two items. -/
def Stops {β : Type} (link : Token → Option β) : List Lexeme → Prop
  | [] => True
  | l :: _ => link l.token = none

variable {α : Type} {ts : List Lexeme} {link : Token → Option (α → α → α)}

theorem yields_pair_iff {first : Result α ts} {second : Parser α} {v : α} {r : List Lexeme} :
    Yields (pair first (fun r _ => second r) link) v r ↔
      (Yields first v r ∧ Stops link r) ∨
      ∃ left l rest join right, Yields first left (l :: rest) ∧ link l.token = some join ∧
        Yields (second rest) right r ∧ join left right = v := by
  cases first with
  | error e => simp [pair]
  | ok p =>
    obtain ⟨left, q, hq⟩ := p
    cases q with
    | nil =>
      simp only [pair, yields_ok_iff]
      constructor
      · rintro ⟨rfl, rfl⟩
        exact .inl ⟨⟨rfl, rfl⟩, trivial⟩
      · rintro (⟨h, -⟩ | ⟨_, _, _, _, _, ⟨-, h⟩, -⟩)
        · exact h
        · cases h
    | cons l rest =>
      cases hlink : link l.token with
      | none =>
        simp only [pair, hlink, yields_ok_iff]
        constructor
        · rintro ⟨rfl, rfl⟩
          exact .inl ⟨⟨rfl, rfl⟩, hlink⟩
        · rintro (⟨h, -⟩ | ⟨_, _, _, _, _, ⟨-, h⟩, h', -⟩)
          · exact h
          · cases h
            rw [hlink] at h'
            cases h'
      | some join =>
        have hstop : ¬Stops link (l :: rest) := by simp [Stops, hlink]
        have hpair : Yields (pair (.ok ⟨left, l :: rest, hq⟩) (fun r _ => second r) link) v r ↔
            ∃ right, Yields (second rest) right r ∧ join left right = v := by
          cases hsecond : second rest with
          | error e => simp [pair, hlink, hsecond]
          | ok p =>
            obtain ⟨right, rest', h'⟩ := p
            simp only [pair, hlink, hsecond, yields_ok_iff]
            constructor
            · rintro ⟨hv, hr⟩
              exact ⟨right, ⟨rfl, hr⟩, hv⟩
            · rintro ⟨_, ⟨rfl, hr⟩, hv⟩
              exact ⟨hv, hr⟩
        rw [hpair]
        simp only [yields_ok_iff]
        constructor
        · rintro ⟨right, hright, hv⟩
          exact .inr ⟨left, l, rest, join, right, ⟨rfl, rfl⟩, hlink, hright, hv⟩
        · rintro (⟨⟨-, rfl⟩, h⟩ | ⟨_, _, _, _, right, ⟨rfl, h⟩, h', hright, hv⟩)
          · exact absurd h hstop
          · cases h
            rw [hlink] at h'
            cases h'
            exact ⟨right, hright, hv⟩

/-- A chain continued from `left`: linking tokens and items in turn, until no linking token
follows. -/
inductive Chained (item : List Lexeme → α → List Lexeme → Prop)
    (link : Token → Option (α → α → α)) : α → List Lexeme → α → List Lexeme → Prop
  | stop {left : α} {r : List Lexeme} : Stops link r → Chained item link left r left r
  | step {left right v : α} {l : Lexeme} {rest rest' r : List Lexeme} {join : α → α → α} :
      link l.token = some join → item rest right rest' →
      Chained item link (join left right) rest' v r → Chained item link left (l :: rest) v r

theorem yields_chainFrom_iff {item : Parser α} {left v : α} {q r : List Lexeme}
    {h : q.length < ts.length} : Yields (chainFrom (fun r _ => item r) link left q h) v r ↔
      Chained (fun us w rest => Yields (item us) w rest) link left q v r := by
  fun_induction chainFrom (fun r _ => item r) link left q h with
  | case1 left h =>
    rw [yields_ok_iff]
    constructor
    · rintro ⟨rfl, rfl⟩
      exact .stop trivial
    · intro hchain
      cases hchain
      exact ⟨rfl, rfl⟩
  | case2 left l rest h hnone =>
    rw [yields_ok_iff]
    constructor
    · rintro ⟨rfl, rfl⟩
      exact .stop hnone
    · intro hchain
      cases hchain with
      | stop _ => exact ⟨rfl, rfl⟩
      | step hlink _ _ => simp [hnone] at hlink
  | case3 left l rest h join hlink e _ shorter herror =>
    simp only [not_yields_error, false_iff]
    intro hchain
    cases hchain with
    | stop hstop => simp [Stops, hlink] at hstop
    | step _ hitem _ => simp [herror] at hitem
  | case4 left l rest h join hlink right rest' h' _ shorter hok ih =>
    rw [ih]
    constructor
    · exact .step hlink (by rw [hok]; exact yields_ok_iff.mpr ⟨rfl, rfl⟩)
    · intro hchain
      cases hchain with
      | stop hstop => simp [Stops, hlink] at hstop
      | step hlink' hitem hrest =>
        rw [hlink] at hlink'
        cases hlink'
        rw [hok, yields_ok_iff] at hitem
        obtain ⟨rfl, rfl⟩ := hitem
        exact hrest

theorem yields_chain_iff {first : Result α ts} {item : Parser α} {v : α} {r : List Lexeme} :
    Yields (chain first (fun r _ => item r) link) v r ↔ ∃ left q, Yields first left q ∧
      Chained (fun us w rest => Yields (item us) w rest) link left q v r := by
  unfold chain
  split
  · simp
  · next left q h =>
    rw [yields_chainFrom_iff]
    constructor
    · exact fun hchain => ⟨left, q, yields_ok_iff.mpr ⟨rfl, rfl⟩, hchain⟩
    · rintro ⟨left', q', hfirst, hchain⟩
      rw [yields_ok_iff] at hfirst
      obtain ⟨rfl, rfl⟩ := hfirst
      exact hchain

/-! ### Lists -/

/-- Items with commas between them, and the closing token.  A comma counts as a comma also if it is
the closing token. -/
inductive Listed (item : List Lexeme → α → List Lexeme → Prop) (closing : Token) :
    List Lexeme → List α → List Lexeme → Prop
  | last {x : α} {l : Lexeme} {q r : List Lexeme} : item q x (l :: r) → l.token ≠ .mark .comma →
      l.token = closing → Listed item closing q [x] r
  | more {x : α} {xs : List α} {l : Lexeme} {q rest r : List Lexeme} : item q x (l :: rest) →
      l.token = .mark .comma → Listed item closing rest xs r → Listed item closing q (x :: xs) r

theorem yields_items_iff {item : Parser α} {closing : Token} {xs : List α} {q r : List Lexeme}
    {h : q.length ≤ ts.length} : Yields (items (fun r _ => item r) closing q h) xs r ↔
      Listed (fun us w rest => Yields (item us) w rest) closing q xs r := by
  fun_induction items (fun r _ => item r) closing q h generalizing xs with
  | case1 q h e herror =>
    simp only [not_yields_error, false_iff]
    intro hlist
    cases hlist with
    | last hitem _ _ => simp [herror] at hitem
    | more hitem _ _ => simp [herror] at hitem
  | case2 q h x h' hok =>
    simp only [not_yields_error, false_iff]
    intro hlist
    cases hlist with
    | last hitem _ _ => simp [hok] at hitem
    | more hitem _ _ => simp [hok] at hitem
  | case3 q h x l rest h' hok shorter hcomma e herror ih =>
    simp only [herror, not_yields_error, false_iff] at ih ⊢
    intro hlist
    cases hlist with
    | last hitem hne _ =>
      rw [hok, yields_ok_iff] at hitem
      cases hitem.2
      exact hne hcomma
    | more hitem _ hrest =>
      rw [hok, yields_ok_iff] at hitem
      cases hitem.2
      exact ih hrest
  | case4 q h x l rest h' hok shorter hcomma ys rest' h'' hrest ih =>
    have ih' : ∀ {zs}, ys = zs ∧ rest' = r ↔
        Listed (fun us w rest => Yields (item us) w rest) closing rest zs r := by
      intro zs
      rw [← ih, hrest, yields_ok_iff]
    rw [yields_ok_iff]
    constructor
    · rintro ⟨rfl, hr⟩
      exact .more (by rw [hok]; exact yields_ok_iff.mpr ⟨rfl, rfl⟩) hcomma (ih'.mp ⟨rfl, hr⟩)
    · intro hlist
      cases hlist with
      | last hitem hne _ =>
        rw [hok, yields_ok_iff] at hitem
        cases hitem.2
        exact absurd hcomma hne
      | more hitem _ hlist =>
        rw [hok, yields_ok_iff] at hitem
        obtain ⟨rfl, heq⟩ := hitem
        cases heq
        obtain ⟨rfl, hr⟩ := ih'.mpr hlist
        exact ⟨rfl, hr⟩
  | case5 q h x l rest h' hok shorter hcomma hclosing =>
    rw [yields_ok_iff]
    constructor
    · rintro ⟨rfl, rfl⟩
      exact .last (by rw [hok]; exact yields_ok_iff.mpr ⟨rfl, rfl⟩) hcomma hclosing
    · intro hlist
      cases hlist with
      | last hitem _ _ =>
        rw [hok, yields_ok_iff] at hitem
        obtain ⟨rfl, heq⟩ := hitem
        cases heq
        exact ⟨rfl, rfl⟩
      | more hitem hcomma' _ =>
        rw [hok, yields_ok_iff] at hitem
        cases hitem.2
        exact absurd hcomma' hcomma
  | case6 q h x l rest h' hok shorter hcomma hclosing =>
    simp only [not_yields_error, false_iff]
    intro hlist
    cases hlist with
    | last hitem _ hclosing' =>
      rw [hok, yields_ok_iff] at hitem
      cases hitem.2
      exact hclosing hclosing'
    | more hitem hcomma' _ =>
      rw [hok, yields_ok_iff] at hitem
      cases hitem.2
      exact hcomma hcomma'

theorem yields_commaSeparated_iff {item : Parser α} {closing : Token} {xs : List α}
    {r : List Lexeme} : Yields (commaSeparated closing ts fun r _ => item r) xs r ↔
      (∃ l, ts = l :: r ∧ l.token = closing ∧ xs = []) ∨
      ((∀ l rest, ts = l :: rest → l.token ≠ closing) ∧
        Listed (fun us w rest => Yields (item us) w rest) closing ts xs r) := by
  cases ts with
  | nil => rw [commaSeparated, yields_items_iff]; simp
  | cons l rest =>
    rw [commaSeparated]
    split
    · next hclosing =>
      rw [yields_ok_iff]
      constructor
      · rintro ⟨rfl, rfl⟩
        exact .inl ⟨l, rfl, hclosing, rfl⟩
      · rintro (⟨l', heq, -, rfl⟩ | ⟨hne, -⟩)
        · cases heq
          exact ⟨rfl, rfl⟩
        · exact absurd hclosing (hne l rest rfl)
    · next hclosing =>
      rw [yields_items_iff]
      constructor
      · intro hlist
        refine .inr ⟨fun l' rest' heq => ?_, hlist⟩
        cases heq
        exact hclosing
      · rintro (⟨l', heq, hclosing', -⟩ | ⟨-, hlist⟩)
        · cases heq
          exact absurd hclosing' hclosing
        · exact hlist

/-! ### Expressions -/

theorem ofToken?_eq_some_iff {t : Token} {op : Operator} :
    Operator.ofToken? t = some op ↔ t = .mark op.mark := by
  cases t with
  | word s => simp [Operator.ofToken?]
  | mark m =>
    constructor
    · intro h
      cases m <;> cases h <;> rfl
    · rintro ⟨rfl⟩
      exact Operator.ofMark?_mark op

theorem joins_eq_some_iff {ops : List Operator} {t : Token} {join : Expr → Expr → Expr} :
    joins ops t = some join ↔ ∃ op ∈ ops, t = .mark op.mark ∧ Expr.binary op = join := by
  simp only [← ofToken?_eq_some_iff]
  unfold joins
  split
  · next op hop =>
    split
    · next hmem =>
      constructor
      · intro h
        exact ⟨op, hmem, hop, Option.some.inj h⟩
      · rintro ⟨op', -, hop', rfl⟩
        rw [hop] at hop'
        cases hop'
        rfl
    · next hmem =>
      simp only [false_iff, reduceCtorEq]
      rintro ⟨op', hmem', hop', -⟩
      rw [hop] at hop'
      cases hop'
      exact hmem hmem'
  · next hnone => simp [hnone]

theorem joins_eq_none_iff {ops : List Operator} {t : Token} :
    joins ops t = none ↔ ∀ op ∈ ops, t ≠ .mark op.mark := by
  rw [Option.eq_none_iff_forall_not_mem]
  constructor
  · intro h op hop ht
    exact h _ (joins_eq_some_iff.mpr ⟨op, hop, ht, rfl⟩)
  · rintro h join hjoin
    obtain ⟨op, hop, ht, -⟩ := joins_eq_some_iff.mp hjoin
    exact h op hop ht

theorem joins_operator (ops : List Operator) (op : Operator) :
    joins ops (.mark op.mark) = if op ∈ ops then some (.binary op) else none := by
  simp [joins, Operator.ofToken?, Operator.ofMark?_mark]

theorem joins_of_mem {ops : List Operator} {op : Operator} (h : op ∈ ops) :
    joins ops (.mark op.mark) = some (.binary op) := by
  rw [joins_operator, if_pos h]

theorem mem_of_joins {ops : List Operator} {op : Operator} {join : Expr → Expr → Expr}
    (h : joins ops (.mark op.mark) = some join) : op ∈ ops := by
  by_cases hmem : op ∈ ops
  · exact hmem
  · rw [joins_operator, if_neg hmem] at h
    cases h

theorem stops_operator_iff {ops : List Operator} {op : Operator} {p : Position} {r : List Lexeme} :
    Stops (joins ops) (⟨.mark op.mark, p⟩ :: r) ↔ op ∉ ops := by
  simp [Stops, joins_operator]

theorem stops_of_notMem {ops : List Operator} {op : Operator} (h : op ∉ ops) (p : Position)
    (r : List Lexeme) : Stops (joins ops) (⟨.mark op.mark, p⟩ :: r) :=
  stops_operator_iff.mpr h

variable {r : List Lexeme} {e : Expr}

theorem yields_condition_iff : Yields (condition ts) e r ↔
    (Yields (additive ts) e r ∧ Stops (joins comparisons) r) ∨
    ∃ left l rest join right, Yields (additive ts) left (l :: rest) ∧
      joins comparisons l.token = some join ∧ Yields (additive rest) right r ∧
      join left right = e := by
  rw [condition, yields_pair_iff]

theorem yields_additive_iff : Yields (additive ts) e r ↔ ∃ left q,
    Yields (multiplicative ts) left q ∧
      Chained (fun us w rest => Yields (multiplicative us) w rest) (joins sums) left q e r := by
  rw [additive, yields_chain_iff]

theorem yields_multiplicative_iff : Yields (multiplicative ts) e r ↔ ∃ left q,
    Yields (power ts) left q ∧
      Chained (fun us w rest => Yields (power us) w rest) (joins products) left q e r := by
  rw [multiplicative, yields_chain_iff]

theorem yields_power_iff : Yields (power ts) e r ↔
    (Yields (primary ts) e r ∧ Stops (joins powers) r) ∨
    ∃ left l rest join right, Yields (primary ts) left (l :: rest) ∧
      joins powers l.token = some join ∧ Yields (power rest) right r ∧ join left right = e := by
  rw [power, yields_pair_iff]

/-- The next token begins neither an assignment nor a call when it follows a name. -/
def EndsName : List Lexeme → Prop
  | [] => True
  | l :: _ => l.token ≠ .mark .colon ∧ l.token ≠ .mark .leftParen

/-- Nothing at the beginning of `r` continues an expression. -/
def Closed : List Lexeme → Prop
  | [] => True
  | l :: _ => l.token ≠ .mark .colon ∧ l.token ≠ .mark .leftParen ∧
    ∀ op : Operator, l.token ≠ .mark op.mark

theorem closed_mark {m : Mark} (hm : m ≠ .colon ∧ m ≠ .leftParen ∧ Operator.ofMark? m = none)
    (p : Position) (r : List Lexeme) : Closed (⟨.mark m, p⟩ :: r) := by
  refine ⟨by simp [hm.1], by simp [hm.2.1], fun op heq => ?_⟩
  have hnone := hm.2.2
  rw [Token.mark.inj heq, Operator.ofMark?_mark] at hnone
  cases hnone

theorem Closed.endsName (h : Closed r) : EndsName r := by
  cases r with
  | nil => trivial
  | cons l r => exact ⟨h.1, h.2.1⟩

theorem endsName_operator (op : Operator) (p : Position) (r : List Lexeme) :
    EndsName (⟨.mark op.mark, p⟩ :: r) := by
  cases op <;> exact ⟨by simp [Operator.mark], by simp [Operator.mark]⟩

theorem Closed.stops (h : Closed r) (ops : List Operator) : Stops (joins ops) r := by
  cases r with
  | nil => trivial
  | cons l r => exact joins_eq_none_iff.mpr fun op _ => h.2.2 op

/-- What a primary is made of, by its first lexemes. -/
inductive PrimaryYields : List Lexeme → Expr → List Lexeme → Prop
  | group {l l' : Lexeme} {us r : List Lexeme} {e : Expr} : l.token = .mark .leftParen →
      Yields (condition us) e (l' :: r) → l'.token = .mark .rightParen →
      PrimaryYields (l :: us) e r
  | assign {l c q : Lexeme} {us r : List Lexeme} {s : String} {e : Expr} : l.token = .word s →
      Word.isIdentifier s = true → c.token = .mark .colon → q.token = .mark .equal →
      Yields (condition us) e r → PrimaryYields (l :: c :: q :: us) (.assign s e) r
  | call {l p : Lexeme} {us r : List Lexeme} {s : String} {es : List Expr} : l.token = .word s →
      Word.isIdentifier s = true → p.token = .mark .leftParen →
      Yields (commaSeparated (.mark .rightParen) us fun r _ => condition r) es r →
      PrimaryYields (l :: p :: us) (.call s es l.position.line) r
  | var {l : Lexeme} {r : List Lexeme} {s : String} : l.token = .word s →
      Word.isIdentifier s = true → EndsName r → PrimaryYields (l :: r) (.var s l.position.line) r
  | literal {l : Lexeme} {r : List Lexeme} {s : String} {x : Number} : l.token = .word s →
      Word.isIdentifier s = false → Word.isNumeral s = true → Number.ofText? s = some x →
      PrimaryYields (l :: r) (.literal x) r

theorem primaryYields_of_yields (h : Yields (primary ts) e r) : PrimaryYields ts e r := by
  rw [primary.eq_def] at h
  split at h
  · next p rest =>
    obtain ⟨inner, rest₁, h₁, hinner, h⟩ := yields_bind_iff.mp h
    obtain ⟨u, rest₂, h₂, hclose, h⟩ := yields_bind_iff.mp h
    obtain ⟨l', rfl, hl'⟩ := yields_expect_iff.mp hclose
    obtain ⟨rfl, rfl⟩ := yields_ok_iff.mp h
    exact .group rfl hinner hl'
  · next s p rest =>
    split at h
    · next hs =>
      split at h
      · next pc rest =>
        obtain ⟨u, rest₁, h₁, hequal, h⟩ := yields_bind_iff.mp h
        obtain ⟨value, rest₂, h₂, hvalue, h⟩ := yields_bind_iff.mp h
        obtain ⟨q, rfl, hq⟩ := yields_expect_iff.mp hequal
        obtain ⟨rfl, rfl⟩ := yields_ok_iff.mp h
        exact .assign rfl hs rfl hq hvalue
      · next pp rest =>
        obtain ⟨arguments, rest₁, h₁, harguments, h⟩ := yields_bind_iff.mp h
        obtain ⟨rfl, rfl⟩ := yields_ok_iff.mp h
        exact .call rfl hs rfl harguments
      · next hcolon hparen =>
        obtain ⟨rfl, rfl⟩ := yields_ok_iff.mp h
        refine PrimaryYields.var (l := ⟨.word s, p⟩) rfl hs ?_
        cases rest with
        | nil => trivial
        | cons l rest =>
          obtain ⟨t, q⟩ := l
          exact ⟨fun ht => hcolon q rest (by cases ht; rfl),
            fun ht => hparen q rest (by cases ht; rfl)⟩
    · next hs =>
      split at h
      · next hnumeral =>
        split at h
        · next x hx =>
          obtain ⟨rfl, rfl⟩ := yields_ok_iff.mp h
          exact .literal rfl (by simpa using hs) hnumeral hx
        · exact absurd h not_yields_error
      · exact absurd h not_yields_error
  · exact absurd h not_yields_error

theorem yields_of_primaryYields (h : PrimaryYields ts e r) : Yields (primary ts) e r := by
  rw [primary.eq_def]
  cases h with
  | @group l l' us r e hl hinner hclose =>
    obtain ⟨t, p⟩ := l
    cases hl
    simp only [yields_bind_iff]
    exact ⟨e, _, hinner.shorter, hinner, (), r, by simp, yields_expect_iff.mpr ⟨l', rfl, hclose⟩,
      yields_ok_iff.mpr ⟨rfl, rfl⟩⟩
  | @assign l c q us r s e hl hs hc hq hvalue =>
    obtain ⟨tl, pl⟩ := l
    obtain ⟨tc, pc⟩ := c
    cases hl
    cases hc
    simp only [hs, if_true, yields_bind_iff]
    exact ⟨(), us, by simp, yields_expect_iff.mpr ⟨q, rfl, hq⟩, e, r, hvalue.shorter, hvalue,
      yields_ok_iff.mpr ⟨rfl, rfl⟩⟩
  | @call l p us r s es hl hs hp harguments =>
    obtain ⟨tl, pl⟩ := l
    obtain ⟨tp, pp⟩ := p
    cases hl
    cases hp
    simp only [hs, if_true, yields_bind_iff]
    exact ⟨es, r, harguments.shorter, harguments, yields_ok_iff.mpr ⟨rfl, rfl⟩⟩
  | @var l r s hl hs hends =>
    obtain ⟨tl, pl⟩ := l
    cases hl
    simp only [hs, if_true]
    split
    · exact absurd rfl hends.1
    · exact absurd rfl hends.2
    · exact yields_ok_iff.mpr ⟨rfl, rfl⟩
  | @literal l r s x hl hs hnumeral hx =>
    obtain ⟨tl, pl⟩ := l
    cases hl
    simp only [hs, hnumeral, hx, if_true, Bool.false_eq_true, if_false]
    exact yields_ok_iff.mpr ⟨rfl, rfl⟩

theorem yields_primary_iff : Yields (primary ts) e r ↔ PrimaryYields ts e r :=
  ⟨primaryYields_of_yields, yields_of_primaryYields⟩

/-- The token that an expression may begin with. -/
def StartsExpression (t : Token) : Prop :=
  t = .mark .leftParen ∨ ∃ s, t = .word s ∧ (Word.isIdentifier s = true ∨ Word.isNumeral s = true)

theorem startsExpression_of_primary (h : Yields (primary ts) e r) :
    ∃ l rest, ts = l :: rest ∧ StartsExpression l.token := by
  cases yields_primary_iff.mp h with
  | group hl _ _ => exact ⟨_, _, rfl, .inl hl⟩
  | assign hl hs _ _ _ => exact ⟨_, _, rfl, .inr ⟨_, hl, .inl hs⟩⟩
  | call hl hs _ _ => exact ⟨_, _, rfl, .inr ⟨_, hl, .inl hs⟩⟩
  | var hl hs _ => exact ⟨_, _, rfl, .inr ⟨_, hl, .inl hs⟩⟩
  | literal hl _ hs _ => exact ⟨_, _, rfl, .inr ⟨_, hl, .inr hs⟩⟩

theorem startsExpression_of_condition (h : Yields (condition ts) e r) :
    ∃ l rest, ts = l :: rest ∧ StartsExpression l.token := by
  have hadditive : ∃ e r, Yields (additive ts) e r := by
    rcases yields_condition_iff.mp h with ⟨h, -⟩ | ⟨_, _, _, _, _, h, -⟩ <;> exact ⟨_, _, h⟩
  obtain ⟨_, _, hadditive⟩ := hadditive
  obtain ⟨_, _, hmultiplicative, -⟩ := yields_additive_iff.mp hadditive
  obtain ⟨_, _, hpower, -⟩ := yields_multiplicative_iff.mp hmultiplicative
  rcases yields_power_iff.mp hpower with ⟨h, -⟩ | ⟨_, _, _, _, _, h, -⟩ <;>
    exact startsExpression_of_primary h

/-- Conditions in a list are arguments, since none of them begins with the closing parenthesis. -/
theorem yields_arguments_of_listed {es : List Expr}
    (h : Listed (fun us w rest => Yields (condition us) w rest) (.mark .rightParen) ts es r) :
    Yields (commaSeparated (.mark .rightParen) ts fun r _ => condition r) es r := by
  have hstarts : ∃ l rest, ts = l :: rest ∧ StartsExpression l.token := by
    cases h with
    | last he _ _ => exact startsExpression_of_condition he
    | more he _ _ => exact startsExpression_of_condition he
  obtain ⟨l, rest, rfl, hl⟩ := hstarts
  refine yields_commaSeparated_iff.mpr (.inr ⟨fun l' rest' heq hclosing => ?_, h⟩)
  obtain ⟨rfl, -⟩ := List.cons.inj heq
  rcases hl with hl | ⟨s, hl, -⟩ <;> simp [hl] at hclosing

/-! ### Statements -/

theorem sequences_eq_some_iff {t : Token} {join : Statement → Statement → Statement} :
    sequences t = some join ↔ t = .mark .semicolon ∧ Statement.sequence = join := by
  unfold sequences
  split <;> simp_all

theorem sequences_eq_none_iff {t : Token} : sequences t = none ↔ t ≠ .mark .semicolon := by
  unfold sequences
  split <;> simp_all

variable {s : Statement}

theorem yields_program_iff : Yields (program ts) s r ↔ ∃ left q, Yields (statement ts) left q ∧
    Chained (fun us w rest => Yields (statement us) w rest) sequences left q s r := by
  rw [program, yields_chain_iff]

theorem yields_block_iff : Yields (block ts) s r ↔ ∃ l us l', ts = l :: us ∧
    l.token = .mark .leftBrace ∧ Yields (program us) s (l' :: r) ∧
    l'.token = .mark .rightBrace := by
  rw [block]
  constructor
  · intro h
    obtain ⟨_, us, _, hopen, h⟩ := yields_bind_iff.mp h
    obtain ⟨body, rest, _, hbody, h⟩ := yields_bind_iff.mp h
    obtain ⟨_, _, _, hclose, h⟩ := yields_bind_iff.mp h
    obtain ⟨l, rfl, hl⟩ := yields_expect_iff.mp hopen
    obtain ⟨l', rfl, hl'⟩ := yields_consume_iff.mp hclose
    obtain ⟨rfl, rfl⟩ := yields_ok_iff.mp h
    exact ⟨l, us, l', rfl, hl, hbody, hl'⟩
  · rintro ⟨l, us, l', rfl, hl, hbody, hl'⟩
    simp only [yields_bind_iff]
    exact ⟨(), us, by simp, yields_expect_iff.mpr ⟨l, rfl, hl⟩, s, _, hbody.shorter, hbody, (), r,
      by simp, yields_consume_iff.mpr ⟨l', rfl, hl'⟩, yields_ok_iff.mpr ⟨rfl, rfl⟩⟩

/-- What a statement is made of, by its first lexeme. -/
inductive StatementYields : List Lexeme → Statement → List Lexeme → Prop
  | procedure {k l : Lexeme} {us vs ws r : List Lexeme} {name : String} {ps : List String}
      {body : Statement} : k.token = .word "proc" → Yields (identifier us) name (l :: vs) →
      l.token = .mark .leftParen →
      Yields (commaSeparated (.mark .rightParen) vs fun r _ => identifier r) ps ws →
      Yields (block ws) body r → StatementYields (k :: us) (.procedure name ps body) r
  | choice {k l : Lexeme} {us vs ws r : List Lexeme} {guard : Expr} {yes no : Statement} :
      k.token = .word "if" → Yields (condition us) guard vs → Yields (block vs) yes (l :: ws) →
      l.token = .word "else" → Yields (block ws) no r →
      StatementYields (k :: us) (.choice guard yes no) r
  | loop {k : Lexeme} {us vs r : List Lexeme} {guard : Expr} {body : Statement} :
      k.token = .word "while" → Yields (condition us) guard vs → Yields (block vs) body r →
      StatementYields (k :: us) (.loop guard body) r
  | print {k : Lexeme} {us r : List Lexeme} {value : Expr} : k.token = .word "print" →
      Yields (condition us) value r → StatementYields (k :: us) (.print value) r
  | expression {us r : List Lexeme} {value : Expr} : Yields (condition us) value r →
      StatementYields us (.expression value) r

theorem statementYields_of_yields (h : Yields (statement ts) s r) : StatementYields ts s r := by
  rw [statement.eq_def] at h
  split at h
  · next p rest =>
    obtain ⟨name, rest₁, _, hname, h⟩ := yields_bind_iff.mp h
    obtain ⟨_, rest₂, _, hopen, h⟩ := yields_bind_iff.mp h
    obtain ⟨parameters, rest₃, _, hparameters, h⟩ := yields_bind_iff.mp h
    obtain ⟨body, rest₄, _, hbody, h⟩ := yields_bind_iff.mp h
    obtain ⟨l, rfl, hl⟩ := yields_expect_iff.mp hopen
    obtain ⟨rfl, rfl⟩ := yields_ok_iff.mp h
    exact .procedure rfl hname hl hparameters hbody
  · next p rest =>
    obtain ⟨guard, rest₁, _, hguard, h⟩ := yields_bind_iff.mp h
    obtain ⟨yes, rest₂, _, hyes, h⟩ := yields_bind_iff.mp h
    obtain ⟨_, rest₃, _, helse, h⟩ := yields_bind_iff.mp h
    obtain ⟨no, rest₄, _, hno, h⟩ := yields_bind_iff.mp h
    obtain ⟨l, rfl, hl⟩ := yields_expect_iff.mp helse
    obtain ⟨rfl, rfl⟩ := yields_ok_iff.mp h
    exact .choice rfl hguard hyes hl hno
  · next p rest =>
    obtain ⟨guard, rest₁, _, hguard, h⟩ := yields_bind_iff.mp h
    obtain ⟨body, rest₂, _, hbody, h⟩ := yields_bind_iff.mp h
    obtain ⟨rfl, rfl⟩ := yields_ok_iff.mp h
    exact .loop rfl hguard hbody
  · next p rest =>
    obtain ⟨value, rest₁, _, hvalue, h⟩ := yields_bind_iff.mp h
    obtain ⟨rfl, rfl⟩ := yields_ok_iff.mp h
    exact .print rfl hvalue
  · obtain ⟨value, rest, _, hvalue, h⟩ := yields_bind_iff.mp h
    obtain ⟨rfl, rfl⟩ := yields_ok_iff.mp h
    exact .expression hvalue

/-- A keyword does not begin an expression. -/
theorem not_startsExpression_keyword {w : String} (hw : w ∈ Word.keywords) :
    ¬StartsExpression (.word w) := by
  rintro (h | ⟨_, h, hs⟩)
  · cases h
  · cases h
    revert w
    decide

theorem notMem_keywords_of_condition {w : String} {p : Position} {rest r : List Lexeme}
    {e : Expr} (h : Yields (condition (⟨.word w, p⟩ :: rest)) e r) : w ∉ Word.keywords := by
  intro hw
  obtain ⟨l, _, hts, hl⟩ := startsExpression_of_condition h
  obtain ⟨rfl, -⟩ := List.cons.inj hts
  exact not_startsExpression_keyword hw hl

theorem yields_of_statementYields (h : StatementYields ts s r) : Yields (statement ts) s r := by
  rw [statement.eq_def]
  cases h with
  | @procedure k l us vs ws r name ps body hk hname hl hparameters hbody =>
    obtain ⟨t, p⟩ := k
    cases hk
    simp only [yields_bind_iff]
    exact ⟨name, _, hname.shorter, hname, (), vs, by simp, yields_expect_iff.mpr ⟨l, rfl, hl⟩, ps,
      ws, hparameters.shorter, hparameters, body, r, hbody.shorter, hbody,
      yields_ok_iff.mpr ⟨rfl, rfl⟩⟩
  | @choice k l us vs ws r guard yes no hk hguard hyes hl hno =>
    obtain ⟨t, p⟩ := k
    cases hk
    simp only [yields_bind_iff]
    exact ⟨guard, vs, hguard.shorter, hguard, yes, _, hyes.shorter, hyes, (), ws, by simp,
      yields_expect_iff.mpr ⟨l, rfl, hl⟩, no, r, hno.shorter, hno, yields_ok_iff.mpr ⟨rfl, rfl⟩⟩
  | @loop k us vs r guard body hk hguard hbody =>
    obtain ⟨t, p⟩ := k
    cases hk
    simp only [yields_bind_iff]
    exact ⟨guard, vs, hguard.shorter, hguard, body, r, hbody.shorter, hbody,
      yields_ok_iff.mpr ⟨rfl, rfl⟩⟩
  | @print k us r value hk hvalue =>
    obtain ⟨t, p⟩ := k
    cases hk
    simp only [yields_bind_iff]
    exact ⟨value, r, hvalue.shorter, hvalue, yields_ok_iff.mpr ⟨rfl, rfl⟩⟩
  | @expression us r value hvalue =>
    split
    · exact (notMem_keywords_of_condition hvalue (by decide)).elim
    · exact (notMem_keywords_of_condition hvalue (by decide)).elim
    · exact (notMem_keywords_of_condition hvalue (by decide)).elim
    · exact (notMem_keywords_of_condition hvalue (by decide)).elim
    · simp only [yields_bind_iff]
      exact ⟨value, r, hvalue.shorter, hvalue, yields_ok_iff.mpr ⟨rfl, rfl⟩⟩

theorem yields_statement_iff : Yields (statement ts) s r ↔ StatementYields ts s r :=
  ⟨statementYields_of_yields, yields_of_statementYields⟩

end Imperative.Parser

namespace Imperative

theorem parseLexemes_eq_ok_iff {ts : List Lexeme} {s : Statement} :
    parseLexemes ts = .ok s ↔ Parser.Yields (Parser.program ts) s [] := by
  unfold parseLexemes Parser.wholeProgram
  cases h : Parser.program ts with
  | error e => simp
  | ok p =>
    obtain ⟨s', rest, hrest⟩ := p
    cases rest with
    | nil => simp
    | cons l rest => simp

end Imperative
