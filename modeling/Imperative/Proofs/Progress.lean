import Imperative.Proofs.Completion
import Mathlib.Logic.Function.Iterate

/-! Parsers as they move a cursor.  Each of them goes forward: from any place among the lexemes of a
source it stops at a later one if it succeeds, and if it fails it stops at the same place or a later
one, and the error tells what stands there. -/

namespace Imperative

theorem Cursor.iterate_advance (c : Cursor) (k : Nat) :
    Cursor.advance^[k] c = ⟨c.rest.drop k, c.endPosition⟩ := by
  induction k with
  | zero => rfl
  | succ k ih =>
    rw [Function.iterate_succ_apply', ih]
    simp [advance]

/-- The cursor before lexeme `i`, advanced so often from the first. -/
def Cursor.atIndex (ts : List Lexeme) (i : Nat) : Cursor := Cursor.advance^[i] (.ofLexemes ts)

theorem Cursor.atIndex_eq (ts : List Lexeme) (i : Nat) :
    Cursor.atIndex ts i = ⟨ts.drop i, Imperative.endPosition ts⟩ :=
  (Cursor.ofLexemes ts).iterate_advance i

/-- The error is that of the cursor before lexeme `j`: it quotes this lexeme and tells its position,
and behind the last one it tells of the end of input, on the line of the last lexeme or else the
first line. -/
structure ParseError.IsAt (e : ParseError) (ts : List Lexeme) (j : Nat) : Prop where
  eq_error : e = (Cursor.atIndex ts j).error e.expected
  lexeme : ∀ l, ts[j]? = some l → e.foundText = l.token.quoted ∧ e.position = l.position
  ending : j = ts.length → e.foundText = "end of input" ∧
    e.position = ⟨(ts.getLast?.map fun l => l.position.line).getD 1, ts.length⟩

theorem Cursor.isAt_error (ts : List Lexeme) (j : Nat) (expected : Expected) :
    ((Cursor.atIndex ts j).error expected).IsAt ts j where
  eq_error := rfl
  lexeme := by
    intro l hl
    have hhead : (ts.drop j).head? = some l := by rw [List.head?_drop, hl]
    simp [ParseError.foundText, Cursor.error, Cursor.position, Cursor.peek?, atIndex_eq, hhead]
  ending := by
    rintro rfl
    simp [ParseError.foundText, Cursor.error, Cursor.position, Cursor.peek?, atIndex_eq,
      Imperative.endPosition]

namespace Parser

variable {α : Type} {ts us : List Lexeme} {parser : Parser α}

/-- From the place before lexeme `i` the parser goes forward, to the place before some lexeme `j`
or behind the last one. -/
def GoesForward (ts : List Lexeme) (parser : Parser α) (i : Nat) : Prop :=
  ∃ j ≤ ts.length,
    (i < j ∧ ∃ v, (Cursor.atIndex ts i).run parser = (.ok v, Cursor.atIndex ts j)) ∨
    (i ≤ j ∧ ∃ e, (Cursor.atIndex ts i).run parser = (.error e, Cursor.atIndex ts j) ∧ e.IsAt ts j)

/-- What the parser leaves of `us`, when it succeeds and when it fails, is an end of it. -/
structure LeavesEnd (parser : Parser α) (us : List Lexeme) : Prop where
  yields : ∀ v r, Yields (parser us) v r → r <:+ us
  fails : ∀ e, Fails (parser us) e → e.rest <:+ us

theorem exists_drop_of_isSuffix {r : List Lexeme} {i : Nat} (hi : i ≤ ts.length)
    (h : r <:+ ts.drop i) : ∃ j, i ≤ j ∧ j ≤ ts.length ∧ r = ts.drop j := by
  obtain ⟨front, hfront⟩ := h
  refine ⟨i + front.length, by omega, ?_, ?_⟩
  · have hlength := congrArg List.length hfront
    simp at hlength
    omega
  · rw [← List.drop_drop, ← hfront, List.drop_left]

section Cursors

variable {i : Nat}

theorem run_eq_ok_iff {c c' : Cursor} {v : α} : c.run parser = (.ok v, c') ↔
    Yields (parser c.rest) v c'.rest ∧ c'.endPosition = c.endPosition := by
  obtain ⟨r', p'⟩ := c'
  unfold Cursor.run
  cases hresult : parser c.rest with
  | ok p =>
    obtain ⟨w, r, hr⟩ := p
    simp [eq_comm, and_assoc]
  | error s => simp

theorem run_eq_error_iff {c c' : Cursor} {e : ParseError} : c.run parser = (.error e, c') ↔
    Fails (parser c.rest) ⟨e.expected, c'.rest⟩ ∧ c'.endPosition = c.endPosition ∧
      e = c'.error e.expected := by
  obtain ⟨r', p'⟩ := c'
  unfold Cursor.run
  cases hresult : parser c.rest with
  | ok p => simp
  | error s =>
    constructor
    · rintro ⟨⟩
      exact ⟨rfl, rfl, rfl⟩
    · rintro ⟨hfails, rfl, he⟩
      rw [← fails_error_iff.mp hfails]
      exact Prod.ext (congrArg Except.error he.symm) rfl

/-- To go forward is to leave an end of what is ahead. -/
theorem goesForward_iff (hi : i ≤ ts.length) :
    GoesForward ts parser i ↔ LeavesEnd parser (ts.drop i) := by
  simp only [GoesForward, run_eq_ok_iff, run_eq_error_iff, Cursor.atIndex_eq]
  constructor
  · rintro ⟨j, -, ⟨hij, v, hv, -⟩ | ⟨hij, e, ⟨he, -⟩, -⟩⟩
    · refine ⟨fun w r hr => ?_, fun e he => absurd he hv.not_fails⟩
      rw [(hr.unique hv).2]
      exact List.drop_suffix_drop_left ts hij.le
    · refine ⟨fun w r hr => absurd he hr.not_fails, fun e' he' => ?_⟩
      obtain rfl : e' = _ := Except.error.inj (he'.symm.trans he)
      exact List.drop_suffix_drop_left ts hij
  · intro h
    cases hresult : parser (ts.drop i) with
    | ok p =>
      obtain ⟨v, r, hr⟩ := p
      obtain ⟨j, hij, hj, rfl⟩ := exists_drop_of_isSuffix hi (h.yields v r ⟨hr, hresult⟩)
      simp at hr
      exact ⟨j, hj, .inl ⟨by omega, v, yields_ok_iff.mpr ⟨rfl, rfl⟩, trivial⟩⟩
    | error s =>
      obtain ⟨expected, r⟩ := s
      obtain ⟨j, hij, hj, rfl⟩ := exists_drop_of_isSuffix hi (h.fails _ hresult)
      have hat := Cursor.isAt_error ts j expected
      rw [Cursor.atIndex_eq] at hat
      exact ⟨j, hj, .inr ⟨hij, _, ⟨fails_error_iff.mpr rfl, trivial, rfl⟩, hat⟩⟩

end Cursors

/-! ### Lists -/

section Lists

variable {item : Parser α} {closing : Token} {q r : List Lexeme}

theorem Listed.isSuffix {xs : List α}
    (h : Listed (fun us w rest => Yields (item us) w rest) closing q xs r)
    (hitem : ∀ us, us <:+ q → LeavesEnd item us) : r <:+ q := by
  induction h with
  | @last x l q r hx _ _ =>
    have hrest := (hitem q List.suffix_rfl).yields x (l :: r) hx
    exact (List.suffix_cons l r).trans hrest
  | @more x xs l q rest r hx _ _ ih =>
    have hrest := (List.suffix_cons l rest).trans ((hitem q List.suffix_rfl).yields x _ hx)
    exact (ih fun us hus => hitem us (hus.trans hrest)).trans hrest

theorem ListBroken.isSuffix {e : Stuck} (h : ListBroken item closing q e)
    (hitem : ∀ us, us <:+ q → LeavesEnd item us) : e.rest <:+ q := by
  induction h with
  | @item q e he => exact (hitem q List.suffix_rfl).fails e he
  | @stop q r x hx _ => exact (hitem q List.suffix_rfl).yields x r hx
  | @more q rest x l e hx _ _ ih =>
    have hrest := (List.suffix_cons l rest).trans ((hitem q List.suffix_rfl).yields x _ hx)
    exact (ih fun us hus => hitem us (hus.trans hrest)).trans hrest

/-- A list leaves an end of what is ahead if its items do, whatever token closes it. -/
theorem leavesEnd_commaSeparated (closing : Token) (hitem : ∀ r, r <:+ us → LeavesEnd item r) :
    LeavesEnd (fun us => commaSeparated closing us fun r _ => item r) us where
  yields := by
    intro xs r h
    rcases yields_commaSeparated_iff.mp h with ⟨l, rfl, -, -⟩ | ⟨-, hlist⟩
    · exact List.suffix_cons l r
    · exact hlist.isSuffix hitem
  fails := fun e h => (fails_commaSeparated_iff.mp h).2.isSuffix hitem

end Lists

/-! ### The parsers of the language -/

theorem leavesEnd_of_rule {rule : List Lexeme → α → Prop}
    (hyields : ∀ v r, Yields (parser us) v r → Grammar.Derives rule us v r)
    (hfails : ∀ e, Fails (parser us) e → Grammar.Resumes rule us e) : LeavesEnd parser us where
  yields := by
    intro v r h
    obtain ⟨front, rfl, -⟩ := hyields v r h
    exact List.suffix_append front r
  fails := by
    intro e h
    obtain ⟨front, hfront, -⟩ := hfails e h
    exact ⟨front, hfront.symm⟩

theorem leavesEnd_identifier (us : List Lexeme) : LeavesEnd identifier us where
  yields := by
    intro name r h
    obtain ⟨l, rfl, -⟩ := yields_identifier_iff.mp h
    exact List.suffix_cons l r
  fails := by
    intro e h
    obtain ⟨-, rfl⟩ := fails_identifier_iff.mp h
    exact List.suffix_rfl

open Grammar in
/-- From every place among lexemes, each parser of the language goes forward: it stops behind a
place where it succeeds, and fails with the error of the place where it stops.  So does a list of
items that go forward, whatever token closes it, even a comma. -/
theorem parsers_go_forward (ts : List Lexeme) {i : Nat} (hi : i ≤ ts.length) :
    GoesForward ts primary i ∧ GoesForward ts power i ∧ GoesForward ts multiplicative i ∧
    GoesForward ts additive i ∧ GoesForward ts condition i ∧ GoesForward ts statement i ∧
    GoesForward ts program i ∧ GoesForward ts identifier i ∧
    ∀ {α : Type} (item : Parser α) (closing : Token), (∀ k ≤ ts.length, GoesForward ts item k) →
      GoesForward ts (fun us => commaSeparated closing us fun r _ => item r) i := by
  have hderived := expressions_derived (ts.drop i)
  have hresumed := expressions_resumed (ts.drop i)
  have hstatements := statements_derived (ts.drop i)
  have hstatements' := statements_resumed (ts.drop i)
  simp only [goesForward_iff hi]
  refine ⟨leavesEnd_of_rule hderived.atom hresumed.atom,
    leavesEnd_of_rule hderived.power hresumed.power,
    leavesEnd_of_rule hderived.product hresumed.product,
    leavesEnd_of_rule hderived.sum hresumed.sum,
    leavesEnd_of_rule hderived.condition hresumed.condition,
    leavesEnd_of_rule hstatements.statement hstatements'.statement,
    leavesEnd_of_rule hstatements.program hstatements'.program,
    leavesEnd_identifier _, fun item closing hitem => ?_⟩
  refine leavesEnd_commaSeparated closing fun r hr => ?_
  obtain ⟨k, -, hk, rfl⟩ := exists_drop_of_isSuffix hi hr
  exact (goesForward_iff hk).mp (hitem k hk)

/-- An open list of names, as the program it stands in and as a list closed by a comma: behind `x`
the comma asks for another name, and the error is that of the end. -/
theorem parsers_go_forward_open_list :
    let ts := tokenize "f(x,"
    let names : Parser (List String) := fun us =>
      commaSeparated (.mark .comma) us fun r _ => identifier r
    2 ≤ ts.length ∧ GoesForward ts program 0 ∧ (∀ k ≤ ts.length, GoesForward ts identifier k) ∧
      GoesForward ts names 2 ∧
      ((Cursor.atIndex ts 2).run names).1 = .error ⟨.identifier, none, ⟨1, 4⟩⟩ := by
  intro ts names
  have hlength : 2 ≤ ts.length := by decide +kernel
  have hidentifier (k : Nat) (hk : k ≤ ts.length) : GoesForward ts identifier k := by
    obtain ⟨-, -, -, -, -, -, -, h, -⟩ := parsers_go_forward ts hk
    exact h
  obtain ⟨-, -, -, -, -, -, hprogram, -⟩ := parsers_go_forward ts (Nat.zero_le _)
  obtain ⟨-, -, -, -, -, -, -, -, hlist⟩ := parsers_go_forward ts hlength
  exact ⟨hlength, hprogram, hidentifier, hlist identifier _ hidentifier, by decide +kernel⟩

end Parser

end Imperative
