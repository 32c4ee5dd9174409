import Imperative.Proofs.Progress

/-! Lists divided by commas are read exactly.  A listing places every item of a list: the first
where the list begins, each other one right behind a comma that stands right behind the one before,
and the closing token right behind the last.  Whatever parser reads the items, a list is accepted
only as empty or as such a listing; behind a comma another item must be found, and a list that a
comma closes is empty. -/

namespace Imperative.Parser

variable {α : Type} {ts : List Lexeme} {item : Parser α} {closing : Token}

/-- From every place among the lexemes, the parser stops at a later place if it succeeds. -/
def Advances (ts : List Lexeme) (item : Parser α) : Prop :=
  ∀ k ≤ ts.length, ∀ v c, (Cursor.atIndex ts k).run item = (.ok v, c) →
    ∃ j, k < j ∧ j ≤ ts.length ∧ c = Cursor.atIndex ts j

/-- The parser of lists of such items, closed by this token. -/
def listOf (item : Parser α) (closing : Token) : Parser (List α) := fun us =>
  commaSeparated closing us fun r _ => item r

/-- The token of the lexeme with this number. -/
def tokenAt? (ts : List Lexeme) (i : Nat) : Option Token := ts[i]?.map Lexeme.token

/-- An item between two places. -/
structure Placed (α : Type) where
  start : Nat
  value : α
  stop : Nat

/-- The parser finds the item where it is placed. -/
def Placed.IsFound (ts : List Lexeme) (item : Parser α) (p : Placed α) : Prop :=
  (Cursor.atIndex ts p.start).run item = (.ok p.value, Cursor.atIndex ts p.stop)

/-- Items from place `i` on, one comma between any two that follow each other, and the closing token
behind the last one and before place `j`. -/
structure IsListing (ts : List Lexeme) (item : Parser α) (closing : Token) (i : Nat)
    (ps : List (Placed α)) (j : Nat) : Prop where
  found : ∀ p ∈ ps, p.IsFound ts item
  first : ps.head?.map Placed.start = some i
  divided : ps.IsChain fun p q =>
    tokenAt? ts p.stop = some (.mark .comma) ∧ q.start = p.stop + 1
  closed : ∃ p, ps.getLast? = some p ∧ tokenAt? ts p.stop = some closing ∧ j = p.stop + 1

theorem IsListing.ne_nil {i j : Nat} {ps : List (Placed α)}
    (h : IsListing ts item closing i ps j) : ps ≠ [] := by
  rintro rfl
  cases h.first

theorem isListing_singleton_iff {p : Placed α} {i j : Nat} : IsListing ts item closing i [p] j ↔
    p.IsFound ts item ∧ p.start = i ∧ tokenAt? ts p.stop = some closing ∧ j = p.stop + 1 := by
  constructor
  · rintro ⟨hfound, hfirst, -, q, hlast, hclosing, hj⟩
    obtain rfl : p = q := by simpa using hlast
    exact ⟨hfound p (by simp), by simpa using hfirst, hclosing, hj⟩
  · rintro ⟨hfound, rfl, hclosing, hj⟩
    exact ⟨by simpa using hfound, rfl, .singleton p, p, rfl, hclosing, hj⟩

theorem isListing_cons_cons_iff {p q : Placed α} {ps : List (Placed α)} {i j : Nat} :
    IsListing ts item closing i (p :: q :: ps) j ↔ p.IsFound ts item ∧ p.start = i ∧
      tokenAt? ts p.stop = some (.mark .comma) ∧
      IsListing ts item closing (p.stop + 1) (q :: ps) j := by
  constructor
  · rintro ⟨hfound, hfirst, hdivided, hclosed⟩
    obtain ⟨⟨hcomma, hnext⟩, hdivided⟩ := List.isChain_cons_cons.mp hdivided
    obtain ⟨hp, hfound⟩ := List.forall_mem_cons.mp hfound
    exact ⟨hp, by simpa using hfirst, hcomma, hfound, congrArg some hnext, hdivided,
      by simpa using hclosed⟩
  · rintro ⟨hp, rfl, hcomma, hfound, hfirst, hdivided, hclosed⟩
    have hnext : q.start = p.stop + 1 := by simpa using hfirst
    exact ⟨List.forall_mem_cons.mpr ⟨hp, hfound⟩, rfl,
      List.isChain_cons_cons.mpr ⟨⟨hcomma, hnext⟩, hdivided⟩, by simpa using hclosed⟩

/-! ### Places and lexemes ahead -/

theorem isFound_iff {p : Placed α} : p.IsFound ts item ↔
    Yields (item (ts.drop p.start)) p.value (ts.drop p.stop) := by
  simp [Placed.IsFound, run_eq_ok_iff, Cursor.atIndex_eq]

theorem Advances.of_yields (hitem : Advances ts item) {k : Nat} (hk : k ≤ ts.length) {v : α}
    {r : List Lexeme} (h : Yields (item (ts.drop k)) v r) :
    ∃ j, k < j ∧ j ≤ ts.length ∧ r = ts.drop j := by
  have hrun : (Cursor.atIndex ts k).run item = (.ok v, ⟨r, Imperative.endPosition ts⟩) := by
    rw [Cursor.atIndex_eq]
    exact run_eq_ok_iff.mpr ⟨h, rfl⟩
  obtain ⟨j, hkj, hj, heq⟩ := hitem k hk v _ hrun
  rw [Cursor.atIndex_eq] at heq
  exact ⟨j, hkj, hj, congrArg Cursor.rest heq⟩

theorem advances_of_drop (h : ∀ k ≤ ts.length, ∀ v r, Yields (item (ts.drop k)) v r →
    ∃ j ≤ ts.length, r = ts.drop j) : Advances ts item := by
  rintro k hk v ⟨r, position⟩ hrun
  rw [Cursor.atIndex_eq] at hrun
  obtain ⟨hyields, rfl⟩ := run_eq_ok_iff.mp hrun
  obtain ⟨j, hj, rfl⟩ := h k hk v r hyields
  -- What a parser leaves is shorter than what it was given, by its type.
  obtain ⟨hshorter, -⟩ := hyields
  simp only [List.length_drop] at hshorter
  exact ⟨j, by omega, hj, (Cursor.atIndex_eq ts j).symm⟩

theorem advances_identifier (ts : List Lexeme) : Advances ts identifier :=
  advances_of_drop fun _ hk v r hyields =>
    let ⟨j, _, hj, hr⟩ := exists_drop_of_isSuffix hk ((leavesEnd_identifier _).yields v r hyields)
    ⟨j, hj, hr⟩

theorem tokenAt?_of_drop {k : Nat} {l : Lexeme} {rest : List Lexeme}
    (h : ts.drop k = l :: rest) : k < ts.length ∧ tokenAt? ts k = some l.token ∧
      rest = ts.drop (k + 1) := by
  have hk : k < ts.length := by
    by_contra hge
    rw [List.drop_eq_nil_of_le (Nat.le_of_not_lt hge)] at h
    cases h
  rw [List.drop_eq_getElem_cons hk] at h
  obtain ⟨rfl, rfl⟩ := List.cons.inj h
  exact ⟨hk, by simp [tokenAt?, hk], rfl⟩

theorem drop_of_tokenAt? {k : Nat} {t : Token} (h : tokenAt? ts k = some t) :
    ∃ l, ts.drop k = l :: ts.drop (k + 1) ∧ l.token = t := by
  obtain ⟨l, hl, rfl⟩ := Option.map_eq_some_iff.mp h
  obtain ⟨hk, rfl⟩ := List.getElem?_eq_some_iff.mp hl
  exact ⟨_, List.drop_eq_getElem_cons hk, rfl⟩

theorem tokenAt?_ne_iff {k : Nat} {t : Token} : tokenAt? ts k ≠ some t ↔
    ∀ l rest, ts.drop k = l :: rest → l.token ≠ t := by
  constructor
  · rintro h l rest hdrop rfl
    exact h (tokenAt?_of_drop hdrop).2.1
  · intro h hat
    obtain ⟨l, hdrop, hl⟩ := drop_of_tokenAt? hat
    exact h l _ hdrop hl

/-- What an item leaves, by the token that follows it. -/
theorem Placed.IsFound.yields {p : Placed α} (h : p.IsFound ts item) {t : Token}
    (ht : tokenAt? ts p.stop = some t) :
    ∃ l, l.token = t ∧ Yields (item (ts.drop p.start)) p.value (l :: ts.drop (p.stop + 1)) := by
  obtain ⟨l, hdrop, hl⟩ := drop_of_tokenAt? ht
  exact ⟨l, hl, hdrop ▸ isFound_iff.mp h⟩

theorem eq_of_drop_eq {j k : Nat} (hj : j ≤ ts.length) (hk : k ≤ ts.length)
    (h : ts.drop j = ts.drop k) : j = k := by
  have hlength := congrArg List.length h
  simp only [List.length_drop] at hlength
  omega

/-! ### Listings are what is read -/

/-- The list that is closed at once. -/
theorem empty_iff {i j : Nat} (hj : j ≤ ts.length) {xs : List α} :
    (∃ l, ts.drop i = l :: ts.drop j ∧ l.token = closing ∧ xs = []) ↔
      tokenAt? ts i = some closing ∧ xs = [] ∧ j = i + 1 := by
  constructor
  · rintro ⟨l, hdrop, rfl, rfl⟩
    obtain ⟨hlt, hat, hrest⟩ := tokenAt?_of_drop hdrop
    exact ⟨hat, rfl, eq_of_drop_eq hj hlt hrest⟩
  · rintro ⟨hat, rfl, rfl⟩
    obtain ⟨l, hdrop, hl⟩ := drop_of_tokenAt? hat
    exact ⟨l, hdrop, hl, rfl⟩

theorem IsListing.induction {motive : Nat → List (Placed α) → Prop} {i j : Nat}
    {ps : List (Placed α)} (h : IsListing ts item closing i ps j)
    (last : ∀ p l, l.token = closing → Yields (item (ts.drop p.start)) p.value (l :: ts.drop j) →
      motive p.start [p])
    (more : ∀ p ps l, l.token = .mark .comma →
      Yields (item (ts.drop p.start)) p.value (l :: ts.drop (p.stop + 1)) →
      motive (p.stop + 1) ps → motive p.start (p :: ps)) : motive i ps := by
  induction ps generalizing i with
  | nil => exact absurd rfl h.ne_nil
  | cons p ps ih =>
    -- Whether a comma or the closing token is behind an item depends on whether others follow.
    cases ps with
    | nil =>
      obtain ⟨hfound, rfl, htoken, rfl⟩ := isListing_singleton_iff.mp h
      obtain ⟨l, hl, hitem⟩ := hfound.yields htoken
      exact last p l hl hitem
    | cons q ps =>
      obtain ⟨hfound, rfl, htoken, hrest⟩ := isListing_cons_cons_iff.mp h
      obtain ⟨l, hl, hitem⟩ := hfound.yields htoken
      exact more p (q :: ps) l hl hitem (ih hrest)

theorem IsListing.listed (hclosing : closing ≠ .mark .comma) {ps : List (Placed α)} {i j : Nat}
    (h : IsListing ts item closing i ps j) :
    Listed (fun us w rest => Yields (item us) w rest) closing (ts.drop i) (ps.map Placed.value)
      (ts.drop j) := by
  refine h.induction (motive := fun i ps => Listed _ closing (ts.drop i) (ps.map Placed.value) _)
    ?_ ?_
  · rintro p l rfl hitem
    exact .last hitem hclosing rfl
  · intro p ps l hcomma hitem hrest
    exact .more hitem hcomma hrest

theorem exists_isListing_of_listed (hitem : Advances ts item) {q r : List Lexeme} {xs : List α}
    (h : Listed (fun us w rest => Yields (item us) w rest) closing q xs r) {i : Nat}
    (hi : i ≤ ts.length) (hq : q = ts.drop i) : ∃ ps j, IsListing ts item closing i ps j ∧
      j ≤ ts.length ∧ ps.map Placed.value = xs ∧ r = ts.drop j := by
  induction h generalizing i with
  | @last x l q r hx _ htoken =>
    subst hq
    obtain ⟨k, -, -, hk⟩ := hitem.of_yields hi hx
    obtain ⟨hlt, hat, rfl⟩ := tokenAt?_of_drop hk.symm
    rw [hk] at hx
    exact ⟨[⟨i, x, k⟩], k + 1, isListing_singleton_iff.mpr
      ⟨isFound_iff.mpr hx, rfl, by rw [hat, htoken], rfl⟩, hlt, rfl, rfl⟩
  | @more x xs l q rest r hx hcomma _ ih =>
    subst hq
    obtain ⟨k, -, -, hk⟩ := hitem.of_yields hi hx
    obtain ⟨hlt, hat, hrest⟩ := tokenAt?_of_drop hk.symm
    rw [hk] at hx
    obtain ⟨ps, j, hlisting, hj, hvalues, hr⟩ := ih (i := k + 1) hlt hrest
    obtain ⟨p, ps, rfl⟩ := List.exists_cons_of_ne_nil hlisting.ne_nil
    refine ⟨⟨i, x, k⟩ :: p :: ps, j, isListing_cons_cons_iff.mpr
      ⟨isFound_iff.mpr hx, rfl, by rw [hat, hcomma], hlisting⟩, hj, ?_, hr⟩
    rw [List.map_cons, hvalues]

/-- A list of items that advance does so too. -/
theorem Advances.listOf (hitem : Advances ts item) (closing : Token) :
    Advances ts (listOf item closing) := by
  refine advances_of_drop fun k hk xs r hyields => ?_
  rcases yields_commaSeparated_iff.mp hyields with ⟨l, hdrop, -, -⟩ | ⟨-, hlist⟩
  · obtain ⟨hlt, -, hr⟩ := tokenAt?_of_drop hdrop
    exact ⟨k + 1, hlt, hr⟩
  · obtain ⟨-, j, -, hj, -, hr⟩ := exists_isListing_of_listed hitem hlist hk rfl
    exact ⟨j, hj, hr⟩

theorem listed_iff (hitem : Advances ts item) (hclosing : closing ≠ .mark .comma) {i j : Nat}
    (hi : i ≤ ts.length) (hj : j ≤ ts.length) {xs : List α} :
    Listed (fun us w rest => Yields (item us) w rest) closing (ts.drop i) xs (ts.drop j) ↔
      ∃ ps, IsListing ts item closing i ps j ∧ ps.map Placed.value = xs := by
  constructor
  · intro h
    obtain ⟨ps, j', hlisting, hj', hvalues, hr⟩ := exists_isListing_of_listed hitem h hi rfl
    obtain rfl := eq_of_drop_eq hj hj' hr
    exact ⟨ps, hlisting, hvalues⟩
  · rintro ⟨ps, hlisting, rfl⟩
    exact hlisting.listed hclosing

/-- A list breaks where it lacks an item behind a comma. -/
theorem IsListing.broken {ps : List (Placed α)} {i k : Nat}
    (h : IsListing ts item (.mark .comma) i ps k) {e : Stuck} (he : Fails (item (ts.drop k)) e) :
    ListBroken item closing (ts.drop i) e := by
  refine h.induction (motive := fun i _ => ListBroken item closing (ts.drop i) e) ?_ ?_
  · intro p l hcomma hitem
    exact .more hitem hcomma (.item he)
  · intro p ps l hcomma hitem hrest
    exact .more hitem hcomma hrest

theorem not_listed_comma {q r : List Lexeme} {xs : List α} :
    ¬Listed (fun us w rest => Yields (item us) w rest) (.mark .comma) q xs r := by
  intro h
  induction h with
  | last _ hne heq => exact hne heq
  | more _ _ _ ih => exact ih

/-- Whatever parser that advances reads the items, from every place among lexemes: the list parser
advances as well.  Unless a comma closes it, a list is accepted exactly if it is closed at once and
empty, or if it is not and has a listing, whose values it yields in order.  Behind an item and a
comma, the list fails if no other item is found there.  A list that a comma closes is accepted only
if it is empty. -/
theorem listOf_exact (ts : List Lexeme) {item : Parser α} (hitem : Advances ts item)
    (closing : Token) {i : Nat} (hi : i ≤ ts.length) :
    Advances ts (listOf item closing) ∧
    (closing ≠ .mark .comma → ∀ j ≤ ts.length, ∀ xs,
      (Cursor.atIndex ts i).run (listOf item closing) = (.ok xs, Cursor.atIndex ts j) ↔
        (tokenAt? ts i = some closing ∧ xs = [] ∧ j = i + 1) ∨
        (tokenAt? ts i ≠ some closing ∧
          ∃ ps, IsListing ts item closing i ps j ∧ ps.map Placed.value = xs)) ∧
    (tokenAt? ts i ≠ some closing → ∀ ps k, IsListing ts item (.mark .comma) i ps k →
      ∀ e c, (Cursor.atIndex ts k).run item = (.error e, c) →
        (Cursor.atIndex ts i).run (listOf item closing) = (.error e, c)) ∧
    (closing = .mark .comma → ∀ xs c,
      (Cursor.atIndex ts i).run (listOf item closing) = (.ok xs, c) → xs = []) := by
  refine ⟨hitem.listOf closing, fun hclosing j hj xs => ?_, fun hne ps k hlisting e c herror => ?_,
    fun hclosing xs c hrun => ?_⟩
  · rw [Cursor.atIndex_eq, Cursor.atIndex_eq, run_eq_ok_iff]
    simp only [and_true, listOf]
    rw [yields_commaSeparated_iff, empty_iff hj, ← tokenAt?_ne_iff, listed_iff hitem hclosing hi hj]
  · rw [Cursor.atIndex_eq, run_eq_error_iff] at herror ⊢
    obtain ⟨hfails, hend, heq⟩ := herror
    have hlacks : Lacks (· = closing) (ts.drop i) := by
      cases hdrop : ts.drop i with
      | nil => trivial
      | cons l rest => exact tokenAt?_ne_iff.mp hne l rest hdrop
    exact ⟨fails_commaSeparated_iff.mpr ⟨hlacks, hlisting.broken hfails⟩, hend, heq⟩
  · obtain ⟨hyields, -⟩ := run_eq_ok_iff.mp hrun
    rcases yields_commaSeparated_iff.mp hyields with ⟨-, -, -, hxs⟩ | ⟨-, hlist⟩
    · exact hxs
    · rw [hclosing] at hlist
      exact absurd hlist not_listed_comma

theorem isFound_identifier {k : Nat} {s : String} (htoken : tokenAt? ts k = some (.word s))
    (hs : Word.isIdentifier s = true) : Placed.IsFound ts identifier ⟨k, s, k + 1⟩ := by
  obtain ⟨l, hdrop, hl⟩ := drop_of_tokenAt? htoken
  exact isFound_iff.mpr (yields_identifier_iff.mpr ⟨l, hdrop, hl, hs⟩)

/-- Two names up to a closing parenthesis, which are not a list up to a comma, and a name with a
comma behind it, where the closing parenthesis is no name. -/
theorem listOf_exact_names :
    let names := tokenize "f(a, b)"
    let trailing := tokenize "f(a,)"
    (Advances names identifier ∧ (2 ≤ names.length ∧ 6 ≤ names.length) ∧
      (Cursor.atIndex names 2).run (listOf identifier (.mark .rightParen)) =
        (.ok ["a", "b"], Cursor.atIndex names 6)) ∧
    (∀ c, (Cursor.atIndex names 2).run (listOf identifier (.mark .comma)) ≠ (.ok ["a", "b"], c)) ∧
    (2 ≤ trailing.length ∧
      (Cursor.atIndex trailing 2).run (listOf identifier (.mark .rightParen)) =
        (.error ((Cursor.atIndex trailing 4).error .identifier), Cursor.atIndex trailing 4)) := by
  intro names trailing
  have hlength : 2 ≤ names.length ∧ 6 ≤ names.length := by decide +kernel
  have hlength' : 2 ≤ trailing.length := by decide +kernel
  have hidentifier := advances_identifier names
  have ha : Placed.IsFound names identifier ⟨2, "a", 3⟩ :=
    isFound_identifier (by decide +kernel) (by decide +kernel)
  have hb : Placed.IsFound names identifier ⟨4, "b", 5⟩ :=
    isFound_identifier (by decide +kernel) (by decide +kernel)
  have hnames : IsListing names identifier (.mark .rightParen) 2 [⟨2, "a", 3⟩, ⟨4, "b", 5⟩] 6 :=
    isListing_cons_cons_iff.mpr ⟨ha, rfl, by decide +kernel,
      isListing_singleton_iff.mpr ⟨hb, rfl, by decide +kernel, rfl⟩⟩
  have htrailing : IsListing trailing identifier (.mark .comma) 2 [⟨2, "a", 3⟩] 4 :=
    isListing_singleton_iff.mpr
      ⟨isFound_identifier (by decide +kernel) (by decide +kernel), rfl, by decide +kernel, rfl⟩
  obtain ⟨-, haccepted, -, -⟩ := listOf_exact names hidentifier (.mark .rightParen) hlength.1
  obtain ⟨-, -, -, hcomma⟩ := listOf_exact names hidentifier (.mark .comma) hlength.1
  obtain ⟨-, -, hbroken, -⟩ :=
    listOf_exact trailing (advances_identifier trailing) (.mark .rightParen) hlength'
  refine ⟨⟨hidentifier, hlength, ?_⟩, fun c hrun => ?_, hlength', ?_⟩
  · exact (haccepted (by decide) 6 hlength.2 _).mpr
      (.inr ⟨by decide +kernel, [⟨2, "a", 3⟩, ⟨4, "b", 5⟩], hnames, rfl⟩)
  · exact absurd (hcomma rfl _ c hrun) (by decide)
  · exact hbroken (by decide +kernel) [⟨2, "a", 3⟩] 4 htrailing _ _ rfl

end Imperative.Parser
