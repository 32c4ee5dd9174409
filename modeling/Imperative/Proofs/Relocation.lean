import Imperative.Proofs.Failing
import Imperative.Proofs.Lines

/-! The places of lexemes do not matter to the parsers, and neither do the lexemes behind the place
where a parser stopped.  No parser looks at a line or a number, and none looks further than the next
lexeme.  So with its lexemes moved to other places and more lexemes behind the last, a parser does
the same, up to the lines in its tree, provided that it left a lexeme or that what stands behind the
last does not continue what it read.  Without that proviso, a name at the end may still turn out to
be assigned to. -/

namespace Imperative

/-- New places for lexemes, and the lexemes that then stand behind the last. -/
structure Relocation where
  line : Nat → Nat
  index : Nat → Nat
  behind : List Lexeme

namespace Relocation

variable (m : Relocation)

/-- The lexeme at its new place. -/
def move (l : Lexeme) : Lexeme := ⟨l.token, m.line l.position.line, m.index l.position.index⟩

/-- The lexemes at their new places, with those behind the last. -/
def apply (ts : List Lexeme) : List Lexeme := ts.map m.move ++ m.behind

/-- Something is left, or else the condition on what stands behind holds. -/
def Fits (stop : Prop) (r : List Lexeme) : Prop := r = [] → stop

/-- Every lexeme stays where it is, and more stand behind. -/
def extend (more : List Lexeme) : Relocation := ⟨id, id, more⟩

theorem apply_extend (more ts : List Lexeme) : (extend more).apply ts = ts ++ more := by
  have hmove : (extend more).move = id := rfl
  rw [apply, hmove, List.map_id]
  rfl

/-- Every lexeme moves, and nothing stands behind. -/
def only (line index : Nat → Nat) : Relocation := ⟨line, index, []⟩

theorem apply_only (line index : Nat → Nat) (ts : List Lexeme) :
    (only line index).apply ts = ts.map (only line index).move := List.append_nil _

variable {m} {stop stop' : Prop} {r : List Lexeme}

theorem fits_cons (l : Lexeme) (r : List Lexeme) : Fits stop (l :: r) :=
  fun h => absurd h (List.cons_ne_nil l r)

theorem fits_of_ne_nil (h : r ≠ []) : Fits stop r := fun hr => absurd hr h

theorem Fits.imp (h : Fits stop r) (himp : stop → stop') : Fits stop' r := fun hr => himp (h hr)

end Relocation

open Relocation

namespace Parser

variable {α : Type} {m : Relocation} {stop : Prop} {relabel : α → α} {ts q r : List Lexeme}
  {e : Stuck}

/-- The parser does the same with `ts` moved, if it leaves one of them or `stop` holds; and it fails
in the same way, if that is before one of them or nothing stands behind. -/
structure Relocates (m : Relocation) (stop : Prop) (relabel : α → α) (parser : Parser α)
    (ts : List Lexeme) : Prop where
  yields : ∀ {v r}, Yields (parser ts) v r → Fits stop r →
    Yields (parser (m.apply ts)) (relabel v) (m.apply r)
  fails : ∀ {e}, Fails (parser ts) e → Fits (m.behind = []) e.rest →
    Fails (parser (m.apply ts)) ⟨e.expected, m.apply e.rest⟩

/-! ### Next lexemes -/

theorem Lacks.apply {kind : Token → Prop} (h : Lacks kind r) (hr : Fits (m.behind = []) r) :
    Lacks kind (m.apply r) := by
  cases r with
  | nil =>
    show Lacks kind m.behind
    rw [hr rfl]
    exact h
  | cons l r => exact h

theorem Stops.apply {β : Type} {link : Token → Option β} (h : Stops link r)
    (hr : Fits (Stops link m.behind) r) : Stops link (m.apply r) := by
  cases r with
  | nil => exact hr rfl
  | cons l r => exact h

theorem EndsName.apply (h : EndsName r) (hr : Fits (Closed m.behind) r) :
    EndsName (m.apply r) := by
  cases r with
  | nil => exact (hr rfl).endsName
  | cons l r => exact h

theorem closed_of_eq_nil (h : r = []) : Closed r := by
  subst h
  trivial

theorem Yields.ne_nil {result : Result α ts} {v : α} (h : Yields result v r) : ts ≠ [] := by
  rintro rfl
  exact absurd h.shorter (Nat.not_lt_zero _)

theorem Yields.fits {result : Result α ts} {v : α} (h : Yields result v r) : Fits stop ts :=
  fits_of_ne_nil h.ne_nil

/-- The parser may be moved if what stands behind does not continue an expression. -/
abbrev Moves (m : Relocation) (relabel : α → α) (parser : Parser α) (ts : List Lexeme) : Prop :=
  Relocates m (Closed m.behind) relabel parser ts

theorem identifier_moves (m : Relocation) (ts : List Lexeme) : Moves m id identifier ts where
  yields h _ := by
    obtain ⟨l, rfl, hl⟩ := yields_identifier_iff.mp h
    exact yields_identifier_iff.mpr ⟨m.move l, rfl, hl⟩
  fails h hrest := by
    obtain ⟨hlacks, rfl⟩ := fails_identifier_iff.mp h
    exact fails_identifier_iff.mpr ⟨hlacks.apply hrest, rfl⟩

/-! ### Pairs and chains -/

section Chains

variable {link : Token → Option (α → α → α)} {first item parser : Parser α}

/-- Joining two items and then relabelling is joining the relabelled ones. -/
def JoinsRelabelled (link : Token → Option (α → α → α)) (relabel : α → α) : Prop :=
  ∀ t join, link t = some join → ∀ a b, relabel (join a b) = join (relabel a) (relabel b)

theorem relocates_pair (hjoin : JoinsRelabelled link relabel) (hstop : stop → Stops link m.behind)
    (heq : ∀ us, parser us = pair (first us) (fun r _ => item r) link)
    (hfirst : Relocates m stop relabel first ts)
    (hitem : ∀ us, us.length < ts.length → Relocates m stop relabel item us) :
    Relocates m stop relabel parser ts where
  yields h hr := by
    rw [heq] at h ⊢
    apply yields_pair_iff.mpr
    rcases yields_pair_iff.mp h with
      ⟨hone, hstops⟩ | ⟨left, l, rest, join, right, hleft, hl, hright, rfl⟩
    · exact .inl ⟨hfirst.yields hone hr, hstops.apply (hr.imp hstop)⟩
    · have hlength : rest.length < ts.length := Nat.lt_of_succ_lt hleft.shorter
      have hleft' := hfirst.yields hleft (fits_cons l rest)
      exact .inr ⟨relabel left, m.move l, m.apply rest, join, relabel right, hleft', hl,
        (hitem rest hlength).yields hright hr, (hjoin l.token join hl left right).symm⟩
  fails h hrest := by
    rw [heq] at h ⊢
    apply fails_pair_iff.mpr
    rcases fails_pair_iff.mp h with hone | ⟨left, l, rest, join, hleft, hl, hright⟩
    · exact .inl (hfirst.fails hone hrest)
    · have hlength : rest.length < ts.length := Nat.lt_of_succ_lt hleft.shorter
      have hleft' := hfirst.yields hleft (fits_cons l rest)
      exact .inr ⟨relabel left, m.move l, m.apply rest, join, hleft', hl,
        (hitem rest hlength).fails hright hrest⟩

theorem Chained.fits {rule : List Lexeme → α → List Lexeme → Prop} {left v : α}
    (h : Chained rule link left q v r) (hr : Fits stop r) : Fits stop q := by
  cases h with
  | stop _ => exact hr
  | step _ _ _ => exact fits_cons _ _

theorem Chained.stops {rule : List Lexeme → α → List Lexeme → Prop} {left v : α}
    (h : Chained rule link left q v r) : Stops link r := by
  induction h with
  | stop hstops => exact hstops
  | step _ _ _ ih => exact ih

/-- A chain that is moved may go on where it stopped. -/
theorem Chained.relocate (hjoin : JoinsRelabelled link relabel)
    (hitem : ∀ us, us.length < ts.length → Relocates m stop relabel item us) {left v w : α}
    {r' : List Lexeme} (h : Chained (fun us w rest => Yields (item us) w rest) link left q v r)
    (hr : Fits stop r) (hq : q.length ≤ ts.length)
    (hend : Chained (fun us w rest => Yields (item us) w rest) link (relabel v) (m.apply r) w r') :
    Chained (fun us w rest => Yields (item us) w rest) link (relabel left) (m.apply q) w r' := by
  induction h with
  | stop hstops => exact hend
  | @step left right v l rest rest' r join hl hright hrest ih =>
    have hshorter := hright.shorter
    simp only [List.length_cons] at hq
    -- An item that leaves nothing is the last one, and then `hr` speaks of what stands behind it.
    refine .step hl ((hitem rest (by omega)).yields hright (hrest.fits hr)) ?_
    rw [← hjoin l.token join hl]
    exact ih hr (by omega) hend

theorem Broken.relocate (hitem : ∀ us, us.length < ts.length → Relocates m stop relabel item us)
    (h : Broken item link q e) (he : Fits (m.behind = []) e.rest) (hq : q.length ≤ ts.length) :
    Broken item link (m.apply q) ⟨e.expected, m.apply e.rest⟩ := by
  induction h with
  | @item l rest e join hl hfails =>
    simp only [List.length_cons] at hq
    exact .item hl ((hitem rest (by omega)).fails hfails he)
  | @step l rest rest' e join right hl hright hrest ih =>
    have hshorter := hright.shorter
    have hne : rest' ≠ [] := by
      rintro rfl
      cases hrest
    simp only [List.length_cons] at hq
    refine .step hl ((hitem rest (by omega)).yields hright (fits_of_ne_nil hne)) ?_
    exact ih he (by omega)

theorem relocates_chain {stop' : Prop} (hjoin : JoinsRelabelled link relabel)
    (hstop : stop' → stop ∧ Stops link m.behind)
    (heq : ∀ us, parser us = chain (first us) (fun r _ => item r) link)
    (hfirst : Relocates m stop relabel first ts)
    (hitem : ∀ us, us.length < ts.length → Relocates m stop relabel item us) :
    Relocates m stop' relabel parser ts where
  yields h hr := by
    rw [heq] at h ⊢
    obtain ⟨left, q, hleft, hchain⟩ := yields_chain_iff.mp h
    have hfits : Fits stop _ := hr.imp fun h => (hstop h).1
    have hstops := hchain.stops.apply (hr.imp fun h => (hstop h).2)
    exact yields_chain_iff.mpr ⟨relabel left, m.apply q, hfirst.yields hleft (hchain.fits hfits),
      hchain.relocate hjoin hitem hfits (Nat.le_of_lt hleft.shorter) (.stop hstops)⟩
  fails h hrest := by
    rw [heq] at h ⊢
    apply fails_chain_iff.mpr
    rcases fails_chain_iff.mp h with h | ⟨left, q, hleft, hbroken⟩
    · exact .inl (hfirst.fails h hrest)
    · have hq : q ≠ [] := by
        rintro rfl
        cases hbroken
      exact .inr ⟨relabel left, m.apply q, hfirst.yields hleft (fits_of_ne_nil hq),
        hbroken.relocate hitem hrest (Nat.le_of_lt hleft.shorter)⟩

end Chains

/-! ### Lists -/

section Lists

variable {item : Parser α} {closing : Token}

theorem Listed.relocate (hitem : ∀ us, us.length ≤ ts.length → Relocates m stop relabel item us)
    {xs : List α} (h : Listed (fun us w rest => Yields (item us) w rest) closing q xs r)
    (hq : q.length ≤ ts.length) :
    Listed (fun us w rest => Yields (item us) w rest) closing (m.apply q) (xs.map relabel)
      (m.apply r) := by
  induction h with
  | last hx hcomma hclosing =>
    exact .last ((hitem _ hq).yields hx (fits_cons _ _)) hcomma hclosing
  | more hx hcomma _ ih =>
    have hshorter := hx.shorter
    simp only [List.length_cons] at hshorter
    exact .more ((hitem _ hq).yields hx (fits_cons _ _)) hcomma (ih (by omega))

theorem ListBroken.relocate (hstop : m.behind = [] → stop)
    (hitem : ∀ us, us.length ≤ ts.length → Relocates m stop relabel item us)
    (h : ListBroken item closing q e) (he : Fits (m.behind = []) e.rest)
    (hq : q.length ≤ ts.length) :
    ListBroken item closing (m.apply q) ⟨e.expected, m.apply e.rest⟩ := by
  induction h with
  | item hfails => exact .item ((hitem _ hq).fails hfails he)
  | stop hx hlacks => exact .stop ((hitem _ hq).yields hx (he.imp hstop)) (hlacks.apply he)
  | more hx hcomma _ ih =>
    have hshorter := hx.shorter
    simp only [List.length_cons] at hshorter
    exact .more ((hitem _ hq).yields hx (fits_cons _ _)) hcomma (ih he (by omega))

/-- A list may be moved if its items may, and if an item that finds nothing leaves nothing. -/
theorem relocates_commaSeparated (hstop : m.behind = [] → stop)
    (hnil : ∀ e, Fails (item []) e → e.rest = [])
    (hitem : ∀ us, us.length ≤ ts.length → Relocates m stop relabel item us) :
    Relocates m stop (List.map relabel) (fun us => commaSeparated closing us fun r _ => item r)
      ts where
  yields h _ := by
    apply yields_commaSeparated_iff.mpr
    rcases yields_commaSeparated_iff.mp h with ⟨l, rfl, hl, rfl⟩ | ⟨hclosing, hlist⟩
    · exact .inl ⟨m.move l, rfl, hl, rfl⟩
    · refine .inr ⟨fun l rest heq => ?_, hlist.relocate hitem (Nat.le_refl _)⟩
      cases hts : ts with
      | nil => exact absurd hts h.ne_nil
      | cons l' rest' =>
        rw [hts] at heq
        cases heq
        exact hclosing l' rest' hts
  fails h hrest := by
    obtain ⟨hlacks, hbroken⟩ := fails_commaSeparated_iff.mp h
    -- Without any lexeme the first item fails at the end, where nothing stands behind.
    have hfits : Fits (m.behind = []) ts := by
      rintro rfl
      cases hbroken with
      | item hfails => exact hrest (hnil _ hfails)
      | stop hx _ => exact absurd rfl hx.ne_nil
      | more hx _ _ => exact absurd rfl hx.ne_nil
    exact fails_commaSeparated_iff.mpr
      ⟨hlacks.apply hfits, hbroken.relocate hstop hitem hrest (Nat.le_refl _)⟩

end Lists

/-! ### Expressions -/

/-- Where nothing is, no expression is found. -/
theorem condition_nil (h : Fails (condition []) e) : e.rest = [] := by
  have hprimary : Fails (primary []) e := by
    rcases fails_condition_iff.mp h with h | ⟨_, _, _, _, h, -⟩
    · rcases fails_additive_iff.mp h with h | ⟨_, _, h, -⟩
      · rcases fails_multiplicative_iff.mp h with h | ⟨_, _, h, -⟩
        · rcases fails_power_iff.mp h with h | ⟨_, _, _, _, h, -⟩
          · exact h
          · exact absurd rfl h.ne_nil
        · exact absurd rfl h.ne_nil
      · exact absurd rfl h.ne_nil
    · exact absurd rfl h.ne_nil
  cases fails_primary_iff.mp hprimary
  rfl

theorem joins_relabelled (f : Nat → Nat) (ops : List Operator) :
    JoinsRelabelled (joins ops) (Expr.mapLines f) := by
  intro t join hjoin a b
  obtain ⟨op, -, -, rfl⟩ := joins_eq_some_iff.mp hjoin
  rfl

/-- The parsers of expressions may be moved on `ts`. -/
structure ExpressionsMove (m : Relocation) (ts : List Lexeme) : Prop where
  primary : Moves m (Expr.mapLines m.line) primary ts
  power : Moves m (Expr.mapLines m.line) power ts
  product : Moves m (Expr.mapLines m.line) multiplicative ts
  sum : Moves m (Expr.mapLines m.line) additive ts
  condition : Moves m (Expr.mapLines m.line) condition ts

theorem arguments_move
    (ih : ∀ us, us.length ≤ ts.length → Moves m (Expr.mapLines m.line) condition us) :
    Moves m (List.map (Expr.mapLines m.line))
      (fun us => commaSeparated (.mark .rightParen) us fun r _ => condition r) ts :=
  relocates_commaSeparated closed_of_eq_nil (fun _ => condition_nil) ih

theorem primary_moves (ih : ∀ us, us.length < ts.length → ExpressionsMove m us) :
    Moves m (Expr.mapLines m.line) primary ts where
  yields h hr := by
    apply yields_primary_iff.mpr
    cases yields_primary_iff.mp h with
    | @group l l' us r e hl hinner hclose =>
      exact .group hl ((ih us (by simp)).condition.yields hinner (fits_cons _ _)) hclose
    | @assign l c q us r s e hl hs hc hq hvalue =>
      exact .assign hl hs hc hq ((ih us (by simp; omega)).condition.yields hvalue hr)
    | @call l p us r s es hl hs hp harguments =>
      have ih' (vs : List Lexeme) (hvs : vs.length ≤ us.length) :
          Moves m (Expr.mapLines m.line) condition vs := (ih vs (by simp; omega)).condition
      rw [Expr.mapLines, argumentsMapLines_eq_map]
      exact .call hl hs hp ((arguments_move ih').yields harguments hr)
    | var hl hs hends => exact .var hl hs (hends.apply hr)
    | literal hl hs hnumeral hx => exact .literal hl hs hnumeral hx
  fails h hrest := by
    apply fails_primary_iff.mpr
    have hclosed := hrest.imp closed_of_eq_nil
    cases fails_primary_iff.mp h with
    | start hlacks => exact .start (hlacks.apply hrest)
    | @group l us e hl hinner => exact .group hl ((ih us (by simp)).condition.fails hinner hrest)
    | @group_close l us r inner hl hinner hlacks =>
      exact .group_close hl ((ih us (by simp)).condition.yields hinner hclosed)
        (hlacks.apply hrest)
    | assign hl hs hc hlacks => exact .assign hl hs hc (hlacks.apply hrest)
    | @assign_value l c q us s e hl hs hc hq hvalue =>
      exact .assign_value hl hs hc hq ((ih us (by simp; omega)).condition.fails hvalue hrest)
    | @call l p us s e hl hs hp harguments =>
      have ih' (vs : List Lexeme) (hvs : vs.length ≤ us.length) :
          Moves m (Expr.mapLines m.line) condition vs := (ih vs (by simp; omega)).condition
      exact .call hl hs hp ((arguments_move ih').fails harguments hrest)
    | literal hl hs hnumeral hx => exact .literal hl hs hnumeral hx

theorem expressions_move (m : Relocation) (ts : List Lexeme) : ExpressionsMove m ts := by
  induction hn : ts.length using Nat.strongRecOn generalizing ts with
  | _ n ih =>
  have ih' (us : List Lexeme) (hus : us.length < ts.length) : ExpressionsMove m us :=
    ih us.length (by omega) us rfl
  have hstop (ops : List Operator) (h : Closed m.behind) : Stops (joins ops) m.behind :=
    h.stops ops
  have hprimary : Moves m (Expr.mapLines m.line) primary ts := primary_moves ih'
  have hpower : Moves m (Expr.mapLines m.line) power ts :=
    relocates_pair (joins_relabelled _ _) (hstop powers) (fun us => by rw [power]) hprimary
      fun us hus => (ih' us hus).power
  have hproduct : Moves m (Expr.mapLines m.line) multiplicative ts :=
    relocates_chain (joins_relabelled _ _) (fun h => ⟨h, hstop products h⟩)
      (fun us => by rw [multiplicative]) hpower fun us hus => (ih' us hus).power
  have hsum : Moves m (Expr.mapLines m.line) additive ts :=
    relocates_chain (joins_relabelled _ _) (fun h => ⟨h, hstop sums h⟩)
      (fun us => by rw [additive]) hproduct fun us hus => (ih' us hus).product
  have hcondition : Moves m (Expr.mapLines m.line) condition ts :=
    relocates_pair (joins_relabelled _ _) (hstop comparisons) (fun us => by rw [condition]) hsum
      fun us hus => (ih' us hus).sum
  exact ⟨hprimary, hpower, hproduct, hsum, hcondition⟩

theorem condition_moves (m : Relocation) (ts : List Lexeme) :
    Moves m (Expr.mapLines m.line) condition ts := (expressions_move m ts).condition

/-! ### Statements -/

theorem sequences_relabelled (f : Nat → Nat) :
    JoinsRelabelled sequences (Statement.mapLines f) := by
  intro t join hjoin a b
  obtain ⟨-, rfl⟩ := sequences_eq_some_iff.mp hjoin
  rfl

/-- The parsers of statements may be moved on `ts`; statements also if a semicolon stands behind,
which would continue a program. -/
structure StatementsMove (m : Relocation) (ts : List Lexeme) : Prop where
  statement : Moves m (Statement.mapLines m.line) statement ts
  program : Relocates m (Closed m.behind ∧ Stops sequences m.behind) (Statement.mapLines m.line)
    program ts
  block : Moves m (Statement.mapLines m.line) block ts

theorem parameters_move (m : Relocation) (ts : List Lexeme) :
    Moves m id (fun us => commaSeparated (.mark .rightParen) us fun r _ => identifier r) ts := by
  rw [← List.map_id_fun]
  refine relocates_commaSeparated closed_of_eq_nil (fun e h => ?_) fun us _ =>
    identifier_moves m us
  rw [(fails_identifier_iff.mp h).2]

/-- A block that fails before some lexeme did not begin at the end. -/
theorem fits_of_block_fails (h : Fails (block ts) e) (he : Fits (m.behind = []) e.rest) :
    Fits (Closed m.behind) ts := by
  rintro rfl
  cases fails_block_iff.mp h
  exact closed_of_eq_nil (he rfl)

theorem block_moves (ih : ∀ us, us.length < ts.length → StatementsMove m us) :
    Moves m (Statement.mapLines m.line) block ts where
  yields h _ := by
    obtain ⟨l, us, l', rfl, hl, hbody, hl'⟩ := yields_block_iff.mp h
    have hbody' := (ih us (by simp)).program.yields hbody (fits_cons _ _)
    exact yields_block_iff.mpr ⟨m.move l, m.apply us, m.move l', rfl, hl, hbody', hl'⟩
  fails h hrest := by
    apply fails_block_iff.mpr
    cases fails_block_iff.mp h with
    | start hlacks => exact .start (hlacks.apply hrest)
    | @body l us e hl hbody => exact .body hl ((ih us (by simp)).program.fails hbody hrest)
    | @close l us r s hl hbody hlacks =>
      have hstop : m.behind = [] → Closed m.behind ∧ Stops sequences m.behind := by
        intro hnil
        rw [hnil]
        exact ⟨trivial, trivial⟩
      exact .close hl ((ih us (by simp)).program.yields hbody (hrest.imp hstop))
        (hlacks.apply hrest)

/-- The lexemes behind the parameters of a procedure are fewer than its own. -/
theorem length_behind_parameters {k l : Lexeme} {us vs ws : List Lexeme} {name : String}
    {ps : List String} (hname : Yields (identifier us) name (l :: vs))
    (hparameters : Yields (commaSeparated (.mark .rightParen) vs fun r _ => identifier r) ps ws) :
    ws.length < (k :: us).length := by
  have hvs := hname.shorter
  have hws := hparameters.shorter
  simp only [List.length_cons] at *
  omega

/-- The lexemes behind a guard and a block are fewer than those of the whole. -/
theorem length_behind_block {k l : Lexeme} {us vs ws : List Lexeme} {guard : Expr}
    {yes : Statement} (hguard : Yields (condition us) guard vs)
    (hyes : Yields (block vs) yes (l :: ws)) : ws.length < (k :: us).length := by
  have hvs := hguard.shorter
  have hws := hyes.shorter
  simp only [List.length_cons] at *
  omega

theorem statement_moves (ih : ∀ us, us.length < ts.length → StatementsMove m us) :
    Moves m (Statement.mapLines m.line) statement ts where
  yields h hr := by
    apply yields_statement_iff.mpr
    cases yields_statement_iff.mp h with
    | @procedure k l us vs ws r name ps body hk hname hl hparameters hbody =>
      have hname' := (identifier_moves m us).yields hname (fits_cons _ _)
      have hparameters' := (parameters_move m vs).yields hparameters hbody.fits
      have hws := length_behind_parameters (k := k) hname hparameters
      exact .procedure hk hname' hl hparameters' ((ih ws hws).block.yields hbody hr)
    | @choice k l us vs ws r guard yes no hk hguard hyes hl hno =>
      have hguard' := (condition_moves m us).yields hguard hyes.fits
      have hyes' := (ih vs (Nat.lt_succ_of_lt hguard.shorter)).block.yields hyes (fits_cons _ _)
      have hws := length_behind_block (k := k) hguard hyes
      exact .choice hk hguard' hyes' hl ((ih ws hws).block.yields hno hr)
    | @loop k us vs r guard body hk hguard hbody =>
      have hguard' := (condition_moves m us).yields hguard hbody.fits
      have hvs : vs.length < (k :: us).length := Nat.lt_succ_of_lt hguard.shorter
      exact .loop hk hguard' ((ih vs hvs).block.yields hbody hr)
    | @print k us r value hk hvalue =>
      exact .print hk ((condition_moves m us).yields hvalue hr)
    | expression hvalue => exact .expression ((condition_moves m ts).yields hvalue hr)
  fails h hrest := by
    apply fails_statement_iff.mpr
    have hclosed := hrest.imp closed_of_eq_nil
    cases fails_statement_iff.mp h with
    | @procedure_name k us e hk hname =>
      exact .procedure_name hk ((identifier_moves m us).fails hname hrest)
    | @procedure_open k us vs name hk hname hlacks =>
      have hname' := (identifier_moves m us).yields hname hclosed
      exact .procedure_open hk hname' (hlacks.apply hrest)
    | @procedure_parameters k l us vs name e hk hname hl hparameters =>
      have hname' := (identifier_moves m us).yields hname (fits_cons _ _)
      have hparameters' := (parameters_move m vs).fails hparameters hrest
      exact .procedure_parameters hk hname' hl hparameters'
    | @procedure_body k l us vs ws name ps e hk hname hl hparameters hbody =>
      have hname' := (identifier_moves m us).yields hname (fits_cons _ _)
      have hparameters' :=
        (parameters_move m vs).yields hparameters (fits_of_block_fails hbody hrest)
      have hws := length_behind_parameters (k := k) hname hparameters
      exact .procedure_body hk hname' hl hparameters' ((ih ws hws).block.fails hbody hrest)
    | @choice_guard k us e hk hguard =>
      exact .choice_guard hk ((condition_moves m us).fails hguard hrest)
    | @choice_yes k us vs guard e hk hguard hyes =>
      have hguard' := (condition_moves m us).yields hguard (fits_of_block_fails hyes hrest)
      have hvs : vs.length < (k :: us).length := Nat.lt_succ_of_lt hguard.shorter
      exact .choice_yes hk hguard' ((ih vs hvs).block.fails hyes hrest)
    | @choice_else k us vs ws guard yes hk hguard hyes hlacks =>
      have hguard' := (condition_moves m us).yields hguard hyes.fits
      have hvs : vs.length < (k :: us).length := Nat.lt_succ_of_lt hguard.shorter
      exact .choice_else hk hguard' ((ih vs hvs).block.yields hyes hclosed) (hlacks.apply hrest)
    | @choice_no k l us vs ws guard yes e hk hguard hyes hl hno =>
      have hguard' := (condition_moves m us).yields hguard hyes.fits
      have hyes' := (ih vs (Nat.lt_succ_of_lt hguard.shorter)).block.yields hyes (fits_cons _ _)
      have hws := length_behind_block (k := k) hguard hyes
      exact .choice_no hk hguard' hyes' hl ((ih ws hws).block.fails hno hrest)
    | @loop_guard k us e hk hguard =>
      exact .loop_guard hk ((condition_moves m us).fails hguard hrest)
    | @loop_body k us vs guard e hk hguard hbody =>
      have hguard' := (condition_moves m us).yields hguard (fits_of_block_fails hbody hrest)
      have hvs : vs.length < (k :: us).length := Nat.lt_succ_of_lt hguard.shorter
      exact .loop_body hk hguard' ((ih vs hvs).block.fails hbody hrest)
    | @print k us e hk hvalue => exact .print hk ((condition_moves m us).fails hvalue hrest)
    | expression hlacks hvalue =>
      have hfits : Fits (m.behind = []) ts := by
        rintro rfl
        exact hrest (condition_nil hvalue)
      exact .expression (hlacks.apply hfits) ((condition_moves m ts).fails hvalue hrest)

theorem statements_move (m : Relocation) (ts : List Lexeme) : StatementsMove m ts := by
  induction hn : ts.length using Nat.strongRecOn generalizing ts with
  | _ n ih =>
  have ih' (us : List Lexeme) (hus : us.length < ts.length) : StatementsMove m us :=
    ih us.length (by omega) us rfl
  have hstatement : Moves m (Statement.mapLines m.line) statement ts := statement_moves ih'
  have hprogram : Relocates m (Closed m.behind ∧ Stops sequences m.behind)
      (Statement.mapLines m.line) program ts :=
    relocates_chain (sequences_relabelled _) id (fun us => by rw [program]) hstatement
      fun us hus => (ih' us hus).statement
  exact ⟨hstatement, hprogram, block_moves ih'⟩

end Parser

/-! ### Whole programs -/

/-- An error before some lexeme is the error of every continuation. -/
theorem parseLexemes_append {ts : List Lexeme} {error : ParseError}
    (h : parseLexemes ts = .error error) (hend : error.isEndOfInput = false)
    (more : List Lexeme) : parseLexemes (ts ++ more) = .error error := by
  obtain ⟨⟨expected, rest⟩, rfl, hstuck⟩ := parseLexemes_eq_error_iff.mp h
  cases rest with
  | nil => cases hend
  | cons l r =>
    have hmove := (Parser.statements_move (extend more) ts).program
    rw [← apply_extend]
    -- What the error tells, it reads off the next lexeme, which is the same.
    refine parseLexemes_eq_error_iff.mpr ⟨⟨expected, (extend more).apply (l :: r)⟩, rfl, ?_⟩
    rcases hstuck with hfails | ⟨s, _, _, hyields, heq⟩
    · exact .inl (hmove.fails hfails (fits_cons l r))
    · cases heq
      exact .inr ⟨_, _, _, hmove.yields hyields (fits_cons l r), rfl⟩

theorem parseLexemes_moved {ts : List Lexeme} {s : Statement} (h : parseLexemes ts = .ok s)
    (line index : Nat → Nat) :
    parseLexemes (ts.map (only line index).move) = .ok (s.mapLines line) := by
  rw [← apply_only, parseLexemes_eq_ok_iff]
  have hyields := parseLexemes_eq_ok_iff.mp h
  exact (Parser.statements_move _ ts).program.yields hyields fun _ => ⟨trivial, trivial⟩

theorem parseLexemes_moved_error {ts : List Lexeme} {error : ParseError}
    (h : parseLexemes ts = .error error) (line index : Nat → Nat) :
    ∃ e : Stuck, error = ((Cursor.ofLexemes ts).stuckAt e).1 ∧
      parseLexemes (ts.map (only line index).move) =
        .error ((Cursor.ofLexemes (ts.map (only line index).move)).stuckAt
          ⟨e.expected, e.rest.map (only line index).move⟩).1 := by
  obtain ⟨e, rfl, hstuck⟩ := parseLexemes_eq_error_iff.mp h
  have hmove := (Parser.statements_move (only line index) ts).program
  refine ⟨e, rfl, parseLexemes_eq_error_iff.mpr ⟨_, rfl, ?_⟩⟩
  rw [← apply_only, ← apply_only]
  rcases hstuck with hfails | ⟨s, l, r, hyields, rfl⟩
  · exact .inl (hmove.fails hfails fun _ => rfl)
  · exact .inr ⟨_, _, _, hmove.yields hyields (fits_cons l r), rfl⟩

end Imperative
