import Imperative.Proofs.Failing
import Imperative.Proofs.RoundTrip

/-! Trees that program text cannot spell.  A literal with the sign bit, an infinity or a NaN has
canonical text all the same, but none that an expression begins with.  Wherever such a literal
stands, the parser has taken all tokens before the first one and asks for an expression there, so
the text is rejected at that very token. -/

namespace Imperative

open Imperative.Parser

/-! ### Pieces of canonical text -/

/-- A piece of canonical text: a literal, or a token of anything else. -/
inductive Piece where
  | literal (x : Number)
  | token (t : Token)

namespace Piece

def tokens : Piece → List Token
  | literal x => x.tokens
  | token t => [t]

/-- Whether a piece can be read again: all but some literals. -/
def isWritable : Piece → Bool
  | literal x => x.isWritable
  | token _ => true

end Piece

/-- The tokens of pieces. -/
def pieceTokens (ps : List Piece) : List Token := ps.flatMap Piece.tokens

@[simp] theorem pieceTokens_nil : pieceTokens [] = [] := rfl

@[simp] theorem pieceTokens_cons (p : Piece) (ps : List Piece) :
    pieceTokens (p :: ps) = p.tokens ++ pieceTokens ps := rfl

@[simp] theorem pieceTokens_append (ps qs : List Piece) :
    pieceTokens (ps ++ qs) = pieceTokens ps ++ pieceTokens qs := List.flatMap_append

@[simp] theorem pieceTokens_map_token (ts : List Token) : pieceTokens (ts.map .token) = ts := by
  induction ts with
  | nil => rfl
  | cons t ts ih => simp [Piece.tokens, ih]

mutual

/-- The pieces of the canonical text of an expression, from left to right. -/
def Expr.pieces : Expr → List Piece
  | .literal x => [.literal x]
  | .var name _ => [.token (.word name)]
  | .binary op left right => .token (.mark .leftParen) ::
      (left.pieces ++ .token (.mark op.mark) :: (right.pieces ++ [.token (.mark .rightParen)]))
  | .assign name value =>
    .token (.mark .leftParen) :: .token (.word name) :: .token (.mark .colon) ::
      .token (.mark .equal) :: (value.pieces ++ [.token (.mark .rightParen)])
  | .call name arguments _ => .token (.word name) :: .token (.mark .leftParen) ::
      (argumentPieces arguments ++ [.token (.mark .rightParen)])

def argumentPieces : List Expr → List Piece
  | [] => []
  | [e] => e.pieces
  | e :: es => e.pieces ++ .token (.mark .comma) :: argumentPieces es

end

def blockPieces (body : List Piece) : List Piece :=
  .token (.mark .leftBrace) :: (body ++ [.token (.mark .rightBrace)])

/-- The pieces of the canonical text of a statement, from left to right. -/
def Statement.pieces : Statement → List Piece
  | .sequence first second => first.pieces ++ .token (.mark .semicolon) :: second.pieces
  | .procedure name parameters body =>
    .token (.word "proc") :: .token (.word name) :: .token (.mark .leftParen) ::
      ((parameterTokens parameters).map .token ++
        .token (.mark .rightParen) :: blockPieces body.pieces)
  | .choice guard yes no => .token (.word "if") ::
      (guard.pieces ++ (blockPieces yes.pieces ++ .token (.word "else") :: blockPieces no.pieces))
  | .loop guard body => .token (.word "while") :: (guard.pieces ++ blockPieces body.pieces)
  | .print value => .token (.word "print") :: value.pieces
  | .expression value => value.pieces

mutual

theorem Expr.tokens_pieces : (e : Expr) → pieceTokens e.pieces = e.tokens
  | .literal x => by simp [Expr.pieces, Expr.tokens, Piece.tokens]
  | .var name _ => rfl
  | .binary op a b => by
    simp [Expr.pieces, Expr.tokens, Piece.tokens, a.tokens_pieces, b.tokens_pieces]
  | .assign name e => by simp [Expr.pieces, Expr.tokens, Piece.tokens, e.tokens_pieces]
  | .call name es _ => by simp [Expr.pieces, Expr.tokens, Piece.tokens, tokens_argumentPieces es]

theorem tokens_argumentPieces : (es : List Expr) →
    pieceTokens (argumentPieces es) = argumentTokens es
  | [] => rfl
  | [e] => e.tokens_pieces
  | e :: f :: es => by
    simp [argumentPieces, argumentTokens, Piece.tokens, e.tokens_pieces,
      tokens_argumentPieces (f :: es)]

end

theorem tokens_blockPieces (ps : List Piece) :
    pieceTokens (blockPieces ps) = blockTokens (pieceTokens ps) := by
  simp [blockPieces, blockTokens, Piece.tokens]

theorem Statement.tokens_pieces (s : Statement) : pieceTokens s.pieces = s.tokens := by
  induction s with
  | sequence a b iha ihb => simp [pieces, tokens, Piece.tokens, iha, ihb]
  | procedure name ps body ih => simp [pieces, tokens, Piece.tokens, tokens_blockPieces, ih]
  | choice g yes no ihyes ihno =>
    simp [pieces, tokens, Piece.tokens, tokens_blockPieces, g.tokens_pieces, ihyes, ihno]
  | loop g body ih => simp [pieces, tokens, Piece.tokens, tokens_blockPieces, g.tokens_pieces, ih]
  | print e => simp [pieces, tokens, Piece.tokens, e.tokens_pieces]
  | expression e => exact e.tokens_pieces

mutual

theorem Expr.all_pieces : (e : Expr) → e.all Word.isIdentifier (fun _ => true) = true →
    e.pieces.all Piece.isWritable = e.isWritable
  | .literal x, _ => by simp [Expr.pieces, Piece.isWritable, Expr.isWritable, Expr.all]
  | .var name _, h => by
    simpa [Expr.pieces, Piece.isWritable, Expr.isWritable, Expr.all] using h
  | .binary op a b, h => by
    obtain ⟨ha, hb⟩ := Bool.and_eq_true_iff.mp h
    simp [Expr.pieces, Piece.isWritable, a.all_pieces ha, b.all_pieces hb, Expr.isWritable,
      Expr.all]
  | .assign name e, h => by
    obtain ⟨hname, he⟩ := Bool.and_eq_true_iff.mp h
    simp [Expr.pieces, Piece.isWritable, e.all_pieces he, Expr.isWritable, Expr.all, hname]
  | .call name es _, h => by
    obtain ⟨hname, hes⟩ := Bool.and_eq_true_iff.mp h
    simp [Expr.pieces, Piece.isWritable, all_argumentPieces es hes, Expr.isWritable, Expr.all,
      hname]

theorem all_argumentPieces : (es : List Expr) →
    argumentsAll Word.isIdentifier (fun _ => true) es = true →
    (argumentPieces es).all Piece.isWritable = argumentsAll Word.isIdentifier Number.isWritable es
  | [], _ => rfl
  | [e], h => by
    simpa [argumentPieces, argumentsAll, Expr.isWritable] using
      e.all_pieces (Bool.and_eq_true_iff.mp h).1
  | e :: f :: es, h => by
    obtain ⟨he, hes⟩ := Bool.and_eq_true_iff.mp h
    rw [argumentPieces, List.all_append, List.all_cons, e.all_pieces he,
      all_argumentPieces (f :: es) hes, argumentsAll]
    · rfl
    · simp

end

/-- All pieces of a tree of identifiers can be read again if and only if the tree is writable. -/
theorem Statement.all_pieces (s : Statement)
    (h : s.all Word.isIdentifier (fun _ => true) = true) :
    s.pieces.all Piece.isWritable = s.isWritable := by
  induction s with
  | sequence a b iha ihb =>
    obtain ⟨ha, hb⟩ := Bool.and_eq_true_iff.mp h
    simp [pieces, Piece.isWritable, iha ha, ihb hb, isWritable, all]
  | procedure name ps body ih =>
    obtain ⟨hheader, hbody⟩ := Bool.and_eq_true_iff.mp h
    simp [pieces, blockPieces, Piece.isWritable, ih hbody, isWritable, all, hheader]
  | choice g yes no ihyes ihno =>
    obtain ⟨hfirst, hno⟩ := Bool.and_eq_true_iff.mp h
    obtain ⟨hg, hyes⟩ := Bool.and_eq_true_iff.mp hfirst
    simp [pieces, blockPieces, Piece.isWritable, g.all_pieces hg, ihyes hyes, ihno hno, isWritable,
      all, Expr.isWritable, Bool.and_assoc]
  | loop g body ih =>
    obtain ⟨hg, hbody⟩ := Bool.and_eq_true_iff.mp h
    simp [pieces, blockPieces, Piece.isWritable, g.all_pieces hg, ih hbody, isWritable, all,
      Expr.isWritable]
  | print e =>
    rw [pieces, List.all_cons]
    exact e.all_pieces h
  | expression e => exact e.all_pieces h

/-! ### The first literal that cannot be read again -/

/-- How many tokens stand before the first piece that cannot be read again. -/
def refusedAt (ps : List Piece) : Nat := (pieceTokens (ps.takeWhile Piece.isWritable)).length

theorem refusedAt_token (t : Token) (ps : List Piece) :
    refusedAt (.token t :: ps) = refusedAt ps + 1 := by
  simp [refusedAt, List.takeWhile_cons, Piece.isWritable, Piece.tokens]

theorem refusedAt_append_left {ps : List Piece} (h : ps.all Piece.isWritable = false)
    (qs : List Piece) : refusedAt (ps ++ qs) = refusedAt ps := by
  induction ps with
  | nil => cases h
  | cons p ps ih =>
    cases hp : p.isWritable with
    | false => simp [refusedAt, hp]
    | true =>
      have hps : ps.all Piece.isWritable = false := by simpa [hp] using h
      have hrest := ih hps
      simp only [refusedAt] at hrest
      simp [refusedAt, hp, hrest]

theorem refusedAt_append_right {ps : List Piece} (h : ps.all Piece.isWritable = true)
    (qs : List Piece) : refusedAt (ps ++ qs) = (pieceTokens ps).length + refusedAt qs := by
  rw [refusedAt, List.takeWhile_append_of_pos (by simpa using h), pieceTokens_append,
    List.length_append, refusedAt]

/-- The token that stands first in the text of a number that cannot be read again. -/
def Number.refusedToken (x : Number) : Token :=
  if x.isNaN then .word "NaN.0" else if x.isNegative then .mark .minus else .word "inf.0"

theorem Number.tokens_of_not_isWritable {x : Number} (h : x.isWritable = false) :
    ∃ rest, x.tokens = x.refusedToken :: rest := by
  unfold Number.tokens Number.refusedToken
  cases hnan : x.isNaN with
  | true => exact ⟨[], by simp [Number.literal_of_isNaN hnan]⟩
  | false =>
    cases hnegative : x.isNegative with
    | true => exact ⟨_, rfl⟩
    | false =>
      have hinfinite : x.magnitude = infinityWord := by
        have hge : infinityWord ≤ x.magnitude := by
          simpa [Number.isWritable, hnegative, Number.isFinite] using h
        have hle : ¬infinityWord < x.magnitude := of_decide_eq_false hnan
        omega
      exact ⟨[], by simp [Number.literal_abs_of_isInfinite hinfinite]⟩

/-- A token that begins neither a statement with a keyword nor the end of a list. -/
def Inner (t : Token) : Prop := ¬StartsStatement t ∧ t ≠ .mark .rightParen

theorem inner_of_startsExpression {t : Token} (h : StartsExpression t) : Inner t := by
  constructor
  · rintro (rfl | rfl | rfl | rfl) <;> exact not_startsExpression_keyword (by decide) h
  · rintro rfl
    simp [StartsExpression] at h

theorem Number.refusedToken_starts_nothing (x : Number) :
    ¬StartsExpression x.refusedToken ∧ Inner x.refusedToken := by
  have hword : ∀ w ∈ ["NaN.0", "inf.0"], ¬StartsExpression (.word w) ∧ Inner (.word w) := by
    intro w hw
    have hclass : Word.isIdentifier w = false ∧ Word.isNumeral w = false ∧
        w ∉ Word.keywords := by
      revert w
      decide
    refine ⟨?_, ?_, by simp⟩
    · rintro (heq | ⟨_, heq, hs⟩) <;> cases heq
      simp [hclass.1, hclass.2.1] at hs
    · rintro (heq | heq | heq | heq) <;> cases heq <;> exact hclass.2.2 (by decide)
  unfold Number.refusedToken
  split
  · exact hword _ (by simp)
  · split
    · simp [StartsExpression, Inner, StartsStatement]
    · exact hword _ (by simp)

/-! ### Expressions -/

section Levels

variable {ts us : List Lexeme} {a : Expr} {op : Operator} {p : Position} {e : Stuck}

theorem fails_multiplicative_of_primary (h : Fails (primary ts) e) : Fails (multiplicative ts) e :=
  fails_multiplicative_iff.mpr (.inl (fails_power_iff.mpr (.inl h)))

theorem fails_additive_of_primary (h : Fails (primary ts) e) : Fails (additive ts) e :=
  fails_additive_iff.mpr (.inl (fails_multiplicative_of_primary h))

theorem fails_condition_of_primary (h : Fails (primary ts) e) : Fails (condition ts) e :=
  fails_condition_iff.mpr (.inl (fails_additive_of_primary h))

/-- Where the operand behind an operator fails, the condition fails. -/
theorem fails_condition_of_operator (ha : Yields (primary ts) a (⟨.mark op.mark, p⟩ :: us))
    (hb : Fails (primary us) e) : Fails (condition ts) e := by
  have hclass : op ∈ comparisons ∨ op ∈ sums ∨ op ∈ products ∨ op ∈ powers := by
    cases op <;> decide
  have hpower : Fails (power us) e := fails_power_iff.mpr (.inl hb)
  -- The operand before the operator is read at the level that joins it, as in a whole condition.
  rcases hclass with hop | hop | hop | hop
  · have hlevels : ∀ op ∈ comparisons, ∀ ops ∈ [powers, products, sums], op ∉ ops := by decide
    have hleft := additive_of_primary ha fun ops hops =>
      stops_of_notMem (hlevels op hop ops hops) p us
    exact fails_condition_iff.mpr
      (.inr ⟨a, _, us, _, hleft, joins_of_mem hop, fails_additive_of_primary hb⟩)
  · have hlevels : ∀ op ∈ sums, op ∉ powers ∧ op ∉ products := by decide
    have hleft := multiplicative_of_power
      (power_of_primary ha (stops_of_notMem (hlevels op hop).1 p us))
      (stops_of_notMem (hlevels op hop).2 p us)
    have hchain := fails_additive_iff.mpr
      (.inr ⟨a, _, hleft, .item (joins_of_mem hop) (fails_multiplicative_of_primary hb)⟩)
    exact fails_condition_iff.mpr (.inl hchain)
  · have hlevels : ∀ op ∈ products, op ∉ powers := by decide
    have hleft := power_of_primary ha (stops_of_notMem (hlevels op hop) p us)
    have hchain := fails_multiplicative_iff.mpr
      (.inr ⟨a, _, hleft, .item (joins_of_mem hop) hpower⟩)
    exact fails_condition_iff.mpr (.inl (fails_additive_iff.mpr (.inl hchain)))
  · have hchain := fails_power_iff.mpr (.inr ⟨a, _, us, _, ha, joins_of_mem hop, hpower⟩)
    exact fails_condition_iff.mpr
      (.inl (fails_additive_iff.mpr (.inl (fails_multiplicative_iff.mpr (.inl hchain)))))

end Levels

/-- An expression is missing behind the first `n` lexemes. -/
def missingAt (n : Nat) (ts : List Lexeme) : Stuck := ⟨.expression, ts.drop n⟩

theorem length_inLine (line index : Nat) (ts : List Token) :
    (inLine line index ts).length = ts.length := by
  induction ts generalizing index with
  | nil => rfl
  | cons t ts ih => simp [ih]

theorem missingAt_cons (n : Nat) (l : Lexeme) (ts : List Lexeme) :
    missingAt (n + 1) (l :: ts) = missingAt n ts := rfl

theorem missingAt_behind (line index n : Nat) (ts : List Token) (rest : List Lexeme) :
    missingAt (ts.length + n) (inLine line index ts ++ rest) = missingAt n rest := by
  rw [missingAt, ← length_inLine line index ts, List.drop_length_add_append, missingAt]

/-- No expression begins like a statement with a keyword or like the end of a list. -/
theorem Expr.head_tokens {e : Expr} (hnames : e.all Word.isIdentifier (fun _ => true) = true) :
    ∃ t ts, e.tokens = t :: ts ∧ Inner t := by
  cases e with
  | literal x =>
    cases hx : x.isWritable with
    | false =>
      obtain ⟨rest, hrest⟩ := Number.tokens_of_not_isWritable hx
      exact ⟨_, rest, hrest, x.refusedToken_starts_nothing.2⟩
    | true =>
      obtain ⟨hfinite, hsign⟩ := Bool.and_eq_true_iff.mp hx
      have hnumeral := Number.isNumeral_literal hfinite (by simpa using hsign)
      exact ⟨_, [], Number.tokens_of_isWritable hx,
        inner_of_startsExpression (.inr ⟨_, rfl, .inr hnumeral⟩)⟩
  | var name line => exact ⟨_, _, rfl, inner_of_startsExpression (.inr ⟨name, rfl, .inl hnames⟩)⟩
  | binary op a b => exact ⟨_, _, rfl, inner_of_startsExpression (.inl rfl)⟩
  | assign name e => exact ⟨_, _, rfl, inner_of_startsExpression (.inl rfl)⟩
  | call name es line =>
    obtain ⟨hname, -⟩ := Bool.and_eq_true_iff.mp hnames
    exact ⟨_, _, rfl, inner_of_startsExpression (.inr ⟨name, rfl, .inl hname⟩)⟩

theorem lacks_inLine {kind : Token → Prop} {ts : List Token} {t : Token} {us : List Token}
    (hts : ts = t :: us) (ht : ¬kind t) (line index : Nat) (r : List Lexeme) :
    Lacks kind (inLine line index ts ++ r) := by
  subst hts
  exact ht

theorem head_argumentTokens {e : Expr} {es : List Expr}
    (hnames : argumentsAll Word.isIdentifier (fun _ => true) (e :: es) = true) :
    ∃ t ts, argumentTokens (e :: es) = t :: ts ∧ Inner t := by
  obtain ⟨t, ts, hts, ht⟩ := e.head_tokens (Bool.and_eq_true_iff.mp hnames).1
  cases es with
  | nil => exact ⟨t, ts, hts, ht⟩
  | cons f es =>
    exact ⟨t, ts ++ .mark .comma :: argumentTokens (f :: es), by simp [argumentTokens, hts], ht⟩

mutual

/-- The tokens of an expression that is not writable fail at the first literal that is not. -/
theorem Expr.refused (line : Nat) : (e : Expr) →
    e.all Word.isIdentifier (fun _ => true) = true → e.isWritable = false → (index : Nat) →
    (r : List Lexeme) → Fails (primary (inLine line index e.tokens ++ r))
      (missingAt (refusedAt e.pieces) (inLine line index e.tokens ++ r))
  | .literal x, _, h, index, r => by
    have hwritable : x.isWritable = false := h
    obtain ⟨rest, hrest⟩ := Number.tokens_of_not_isWritable hwritable
    have hoffset : refusedAt (Expr.literal x).pieces = 0 := by
      simp [Expr.pieces, refusedAt, Piece.isWritable, hwritable]
    rw [hoffset, Expr.tokens, hrest]
    exact fails_primary_iff.mpr (.start x.refusedToken_starts_nothing.1)
  | .var name _, hnames, h, _, _ => by
    have hwritable : Expr.isWritable (.var name 0) = true := hnames
    exact absurd (hwritable.symm.trans h) (by decide)
  | .binary op a b, hnames, h, index, r => by
    obtain ⟨hna, hnb⟩ := Bool.and_eq_true_iff.mp hnames
    let behind := index + 1 + a.tokens.length
    let rest := inLine line (behind + 1) b.tokens ++
      ⟨.mark .rightParen, line, behind + 1 + b.tokens.length⟩ :: r
    have htokens : inLine line index (Expr.binary op a b).tokens ++ r =
        ⟨.mark .leftParen, line, index⟩ :: (inLine line (index + 1) a.tokens ++
          ⟨.mark op.mark, line, behind⟩ :: rest) := by
      simp [Expr.tokens, behind, rest]
    rw [htokens, Expr.pieces, refusedAt_token, missingAt_cons]
    refine fails_primary_iff.mpr (.group rfl ?_)
    cases ha : a.isWritable with
    | false =>
      rw [refusedAt_append_left (by rw [a.all_pieces hna, ha])]
      exact fails_condition_of_primary (a.refused line hna ha (index + 1) _)
    | true =>
      have hb : b.isWritable = false := by
        have hboth : (a.isWritable && b.isWritable) = false := h
        rwa [ha, Bool.true_and] at hboth
      rw [refusedAt_append_right (by rw [a.all_pieces hna, ha]), a.tokens_pieces,
        missingAt_behind, refusedAt_token, missingAt_cons,
        refusedAt_append_left (by rw [b.all_pieces hnb, hb])]
      have hleft := a.yields line ha (index + 1) _ (endsName_operator op ⟨line, behind⟩ rest)
      exact fails_condition_of_operator hleft (b.refused line hnb hb (behind + 1) _)
  | .assign name e, hnames, h, index, r => by
    obtain ⟨hname, hne⟩ := Bool.and_eq_true_iff.mp hnames
    have he : e.isWritable = false := by
      have hboth : (Word.isIdentifier name && e.isWritable) = false := h
      rwa [hname, Bool.true_and] at hboth
    have hvalue := e.refused line hne he (index + 4)
      (⟨.mark .rightParen, line, index + 4 + e.tokens.length⟩ :: r)
    have hassign : PrimaryFails _ _ := .assign_value (l := ⟨.word name, line, index + 1⟩)
      (c := ⟨.mark .colon, line, index + 2⟩) (q := ⟨.mark .equal, line, index + 3⟩) rfl hname rfl
      rfl (fails_condition_of_primary hvalue)
    have hgroup := PrimaryFails.group (l := ⟨.mark .leftParen, line, index⟩) rfl
      (fails_condition_of_primary (fails_primary_iff.mpr hassign))
    have htokens : inLine line index (Expr.assign name e).tokens ++ r =
        ⟨.mark .leftParen, line, index⟩ :: ⟨.word name, line, index + 1⟩ ::
          ⟨.mark .colon, line, index + 2⟩ :: ⟨.mark .equal, line, index + 3⟩ ::
          (inLine line (index + 4) e.tokens ++
            ⟨.mark .rightParen, line, index + 4 + e.tokens.length⟩ :: r) := by
      simp [Expr.tokens]
    rw [htokens, Expr.pieces, refusedAt_token, refusedAt_token, refusedAt_token, refusedAt_token,
      refusedAt_append_left (by rw [e.all_pieces hne, he])]
    exact fails_primary_iff.mpr hgroup
  | .call name es l, hnames, h, index, r => by
    obtain ⟨hname, hnes⟩ := Bool.and_eq_true_iff.mp hnames
    have hes : argumentsAll Word.isIdentifier Number.isWritable es = false := by
      have hboth : (Word.isIdentifier name &&
        argumentsAll Word.isIdentifier Number.isWritable es) = false := h
      rwa [hname, Bool.true_and] at hboth
    let close : Position := ⟨line, index + 2 + (argumentTokens es).length⟩
    have htokens : inLine line index (Expr.call name es l).tokens ++ r =
        ⟨.word name, line, index⟩ :: ⟨.mark .leftParen, line, index + 1⟩ ::
          (inLine line (index + 2) (argumentTokens es) ++ ⟨.mark .rightParen, close⟩ :: r) := by
      simp [Expr.tokens, close]
    rw [htokens, Expr.pieces, refusedAt_token, refusedAt_token, missingAt_cons, missingAt_cons,
      refusedAt_append_left (by rw [all_argumentPieces es hnes, hes])]
    have hlacks : Lacks (· = .mark .rightParen)
        (inLine line (index + 2) (argumentTokens es) ++ ⟨.mark .rightParen, close⟩ :: r) := by
      cases es with
      | nil => cases hes
      | cons e es =>
        obtain ⟨t, ts, hts, ht⟩ := head_argumentTokens hnes
        exact lacks_inLine hts ht.2 line (index + 2) _
    exact fails_primary_iff.mpr (.call rfl hname rfl (fails_commaSeparated_iff.mpr
      ⟨hlacks, refused_arguments line es hnes hes (index + 2) close r⟩))

theorem refused_arguments (line : Nat) : (es : List Expr) →
    argumentsAll Word.isIdentifier (fun _ => true) es = true →
    argumentsAll Word.isIdentifier Number.isWritable es = false → (index : Nat) →
    (close : Position) → (r : List Lexeme) →
    ListBroken condition (.mark .rightParen)
      (inLine line index (argumentTokens es) ++ ⟨.mark .rightParen, close⟩ :: r)
      (missingAt (refusedAt (argumentPieces es))
        (inLine line index (argumentTokens es) ++ ⟨.mark .rightParen, close⟩ :: r))
  | [], _, h, _, _, _ => by cases h
  | [e], hnames, h, index, close, r => by
    have he : e.isWritable = false := by simpa [argumentsAll, Expr.isWritable] using h
    exact .item (fails_condition_of_primary
      (e.refused line (Bool.and_eq_true_iff.mp hnames).1 he index _))
  | e :: f :: es, hnames, h, index, close, r => by
    obtain ⟨hne, hnes⟩ := Bool.and_eq_true_iff.mp hnames
    let behind := index + e.tokens.length
    let rest := inLine line (behind + 1) (argumentTokens (f :: es)) ++
      ⟨.mark .rightParen, close⟩ :: r
    have htokens : inLine line index (argumentTokens (e :: f :: es)) ++
        ⟨.mark .rightParen, close⟩ :: r =
        inLine line index e.tokens ++ ⟨.mark .comma, line, behind⟩ :: rest := by
      simp [argumentTokens, behind, rest]
    have hpieces : argumentPieces (e :: f :: es) =
        e.pieces ++ .token (.mark .comma) :: argumentPieces (f :: es) := by
      simp [argumentPieces]
    rw [htokens, hpieces]
    cases he : e.isWritable with
    | false =>
      rw [refusedAt_append_left (by rw [e.all_pieces hne, he])]
      exact .item (fails_condition_of_primary (e.refused line hne he index _))
    | true =>
      have hes : argumentsAll Word.isIdentifier Number.isWritable (f :: es) = false := by
        have hboth : (e.isWritable &&
          argumentsAll Word.isIdentifier Number.isWritable (f :: es)) = false := h
        rwa [he, Bool.true_and] at hboth
      rw [refusedAt_append_right (by rw [e.all_pieces hne, he]), e.tokens_pieces,
        missingAt_behind, refusedAt_token, missingAt_cons]
      have hclosed := closed_mark (m := .comma) (by decide) ⟨line, behind⟩ rest
      have hfirst := condition_of_primary (e.yields line he index _ hclosed.endsName) hclosed
      exact .more hfirst rfl (refused_arguments line (f :: es) hnes hes (behind + 1) close r)

end

/-! ### Statements -/

/-- A program breaks with `e` at these lexemes, whether they begin it or stand behind other
statements. -/
structure Breaks (ts : List Lexeme) (e : Stuck) : Prop where
  first : Fails (program ts) e
  next : ∀ p, Broken statement sequences (⟨.mark .semicolon, p⟩ :: ts) e

section Breaks

variable {ts q : List Lexeme} {e : Stuck} {s : Statement}

theorem Breaks.of_statement (h : StatementFails ts e) : Breaks ts e := by
  have hfails := fails_statement_iff.mpr h
  exact ⟨fails_program_iff.mpr (.inl hfails),
    fun _ => .item (sequences_eq_some_iff.mpr ⟨rfl, rfl⟩) hfails⟩

theorem Breaks.of_rest (h : Yields (statement ts) s q) (hq : Broken statement sequences q e) :
    Breaks ts e :=
  ⟨fails_program_iff.mpr (.inr ⟨s, q, h, hq⟩),
    fun _ => .step (sequences_eq_some_iff.mpr ⟨rfl, rfl⟩) h hq⟩

theorem Breaks.block {l : Lexeme} (h : Breaks ts e) (hl : l.token = .mark .leftBrace) :
    Fails (block (l :: ts)) e :=
  fails_block_iff.mpr (.body hl h.first)

end Breaks

namespace Statement

/-- What breaks behind a writable statement breaks the program that the statement is part of. -/
theorem breaks_behind (line : Nat) {s : Statement} (h : s.isWritable = true) {q : List Lexeme}
    {e : Stuck} (hq : Closed q) (hbroken : Broken statement sequences q e) (index : Nat) :
    Breaks (inLine line index s.tokens ++ q) e := by
  induction s generalizing index q with
  | sequence a b iha ihb =>
    obtain ⟨ha, hb⟩ := Bool.and_eq_true_iff.mp h
    have hsecond := (ihb hb hq hbroken (index + a.tokens.length + 1)).next
      ⟨line, index + a.tokens.length⟩
    simpa [tokens] using iha ha (closed_mark (by decide) _ _) hsecond index
  | _ => exact .of_rest ((spelled line _ h).alone rfl index q hq) hbroken

/-- The tokens of a statement break at the first literal that is not writable. -/
def Refused (line : Nat) (s : Statement) : Prop := ∀ index q,
  Breaks (inLine line index s.tokens ++ q)
    (missingAt (refusedAt s.pieces) (inLine line index s.tokens ++ q))

variable {line : Nat}

theorem Refused.block {s : Statement} (h : s.Refused line)
    (hs : s.pieces.all Piece.isWritable = false) (index : Nat) (q : List Lexeme) :
    Fails (Parser.block (inLine line index (blockTokens s.tokens) ++ q))
      (missingAt (refusedAt (blockPieces s.pieces))
        (inLine line index (blockTokens s.tokens) ++ q)) := by
  have htokens : inLine line index (blockTokens s.tokens) ++ q =
      ⟨.mark .leftBrace, line, index⟩ :: (inLine line (index + 1) s.tokens ++
        ⟨.mark .rightBrace, line, index + 1 + s.tokens.length⟩ :: q) := by
    simp [blockTokens]
  rw [htokens, blockPieces, refusedAt_token, refusedAt_append_left hs, missingAt_cons]
  exact (h (index + 1) _).block rfl

theorem all_blockPieces (ps : List Piece) :
    (blockPieces ps).all Piece.isWritable = ps.all Piece.isWritable := by
  simp [blockPieces, Piece.isWritable]

theorem refused_sequence {a b : Statement} (hna : a.all Word.isIdentifier (fun _ => true) = true)
    (ha : a.isWritable = false → a.Refused line)
    (hb : a.isWritable = true → b.Refused line) : (Statement.sequence a b).Refused line := by
  intro index q
  let behind := index + a.tokens.length
  let rest := inLine line (behind + 1) b.tokens ++ q
  have htokens : inLine line index (sequence a b).tokens ++ q =
      inLine line index a.tokens ++ ⟨.mark .semicolon, line, behind⟩ :: rest := by
    simp [tokens, behind, rest]
  rw [htokens, pieces]
  cases hwritable : a.isWritable with
  | false =>
    rw [refusedAt_append_left (by rw [a.all_pieces hna, hwritable])]
    exact ha hwritable index _
  | true =>
    rw [refusedAt_append_right (by rw [a.all_pieces hna, hwritable]), a.tokens_pieces,
      missingAt_behind, refusedAt_token, missingAt_cons]
    exact breaks_behind line hwritable (closed_mark (by decide) _ _)
      ((hb hwritable (behind + 1) q).next _) index

theorem refused_procedure {name : String} {ps : List String} {body : Statement}
    (hname : Word.isIdentifier name = true) (hps : ps.all Word.isIdentifier = true)
    (hbody : body.Refused line) (hpieces : body.pieces.all Piece.isWritable = false) :
    (Statement.procedure name ps body).Refused line := by
  intro index q
  let behind := index + 3 + (parameterTokens ps).length
  have hblock := hbody.block hpieces (behind + 1) q
  have hidentifier : Yields (identifier (⟨.word name, line, index + 1⟩ ::
      ⟨.mark .leftParen, line, index + 2⟩ :: (inLine line (index + 3) (parameterTokens ps) ++
        ⟨.mark .rightParen, line, behind⟩ ::
          (inLine line (behind + 1) (blockTokens body.tokens) ++ q)))) name _ :=
    yields_identifier_iff.mpr ⟨_, rfl, rfl, hname⟩
  have hfails := StatementFails.procedure_body (k := ⟨.word "proc", line, index⟩) rfl hidentifier
    rfl (parameters_tokens line hps (index + 3)).yields hblock
  have htokens : inLine line index (procedure name ps body).tokens ++ q =
      ⟨.word "proc", line, index⟩ :: ⟨.word name, line, index + 1⟩ ::
        ⟨.mark .leftParen, line, index + 2⟩ :: (inLine line (index + 3) (parameterTokens ps) ++
          ⟨.mark .rightParen, line, behind⟩ ::
            (inLine line (behind + 1) (blockTokens body.tokens) ++ q)) := by
    simp [tokens, behind]
  have hheader : ((parameterTokens ps).map Piece.token).all Piece.isWritable = true := by
    simp [Piece.isWritable]
  rw [htokens, pieces, refusedAt_token, refusedAt_token, refusedAt_token, missingAt_cons,
    missingAt_cons, missingAt_cons, refusedAt_append_right hheader, pieceTokens_map_token,
    missingAt_behind, refusedAt_token, missingAt_cons]
  exact .of_statement hfails

theorem refused_choice {g : Expr} {yes no : Statement}
    (hng : g.all Word.isIdentifier (fun _ => true) = true)
    (hnyes : yes.all Word.isIdentifier (fun _ => true) = true)
    (hyes : yes.isWritable = false → yes.Refused line)
    (hno : g.isWritable = true → yes.isWritable = true →
      no.Refused line ∧ no.pieces.all Piece.isWritable = false) :
    (Statement.choice g yes no).Refused line := by
  intro index q
  let behind := index + 1 + g.tokens.length
  let middle := behind + (blockTokens yes.tokens).length
  let tail :=
    ⟨.word "else", line, middle⟩ :: (inLine line (middle + 1) (blockTokens no.tokens) ++ q)
  have htokens : inLine line index (choice g yes no).tokens ++ q =
      ⟨.word "if", line, index⟩ :: (inLine line (index + 1) g.tokens ++
        (inLine line behind (blockTokens yes.tokens) ++ tail)) := by
    simp [tokens, behind, middle, tail]
  rw [htokens, pieces, refusedAt_token, missingAt_cons]
  apply Breaks.of_statement
  cases hg : g.isWritable with
  | false =>
    rw [refusedAt_append_left (by rw [g.all_pieces hng, hg])]
    exact .choice_guard rfl (fails_condition_of_primary (g.refused line hng hg (index + 1) _))
  | true =>
    have hclosed := closed_block line behind yes.tokens tail
    have hguard := condition_of_primary (g.yields line hg (index + 1) _ hclosed.endsName) hclosed
    rw [refusedAt_append_right (by rw [g.all_pieces hng, hg]), g.tokens_pieces, missingAt_behind]
    cases hfirst : yes.isWritable with
    | false =>
      have hpieces : yes.pieces.all Piece.isWritable = false := by rw [yes.all_pieces hnyes, hfirst]
      rw [refusedAt_append_left (by rw [all_blockPieces, hpieces])]
      exact .choice_yes rfl hguard ((hyes hfirst).block hpieces behind tail)
    | true =>
      have hpieces : yes.pieces.all Piece.isWritable = true := by rw [yes.all_pieces hnyes, hfirst]
      obtain ⟨hrefused, hnpieces⟩ := hno hg hfirst
      rw [refusedAt_append_right (by rw [all_blockPieces, hpieces]), tokens_blockPieces,
        yes.tokens_pieces, missingAt_behind, refusedAt_token, missingAt_cons]
      exact .choice_no rfl hguard ((spelled line yes hfirst).block behind tail) rfl
        (hrefused.block hnpieces (middle + 1) q)

theorem refused_loop {g : Expr} {body : Statement}
    (hng : g.all Word.isIdentifier (fun _ => true) = true)
    (hbody : g.isWritable = true →
      body.Refused line ∧ body.pieces.all Piece.isWritable = false) :
    (Statement.loop g body).Refused line := by
  intro index q
  let behind := index + 1 + g.tokens.length
  have htokens : inLine line index (loop g body).tokens ++ q =
      ⟨.word "while", line, index⟩ :: (inLine line (index + 1) g.tokens ++
        (inLine line behind (blockTokens body.tokens) ++ q)) := by
    simp [tokens, behind]
  rw [htokens, pieces, refusedAt_token, missingAt_cons]
  apply Breaks.of_statement
  cases hg : g.isWritable with
  | false =>
    rw [refusedAt_append_left (by rw [g.all_pieces hng, hg])]
    exact .loop_guard rfl (fails_condition_of_primary (g.refused line hng hg (index + 1) _))
  | true =>
    obtain ⟨hrefused, hpieces⟩ := hbody hg
    have hclosed := closed_block line behind body.tokens q
    have hguard := condition_of_primary (g.yields line hg (index + 1) _ hclosed.endsName) hclosed
    rw [refusedAt_append_right (by rw [g.all_pieces hng, hg]), g.tokens_pieces, missingAt_behind]
    exact .loop_body rfl hguard (hrefused.block hpieces behind q)

theorem refused (line : Nat) (s : Statement)
    (hnames : s.all Word.isIdentifier (fun _ => true) = true) (h : s.isWritable = false) :
    s.Refused line := by
  induction s with
  | sequence a b iha ihb =>
    obtain ⟨hna, hnb⟩ := Bool.and_eq_true_iff.mp hnames
    refine refused_sequence hna (iha hna) fun ha => ihb hnb ?_
    have hboth : (a.isWritable && b.isWritable) = false := h
    rwa [ha, Bool.true_and] at hboth
  | procedure name ps body ih =>
    obtain ⟨hheader, hnbody⟩ := Bool.and_eq_true_iff.mp hnames
    obtain ⟨hname, hps⟩ := Bool.and_eq_true_iff.mp hheader
    have hbody : body.isWritable = false := by
      have hall : ((Word.isIdentifier name && ps.all Word.isIdentifier) && body.isWritable) =
        false := h
      rwa [hheader, Bool.true_and] at hall
    exact refused_procedure hname hps (ih hnbody hbody) (by rw [body.all_pieces hnbody, hbody])
  | choice g yes no ihyes ihno =>
    obtain ⟨hfirst, hnno⟩ := Bool.and_eq_true_iff.mp hnames
    obtain ⟨hng, hnyes⟩ := Bool.and_eq_true_iff.mp hfirst
    refine refused_choice hng hnyes (ihyes hnyes) fun hg hyes => ?_
    have hno : no.isWritable = false := by
      have hall : ((g.isWritable && yes.isWritable) && no.isWritable) = false := h
      rwa [hg, hyes, Bool.true_and, Bool.true_and] at hall
    exact ⟨ihno hnno hno, by rw [no.all_pieces hnno, hno]⟩
  | loop g body ih =>
    obtain ⟨hng, hnbody⟩ := Bool.and_eq_true_iff.mp hnames
    refine refused_loop hng fun hg => ?_
    have hbody : body.isWritable = false := by
      have hboth : (g.isWritable && body.isWritable) = false := h
      rwa [hg, Bool.true_and] at hboth
    exact ⟨ih hnbody hbody, by rw [body.all_pieces hnbody, hbody]⟩
  | print e =>
    intro index q
    have hvalue := fails_condition_of_primary (e.refused line hnames h (index + 1) q)
    rw [pieces, refusedAt_token]
    exact .of_statement (.print rfl hvalue)
  | expression e =>
    intro index q
    obtain ⟨t, ts, hts, ht⟩ := e.head_tokens hnames
    exact .of_statement (.expression (lacks_inLine hts ht.1 line index q)
      (fails_condition_of_primary (e.refused line hnames h index q)))

end Statement

/-! ### Programs -/

/-- The first piece that cannot be read again is a literal. -/
theorem exists_first_literal {ps : List Piece} (h : ps.all Piece.isWritable = false) :
    ∃ x after, ps = ps.takeWhile Piece.isWritable ++ .literal x :: after ∧
      x.isWritable = false := by
  induction ps with
  | nil => cases h
  | cons p ps ih =>
    cases hp : p.isWritable with
    | true =>
      have hps : ps.all Piece.isWritable = false := by simpa [hp] using h
      obtain ⟨x, after, heq, hx⟩ := ih hps
      refine ⟨x, after, ?_, hx⟩
      rw [List.takeWhile_cons_of_pos hp, List.cons_append, ← heq]
    | false =>
      cases p with
      | token t => cases hp
      | literal x => exact ⟨x, ps, by rw [List.takeWhile_cons_of_neg (by simp [hp])]; rfl, hp⟩

/-- An expression missing at the first token of a number that cannot be read again. -/
theorem stuckAt_missingAt {x : Number} (hx : x.isWritable = false) (before after : List Token) :
    ((Cursor.ofLexemes (inLine 1 0 (before ++ (x.tokens ++ after)))).stuckAt
      (missingAt before.length (inLine 1 0 (before ++ (x.tokens ++ after))))).1 =
      ⟨.expression, some x.refusedToken, 1, before.length⟩ := by
  obtain ⟨rest, hrest⟩ := Number.tokens_of_not_isWritable hx
  have hmissing := missingAt_behind 1 0 0 before
    (inLine 1 before.length (x.tokens ++ after))
  rw [Nat.add_zero] at hmissing
  rw [inLine_append, Nat.zero_add, hmissing, hrest]
  rfl

/-- Canonical text with a literal that is negative, infinite or NaN is rejected at the first such
literal.  All pieces of the text before it can be read again; an expression is expected there, and
found is the token that the literal begins with. -/
theorem parse_render_refused (s : Statement)
    (hnames : s.all Word.isIdentifier (fun _ => true) = true) (h : s.isWritable = false) :
    (tokenize s.render).map (fun l => l.token) = pieceTokens s.pieces ∧
    ∃ before x after error, s.pieces = before ++ .literal x :: after ∧
      before.all Piece.isWritable = true ∧ (x.isNegative = true ∨ x.isFinite = false) ∧
      parse s.render = .error error ∧ error.expected.text = "an expression" ∧
      error.position = ⟨1, (pieceTokens before).length⟩ ∧
      error.foundText =
        if x.isNaN then "'NaN.0'" else if x.isNegative then "'-'" else "'inf.0'" := by
  have htokens : tokenize s.render = inLine 1 0 s.tokens := tokenize_of_reads (s.reads hnames)
  refine ⟨by rw [htokens, map_token_inLine, s.tokens_pieces], ?_⟩
  obtain ⟨x, after, hpieces, hx⟩ :=
    exists_first_literal (by rw [s.all_pieces hnames, h] : s.pieces.all Piece.isWritable = false)
  let before := s.pieces.takeWhile Piece.isWritable
  have hspelled : s.tokens = pieceTokens before ++ (x.tokens ++ pieceTokens after) := by
    rw [← s.tokens_pieces, hpieces]
    simp [before, Piece.tokens]
  refine ⟨before, x, after, ⟨.expression, some x.refusedToken, 1, (pieceTokens before).length⟩,
    hpieces, List.all_takeWhile, ?_, ?_, rfl, rfl, ?_⟩
  · simpa [Number.isWritable, or_comm, imp_iff_or_not] using hx
  · have hfails := (s.refused 1 hnames h 0 []).first
    rw [List.append_nil] at hfails
    rw [parse, htokens]
    refine parseLexemes_eq_error_iff.mpr ⟨_, ?_, .inl hfails⟩
    rw [hspelled]
    exact (stuckAt_missingAt hx _ _).symm
  · simp only [ParseError.foundText, Number.refusedToken]
    split
    · rfl
    · split <;> rfl

/-- A negative zero behind an operator that is a minus itself, with a NaN further on. -/
theorem parse_render_refused_operand :
    let s : Statement := .sequence
      (.procedure "f" ["n"]
        (.print (.binary .subtract (.var "n" 1) (.literal ⟨0x8000000000000000⟩))))
      (.expression (.call "f" [.literal .nan] 2))
    s.all Word.isIdentifier (fun _ => true) = true ∧ s.isWritable = false ∧
      s.render = "proc f(n) \x7b print (n--0.0) \x7d; f(NaN.0)" ∧
      parse s.render = .error ⟨.expression, some (.mark .minus), 1, 10⟩ ∧
      ∃ before x after error, s.pieces = before ++ .literal x :: after ∧
        before.all Piece.isWritable = true ∧ (x.isNegative = true ∨ x.isFinite = false) ∧
        parse s.render = .error error ∧ error.expected.text = "an expression" ∧
        error.position = ⟨1, (pieceTokens before).length⟩ ∧
        error.foundText =
          if x.isNaN then "'NaN.0'" else if x.isNegative then "'-'" else "'inf.0'" := by
  intro s
  have hnames : s.all Word.isIdentifier (fun _ => true) = true := by decide +kernel
  have hs : s.isWritable = false := by decide +kernel
  exact ⟨hnames, hs, by decide +kernel, by decide +kernel, (parse_render_refused s hnames hs).2⟩

end Imperative
