import Imperative.Tree.Rendering
import Imperative.Proofs.NormalForm
import Imperative.Proofs.Scanning

/-! The tokens of canonical program text.  The text of a sequence is that of its parts with a
semicolon between them, whatever the parts are, although it is written from a list of pending
statements.  The text of a tree whose names are identifiers is read as `tokens`, all in one line. -/

namespace Imperative

/-! ### Texts of sequences -/

/-- Writing a pending statement adds its text behind the separator, also if it is a sequence. -/
theorem renderPending_cons (text separator : String) (s : Statement) (pending : List Statement) :
    renderPending text separator (s :: pending) =
      renderPending (text ++ separator ++ s.render) "; " pending := by
  induction s generalizing text separator pending with
  | sequence a b iha ihb =>
    have hrender : (Statement.sequence a b).render = a.render ++ "; " ++ b.render := by
      rw [Statement.render, iha, ihb, renderPending]
      simp
    rw [renderPending, iha, ihb, hrender]
    simp only [String.append_assoc]
  | _ => rw [renderPending]; simp

theorem Statement.render_sequence (a b : Statement) :
    (Statement.sequence a b).render = a.render ++ "; " ++ b.render := by
  rw [Statement.render, renderPending_cons, renderPending_cons, renderPending]
  simp

theorem renderArguments_cons_cons (e f : Expr) (es : List Expr) :
    renderArguments (e :: f :: es) = e.render ++ ", " ++ renderArguments (f :: es) := by
  rw [renderArguments]
  simp

mutual

theorem Expr.render_atLine (line : Nat) : (e : Expr) → (e.atLine line).render = e.render
  | .literal _ => rfl
  | .var _ _ => rfl
  | .binary op a b => by
    rw [Expr.atLine, Expr.render, Expr.render, a.render_atLine line, b.render_atLine line]
  | .assign name e => by rw [Expr.atLine, Expr.render, Expr.render, e.render_atLine line]
  | .call name es _ => by
    rw [Expr.atLine, Expr.render, Expr.render, renderArguments_atLine line es]

theorem renderArguments_atLine (line : Nat) :
    (es : List Expr) → renderArguments (argumentsAtLine line es) = renderArguments es
  | [] => rfl
  | [e] => e.render_atLine line
  | e :: f :: es => by
    have hrest := renderArguments_atLine line (f :: es)
    rw [argumentsAtLine] at hrest
    rw [argumentsAtLine, argumentsAtLine, renderArguments_cons_cons, renderArguments_cons_cons,
      hrest, e.render_atLine line]

end

/-- Canonical text does not show lines. -/
theorem Statement.render_atLine (line : Nat) (s : Statement) :
    (s.atLine line).render = s.render := by
  induction s with
  | sequence a b iha ihb => rw [atLine, render_sequence, render_sequence, iha, ihb]
  | procedure name ps body ih => rw [atLine, render, render, ih]
  | choice guard yes no ihyes ihno =>
    rw [atLine, render, render, guard.render_atLine line, ihyes, ihno]
  | loop guard body ih => rw [atLine, render, render, guard.render_atLine line, ih]
  | print e => rw [atLine, render, render, e.render_atLine line]
  | expression e => rw [atLine, render, render, e.render_atLine line]

/-! ### Tokens -/

/-- The tokens of the literal of a number. -/
def Number.tokens (x : Number) : List Token :=
  if x.isNaN then [.word x.literal]
  else (if x.isNegative then [.mark .minus] else []) ++ [.word x.abs.literal]

mutual

/-- The tokens of the canonical text of an expression. -/
def Expr.tokens : Expr → List Token
  | .literal x => x.tokens
  | .var name _ => [.word name]
  | .binary op left right =>
    .mark .leftParen :: (left.tokens ++ .mark op.mark :: (right.tokens ++ [.mark .rightParen]))
  | .assign name value =>
    .mark .leftParen :: .word name :: .mark .colon :: .mark .equal ::
      (value.tokens ++ [.mark .rightParen])
  | .call name arguments _ =>
    .word name :: .mark .leftParen :: (argumentTokens arguments ++ [.mark .rightParen])

/-- The tokens of the canonical text of arguments. -/
def argumentTokens : List Expr → List Token
  | [] => []
  | [e] => e.tokens
  | e :: es => e.tokens ++ .mark .comma :: argumentTokens es

end

/-- The tokens of the parameters of a procedure. -/
def parameterTokens : List String → List Token
  | [] => []
  | [p] => [.word p]
  | p :: ps => .word p :: .mark .comma :: parameterTokens ps

/-- The tokens of a block. -/
def blockTokens (body : List Token) : List Token :=
  .mark .leftBrace :: (body ++ [.mark .rightBrace])

/-- The tokens of the canonical text of a statement. -/
def Statement.tokens : Statement → List Token
  | .sequence first second => first.tokens ++ .mark .semicolon :: second.tokens
  | .procedure name parameters body =>
    .word "proc" :: .word name :: .mark .leftParen ::
      (parameterTokens parameters ++ .mark .rightParen :: blockTokens body.tokens)
  | .choice guard yes no =>
    .word "if" :: (guard.tokens ++ (blockTokens yes.tokens ++
      .word "else" :: blockTokens no.tokens))
  | .loop guard body => .word "while" :: (guard.tokens ++ blockTokens body.tokens)
  | .print value => .word "print" :: value.tokens
  | .expression value => value.tokens

/-! ### Readings -/

theorem Reads.identifier {name : String} (h : Word.isIdentifier name = true) :
    Reads name.toList [.word name] := by
  have hword := Reads.word (Word.isPlainText_of_isIdentifier h)
  rwa [String.ofList_toList] at hword

/-- The literal of a number that is not a NaN is one word behind the sign. -/
theorem Number.isPlainText_literal_abs {x : Number} (h : x.isNaN = false) :
    Word.isPlainText x.abs.literal.toList = true := by
  rcases Nat.lt_or_ge x.magnitude infinityWord with hlt | hge
  · have hfinite : x.abs.isFinite = true := by simpa [isFinite] using hlt
    obtain ⟨whole, fraction, htext, hwhole, hfraction, -⟩ := literal_eq hfinite
    rw [htext, isNegative_abs, String.toList_ofList]
    exact Word.isPlainText_point hwhole hfraction
  · have hle : ¬infinityWord < x.magnitude := of_decide_eq_false h
    rw [literal_abs_of_isInfinite (by omega)]
    decide

theorem Reads.literal (x : Number) : Reads x.literal.toList x.tokens := by
  unfold Number.tokens
  cases hnan : x.isNaN with
  | true =>
    rw [Number.literal_of_isNaN hnan]
    exact Reads.word (by decide)
  | false =>
    have hword := Reads.word (Number.isPlainText_literal_abs hnan)
    rw [Number.literal_of_not_isNaN hnan, String.toList_ofList]
    cases x.isNegative with
    | false => simpa using hword
    | true => simpa [Mark.char] using hword.mark_first .minus

mutual

/-- The text of an expression whose names are identifiers is read as its tokens. -/
theorem Expr.reads : (e : Expr) → e.all Word.isIdentifier (fun _ => true) = true →
    Reads e.render.toList e.tokens
  | .literal x, _ => Reads.literal x
  | .var name line, h => Reads.identifier h
  | .binary op left right, h => by
    simp only [Expr.all, Bool.and_eq_true] at h
    have hright := (right.reads h.2).mark .rightParen .nil
    have hreads := ((left.reads h.1).mark op.mark hright).mark_first .leftParen
    simpa [Expr.render, Expr.tokens, Mark.char] using hreads
  | .assign name value, h => by
    simp only [Expr.all, Bool.and_eq_true] at h
    have hvalue := ((value.reads h.2).mark .rightParen .nil).blank_first
    have hname := (Reads.identifier h.1).blank ((hvalue.mark_first .equal).mark_first .colon)
    simpa [Expr.render, Expr.tokens, Mark.char] using hname.mark_first .leftParen
  | .call name arguments line, h => by
    simp only [Expr.all, Bool.and_eq_true] at h
    have harguments := (reads_arguments arguments h.2).mark .rightParen .nil
    have hreads := (Reads.identifier h.1).mark .leftParen harguments
    simpa [Expr.render, Expr.tokens, Mark.char] using hreads

theorem reads_arguments : (es : List Expr) →
    argumentsAll Word.isIdentifier (fun _ => true) es = true →
    Reads (renderArguments es).toList (argumentTokens es)
  | [], _ => Reads.nil
  | [e], h => by
    simp only [argumentsAll, Bool.and_true] at h
    exact e.reads h
  | e :: f :: es, h => by
    rw [argumentsAll, Bool.and_eq_true] at h
    have hreads := (e.reads h.1).mark .comma (reads_arguments (f :: es) h.2).blank_first
    simpa [renderArguments, argumentTokens, Mark.char] using hreads

end

theorem reads_parameters (ps : List String) (h : ps.all Word.isIdentifier = true) :
    Reads (", ".intercalate ps).toList (parameterTokens ps) := by
  induction ps with
  | nil => exact Reads.nil
  | cons p ps ih =>
    rw [List.all_cons, Bool.and_eq_true] at h
    cases ps with
    | nil => simpa [parameterTokens] using Reads.identifier h.1
    | cons q ps =>
      have hreads := (Reads.identifier h.1).mark .comma (ih h.2).blank_first
      simpa [parameterTokens, String.intercalate_cons_cons, Mark.char] using hreads

theorem Reads.block {cs : List Char} {ts : List Token} (h : Reads cs ts) :
    Reads (Mark.leftBrace.char :: ' ' :: (cs ++ [' ', Mark.rightBrace.char])) (blockTokens ts) :=
  (h.blank (Reads.nil.mark_first .rightBrace)).blank_first.mark_first .leftBrace

theorem Reads.keyword {w : String} (hw : Word.isPlainText w.toList = true) {cs : List Char}
    {ts : List Token} (h : Reads cs ts) : Reads (w.toList ++ ' ' :: cs) (.word w :: ts) := by
  have hword := Reads.word hw
  rw [String.ofList_toList] at hword
  exact hword.blank h

/-- The text of a statement whose names are identifiers is read as its tokens. -/
theorem Statement.reads (s : Statement) (h : s.all Word.isIdentifier (fun _ => true) = true) :
    Reads s.render.toList s.tokens := by
  induction s with
  | sequence a b iha ihb =>
    simp only [Statement.all, Bool.and_eq_true] at h
    have hreads := (iha h.1).mark .semicolon (ihb h.2).blank_first
    simpa [Statement.render_sequence, Statement.tokens, Mark.char] using hreads
  | procedure name parameters body ih =>
    simp only [Statement.all, Bool.and_eq_true] at h
    have hbody := (ih h.2).block.blank_first
    have hparameters := (reads_parameters parameters h.1.2).mark .rightParen hbody
    have hreads := ((Reads.identifier h.1.1).mark .leftParen hparameters).keyword (w := "proc")
      (by decide)
    simpa [Statement.render, renderProcedure, Statement.tokens, Mark.char] using hreads
  | choice guard yes no ihyes ihno =>
    simp only [Statement.all, Bool.and_eq_true] at h
    have helse := ((ihno h.2).block.keyword (w := "else") (by decide))
    have hreads := ((guard.reads h.1.1).blank ((ihyes h.1.2).block.blank helse)).keyword (w := "if")
      (by decide)
    simpa [Statement.render, Statement.tokens, Mark.char] using hreads
  | loop guard body ih =>
    simp only [Statement.all, Bool.and_eq_true] at h
    have hreads := ((guard.reads h.1).blank (ih h.2).block).keyword (w := "while") (by decide)
    simpa [Statement.render, Statement.tokens, Mark.char] using hreads
  | print value =>
    have hreads := (value.reads h).keyword (w := "print") (by decide)
    simpa [Statement.render, Statement.tokens, Mark.char] using hreads
  | expression value =>
    rw [Statement.render, Statement.tokens]
    exact value.reads h

end Imperative
