import Imperative.Tree
import Imperative.Word

/-! Trees that program text can spell, and what text forgets of them.  A tree is writable if all its
names are identifiers and all its literals are finite without the sign bit.  Text keeps neither the
lines of names nor the way sequences are nested: `atLine` puts every name in one line, and
`leftward` nests every chain of statements to the left. -/

namespace Imperative

/-- Whether a number can be written as a numeral: finite, and without the sign bit. -/
def Number.isWritable (x : Number) : Bool := x.isFinite && !x.isNegative

/-! ### Names and literals -/

mutual

/-- Whether all names and all literals of an expression pass these tests. -/
def Expr.all (name : String → Bool) (number : Number → Bool) : Expr → Bool
  | .literal x => number x
  | .var n _ => name n
  | .binary _ a b => a.all name number && b.all name number
  | .assign n e => name n && e.all name number
  | .call n es _ => name n && argumentsAll name number es

/-- Whether all names and all literals of arguments pass these tests. -/
def argumentsAll (name : String → Bool) (number : Number → Bool) : List Expr → Bool
  | [] => true
  | e :: es => e.all name number && argumentsAll name number es

end

/-- Whether all names and all literals of a statement pass these tests; a procedure has its own name
and its parameters. -/
def Statement.all (name : String → Bool) (number : Number → Bool) : Statement → Bool
  | .sequence a b => a.all name number && b.all name number
  | .procedure n ps b => name n && ps.all name && b.all name number
  | .choice g a b => g.all name number && a.all name number && b.all name number
  | .loop g b => g.all name number && b.all name number
  | .print e => e.all name number
  | .expression e => e.all name number

section Weakening

variable {name : String → Bool} {number number' : Number → Bool}

mutual

theorem Expr.all_imp (himp : ∀ x, number x = true → number' x = true) :
    (e : Expr) → e.all name number = true → e.all name number' = true
  | .literal x, h => himp x h
  | .var _ _, h => h
  | .binary _ a b, h => by
    obtain ⟨ha, hb⟩ := Bool.and_eq_true_iff.mp h
    exact Bool.and_eq_true_iff.mpr ⟨a.all_imp himp ha, b.all_imp himp hb⟩
  | .assign _ e, h => by
    obtain ⟨hname, he⟩ := Bool.and_eq_true_iff.mp h
    exact Bool.and_eq_true_iff.mpr ⟨hname, e.all_imp himp he⟩
  | .call _ es _, h => by
    obtain ⟨hname, hes⟩ := Bool.and_eq_true_iff.mp h
    exact Bool.and_eq_true_iff.mpr ⟨hname, argumentsAll_imp himp es hes⟩

theorem argumentsAll_imp (himp : ∀ x, number x = true → number' x = true) :
    (es : List Expr) → argumentsAll name number es = true → argumentsAll name number' es = true
  | [], _ => rfl
  | e :: es, h => by
    obtain ⟨he, hes⟩ := Bool.and_eq_true_iff.mp h
    exact Bool.and_eq_true_iff.mpr ⟨e.all_imp himp he, argumentsAll_imp himp es hes⟩

end

/-- A weaker test of literals passes all the more. -/
theorem Statement.all_imp (himp : ∀ x, number x = true → number' x = true) (s : Statement)
    (h : s.all name number = true) : s.all name number' = true := by
  induction s with
  | sequence a b iha ihb =>
    simp only [Statement.all, Bool.and_eq_true] at h ⊢
    exact ⟨iha h.1, ihb h.2⟩
  | procedure n ps b ih =>
    simp only [Statement.all, Bool.and_eq_true] at h ⊢
    exact ⟨h.1, ih h.2⟩
  | choice g a b iha ihb =>
    simp only [Statement.all, Bool.and_eq_true] at h ⊢
    exact ⟨⟨g.all_imp himp h.1.1, iha h.1.2⟩, ihb h.2⟩
  | loop g b ih =>
    simp only [Statement.all, Bool.and_eq_true] at h ⊢
    exact ⟨g.all_imp himp h.1, ih h.2⟩
  | print e => exact e.all_imp himp h
  | expression e => exact e.all_imp himp h

end Weakening

/-- Whether an expression can be written in a program. -/
def Expr.isWritable (e : Expr) : Bool := e.all Word.isIdentifier Number.isWritable

/-- Whether a statement can be written in a program. -/
def Statement.isWritable (s : Statement) : Bool := s.all Word.isIdentifier Number.isWritable

/-! ### Lines -/

mutual

/-- The expression with all its names in one line. -/
def Expr.atLine (line : Nat) : Expr → Expr
  | .literal x => .literal x
  | .var n _ => .var n line
  | .binary op a b => .binary op (a.atLine line) (b.atLine line)
  | .assign n e => .assign n (e.atLine line)
  | .call n es _ => .call n (argumentsAtLine line es) line

/-- The arguments with all their names in one line. -/
def argumentsAtLine (line : Nat) : List Expr → List Expr
  | [] => []
  | e :: es => e.atLine line :: argumentsAtLine line es

end

/-- The statement with all its names in one line. -/
def Statement.atLine (line : Nat) : Statement → Statement
  | .sequence a b => .sequence (a.atLine line) (b.atLine line)
  | .procedure n ps b => .procedure n ps (b.atLine line)
  | .choice g a b => .choice (g.atLine line) (a.atLine line) (b.atLine line)
  | .loop g b => .loop (g.atLine line) (b.atLine line)
  | .print e => .print (e.atLine line)
  | .expression e => .expression (e.atLine line)

/-! ### Chains of statements -/

namespace Statement

/-- Whether a statement is a sequence. -/
def isSequence : Statement → Bool
  | .sequence _ _ => true
  | _ => false

/-- A statement and the chain of another one behind it, each statement of the chain joined to all
that stand before it. -/
def followedBy (s : Statement) : Statement → Statement
  | .sequence a b => .sequence (s.followedBy a) b
  | t => .sequence s t

/-- The statement with every chain nested to the left, also inside blocks and procedures. -/
def leftward : Statement → Statement
  | .sequence a b => a.leftward.followedBy b.leftward
  | .procedure n ps b => .procedure n ps b.leftward
  | .choice g a b => .choice g a.leftward b.leftward
  | .loop g b => .loop g b.leftward
  | .print e => .print e
  | .expression e => .expression e

/-- Whether every chain is nested to the left: nowhere is the second part of a sequence itself a
sequence. -/
def isLeftward : Statement → Bool
  | .sequence a b => a.isLeftward && b.isLeftward && !b.isSequence
  | .procedure _ _ b => b.isLeftward
  | .choice _ a b => a.isLeftward && b.isLeftward
  | .loop _ b => b.isLeftward
  | .print _ => true
  | .expression _ => true

/-- The statements of a chain, in the order in which they run. -/
def chain : Statement → List Statement
  | .sequence a b => a.chain ++ b.chain
  | s => [s]

theorem followedBy_of_not_isSequence {t : Statement} (h : t.isSequence = false) (s : Statement) :
    s.followedBy t = .sequence s t := by
  cases t <;> simp_all [isSequence, followedBy]

theorem isLeftward_followedBy {s t : Statement} (hs : s.isLeftward = true)
    (ht : t.isLeftward = true) : (s.followedBy t).isLeftward = true := by
  induction t with
  | sequence a b iha ihb =>
    simp only [isLeftward, Bool.and_eq_true] at ht
    simp [followedBy, isLeftward, iha ht.1.1, ht.1.2, Bool.not_eq_true' _ ▸ ht.2]
  | _ => simp_all [followedBy, isLeftward, isSequence]

theorem followedBy_assoc (s t u : Statement) :
    (s.followedBy t).followedBy u = s.followedBy (t.followedBy u) := by
  induction u with
  | sequence a b iha _ => rw [followedBy, iha, followedBy, followedBy]
  | _ => rfl

/-- `leftward` does what it says. -/
theorem isLeftward_leftward (s : Statement) : s.leftward.isLeftward = true := by
  induction s with
  | sequence a b iha ihb => exact isLeftward_followedBy iha ihb
  | _ => simp_all [leftward, isLeftward]

theorem chain_followedBy (s t : Statement) : (s.followedBy t).chain = s.chain ++ t.chain := by
  induction t with
  | sequence a b iha ihb => simp [followedBy, chain, iha]
  | _ => simp [followedBy, chain]

/-- Nesting to the left keeps the statements of a chain and their order. -/
theorem chain_leftward (s : Statement) : s.leftward.chain = s.chain.map leftward := by
  induction s with
  | sequence a b iha ihb => simp [leftward, chain_followedBy, chain, iha, ihb]
  | _ => simp [leftward, chain]

theorem isSequence_leftward (s : Statement) : s.leftward.isSequence = s.isSequence := by
  cases s with
  | sequence a b =>
    rw [leftward]
    cases b.leftward <;> rfl
  | _ => rfl

/-- A statement whose chains are nested to the left stays as it is. -/
theorem leftward_of_isLeftward {s : Statement} (h : s.isLeftward = true) : s.leftward = s := by
  induction s with
  | sequence a b iha ihb =>
    simp only [isLeftward, Bool.and_eq_true, Bool.not_eq_true'] at h
    rw [leftward, iha h.1.1, ihb h.1.2, followedBy_of_not_isSequence h.2]
  | _ => simp_all [leftward, isLeftward]

theorem isSequence_atLine (line : Nat) (s : Statement) :
    (s.atLine line).isSequence = s.isSequence := by
  cases s <;> rfl

theorem isLeftward_atLine (line : Nat) (s : Statement) :
    (s.atLine line).isLeftward = s.isLeftward := by
  induction s <;> simp_all [atLine, isLeftward, isSequence_atLine]

end Statement
end Imperative
