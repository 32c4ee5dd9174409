import Imperative.Environment
import Imperative.Proofs.Literal

/-! What it means that numbers, trees and bindings compare equal.  Numbers are equal if neither is
NaN and their bits are the same; the two zeros are equal as well.  Trees are equal if they have the
same shape, names and lines, and equal literals in the same places.  Bindings are equal if both are
to equal numbers, or both to procedures with the same name and parameters and with equal bodies.
The comparisons of the language decide these relations. -/

namespace Imperative

namespace Number

/-- Numeric equality: neither is NaN, and the bits are the same or those of the two zeros. -/
def Equal (x y : Number) : Prop :=
  x.isNaN = false ∧ y.isNaN = false ∧ (x = y ∨ x.isZero = true ∧ y.isZero = true)

theorem rank_eq_rank_iff {x y : Number} :
    x.rank = y.rank ↔ x = y ∨ x.isZero = true ∧ y.isZero = true := by
  simp only [isZero, beq_iff_eq]
  constructor
  · intro h
    by_cases hsign : x.isNegative = y.isNegative
    · have hmagnitude : x.magnitude = y.magnitude := by
        rw [rank, rank, hsign] at h
        split at h <;> omega
      left
      rw [← ofMagnitude_magnitude x, hsign, hmagnitude, ofMagnitude_magnitude y]
    · -- Numbers on different sides meet in zero only.
      right
      rw [rank, rank] at h
      cases hx : x.isNegative <;> cases hy : y.isNegative <;> simp [hx, hy] at h hsign <;> omega
  · rintro (rfl | ⟨hx, hy⟩)
    · rfl
    · simp [rank, hx, hy]

theorem equals_iff {x y : Number} : x.equals y = true ↔ x.Equal y := by
  simp only [equals, Equal, Bool.and_eq_true, Bool.not_eq_true', beq_iff_eq, rank_eq_rank_iff,
    and_assoc]

end Number

/-! ### Trees -/

mutual

/-- Expressions of one shape with equal literals. -/
inductive ExprEqual : Expr → Expr → Prop
  | literal {x y : Number} : x.Equal y → ExprEqual (.literal x) (.literal y)
  | var {name : String} {line : Nat} : ExprEqual (.var name line) (.var name line)
  | binary {op : Operator} {a b a' b' : Expr} : ExprEqual a a' → ExprEqual b b' →
      ExprEqual (.binary op a b) (.binary op a' b')
  | assign {name : String} {e e' : Expr} : ExprEqual e e' →
      ExprEqual (.assign name e) (.assign name e')
  | call {name : String} {es es' : List Expr} {line : Nat} : ArgumentsEqual es es' →
      ExprEqual (.call name es line) (.call name es' line)

/-- As many arguments, equal one by one. -/
inductive ArgumentsEqual : List Expr → List Expr → Prop
  | nil : ArgumentsEqual [] []
  | cons {e e' : Expr} {es es' : List Expr} : ExprEqual e e' → ArgumentsEqual es es' →
      ArgumentsEqual (e :: es) (e' :: es')

end

/-- Statements of one shape with equal literals. -/
inductive StatementEqual : Statement → Statement → Prop
  | sequence {a b a' b' : Statement} : StatementEqual a a' → StatementEqual b b' →
      StatementEqual (.sequence a b) (.sequence a' b')
  | procedure {name : String} {parameters : List String} {body body' : Statement} :
      StatementEqual body body' →
      StatementEqual (.procedure name parameters body) (.procedure name parameters body')
  | choice {g g' : Expr} {yes yes' no no' : Statement} : ExprEqual g g' →
      StatementEqual yes yes' → StatementEqual no no' →
      StatementEqual (.choice g yes no) (.choice g' yes' no')
  | loop {g g' : Expr} {body body' : Statement} : ExprEqual g g' → StatementEqual body body' →
      StatementEqual (.loop g body) (.loop g' body')
  | print {e e' : Expr} : ExprEqual e e' → StatementEqual (.print e) (.print e')
  | expression {e e' : Expr} : ExprEqual e e' → StatementEqual (.expression e) (.expression e')

mutual

theorem ExprEqual.agreesBy {a b : Expr} : ExprEqual a b → a.agreesBy Number.equals b = true
  | .literal h => Number.equals_iff.mpr h
  | .var => by simp [Expr.agreesBy]
  | .binary ha hb => by simp [Expr.agreesBy, ha.agreesBy, hb.agreesBy]
  | .assign he => by simp [Expr.agreesBy, he.agreesBy]
  | .call hes => by simp [Expr.agreesBy, hes.agreeBy]

theorem ArgumentsEqual.agreeBy {es fs : List Expr} :
    ArgumentsEqual es fs → argumentsAgreeBy Number.equals es fs = true
  | .nil => rfl
  | .cons he hes => by simp [argumentsAgreeBy, he.agreesBy, hes.agreeBy]

end

mutual

theorem Expr.equal_of_agreesBy {a b : Expr} (h : a.agreesBy Number.equals b = true) :
    ExprEqual a b := by
  cases a with
  | literal x =>
    cases b with
    | literal y => exact .literal (Number.equals_iff.mp h)
    | _ => simp [Expr.agreesBy] at h
  | var name line =>
    cases b with
    | var name' line' =>
      obtain ⟨rfl, rfl⟩ : name = name' ∧ line = line' := by simpa [Expr.agreesBy] using h
      exact .var
    | _ => simp [Expr.agreesBy] at h
  | binary op left right =>
    cases b with
    | binary op' left' right' =>
      simp only [Expr.agreesBy, Bool.and_eq_true, beq_iff_eq] at h
      obtain ⟨⟨rfl, hleft⟩, hright⟩ := h
      exact .binary (Expr.equal_of_agreesBy hleft) (Expr.equal_of_agreesBy hright)
    | _ => simp [Expr.agreesBy] at h
  | assign name value =>
    cases b with
    | assign name' value' =>
      simp only [Expr.agreesBy, Bool.and_eq_true, beq_iff_eq] at h
      obtain ⟨rfl, hvalue⟩ := h
      exact .assign (Expr.equal_of_agreesBy hvalue)
    | _ => simp [Expr.agreesBy] at h
  | call name es line =>
    cases b with
    | call name' es' line' =>
      simp only [Expr.agreesBy, Bool.and_eq_true, beq_iff_eq] at h
      obtain ⟨⟨rfl, hes⟩, rfl⟩ := h
      exact .call (argumentsEqual_of_agreeBy hes)
    | _ => simp [Expr.agreesBy] at h

theorem argumentsEqual_of_agreeBy {es fs : List Expr}
    (h : argumentsAgreeBy Number.equals es fs = true) : ArgumentsEqual es fs := by
  cases es with
  | nil =>
    cases fs with
    | nil => exact .nil
    | cons f fs => simp [argumentsAgreeBy] at h
  | cons e es =>
    cases fs with
    | nil => simp [argumentsAgreeBy] at h
    | cons f fs =>
      obtain ⟨he, hes⟩ := Bool.and_eq_true_iff.mp h
      exact .cons (Expr.equal_of_agreesBy he) (argumentsEqual_of_agreeBy hes)

end

theorem StatementEqual.agrees {s t : Statement} (h : StatementEqual s t) : s.agrees t = true := by
  unfold Statement.agrees
  induction h with
  | sequence _ _ iha ihb => simp [Statement.agreesBy, iha, ihb]
  | procedure _ ih => simp [Statement.agreesBy, ih]
  | choice hg _ _ ihyes ihno => simp [Statement.agreesBy, hg.agreesBy, ihyes, ihno]
  | loop hg _ ih => simp [Statement.agreesBy, hg.agreesBy, ih]
  | print he => exact he.agreesBy
  | expression he => exact he.agreesBy

theorem Statement.equal_of_agrees {s t : Statement} (h : s.agrees t = true) :
    StatementEqual s t := by
  unfold Statement.agrees at h
  induction s generalizing t with
  | sequence a b iha ihb =>
    cases t with
    | sequence a' b' =>
      obtain ⟨ha, hb⟩ := Bool.and_eq_true_iff.mp h
      exact .sequence (iha ha) (ihb hb)
    | _ => simp [Statement.agreesBy] at h
  | procedure name parameters body ih =>
    cases t with
    | procedure name' parameters' body' =>
      simp only [Statement.agreesBy, Bool.and_eq_true, beq_iff_eq] at h
      obtain ⟨⟨rfl, rfl⟩, hbody⟩ := h
      exact .procedure (ih hbody)
    | _ => simp [Statement.agreesBy] at h
  | choice guard yes no ihyes ihno =>
    cases t with
    | choice guard' yes' no' =>
      simp only [Statement.agreesBy, Bool.and_eq_true] at h
      obtain ⟨⟨hguard, hyes⟩, hno⟩ := h
      exact .choice (Expr.equal_of_agreesBy hguard) (ihyes hyes) (ihno hno)
    | _ => simp [Statement.agreesBy] at h
  | loop guard body ih =>
    cases t with
    | loop guard' body' =>
      obtain ⟨hguard, hbody⟩ := Bool.and_eq_true_iff.mp h
      exact .loop (Expr.equal_of_agreesBy hguard) (ih hbody)
    | _ => simp [Statement.agreesBy] at h
  | print value =>
    cases t with
    | print value' => exact .print (Expr.equal_of_agreesBy h)
    | _ => simp [Statement.agreesBy] at h
  | expression value =>
    cases t with
    | expression value' => exact .expression (Expr.equal_of_agreesBy h)
    | _ => simp [Statement.agreesBy] at h

/-! ### Bindings -/

/-- Bindings to equal numbers, or to procedures that have their name and parameters in common and
equal bodies. -/
inductive BindingEqual : Binding → Binding → Prop
  | number {x y : Number} : x.Equal y → BindingEqual (.number x) (.number y)
  | procedure {name : String} {parameters : List String} {body body' : Statement} :
      StatementEqual body body' →
      BindingEqual (.procedure ⟨name, parameters, body⟩) (.procedure ⟨name, parameters, body'⟩)

theorem Procedure.agrees_iff {name name' : String} {ps ps' : List String} {s s' : Statement} :
    (Procedure.mk name ps s).agrees ⟨name', ps', s'⟩ = true ↔
      name = name' ∧ ps = ps' ∧ StatementEqual s s' := by
  simp only [agrees, Bool.and_eq_true, beq_iff_eq, and_assoc]
  constructor
  · rintro ⟨hname, hps, hs⟩
    exact ⟨hname, hps, Statement.equal_of_agrees hs⟩
  · rintro ⟨hname, hps, hs⟩
    exact ⟨hname, hps, hs.agrees⟩

theorem Binding.agrees_iff {b c : Binding} : b.agrees c = true ↔ BindingEqual b c := by
  constructor
  · intro h
    cases b with
    | number x =>
      cases c with
      | number y => exact .number (Number.equals_iff.mp h)
      | procedure q => simp [agrees] at h
    | procedure p =>
      cases c with
      | number y => simp [agrees] at h
      | procedure q =>
        obtain ⟨name, ps, s⟩ := p
        obtain ⟨name', ps', s'⟩ := q
        obtain ⟨rfl, rfl, hs⟩ := Procedure.agrees_iff.mp h
        exact .procedure hs
  · intro h
    cases h with
    | number hx => exact Number.equals_iff.mpr hx
    | procedure hs => exact Procedure.agrees_iff.mpr ⟨rfl, rfl, hs⟩

end Imperative
