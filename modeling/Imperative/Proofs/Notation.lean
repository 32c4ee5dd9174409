import Imperative.Proofs.NumberText

/-! Where printed numbers have an exponent.  The printer looks at the power of ten that the first of
the shortest digits counts; that this power is at least `e` means exactly that the number is at
least as large as the one nearest to `10^e`, provided that `1` and `e` are the shortest decimal of
the latter.  So from the number nearest to `10^-4` on and below `10^16` printed text is literal
text, and outside it is scientific. -/

namespace Imperative

namespace Decimal

/-! ### The first digit -/

theorem lt_tenTo_length (n : Nat) : n < 10 ^ (digitsOf n).length := by
  have hpos : 0 < (digitsOf n).length := List.length_pos_iff.mpr (digitsOf_ne_nil _)
  exact (Nat.length_toDigits_le_iff (by decide) hpos).mp (Nat.le_refl _)

theorem tenTo_length_le {n : Nat} (hn : n ≠ 0) : 10 ^ ((digitsOf n).length - 1) ≤ n := by
  by_cases hone : (digitsOf n).length - 1 = 0
  · rw [hone, pow_zero]
    omega
  · by_contra hlt
    have hle := (Nat.length_toDigits_le_iff (by decide) (by omega)).mpr (Nat.lt_of_not_le hlt)
    unfold digitsOf at hone hle
    omega

theorem magnitude_le_of_leadingExponent_lt {d : Decimal} {e : Int} (h : d.leadingExponent < e) :
    d.magnitude ≤ magnitude ⟨1, e⟩ := by
  unfold leadingExponent at h
  have hpos : 0 < (digitsOf d.digits).length := List.length_pos_iff.mpr (digitsOf_ne_nil _)
  have hzeros : (d.exponent - e).toNat = 0 := by omega
  refine magnitude_le_magnitude ?_
  calc d.digits * 10 ^ (d.exponent - e).toNat = d.digits := by rw [hzeros, pow_zero, Nat.mul_one]
    _ ≤ 10 ^ (digitsOf d.digits).length := (lt_tenTo_length _).le
    _ ≤ 10 ^ (e - d.exponent).toNat := Nat.pow_le_pow_right (by decide) (by omega)
    _ = 1 * 10 ^ (e - d.exponent).toNat := (Nat.one_mul _).symm

theorem le_magnitude_of_le_leadingExponent {d : Decimal} (hd : d.digits ≠ 0) {e : Int}
    (h : e ≤ d.leadingExponent) : magnitude ⟨1, e⟩ ≤ d.magnitude := by
  unfold leadingExponent at h
  refine magnitude_le_magnitude ?_
  calc 1 * 10 ^ (e - d.exponent).toNat = 10 ^ (e - d.exponent).toNat := Nat.one_mul _
    _ ≤ 10 ^ ((digitsOf d.digits).length - 1) := Nat.pow_le_pow_right (by decide) (by omega)
    _ ≤ d.digits := tenTo_length_le hd
    _ ≤ d.digits * 10 ^ (d.exponent - e).toNat :=
      Nat.le_mul_of_pos_right _ (Nat.pow_pos (by decide))

/-- The first digit of a shortest decimal counts at least `10^e` if and only if the magnitude is at
least the nearest one to `10^e`. -/
theorem le_leadingExponent_shortest_iff {m : Nat} (hzero : m ≠ 0) (hm : m < Number.infinityWord)
    {e : Int} (hpower : shortest (magnitude ⟨1, e⟩) = ⟨1, e⟩) :
    e ≤ (shortest m).leadingExponent ↔ magnitude ⟨1, e⟩ ≤ m := by
  have hreads : (shortest m).magnitude = m := magnitude_shortest hm
  constructor
  · intro h
    have hdigits : (shortest m).digits ≠ 0 := by
      have := digits_shortest hzero hm
      omega
    rw [← hreads]
    exact le_magnitude_of_le_leadingExponent hdigits h
  · intro h
    by_contra hlt
    -- A smaller first digit leaves only the power of ten itself, whose digits are known.
    have hle := magnitude_le_of_leadingExponent_lt (Int.lt_of_not_ge hlt)
    have heq : m = magnitude ⟨1, e⟩ := Nat.le_antisymm (hreads ▸ hle) h
    rw [heq, hpower] at hlt
    exact hlt (by simp [leadingExponent, digitsOf_eq])

/-! ### Scientific text -/

/-- A text with an exponent, by its parts: a first digit that is not zero; if there are more, a
point and digits that do not end in a zero; the letter, a sign, and at least two digits of the
exponent, where a zero stands first only to make them two. -/
structure IsScientific (cs : List Char) (first : Char) (fraction : List Char) (e : Int)
    (exponent : List Char) : Prop where
  text : cs = first :: ((if fraction = [] then [] else '.' :: fraction) ++
    'e' :: (if e < 0 then '-' else '+') :: exponent)
  first_isDigit : first.isDigit = true
  first_ne_zero : first ≠ '0'
  fraction_isDigit : ∀ c ∈ fraction, c.isDigit = true
  fraction_last : fraction.getLast? ≠ some '0'
  exponent_isDigit : ∀ c ∈ exponent, c.isDigit = true
  two_le_length : 2 ≤ exponent.length
  no_zero_first : 2 < exponent.length → exponent.head? ≠ some '0'
  exponent_value : ofDigits exponent = e.natAbs

theorem isScientific_exponentText {d : Decimal} (hd : d.digits % 10 ≠ 0) :
    ∃ first fraction exponent, IsScientific (d.mantissaText ++ exponentText d.leadingExponent)
      first fraction d.leadingExponent exponent := by
  obtain ⟨ds, htext, hdigits, hvalue, htwo, hzero⟩ := exponentText_eq d.leadingExponent
  obtain ⟨first, fraction, hcons, hmantissa, hfirst, hfraction⟩ := d.mantissaText_eq
  have hhead := head?_digitsOf (n := d.digits) (by omega)
  have hlast : (digitsOf d.digits).getLast? ≠ some '0' := by
    rw [getLast?_digitsOf]
    exact fun h => digitChar_ne_zero hd (Nat.mod_lt _ (by decide)) (Option.some.inj h)
  rw [hcons] at hhead hlast
  refine ⟨first, fraction, ds, ?_, hfirst, by simpa using hhead, hfraction, ?_,
    (Word.isDigits_iff.mp hdigits).2, htwo, hzero, hvalue⟩
  · rw [hmantissa, htext, List.cons_append]
  · intro h
    exact hlast (by rw [List.getLast?_cons, h]; rfl)

theorem IsScientific.e_mem {cs : List Char} {first : Char} {fraction exponent : List Char} {e : Int}
    (h : IsScientific cs first fraction e exponent) : 'e' ∈ cs := by
  rw [h.text]
  simp

end Decimal

namespace Number

/-! ### Numbers -/

/-- The size of the number is at least that of the number nearest to `10^-4`, and below `10^16`.
Sizes are counted in units of `2^-1074`. -/
def IsModerate (x : Number) : Prop :=
  units (Decimal.magnitude ⟨1, -4⟩) ≤ units x.magnitude ∧ units x.magnitude < 10 ^ 16 * 2 ^ 1074

instance : DecidablePred IsModerate := fun x =>
  inferInstanceAs (Decidable (units (Decimal.magnitude ⟨1, -4⟩) ≤ units x.magnitude ∧
    units x.magnitude < 10 ^ 16 * 2 ^ 1074))

theorem units_ten_pow_sixteen : units (Decimal.magnitude ⟨1, 16⟩) = 10 ^ 16 * 2 ^ 1074 := by
  decide +kernel

theorem decimal_of_not_isZero {x : Number} (hx : x.isZero = false) :
    x.decimal = .shortest x.magnitude := by
  simp [decimal, hx]

theorem isModerate_iff {x : Number} (hx : x.isFinite = true) (hzero : x.isZero = false) :
    x.IsModerate ↔ Decimal.isPositional x.decimal.leadingExponent = true := by
  have hm := lt_infinityWord_of_isFinite hx
  have hne : x.magnitude ≠ 0 := by simpa [isZero] using hzero
  have hlow := Decimal.le_leadingExponent_shortest_iff hne hm
    (show Decimal.shortest (Decimal.magnitude ⟨1, -4⟩) = ⟨1, -4⟩ by decide +kernel)
  have hhigh := Decimal.le_leadingExponent_shortest_iff hne hm
    (show Decimal.shortest (Decimal.magnitude ⟨1, 16⟩) = ⟨1, 16⟩ by decide +kernel)
  rw [decimal_of_not_isZero hzero, IsModerate, ← units_ten_pow_sixteen, units_le_units_iff,
    units_lt_units_iff, ← hlow, ← Nat.not_le, ← hhigh, Int.not_le]
  simp [Decimal.isPositional]

/-- A finite number is printed as its literal in the positional range, and outside it with its
exponent written anew. -/
theorem printed_eq_ite {x : Number} (hx : x.isFinite = true) : x.printed =
    if Decimal.isPositional x.decimal.leadingExponent then x.literal
    else String.ofList ((if x.isNegative then ['-'] else []) ++
      (x.decimal.mantissaText ++ Decimal.exponentText x.decimal.leadingExponent)) := by
  rw [printed_of_isFinite hx, literal_of_isFinite hx,
    Decimal.printedText_scientificText (natAbs_leadingExponent_decimal hx)]
  cases Decimal.isPositional x.decimal.leadingExponent <;> rfl

theorem e_notMem_literal {x : Number} (hx : x.isFinite = true) : 'e' ∉ x.literal.toList := by
  obtain ⟨whole, fraction, htext, hwhole, hfraction, -⟩ := literal_eq hx
  have hdigits {cs : List Char} (h : Word.isDigits cs = true) : 'e' ∉ cs :=
    Word.notMem_of_isDigit rfl (Word.isDigits_iff.mp h).2
  have hsign : 'e' ∉ (if x.isNegative then ['-'] else []) := by split <;> decide
  simp [htext, hsign, hdigits hwhole, hdigits hfraction]

/-- The printed text of a finite number is its literal text exactly for the zeros and from the
number nearest to `10^-4` on up to `10^16`.  Every other one is printed in scientific notation, with
an exponent below `-4` or from `16` on. -/
theorem printed_literal_or_scientific {x : Number} (hx : x.isFinite = true) :
    (x.printed = x.literal ↔ x.isZero = true ∨ x.IsModerate) ∧
    (x.isZero = false → ¬x.IsModerate → ∃ cs first fraction e exponent,
      x.printed = String.ofList ((if x.isNegative then ['-'] else []) ++ cs) ∧
      Decimal.IsScientific cs first fraction e exponent ∧ (e < -4 ∨ 16 ≤ e)) := by
  by_cases hzero : x.isZero = true
  · refine ⟨iff_of_true ?_ (.inl hzero), fun hne => absurd hzero (by simp [hne])⟩
    have hpositional : Decimal.isPositional x.decimal.leadingExponent = true := by
      rw [decimal, if_pos hzero]
      decide
    rw [printed_eq_ite hx, if_pos hpositional]
  rw [Bool.not_eq_true] at hzero
  have hpositional := isModerate_iff hx hzero
  by_cases hmoderate : x.IsModerate
  · refine ⟨iff_of_true ?_ (.inr hmoderate), fun _ hnot => absurd hmoderate hnot⟩
    rw [printed_eq_ite hx, if_pos (hpositional.mp hmoderate)]
  · have hne : x.magnitude ≠ 0 := by simpa [isZero] using hzero
    have hdigits : x.decimal.digits % 10 ≠ 0 := by
      rw [decimal_of_not_isZero hzero]
      exact Decimal.digits_shortest hne (lt_infinityWord_of_isFinite hx)
    obtain ⟨first, fraction, exponent, hscientific⟩ := Decimal.isScientific_exponentText hdigits
    have hnot := mt hpositional.mpr hmoderate
    have htext := printed_eq_ite hx
    rw [if_neg hnot] at htext
    refine ⟨iff_of_false (fun heq => ?_) (by simp [hzero, hmoderate]), fun _ _ =>
      ⟨_, first, fraction, _, exponent, htext, hscientific, ?_⟩⟩
    · refine e_notMem_literal hx ?_
      rw [← heq, htext, String.toList_ofList]
      exact List.mem_append_right _ hscientific.e_mem
    · simp only [Decimal.isPositional, decide_eq_true_eq] at hnot
      omega

/-- The last numbers on both sides of both thresholds, one of them negative. -/
theorem printed_at_thresholds :
    let lowest : Number := ⟨0x3f1a36e2eb1c432d⟩
    let lower : Number := ⟨0x3f1a36e2eb1c432c⟩
    let highest : Number := ⟨0x4341c37937e07fff⟩
    let higher : Number := ⟨0xc341c37937e08000⟩
    (lowest.isFinite = true ∧ lowest.printed = lowest.literal ∧ lowest.printed = "0.0001") ∧
    (lower.isFinite = true ∧ lower.printed ≠ lower.literal ∧
      lower.printed = "9.999999999999999e-05") ∧
    (highest.isFinite = true ∧ highest.printed = highest.literal ∧
      highest.printed = "9999999999999998.0") ∧
    (higher.isFinite = true ∧ higher.isZero = false ∧ ¬higher.IsModerate ∧
      higher.printed = "-1e+16" ∧ ∃ cs first fraction e exponent,
        higher.printed = String.ofList ((if higher.isNegative then ['-'] else []) ++ cs) ∧
        Decimal.IsScientific cs first fraction e exponent ∧ (e < -4 ∨ 16 ≤ e)) := by
  intro lowest lower highest higher
  have hlowest : lowest.isFinite = true := by decide
  have hlower : lower.isFinite = true := by decide
  have hhighest : highest.isFinite = true := by decide
  have hhigher : higher.isFinite = true := by decide
  have hzero : higher.isZero = false := by decide
  have hnot : ¬higher.IsModerate := by decide +kernel
  have hlowest' := (printed_literal_or_scientific hlowest).1.mpr (by decide +kernel)
  have hhighest' := (printed_literal_or_scientific hhighest).1.mpr (by decide +kernel)
  have hlower' : lower.printed ≠ lower.literal := fun heq =>
    absurd ((printed_literal_or_scientific hlower).1.mp heq) (by decide +kernel)
  exact ⟨⟨hlowest, hlowest', by decide +kernel⟩, ⟨hlower, hlower', by decide +kernel⟩,
    ⟨hhighest, hhighest', by decide +kernel⟩, ⟨hhigher, hzero, hnot, by decide +kernel,
      (printed_literal_or_scientific hhigher).2 hzero hnot⟩⟩

end Number
end Imperative
