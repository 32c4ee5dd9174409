import Imperative.Proofs.Equality
import Imperative.Proofs.Shortest
import Mathlib.Data.List.Induction

/-! Printed text.  The parts of a scientific text are found again: its mantissa, its digits and its
exponent.  Laid out around a point these digits are the plain text with a fraction, which is how a
literal is written, though the two are made in different ways; with the exponent written anew they
denote the very decimal they were taken from, and of the numbers of the language no exponent is too
large to be read.  So the printed text of a finite number reads back as the same bits, and printed
text tells all numbers apart, the NaNs excepted. -/

namespace Imperative

namespace Decimal

/-! ### Exponents -/

theorem ofDigits_concat (cs : List Char) (c : Char) :
    ofDigits (cs ++ [c]) = 10 * ofDigits cs + digitValue c := by
  simp [ofDigits]

theorem exponentSize_concat (cs : List Char) (c : Char) : exponentSize (cs ++ [c]) =
    if exponentSize cs ≤ exponentLimit then 10 * exponentSize cs + digitValue c
    else exponentSize cs := by
  rw [exponentSize, List.foldl_append]
  rfl

/-- Up to the limit every digit of an exponent counts. -/
theorem exponentSize_eq {cs : List Char} (h : ofDigits cs ≤ exponentLimit) :
    exponentSize cs = ofDigits cs := by
  induction cs using List.reverseRecOn with
  | nil => rfl
  | append_singleton cs c ih =>
    rw [ofDigits_concat] at h ⊢
    have hcs := ih (by omega)
    rw [exponentSize_concat, hcs, if_pos (by omega)]

/-- The text of an exponent is a letter, a sign and the digits of its size, at least two of them; a
zero stands first only if there would be one digit without it. -/
theorem exponentText_eq (e : Int) : ∃ ds,
    exponentText e = 'e' :: (if e < 0 then '-' else '+') :: ds ∧
    Word.isDigits ds = true ∧ ofDigits ds = e.natAbs ∧
    2 ≤ ds.length ∧ (2 < ds.length → ds.head? ≠ some '0') := by
  refine ⟨_, rfl, isDigits_zeros_append _ _,
    (ofDigits_zeros_append _ _).trans (ofDigits_digitsOf _), by simp; omega, ?_⟩
  intro hlength
  have hzeros : 2 - (digitsOf e.natAbs).length = 0 := by
    rw [List.length_append, List.length_replicate] at hlength
    omega
  rw [hzeros] at hlength ⊢
  refine head?_digitsOf fun hzero => ?_
  rw [hzero] at hlength
  exact absurd hlength (by decide)

theorem signed_natAbs (e : Int) :
    (if decide (e < 0) then -(e.natAbs : Int) else e.natAbs) = e := by
  by_cases hneg : e < 0
  · rw [if_pos (decide_eq_true hneg)]
    omega
  · rw [if_neg (by simpa using hneg)]
    omega

/-- The text of an exponent reads back, up to the limit. -/
theorem exponent?_exponentText {e : Int} (h : e.natAbs ≤ exponentLimit) :
    exponent? (exponentText e) = some e := by
  obtain ⟨ds, htext, hdigits, hvalue, -⟩ := exponentText_eq e
  have hsize : exponentSize ds = e.natAbs := by rw [exponentSize_eq (by omega), hvalue]
  have hsplit : splitSign ((if e < 0 then '-' else '+') :: ds) = (decide (e < 0), ds) := by
    split <;> simp [splitSign, *]
  have hsome : (ds.isEmpty || !ds.all Char.isDigit) = false := by
    simpa [Word.isDigits] using hdigits
  rw [htext]
  show signedExponent? _ = some e
  simp only [signedExponent?, hsplit, hsome, hsize]
  rw [if_neg Bool.false_ne_true, ← apply_ite some, signed_natAbs]

/-- The text of an integer of 32 bits reads back. -/
theorem integer?_integerText {e : Int} (h : -0x80000000 ≤ e ∧ e < 0x80000000) :
    integer? (integerText e) = some e := by
  have hdigits : Word.isDigits (digitsOf e.natAbs) = true := isDigits_zeros_append 0 _
  have hsome : ((digitsOf e.natAbs).isEmpty || !(digitsOf e.natAbs).all Char.isDigit) = false := by
    simpa [Word.isDigits] using hdigits
  have hsplit : splitSign (integerText e) = (decide (e < 0), digitsOf e.natAbs) := by
    unfold integerText
    split
    · next hneg => simp [splitSign, hneg]
    · next hneg => simpa [hneg] using Number.splitSign_digits hdigits []
  simp only [integer?, hsplit, hsome, ofDigits_digitsOf, signed_natAbs]
  exact if_pos h

/-! ### Scientific text -/

/-- The mantissa is the first digit, and the others behind a point if there are any. -/
theorem mantissaText_eq (d : Decimal) : ∃ first fraction, digitsOf d.digits = first :: fraction ∧
    d.mantissaText = first :: (if fraction = [] then [] else '.' :: fraction) ∧
    first.isDigit = true ∧ ∀ c ∈ fraction, c.isDigit = true := by
  obtain ⟨first, fraction, h⟩ := List.exists_cons_of_ne_nil (digitsOf_ne_nil d.digits)
  have hdigit (c : Char) (hc : c ∈ first :: fraction) : c.isDigit = true :=
    isDigit_of_mem_digitsOf (h ▸ hc)
  refine ⟨first, fraction, h, ?_, hdigit first List.mem_cons_self,
    fun c hc => hdigit c (List.mem_cons_of_mem first hc)⟩
  rw [mantissaText, h]
  cases fraction <;> rfl

/-- Without its point the mantissa is all the digits. -/
theorem filter_mantissaText (d : Decimal) :
    d.mantissaText.filter Char.isDigit = digitsOf d.digits := by
  obtain ⟨first, fraction, hdigits, htext, hfirst, hfraction⟩ := d.mantissaText_eq
  have hkept : fraction.filter Char.isDigit = fraction := List.filter_eq_self.mpr hfraction
  have hpoint : Char.isDigit '.' = false := rfl
  rw [htext, hdigits]
  split
  · next hsingle => simp [hfirst, hsingle]
  · simp [hfirst, hpoint, hkept]

theorem isDigit_of_mem_mantissaText {d : Decimal} {c : Char} (h : c ∈ d.mantissaText) :
    c.isDigit = true ∨ c = '.' := by
  obtain ⟨first, fraction, -, htext, hfirst, hfraction⟩ := d.mantissaText_eq
  rw [htext] at h
  split at h
  · rw [List.mem_singleton.mp h]
    exact .inl hfirst
  · rcases List.mem_cons.mp h with rfl | h
    · exact .inl hfirst
    · exact (List.mem_cons.mp h).symm.imp_left (hfraction c)

theorem splitExponent_e {cs : List Char} (h : 'e' ∉ cs) (rest : List Char) :
    splitExponent (cs ++ 'e' :: rest) = (cs, rest) := by
  have hbefore : ∀ c ∈ cs, (c != 'e') = true := fun c hc =>
    bne_iff_ne.mpr fun heq => h (heq ▸ hc)
  have hdrop : (cs ++ 'e' :: rest).dropWhile (· != 'e') = 'e' :: rest := by
    rw [List.dropWhile_append_of_pos hbefore]
    rfl
  have htake : (cs ++ 'e' :: rest).takeWhile (· != 'e') = cs := by
    rw [List.takeWhile_append_of_pos hbefore]
    simp
  simp [splitExponent, hdrop, htake]

theorem splitExponent_scientificText (d : Decimal) :
    splitExponent d.scientificText = (d.mantissaText, integerText d.leadingExponent) := by
  refine splitExponent_e (fun hmem => ?_) _
  exact absurd (isDigit_of_mem_mantissaText hmem) (by decide)

/-- The digits laid out around a point are the plain text with a fraction, wherever the point
stands. -/
theorem positionalText_leadingExponent (d : Decimal) :
    positionalText (digitsOf d.digits) d.leadingExponent = withFraction d.plainText := by
  rw [withFraction_plainText]
  unfold positionalText leadingExponent
  generalize digitsOf d.digits = ds
  simp only
  by_cases hbefore : d.exponent + ds.length ≤ 0
  · have hzeros : (d.exponent + ds.length - 1).natAbs - 1 = (-(d.exponent + ds.length)).toNat := by
      omega
    rw [if_pos hbefore, if_pos (by omega), hzeros]
    rfl
  · have hintegral : (d.exponent + ds.length - 1).natAbs + 1 = (d.exponent + ds.length).toNat := by
      omega
    rw [if_neg hbefore, if_neg (by omega), hintegral]
    by_cases hamong : d.exponent + ds.length < ds.length
    · rw [if_pos hamong, if_neg (by omega)]
    · have hzeros : (d.exponent + ds.length).toNat - ds.length = d.exponent.toNat := by omega
      rw [if_neg hamong, if_pos (by omega), hzeros]

/-- What is printed of a scientific text: in the positional range the plain text with a fraction,
and outside it the mantissa with the exponent written anew. -/
theorem printedText_scientificText {d : Decimal} (h : d.leadingExponent.natAbs ≤ exponentLimit) :
    printedText d.scientificText =
      if isPositional d.leadingExponent then withFraction d.plainText
      else d.mantissaText ++ exponentText d.leadingExponent := by
  have hread : integer? (integerText d.leadingExponent) = some d.leadingExponent := by
    simp only [exponentLimit] at h
    exact integer?_integerText (by omega)
  simp only [printedText, splitExponent_scientificText, hread, Option.getD_some,
    filter_mantissaText, positionalText_leadingExponent]

/-! ### Reading back -/

section Exponent

variable {whole fraction rest : List Char} {e : Int}

theorem ofText?_exponent (hwhole : Word.isDigits whole = true)
    (hrest : exponent? ('e' :: rest) = some e) :
    ofText? (whole ++ 'e' :: rest) = some ⟨ofDigits whole, e⟩ := by
  obtain ⟨hne, hall⟩ := Word.isDigits_iff.mp hwhole
  have htake : (whole ++ 'e' :: rest).takeWhile Char.isDigit = whole :=
    Word.takeWhile_digits hall rfl
  have hdrop : (whole ++ 'e' :: rest).dropWhile Char.isDigit = 'e' :: rest :=
    Word.dropWhile_digits hall rfl
  simp [ofText?, htake, hdrop, splitFraction, hne, hrest]

theorem ofText?_point_exponent (hwhole : Word.isDigits whole = true)
    (hfraction : ∀ c ∈ fraction, c.isDigit = true) (hrest : exponent? ('e' :: rest) = some e) :
    ofText? (whole ++ '.' :: (fraction ++ 'e' :: rest)) =
      some ⟨ofDigits (whole ++ fraction), e - fraction.length⟩ := by
  have hne := (Word.isDigits_iff.mp hwhole).1
  have htake : (fraction ++ 'e' :: rest).takeWhile Char.isDigit = fraction :=
    Word.takeWhile_digits hfraction rfl
  have hdrop : (fraction ++ 'e' :: rest).dropWhile Char.isDigit = 'e' :: rest :=
    Word.dropWhile_digits hfraction rfl
  simp [ofText?, Word.takeWhile_point hwhole, Word.dropWhile_point hwhole, htake, hdrop,
    splitFraction, hne, hrest]

end Exponent

/-- A text begins with digits and reads as the decimal does. -/
def Spells (cs : List Char) (d : Decimal) : Prop :=
  ∃ whole rest d', cs = whole ++ rest ∧ Word.isDigits whole = true ∧
    ofText? (whole ++ rest) = some d' ∧ d'.magnitude = d.magnitude

theorem spells_plainText (d : Decimal) : Spells (withFraction d.plainText) d := by
  obtain ⟨whole, fraction, htext, hwhole, hfraction, hmagnitude⟩ := d.withFraction_plainText_reads
  exact ⟨whole, '.' :: fraction, _, htext, hwhole, ofText?_point hwhole hfraction, hmagnitude⟩

/-- The text with an exponent denotes the same digits with the same exponent. -/
theorem spells_exponentText {d : Decimal} (h : d.leadingExponent.natAbs ≤ exponentLimit) :
    Spells (d.mantissaText ++ exponentText d.leadingExponent) d := by
  obtain ⟨ds, htext, -⟩ := exponentText_eq d.leadingExponent
  have hread := exponent?_exponentText h
  obtain ⟨first, fraction, hdigits, hmantissa, hdigit, hfraction⟩ := d.mantissaText_eq
  have hfirst : Word.isDigits [first] = true :=
    Word.isDigits_iff.mpr ⟨by simp, by simpa using hdigit⟩
  have hvalue : ofDigits (first :: fraction) = d.digits := by rw [← hdigits, ofDigits_digitsOf]
  have hexponent : d.leadingExponent - fraction.length = d.exponent := by
    simp [leadingExponent, hdigits]
    omega
  rw [htext] at hread ⊢
  rw [hmantissa]
  split
  · next hsingle =>
    subst hsingle
    have hsame : d.leadingExponent = d.exponent := by simpa using hexponent
    refine ⟨[first], _, _, rfl, hfirst, ofText?_exponent hfirst hread, ?_⟩
    rw [hvalue, hsame]
  · refine ⟨[first], _, _, rfl, hfirst, ofText?_point_exponent hfirst hfraction hread, ?_⟩
    rw [hexponent, List.singleton_append, hvalue]

/-- What is printed of a scientific text reads as the decimal does. -/
theorem spells_printedText {d : Decimal} (h : d.leadingExponent.natAbs ≤ exponentLimit) :
    Spells (printedText d.scientificText) d := by
  rw [printedText_scientificText h]
  split
  · exact d.spells_plainText
  · exact spells_exponentText h

/-! ### The exponents of shortest decimals -/

theorem length_digitsOf_le {n k : Nat} (hk : 0 < k) (h : n < 2 ^ k) : (digitsOf n).length ≤ k := by
  refine (Nat.length_toDigits_le_iff (by decide) hk).mpr (Nat.lt_of_lt_of_le h ?_)
  exact Nat.pow_le_pow_left (by decide) k

/-- The exponent of what the search finds is small if the exact value is. -/
theorem natAbs_leadingExponent_search (m : Nat) {exact k : Nat} (h : exact < 2 ^ k)
    (hk : k ≤ 10000) :
    (search m exact (coarsest exact)).leadingExponent.natAbs ≤ exponentLimit := by
  obtain ⟨j, hj, count, heq, hneighbour, -⟩ := search_eq_onGrid m exact (coarsest exact)
  have hcount : count ≤ exact + 1 := hneighbour.le_succ
  have hlog : exact.log2 ≤ k := by
    by_cases h0 : exact = 0
    · simp [h0]
    · exact ((Nat.log2_lt h0).mpr h).le
  have hlength : (digitsOf count).length ≤ k + 1 := by
    refine length_digitsOf_le (by omega) ?_
    rw [pow_succ]
    omega
  have hpos : 0 < (digitsOf count).length := List.length_pos_iff.mpr (digitsOf_ne_nil _)
  rw [heq]
  simp only [leadingExponent, onGrid, coarsest, finest, exponentLimit] at hj ⊢
  omega

theorem units_lt (m : Nat) : Number.units m < 2 ^ (m / Number.leadingBit + 53) := by
  have hfraction : m % Number.leadingBit < 2 ^ 52 := Nat.mod_lt _ (by decide)
  unfold Number.units
  simp only
  generalize m / Number.leadingBit = e
  split
  · exact Nat.lt_of_lt_of_le hfraction (Nat.pow_le_pow_right (by decide) (by omega))
  · rw [Nat.shiftLeft_eq]
    calc (Number.leadingBit + m % Number.leadingBit) * 2 ^ (e - 1) < 2 ^ 53 * 2 ^ (e - 1) := by
          refine Nat.mul_lt_mul_of_pos_right ?_ (Nat.two_pow_pos _)
          rw [Number.leadingBit_eq] at hfraction ⊢
          omega
      _ = 2 ^ (53 + (e - 1)) := (pow_add 2 _ _).symm
      _ ≤ 2 ^ (e + 53) := Nat.pow_le_pow_right (by decide) (by omega)

theorem mul_five_pow_lt {n k : Nat} (h : n < 2 ^ k) (j : Nat) :
    n * Nat.pow 5 j < 2 ^ (k + 3 * j) := by
  calc n * 5 ^ j < 2 ^ k * 5 ^ j := Nat.mul_lt_mul_of_pos_right h (Nat.pow_pos (by decide))
    _ ≤ 2 ^ k * (2 ^ 3) ^ j := Nat.mul_le_mul_left _ (Nat.pow_le_pow_left (by decide) j)
    _ = 2 ^ (k + 3 * j) := by rw [pow_add, pow_mul]

/-- The exponent of a shortest decimal is one that can be read. -/
theorem natAbs_leadingExponent_shortest {m : Nat} (hm : m < Number.infinityWord) :
    (shortest m).leadingExponent.natAbs ≤ exponentLimit := by
  have hexponent : m / Number.leadingBit < 2047 :=
    Nat.div_lt_of_lt_mul (Nat.lt_of_lt_of_le hm (by decide))
  refine natAbs_leadingExponent_search m (mul_five_pow_lt (units_lt m) finest) ?_
  simp only [finest]
  omega

end Decimal

namespace Number

/-! ### Finite numbers -/

theorem natAbs_leadingExponent_decimal {x : Number} (hx : x.isFinite = true) :
    x.decimal.leadingExponent.natAbs ≤ Decimal.exponentLimit := by
  unfold decimal
  split
  · decide
  · exact Decimal.natAbs_leadingExponent_shortest (lt_infinityWord_of_isFinite hx)

theorem equals_zero {x : Number} (hx : x.isNaN = false) : x.equals zero = x.isZero := by
  rw [Bool.eq_iff_iff, equals_iff]
  constructor
  · rintro ⟨-, -, rfl | ⟨hzero, -⟩⟩
    · rfl
    · exact hzero
  · exact fun hzero => ⟨hx, rfl, .inr ⟨hzero, rfl⟩⟩

/-- A finite number is printed as its sign and what is printed of its scientific text; for the zeros
that is the text of their own. -/
theorem printed_of_isFinite {x : Number} (hx : x.isFinite = true) : x.printed =
    String.ofList ((if x.isNegative then ['-'] else []) ++
      Decimal.printedText x.decimal.scientificText) := by
  have hnan := not_isNaN_of_isFinite hx
  have hinfinite : x.isInfinite = false := beq_false_of_ne (lt_infinityWord_of_isFinite hx).ne
  simp only [printed, hnan, hinfinite, equals_zero hnan, scientific, written_abs _ hx]
  cases hzero : x.isZero with
  | true =>
    have htext : Decimal.printedText (Decimal.scientificText ⟨0, 0⟩) = ['0', '.', '0'] := by decide
    simp [decimal, hzero, htext]
  | false => rfl

/-- The printed text of a finite number reads back as the same bits. -/
theorem ofText?_printed_of_isFinite {x : Number} (hx : x.isFinite = true) :
    ofText? x.printed = some x := by
  obtain ⟨whole, rest, d, htext, hwhole, hread, hd⟩ :=
    Decimal.spells_printedText (natAbs_leadingExponent_decimal hx)
  rw [printed_of_isFinite hx, htext]
  exact ofText?_signed hx hwhole hread (hd.trans (magnitude_decimal hx))

/-! ### All numbers -/

theorem magnitude_eq_infinityWord {x : Number} (hx : x.isFinite = false) (hnan : x.isNaN = false) :
    x.magnitude = infinityWord :=
  Nat.le_antisymm (Nat.le_of_not_lt (of_decide_eq_false hnan))
    (Nat.le_of_not_lt (of_decide_eq_false hx))

/-- The printed text of what is not finite, from whether it is a NaN and whether negative. -/
def nonFiniteText (nan negative : Bool) : String :=
  if nan then "nan" else if negative then "-inf" else "inf"

theorem printed_of_not_isFinite {x : Number} (hx : x.isFinite = false) :
    x.printed = nonFiniteText x.isNaN x.isNegative := by
  cases hnan : x.isNaN with
  | true => simp [printed, nonFiniteText, hnan]
  | false =>
    have hm := magnitude_eq_infinityWord hx hnan
    have hinfinite : x.isInfinite = true := beq_iff_eq.mpr hm
    have hbelow : zero.isBelow x = !x.isNegative := by
      rw [isBelow, hnan, rank, rank, hm]
      cases x.isNegative <;> rfl
    simp only [printed, nonFiniteText, hnan, hinfinite, hbelow]
    cases x.isNegative <;> rfl

theorem ofText?_nonFiniteText : ∀ nan negative, ofText? (nonFiniteText nan negative) = none := by
  decide

theorem nonFiniteText_inj : ∀ nan negative nan' negative',
    nonFiniteText nan negative = nonFiniteText nan' negative' →
      nan = nan' ∧ (nan = false → negative = negative') := by
  decide

/-- Printed text reads back as the same bits if the number is finite, and else not at all. -/
theorem ofText?_printed (x : Number) :
    ofText? x.printed = if x.isFinite then some x else none := by
  by_cases hx : x.isFinite = true
  · rw [if_pos hx]
    exact ofText?_printed_of_isFinite hx
  · rw [if_neg hx, printed_of_not_isFinite (by simpa using hx)]
    exact ofText?_nonFiniteText _ _

/-- The same number, where all NaNs are one. -/
def Same (x y : Number) : Prop := x = y ∨ x.isNaN = true ∧ y.isNaN = true

/-- Printed text tells numbers apart. -/
theorem printed_eq_iff {x y : Number} : x.printed = y.printed ↔ x.Same y := by
  constructor
  · intro h
    have hread := congrArg ofText? h
    rw [ofText?_printed, ofText?_printed] at hread
    cases hx : x.isFinite <;> cases hy : y.isFinite <;> simp [hx, hy] at hread
    · -- Neither is finite, and the text tells which of the three it is.
      rw [printed_of_not_isFinite hx, printed_of_not_isFinite hy] at h
      obtain ⟨hnan, hsign⟩ := nonFiniteText_inj _ _ _ _ h
      cases hnan' : x.isNaN with
      | true => exact .inr ⟨hnan', hnan ▸ hnan'⟩
      | false =>
        have hmagnitude := magnitude_eq_infinityWord hx hnan'
        have hmagnitude' := magnitude_eq_infinityWord hy (hnan ▸ hnan')
        left
        rw [← x.ofMagnitude_magnitude, ← y.ofMagnitude_magnitude, hsign hnan', hmagnitude,
          hmagnitude']
    · exact .inl hread
  · rintro (rfl | ⟨hx, hy⟩)
    · rfl
    · simp [printed, hx, hy]

/-! A number is printed on one line. -/

theorem newline_notMem_nonFiniteText :
    ∀ nan negative, '\n' ∉ (nonFiniteText nan negative).toList := by
  decide

theorem newline_notMem_printedText {d : Decimal}
    (h : d.leadingExponent.natAbs ≤ Decimal.exponentLimit) :
    '\n' ∉ Decimal.printedText d.scientificText := by
  have hnotMem {cs : List Char} (h : Word.isDigits cs = true) : '\n' ∉ cs :=
    Word.notMem_of_isDigit rfl (Word.isDigits_iff.mp h).2
  rw [Decimal.printedText_scientificText h]
  split
  · obtain ⟨whole, fraction, -, htext, hwhole, hfraction, -⟩ := d.withFraction_plainText_eq
    simp [htext, hnotMem hwhole, hnotMem hfraction]
  · obtain ⟨ds, htext, hds, -⟩ := Decimal.exponentText_eq d.leadingExponent
    have hmantissa : '\n' ∉ d.mantissaText := fun hmem =>
      absurd (Decimal.isDigit_of_mem_mantissaText hmem) (by decide)
    have hsign : '\n' ≠ if d.leadingExponent < 0 then '-' else '+' := by split <;> decide
    simp [htext, hmantissa, hsign, hnotMem hds]

theorem newline_notMem_printed (x : Number) : '\n' ∉ x.printed.toList := by
  cases hx : x.isFinite with
  | false =>
    rw [printed_of_not_isFinite hx]
    exact newline_notMem_nonFiniteText _ _
  | true =>
    have hsign : '\n' ∉ (if x.isNegative then ['-'] else []) := by split <;> decide
    rw [printed_of_isFinite hx, String.toList_ofList, List.mem_append]
    rintro (h | h)
    · exact hsign h
    · exact newline_notMem_printedText (natAbs_leadingExponent_decimal hx) h

end Number
end Imperative
