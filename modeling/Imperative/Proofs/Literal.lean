import Imperative.Number.Text
import Imperative.Proofs.Reading
import Imperative.Word

/-! Literals of program text.  The literal of a finite number is digits around one point, with a
minus before them if the sign bit is set, and reads back as the same bits.  Conversely a numeral
never denotes a number with the sign bit set or one that is not finite. -/

namespace Imperative

namespace Decimal

theorem ofDigits_append (cs ds : List Char) :
    ofDigits (cs ++ ds) = Nat.ofDigitChars 10 ds (ofDigits cs) :=
  Nat.ofDigitChars_append 0

theorem ofDigits_append_zeros (cs : List Char) (k : Nat) :
    ofDigits (cs ++ List.replicate k '0') = ofDigits cs * 10 ^ k := by
  rw [ofDigits_append, Nat.ofDigitChars_replicate_zero, Nat.mul_comm]

theorem ofDigits_zeros_append (k : Nat) (cs : List Char) :
    ofDigits (List.replicate k '0' ++ cs) = ofDigits cs := by
  rw [ofDigits_append, show List.replicate k '0' = [] ++ List.replicate k '0' from rfl,
    ofDigits_append_zeros, show ofDigits [] * 10 ^ k = 0 from Nat.zero_mul _]
  rfl

theorem ofDigits_digitsOf (n : Nat) : ofDigits (digitsOf n) = n := Nat.ofDigitChars_ten_toDigits

theorem digitsOf_ne_nil (n : Nat) : digitsOf n ≠ [] := Nat.toDigits_ne_nil

theorem isDigit_of_mem_digitsOf {n : Nat} {c : Char} (h : c ∈ digitsOf n) : c.isDigit = true :=
  Nat.isDigit_of_mem_toDigits (by decide) (by decide) h

theorem digitsOf_eq (n : Nat) : digitsOf n =
    if n < 10 then [n.digitChar] else digitsOf (n / 10) ++ [(n % 10).digitChar] :=
  Nat.toDigits_eq_if (by decide)

theorem digitChar_ne_zero {n : Nat} (hn : n ≠ 0) (h : n < 10) : n.digitChar ≠ '0' := by
  intro heq
  have hcode : n.digitChar.toNat = 48 := by rw [heq]; rfl
  rw [Nat.toNat_digitChar_of_lt_ten h] at hcode
  omega

theorem head?_digitsOf {n : Nat} (hn : n ≠ 0) : (digitsOf n).head? ≠ some '0' := by
  induction n using Nat.strongRecOn with
  | _ n ih =>
    rw [digitsOf_eq]
    by_cases h : n < 10
    · simpa [h] using digitChar_ne_zero hn h
    · have hfront := ih (n / 10) (by omega) (by omega)
      obtain ⟨c, cs, hcs⟩ := List.exists_cons_of_ne_nil (digitsOf_ne_nil (n / 10))
      simpa [h, hcs] using hfront

theorem getLast?_digitsOf (n : Nat) : (digitsOf n).getLast? = some (n % 10).digitChar := by
  rw [digitsOf_eq]
  by_cases h : n < 10
  · simp [h, Nat.mod_eq_of_lt h]
  · simp [h]

end Decimal

namespace Word

theorem isDigits_iff {cs : List Char} :
    isDigits cs = true ↔ cs ≠ [] ∧ ∀ c ∈ cs, c.isDigit = true := by
  simp [isDigits]

theorem toNat_of_isAlpha {c : Char} (h : c.isAlpha = true) :
    65 ≤ c.toNat ∧ c.toNat ≤ 90 ∨ 97 ≤ c.toNat ∧ c.toNat ≤ 122 := by
  change (decide (c.val ≥ 'A'.val ∧ c.val ≤ 'Z'.val) ||
    (decide (c.val ≥ 'a'.val) && decide (c.val ≤ 'z'.val))) = true at h
  simpa [UInt32.le_iff_toNat_le] using h

/-- A numeral begins with a digit, and an identifier does not. -/
theorem not_isIdentifier_of_isNumeral {s : String} (h : isNumeral s = true) :
    isIdentifier s = false := by
  have hdigits : isDigits (s.toList.takeWhile Char.isDigit) = true := (Bool.and_eq_true_iff.mp h).1
  cases hs : s.toList with
  | nil => simp [hs, isDigits] at hdigits
  | cons c cs =>
    have hc : c.isDigit = true := by
      by_contra hc
      simp [hs, isDigits, hc] at hdigits
    have hrange : 48 ≤ c.toNat ∧ c.toNat ≤ 57 := by
      simpa [Char.isDigit, UInt32.le_iff_toNat_le] using hc
    have hstart : startsIdentifier c = false := by
      rw [← Bool.not_eq_true]
      intro hstart
      simp only [startsIdentifier, Bool.or_eq_true, beq_iff_eq] at hstart
      rcases hstart with halpha | rfl
      · have hletter := toNat_of_isAlpha halpha
        omega
      · revert hrange
        decide
    simp [isIdentifier, hs, hasIdentifierShape, hstart]

/-- Digits hold no other character. -/
theorem notMem_of_isDigit {c : Char} (hc : c.isDigit = false) {cs : List Char}
    (h : ∀ c ∈ cs, c.isDigit = true) : c ∉ cs := by
  intro hmem
  rw [h c hmem] at hc
  cases hc

variable {whole fraction : List Char}

theorem takeWhile_digits {c : Char} (hwhole : ∀ c ∈ whole, c.isDigit = true)
    (hc : c.isDigit = false) : (whole ++ c :: fraction).takeWhile Char.isDigit = whole := by
  rw [List.takeWhile_append_of_pos hwhole]
  simp [hc]

theorem dropWhile_digits {c : Char} (hwhole : ∀ c ∈ whole, c.isDigit = true)
    (hc : c.isDigit = false) :
    (whole ++ c :: fraction).dropWhile Char.isDigit = c :: fraction := by
  rw [List.dropWhile_append_of_pos hwhole]
  simp [hc]

theorem takeWhile_point (hwhole : isDigits whole = true) :
    (whole ++ '.' :: fraction).takeWhile Char.isDigit = whole :=
  takeWhile_digits (isDigits_iff.mp hwhole).2 rfl

theorem dropWhile_point (hwhole : isDigits whole = true) :
    (whole ++ '.' :: fraction).dropWhile Char.isDigit = '.' :: fraction :=
  dropWhile_digits (isDigits_iff.mp hwhole).2 rfl

/-- Digits around a point are a numeral. -/
theorem isNumeral_point (hwhole : isDigits whole = true) (hfraction : isDigits fraction = true) :
    isNumeral (String.ofList (whole ++ '.' :: fraction)) = true := by
  simp [isNumeral, takeWhile_point hwhole, dropWhile_point hwhole, hwhole, isFraction, hfraction]

end Word

namespace Decimal

/-- Digits around a point denote the decimal of all digits, with one place for each behind it. -/
theorem ofText?_point {whole fraction : List Char} (hwhole : Word.isDigits whole = true)
    (hfraction : Word.isDigits fraction = true) :
    ofText? (whole ++ '.' :: fraction) =
      some ⟨ofDigits (whole ++ fraction), -(fraction.length : Int)⟩ := by
  have hall := (Word.isDigits_iff.mp hfraction).2
  have htake : fraction.takeWhile Char.isDigit = fraction := by
    simpa using @List.takeWhile_append_of_pos _ _ _ [] hall
  have hdrop : fraction.dropWhile Char.isDigit = [] := by
    simpa using @List.dropWhile_append_of_pos _ _ _ [] hall
  have hne := (Word.isDigits_iff.mp hwhole).1
  simp [ofText?, Word.takeWhile_point hwhole, Word.dropWhile_point hwhole, splitFraction, htake,
    hdrop, hne, exponent?]

/-! ### Plain text with a fraction -/

theorem isDigit_of_mem_zeros {k : Nat} {c : Char} (h : c ∈ List.replicate k '0') :
    c.isDigit = true := by
  rw [List.eq_of_mem_replicate h]
  rfl

theorem isDigits_append_zeros (n k : Nat) :
    Word.isDigits (digitsOf n ++ List.replicate k '0') = true := by
  refine Word.isDigits_iff.mpr ⟨by simp [digitsOf_ne_nil], List.forall_mem_append.mpr ?_⟩
  exact ⟨fun _ => isDigit_of_mem_digitsOf, fun _ => isDigit_of_mem_zeros⟩

theorem isDigits_zeros_append (k n : Nat) :
    Word.isDigits (List.replicate k '0' ++ digitsOf n) = true := by
  refine Word.isDigits_iff.mpr ⟨by simp [digitsOf_ne_nil], List.forall_mem_append.mpr ?_⟩
  exact ⟨fun _ => isDigit_of_mem_zeros, fun _ => isDigit_of_mem_digitsOf⟩

theorem withFraction_point (whole fraction : List Char) :
    withFraction (whole ++ '.' :: fraction) = whole ++ '.' :: fraction := by
  simp [withFraction]

theorem withFraction_digits {cs : List Char} (h : ∀ c ∈ cs, c.isDigit = true) :
    withFraction cs = cs ++ ['.', '0'] := by
  have hpoint : '.' ∉ cs := Word.notMem_of_isDigit rfl h
  simp [withFraction, hpoint]

/-- A sign has no part in whether there is a fraction. -/
theorem withFraction_sign (negative : Bool) (cs : List Char) :
    withFraction ((if negative then ['-'] else []) ++ cs) =
      (if negative then ['-'] else []) ++ withFraction cs := by
  cases negative with
  | false => rfl
  | true =>
    have hcontains : ('-' :: cs).contains '.' = cs.contains '.' := rfl
    simp only [withFraction, if_true, List.singleton_append, hcontains]
    split <;> rfl

/-- The plain text with a fraction, by where the point stands: before the digits, among them, or
behind them and the zeros that fill up to it. -/
theorem withFraction_plainText (d : Decimal) :
    let ds := digitsOf d.digits
    let before := d.exponent + ds.length
    withFraction d.plainText =
      if before ≤ 0 then ['0'] ++ '.' :: (List.replicate (-before).toNat '0' ++ ds)
      else if before < ds.length then ds.take before.toNat ++ '.' :: ds.drop before.toNat
      else (ds ++ List.replicate d.exponent.toNat '0') ++ '.' :: ['0'] := by
  intro ds before
  unfold plainText
  simp only
  split
  · exact withFraction_point ['0'] _
  · split
    · exact withFraction_point _ _
    · have hzeros : before.toNat - ds.length = d.exponent.toNat := by omega
      rw [hzeros]
      exact withFraction_digits (Word.isDigits_iff.mp (isDigits_append_zeros _ _)).2

/-- The plain text with a fraction is digits around a point, which denote the same value: that of
the decimal with `k` zeros behind its digits. -/
theorem withFraction_plainText_eq (d : Decimal) : ∃ (whole fraction : List Char) (k : Nat),
    withFraction d.plainText = whole ++ '.' :: fraction ∧
    Word.isDigits whole = true ∧ Word.isDigits fraction = true ∧
    ofDigits (whole ++ fraction) = d.digits * 10 ^ k ∧
    -(fraction.length : Int) = d.exponent - k := by
  have hdigit : ∀ c ∈ digitsOf d.digits, c.isDigit = true := fun c => isDigit_of_mem_digitsOf
  have hpos : 0 < (digitsOf d.digits).length := List.length_pos_iff.mpr (digitsOf_ne_nil _)
  rw [withFraction_plainText]
  split
  · next hbefore =>
    refine ⟨_, _, 0, rfl, by decide, isDigits_zeros_append _ _, ?_, by simp; omega⟩
    rw [← List.append_assoc, show ['0'] = List.replicate 1 '0' from rfl,
      List.replicate_append_replicate, ofDigits_zeros_append, ofDigits_digitsOf]
    simp
  · next hpoint =>
    split
    · next hamong =>
      have hlength : (d.exponent + (digitsOf d.digits).length).toNat <
          (digitsOf d.digits).length := by omega
      refine ⟨_, _, 0, rfl, ?_, ?_, ?_, by simp; omega⟩
      · refine Word.isDigits_iff.mpr ⟨?_, fun c hc => hdigit c (List.mem_of_mem_take hc)⟩
        exact List.length_pos_iff.mp (by simp; omega)
      · refine Word.isDigits_iff.mpr ⟨?_, fun c hc => hdigit c (List.mem_of_mem_drop hc)⟩
        exact List.length_pos_iff.mp (by simp; omega)
      · rw [List.take_append_drop, ofDigits_digitsOf]
        simp
    · next hbehind =>
      refine ⟨_, _, d.exponent.toNat + 1, rfl, isDigits_append_zeros _ _, by decide, ?_,
        by simp; omega⟩
      rw [List.append_assoc, ← List.replicate_succ', ofDigits_append_zeros, ofDigits_digitsOf]

/-- The plain text with a fraction reads as the decimal does. -/
theorem withFraction_plainText_reads (d : Decimal) : ∃ (whole fraction : List Char),
    withFraction d.plainText = whole ++ '.' :: fraction ∧
    Word.isDigits whole = true ∧ Word.isDigits fraction = true ∧
    magnitude ⟨ofDigits (whole ++ fraction), -(fraction.length : Int)⟩ = d.magnitude := by
  obtain ⟨whole, fraction, k, htext, hwhole, hfraction, hdigits, hplaces⟩ :=
    d.withFraction_plainText_eq
  refine ⟨whole, fraction, htext, hwhole, hfraction, ?_⟩
  rw [hdigits, hplaces, magnitude_shift]

end Decimal

namespace Number

/-! ### Sign and magnitude -/

theorem toNat_bits (x : Number) :
    (if x.isNegative then signBit else 0) + x.magnitude = x.bits.toNat := by
  have hlt : x.bits.toNat < 2 * signBit := x.bits.toNat_lt
  by_cases h : signBit ≤ x.bits.toNat
  · have hmod : x.bits.toNat % signBit = x.bits.toNat - signBit := by
      rw [Nat.mod_eq_sub_mod h, Nat.mod_eq_of_lt (by omega)]
    simp only [isNegative, magnitude, decide_eq_true h, if_true, hmod]
    omega
  · simp [isNegative, magnitude, h, Nat.mod_eq_of_lt (Nat.lt_of_not_le h)]

/-- A number is its sign and its magnitude. -/
theorem ofMagnitude_magnitude (x : Number) : ofMagnitude x.isNegative x.magnitude = x := by
  rw [ofMagnitude, toNat_bits, UInt64.ofNat_toNat]

theorem toNat_ofMagnitude (negative : Bool) {m : Nat} (hm : m < signBit) :
    (ofMagnitude negative m).bits.toNat = (if negative then signBit else 0) + m := by
  have hlt : (if negative then signBit else 0) + m < 2 ^ 64 := by
    have : 2 * signBit = 2 ^ 64 := by decide
    split <;> omega
  rw [ofMagnitude, UInt64.toNat_ofNat', Nat.mod_eq_of_lt hlt]

theorem isNegative_ofMagnitude (negative : Bool) {m : Nat} (hm : m < signBit) :
    (ofMagnitude negative m).isNegative = negative := by
  rw [isNegative, toNat_ofMagnitude negative hm]
  cases negative <;> simp [hm]

theorem magnitude_ofMagnitude (negative : Bool) {m : Nat} (hm : m < signBit) :
    (ofMagnitude negative m).magnitude = m := by
  rw [magnitude, toNat_ofMagnitude negative hm]
  cases negative <;> simp [Nat.mod_eq_of_lt hm]

theorem lt_infinityWord_of_isFinite {x : Number} (hx : x.isFinite = true) :
    x.magnitude < infinityWord := of_decide_eq_true hx

theorem not_isNaN_of_isFinite {x : Number} (hx : x.isFinite = true) : x.isNaN = false :=
  decide_eq_false (by have hm := lt_infinityWord_of_isFinite hx; omega)

theorem magnitude_lt_signBit (x : Number) : x.magnitude < signBit := Nat.mod_lt _ (by decide)

@[simp] theorem magnitude_abs (x : Number) : x.abs.magnitude = x.magnitude :=
  magnitude_ofMagnitude false x.magnitude_lt_signBit

@[simp] theorem isNegative_abs (x : Number) : x.abs.isNegative = false :=
  isNegative_ofMagnitude false x.magnitude_lt_signBit

theorem abs_of_not_isNegative {x : Number} (hx : x.isNegative = false) : x.abs = x := by
  rw [abs, ← hx, ofMagnitude_magnitude]

/-! ### Literals -/

/-- The decimal of a finite number denotes it. -/
theorem magnitude_decimal {x : Number} (hx : x.isFinite = true) :
    x.decimal.magnitude = x.magnitude := by
  unfold decimal
  split
  · next hzero =>
    have hm : x.magnitude = 0 := by simpa [isZero] using hzero
    rw [hm, Decimal.magnitude, if_pos rfl]
  · exact Decimal.magnitude_shortest (lt_infinityWord_of_isFinite hx)

/-- A number that is not a NaN is written as its sign and what is written without it. -/
theorem written_of_not_isNaN (write : Decimal → List Char) {x : Number} (hx : x.isNaN = false) :
    x.written write = (if x.isNegative then ['-'] else []) ++ x.abs.written write := by
  have habs : x.abs.isNaN = false := by simpa [isNaN] using hx
  have hunsigned : x.abs.unsigned write = x.unsigned write := by
    simp [unsigned, isInfinite, decimal, isZero]
  simp [written, hx, habs, hunsigned]

theorem written_abs (write : Decimal → List Char) {x : Number} (hx : x.isFinite = true) :
    x.abs.written write = write x.decimal := by
  have hm := lt_infinityWord_of_isFinite hx
  have hnan : ¬infinityWord < x.magnitude := by omega
  simp [written, unsigned, isNaN, isInfinite, decimal, isZero, hnan, hm.ne]

theorem literal_of_not_isNaN {x : Number} (hx : x.isNaN = false) : x.literal =
    String.ofList ((if x.isNegative then ['-'] else []) ++ x.abs.literal.toList) := by
  rw [literal, plain, written_of_not_isNaN _ hx, Decimal.withFraction_sign, literal,
    String.toList_ofList, plain]

theorem literal_of_isNaN {x : Number} (hx : x.isNaN = true) : x.literal = "NaN.0" := by
  rw [literal, plain, written, if_pos hx]
  rfl

theorem literal_abs_of_isInfinite {x : Number} (hx : x.magnitude = infinityWord) :
    x.abs.literal = "inf.0" := by
  rw [abs, hx]
  decide

theorem literal_of_isFinite {x : Number} (hx : x.isFinite = true) : x.literal =
    String.ofList ((if x.isNegative then ['-'] else []) ++
      Decimal.withFraction x.decimal.plainText) := by
  rw [literal, plain, written_of_not_isNaN _ (not_isNaN_of_isFinite hx), written_abs _ hx,
    Decimal.withFraction_sign]

/-- The literal of a finite number is a sign and digits around a point, which denote it. -/
theorem literal_eq {x : Number} (hx : x.isFinite = true) : ∃ (whole fraction : List Char),
    x.literal = String.ofList ((if x.isNegative then ['-'] else []) ++ (whole ++ '.' :: fraction)) ∧
    Word.isDigits whole = true ∧ Word.isDigits fraction = true ∧
    Decimal.magnitude ⟨Decimal.ofDigits (whole ++ fraction), -(fraction.length : Int)⟩ =
      x.magnitude := by
  obtain ⟨whole, fraction, htext, hwhole, hfraction, hreads⟩ :=
    x.decimal.withFraction_plainText_reads
  refine ⟨whole, fraction, ?_, hwhole, hfraction, hreads.trans (magnitude_decimal hx)⟩
  rw [literal_of_isFinite hx, htext]

theorem splitSign_digits {whole : List Char} (hwhole : Word.isDigits whole = true)
    (rest : List Char) : Decimal.splitSign (whole ++ rest) = (false, whole ++ rest) := by
  obtain ⟨hne, hall⟩ := Word.isDigits_iff.mp hwhole
  obtain ⟨c, cs, rfl⟩ := List.exists_cons_of_ne_nil hne
  have hc : c.isDigit = true := hall c List.mem_cons_self
  rw [List.cons_append]
  unfold Decimal.splitSign
  split
  · next heq => simp_all [Char.isDigit]
  · next heq => simp_all [Char.isDigit]
  · rfl

/-- The sign of a finite number and a decimal of its magnitude read back as the same bits. -/
theorem ofText?_signed {x : Number} (hx : x.isFinite = true) {whole rest : List Char} {d : Decimal}
    (hwhole : Word.isDigits whole = true) (hd : Decimal.ofText? (whole ++ rest) = some d)
    (hmagnitude : d.magnitude = x.magnitude) :
    ofText? (String.ofList ((if x.isNegative then ['-'] else []) ++ (whole ++ rest))) = some x := by
  have hsplit : Decimal.splitSign ((if x.isNegative then ['-'] else []) ++ (whole ++ rest)) =
      (x.isNegative, whole ++ rest) := by
    cases hneg : x.isNegative
    · exact splitSign_digits hwhole _
    · rfl
  rw [ofText?, String.toList_ofList, hsplit]
  simp only [hd, Option.bind_some, hmagnitude, if_pos (lt_infinityWord_of_isFinite hx),
    ofMagnitude_magnitude]

/-- The literal of a finite number reads back as the same bits. -/
theorem ofText?_literal {x : Number} (hx : x.isFinite = true) : ofText? x.literal = some x := by
  obtain ⟨whole, fraction, htext, hwhole, hfraction, hmagnitude⟩ := literal_eq hx
  rw [htext]
  exact ofText?_signed hx hwhole (Decimal.ofText?_point hwhole hfraction) hmagnitude

/-- The literal of a finite number without the sign bit is a numeral. -/
theorem isNumeral_literal {x : Number} (hx : x.isFinite = true) (hsign : x.isNegative = false) :
    Word.isNumeral x.literal = true := by
  obtain ⟨whole, fraction, htext, hwhole, hfraction, -⟩ := literal_eq hx
  rw [htext, hsign]
  exact Word.isNumeral_point hwhole hfraction

/-- A numeral denotes only finite numbers without the sign bit. -/
theorem finite_of_isNumeral {s : String} {x : Number} (hs : Word.isNumeral s = true)
    (hx : ofText? s = some x) : x.isFinite = true ∧ x.isNegative = false := by
  have hwhole : Word.isDigits (s.toList.takeWhile Char.isDigit) = true := by
    simp only [Word.isNumeral, Bool.and_eq_true] at hs
    exact hs.1
  have hsplit := splitSign_digits hwhole (s.toList.dropWhile Char.isDigit)
  rw [List.takeWhile_append_dropWhile] at hsplit
  rw [ofText?, hsplit] at hx
  obtain ⟨d, -, hd⟩ := Option.bind_eq_some_iff.mp hx
  split at hd
  · next hfinite =>
    have hsignBit : d.magnitude < signBit := Nat.lt_trans hfinite (by decide)
    cases hd
    constructor
    · rw [isFinite, magnitude_ofMagnitude false hsignBit]
      exact decide_eq_true hfinite
    · exact isNegative_ofMagnitude false hsignBit
  · cases hd

end Number
end Imperative
