import Imperative.Number.Rounding
import Mathlib.Tactic.Ring
import Mathlib.Tactic.Linarith

/-! Rounding to the nearest magnitude.  The result depends on the quotient alone, not on the numbers
that it is a quotient of, and grows with it; a magnitude is the nearest one to its own value;
quotients from `2^2099` units on overflow, and quotients below half a unit vanish. -/

namespace Imperative.Number

theorem roundDiv_scale (num den : Nat) {c : Nat} (hc : 0 < c) :
    roundDiv (num * c) (den * c) = roundDiv num den := by
  have hmod : 2 * (num % den * c) = 2 * (num % den) * c := by rw [Nat.mul_assoc]
  have hlt : den * c < 2 * (num % den) * c ↔ den < 2 * (num % den) := Nat.mul_lt_mul_right hc
  have heq : 2 * (num % den) * c = den * c ↔ 2 * (num % den) = den := Nat.mul_left_inj hc.ne'
  simp only [roundDiv, Nat.mul_div_mul_right _ _ hc, Nat.mul_mod_mul_right, hmod, hlt, heq]

theorem nearest_scale (num den : Nat) {c : Nat} (hc : 0 < c) :
    nearest (num * c) (den * c) = nearest num den := by
  simp only [nearest, shift, Nat.mul_div_mul_right _ _ hc, Nat.shiftLeft_eq]
  rw [Nat.mul_right_comm, roundDiv_scale _ _ hc]

/-- Equal quotients round to the same magnitude. -/
theorem nearest_congr {num den num' den' : Nat} (hden : 0 < den) (hden' : 0 < den')
    (h : num * den' = num' * den) : nearest num den = nearest num' den' := by
  rw [← nearest_scale num den hden', h, Nat.mul_comm den den', nearest_scale num' den' hden]

theorem roundDiv_mul (n : Nat) {d : Nat} (hd : 0 < d) : roundDiv (n * d) d = n := by
  simp [roundDiv, Nat.mul_div_cancel _ hd, hd.ne]

/-- A quotient below one half is rounded to zero. -/
theorem nearest_eq_zero {num den : Nat} (h : 2 * num < den) : nearest num den = 0 := by
  have hlt : num < den := by omega
  have hquotient : num / den = 0 := Nat.div_eq_of_lt hlt
  have hremainder : num % den = num := Nat.mod_eq_of_lt hlt
  simp only [nearest, shift, hquotient, Nat.log2_zero, roundDiv, Nat.shiftLeft_eq, Nat.zero_sub,
    pow_zero, Nat.mul_one, hremainder]
  rw [if_neg (by omega)]
  simp

/-- A quotient of `2^2099` units or more overflows. -/
theorem infinityWord_le_nearest {num den n : Nat} (hn : 2099 ≤ n) (h : 2 ^ n ≤ num / den) :
    infinityWord ≤ nearest num den := by
  have hne : num / den ≠ 0 := (Nat.lt_of_lt_of_le (Nat.two_pow_pos n) h).ne'
  have hlog : n ≤ (num / den).log2 := (Nat.le_log2 hne).mpr h
  have hshift : 2047 ≤ shift num den := by
    unfold shift
    omega
  calc infinityWord = 2047 * leadingBit := by decide
    _ ≤ shift num den * leadingBit := Nat.mul_le_mul_right _ hshift
    _ ≤ nearest num den := Nat.le_add_right _ _

/-- Of a significand with its leading bit in place 52, shifted by `k`, the shift is `k`. -/
theorem log2_significand {f : Nat} (hf : f < 2 ^ 52) (k : Nat) :
    ((2 ^ 52 + f) * 2 ^ k).log2 = 52 + k := by
  have hpos : 0 < 2 ^ k := Nat.two_pow_pos k
  rw [Nat.log2_eq_iff (by positivity)]
  constructor
  · calc 2 ^ (52 + k) = 2 ^ 52 * 2 ^ k := pow_add 2 52 k
      _ ≤ (2 ^ 52 + f) * 2 ^ k := Nat.mul_le_mul_right _ (Nat.le_add_right _ _)
  · calc (2 ^ 52 + f) * 2 ^ k < (2 ^ 52 + 2 ^ 52) * 2 ^ k :=
          Nat.mul_lt_mul_of_pos_right (Nat.add_lt_add_left hf _) hpos
      _ = 2 ^ (52 + k + 1) := by ring

theorem leadingBit_eq : leadingBit = 2 ^ 52 := by decide

/-- A magnitude is the nearest one to its own value. -/
theorem nearest_units (m : Nat) : nearest (units m) 1 = m := by
  have hsplit : m / leadingBit * leadingBit + m % leadingBit = m := Nat.div_add_mod' m leadingBit
  have hfraction : m % leadingBit < leadingBit := Nat.mod_lt _ (by decide)
  have hround : ∀ n k : Nat, roundDiv (n * 2 ^ k) (1 <<< k) = n := fun n k => by
    rw [Nat.one_shiftLeft]
    exact roundDiv_mul n (Nat.two_pow_pos k)
  by_cases hexponent : m / leadingBit = 0
  · -- Below the leading bit nothing is shifted.
    have hunits : units m = m % leadingBit := by simp [units, hexponent]
    have hlog : (m % leadingBit).log2 - 52 = 0 := by
      have := Nat.log2_le_self (m % leadingBit)
      by_cases h0 : m % leadingBit = 0
      · simp [h0]
      · have := (Nat.log2_lt h0).mpr (leadingBit_eq ▸ hfraction)
        omega
    have hvalue := hround (m % leadingBit) 0
    simp only [nearest, shift, hunits, Nat.div_one, hlog]
    rw [pow_zero, Nat.mul_one] at hvalue
    rw [hvalue]
    simpa [hexponent] using hsplit
  · obtain ⟨k, hk⟩ := Nat.exists_eq_succ_of_ne_zero hexponent
    have hunits : units m = (2 ^ 52 + m % leadingBit) * 2 ^ k := by
      simp [units, hk, Nat.shiftLeft_eq, ← leadingBit_eq]
    have hlog : shift (units m) 1 = k := by
      rw [shift, Nat.div_one, hunits, log2_significand (leadingBit_eq ▸ hfraction)]
      omega
    rw [nearest, hlog, hunits, hround, ← leadingBit_eq]
    rw [hk, Nat.succ_mul] at hsplit
    omega

/-! ### Order -/

theorem roundDiv_le_of_le {a b : Nat} (d : Nat) (h : a ≤ b) : roundDiv a d ≤ roundDiv b d := by
  have hdiv : a / d ≤ b / d := Nat.div_le_div_right h
  unfold roundDiv
  simp only
  rcases Nat.lt_or_eq_of_le hdiv with hlt | heq
  · split <;> split <;> omega
  · -- The whole parts are the same, so the remainders decide.
    have hmod : a % d ≤ b % d := by
      have ha := Nat.div_add_mod a d
      have hb := Nat.div_add_mod b d
      rw [heq] at ha
      omega
    rw [heq]
    split <;> split <;> omega

theorem shift_le_of_le {a b : Nat} (d : Nat) (h : a ≤ b) : shift a d ≤ shift b d := by
  have hdiv : a / d ≤ b / d := Nat.div_le_div_right h
  unfold shift
  by_cases h0 : a / d = 0
  · simp [h0]
  · have hlog : (a / d).log2 ≤ (b / d).log2 :=
      (Nat.le_log2 (Nat.lt_of_lt_of_le (Nat.pos_of_ne_zero h0) hdiv).ne').mpr
        (Nat.le_trans (Nat.log2_self_le h0) hdiv)
    omega

/-- The significand that a shift leaves has at most one bit left of place 52. -/
theorem nearest_le (num den : Nat) :
    nearest num den ≤ (shift num den + 2) * leadingBit := by
  have hbits : num / den < 2 ^ (53 + shift num den) :=
    Nat.lt_of_lt_of_le Nat.lt_log2_self
      (Nat.pow_le_pow_right (by decide) (by unfold shift; omega))
  have hquotient : num / (den <<< shift num den) < 2 ^ 53 := by
    rw [Nat.shiftLeft_eq, ← Nat.div_div_eq_div_mul]
    refine Nat.div_lt_of_lt_mul ?_
    rwa [← pow_add, Nat.add_comm]
  have hround : roundDiv num (den <<< shift num den) ≤ 2 * leadingBit := by
    rw [leadingBit_eq]
    unfold roundDiv
    simp only
    split <;> omega
  rw [nearest, Nat.add_mul]
  exact Nat.add_le_add_left hround _

/-- The significand that a shift leaves has its leading bit at place 52. -/
theorem le_nearest {num den : Nat} (hshift : 0 < shift num den) :
    (shift num den + 1) * leadingBit ≤ nearest num den := by
  have hne : num / den ≠ 0 := by
    intro h0
    simp [shift, h0] at hshift
  have hbits : 2 ^ (52 + shift num den) ≤ num / den :=
    (Nat.le_log2 hne).mp (by unfold shift at hshift ⊢; omega)
  have hquotient : 2 ^ 52 ≤ num / (den <<< shift num den) := by
    rw [Nat.shiftLeft_eq, ← Nat.div_div_eq_div_mul, Nat.le_div_iff_mul_le (Nat.two_pow_pos _),
      ← pow_add]
    exact hbits
  have hround : leadingBit ≤ roundDiv num (den <<< shift num den) := by
    rw [leadingBit_eq]
    unfold roundDiv
    simp only
    split <;> omega
  rw [nearest, Nat.add_mul, Nat.one_mul]
  exact Nat.add_le_add_left hround _

/-- A larger quotient is rounded to a magnitude no smaller. -/
theorem nearest_le_of_le {a b : Nat} (d : Nat) (h : a ≤ b) : nearest a d ≤ nearest b d := by
  rcases Nat.lt_or_eq_of_le (shift_le_of_le d h) with hlt | heq
  · calc nearest a d ≤ (shift a d + 2) * leadingBit := nearest_le a d
      _ ≤ (shift b d + 1) * leadingBit := Nat.mul_le_mul_right _ (by omega)
      _ ≤ nearest b d := le_nearest (by omega)
  · simp only [nearest, heq]
    exact Nat.add_le_add_left (roundDiv_le_of_le _ h) _

/-- Magnitude words order the values. -/
theorem units_le_units_iff {m n : Nat} : units m ≤ units n ↔ m ≤ n := by
  have himp {m n : Nat} (h : units m ≤ units n) : m ≤ n := by
    rw [← nearest_units m, ← nearest_units n]
    exact nearest_le_of_le 1 h
  refine ⟨himp, fun h => ?_⟩
  rcases Nat.le_total (units m) (units n) with hle | hge
  · exact hle
  · rw [Nat.le_antisymm h (himp hge)]

theorem units_lt_units_iff {m n : Nat} : units m < units n ↔ m < n := by
  rw [← Nat.not_le, units_le_units_iff, Nat.not_le]

end Imperative.Number
