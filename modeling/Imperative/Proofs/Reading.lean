import Imperative.Number.Shortest
import Imperative.Proofs.Rounding

/-! Reading decimals.  The magnitude of a decimal is that of its exact value: the guards against
large powers of ten change nothing, zeros at the end of the digits do not count, and larger decimals
have larger magnitudes.  The shortest decimal of a magnitude reads back as that magnitude. -/

namespace Imperative.Decimal

theorem tenTo_eq (n : Nat) : tenTo n = 10 ^ n := rfl

theorem tenTo_pos (n : Nat) : 0 < tenTo n := Nat.pow_pos (by decide)

theorem two_pow_le_tenTo {k n : Nat} (h : k ≤ 3 * n) : 2 ^ k ≤ tenTo n := by
  calc 2 ^ k ≤ 2 ^ (3 * n) := Nat.pow_le_pow_right (by decide) h
    _ = 8 ^ n := pow_mul 2 3 n
    _ ≤ 10 ^ n := Nat.pow_le_pow_left (by decide) n

/-- From `10^401` on a decimal overflows, in units of `2^-1074` and in all finer ones. -/
theorem nearest_of_large {digits : Nat} (hdigits : digits ≠ 0) {e unit : Nat} (he : 400 < e)
    (hunit : 1074 ≤ unit) :
    Number.infinityWord ≤ Number.nearest ((digits * tenTo e) <<< unit) 1 := by
  refine Number.infinityWord_le_nearest (n := 1203 + unit) (by omega) ?_
  rw [Nat.div_one, Nat.shiftLeft_eq, pow_add]
  refine Nat.mul_le_mul_right _ ?_
  calc 2 ^ 1203 ≤ tenTo e := two_pow_le_tenTo (by omega)
    _ ≤ digits * tenTo e := Nat.le_mul_of_pos_left _ (Nat.pos_of_ne_zero hdigits)

/-- Below `10^-400` a decimal vanishes, in units of `2^-1074` and in all coarser ones. -/
theorem nearest_of_small {digits e unit : Nat} (he : 400 + digits.log2 < e) (hunit : unit ≤ 1074) :
    Number.nearest (digits <<< unit) (tenTo e) = 0 := by
  refine Number.nearest_eq_zero ?_
  have hdigits : digits < 2 ^ (digits.log2 + 1) := Nat.lt_log2_self
  calc 2 * (digits <<< unit) = digits * 2 ^ (unit + 1) := by rw [Nat.shiftLeft_eq]; ring
    _ < 2 ^ (digits.log2 + 1) * 2 ^ (unit + 1) :=
      Nat.mul_lt_mul_of_pos_right hdigits (Nat.two_pow_pos _)
    _ = 2 ^ (digits.log2 + 1 + (unit + 1)) := (pow_add 2 _ _).symm
    _ ≤ tenTo e := two_pow_le_tenTo (by omega)

/-- The magnitude of a decimal, without the guards. -/
theorem magnitude_eq (d : Decimal) : d.magnitude = min Number.infinityWord (Number.nearest
    ((d.digits * tenTo d.exponent.toNat) <<< 1074) (tenTo (-d.exponent).toNat)) := by
  unfold magnitude
  split
  · next hzero =>
    rw [hzero, Nat.zero_mul, Nat.zero_shiftLeft, Number.nearest_eq_zero (tenTo_pos _), Nat.min_zero]
  · next hdigits =>
    split
    · next hlarge =>
      have hden : tenTo (-d.exponent).toNat = 1 := by
        rw [show (-d.exponent).toNat = 0 by omega]
        rfl
      rw [hden, Nat.min_eq_left (nearest_of_large hdigits (by omega) le_rfl)]
    · split
      · next hsmall =>
        have hnum : tenTo d.exponent.toNat = 1 := by
          rw [show d.exponent.toNat = 0 by omega]
          rfl
        rw [hnum, Nat.mul_one, nearest_of_small (by omega) le_rfl, Nat.min_zero]
      · rfl

/-- The quotient of units that a decimal is, with zeros behind its digits and without. -/
theorem cross_shift (digits : Nat) (e : Int) (k unit : Nat) :
    (digits * 10 ^ k * tenTo (e - k).toNat) <<< unit * tenTo (-e).toNat =
      (digits * tenTo e.toNat) <<< unit * tenTo (-(e - k)).toNat := by
  have hsum : k + (e - k).toNat + (-e).toNat = e.toNat + (-(e - k)).toNat := by omega
  have hpow : 10 ^ k * 10 ^ (e - k).toNat * 10 ^ (-e).toNat =
      10 ^ e.toNat * 10 ^ (-(e - k)).toNat := by
    rw [← pow_add, ← pow_add, ← pow_add, hsum]
  simp only [Nat.shiftLeft_eq, tenTo_eq]
  calc digits * 10 ^ k * 10 ^ (e - k).toNat * 2 ^ unit * 10 ^ (-e).toNat
      = digits * 2 ^ unit * (10 ^ k * 10 ^ (e - k).toNat * 10 ^ (-e).toNat) := by ring
    _ = digits * 10 ^ e.toNat * 2 ^ unit * 10 ^ (-(e - k)).toNat := by rw [hpow]; ring

/-- Zeros behind the digits, with the exponent to match, do not change a decimal's magnitude. -/
theorem magnitude_shift (digits : Nat) (e : Int) (k : Nat) :
    magnitude ⟨digits * 10 ^ k, e - k⟩ = magnitude ⟨digits, e⟩ := by
  rw [magnitude_eq, magnitude_eq,
    Number.nearest_congr (tenTo_pos _) (tenTo_pos _) (cross_shift digits e k 1074)]

/-- A larger decimal has a magnitude no smaller.  The two are compared by their digits, with zeros
behind them down to the smaller exponent. -/
theorem magnitude_le_magnitude {d d' : Decimal}
    (h : d.digits * 10 ^ (d.exponent - d'.exponent).toNat ≤
      d'.digits * 10 ^ (d'.exponent - d.exponent).toNat) : d.magnitude ≤ d'.magnitude := by
  have hshift := magnitude_shift d.digits d.exponent (d.exponent - d'.exponent).toNat
  have hshift' := magnitude_shift d'.digits d'.exponent (d'.exponent - d.exponent).toNat
  have hexponent : d.exponent - (d.exponent - d'.exponent).toNat =
      d'.exponent - (d'.exponent - d.exponent).toNat := by omega
  rw [← hshift, ← hshift', hexponent, magnitude_eq, magnitude_eq]
  refine Nat.le_min.mpr ⟨Nat.min_le_left _ _, Nat.le_trans (Nat.min_le_right _ _) ?_⟩
  refine Number.nearest_le_of_le _ ?_
  simp only [Nat.shiftLeft_eq]
  exact Nat.mul_le_mul_right _ (Nat.mul_le_mul_right _ h)

/-! ### The shortest decimal -/

/-- A whole number of units, written with as many places as a unit has, is exact. -/
theorem nearest_exact (n unit : Nat) :
    Number.nearest ((n * Nat.pow 5 unit) <<< unit) (tenTo unit) = Number.nearest n 1 := by
  refine Number.nearest_congr (tenTo_pos unit) (by decide) ?_
  calc (n * 5 ^ unit) <<< unit * 1 = n * (5 * 2) ^ unit := by
        rw [Nat.shiftLeft_eq, mul_pow]; ring
    _ = n * tenTo unit := rfl

theorem magnitude_onGrid_zero (n : Nat) : (onGrid n 0).magnitude =
    min Number.infinityWord (Number.nearest (n <<< finest) (tenTo finest)) := by
  rw [magnitude_eq]
  have hexponent : (onGrid n 0).exponent = -(finest : Int) := by simp [onGrid]
  rw [hexponent, show (-(finest : Int)).toNat = 0 by decide, neg_neg, Int.toNat_natCast, tenTo_eq 0,
    pow_zero, Nat.mul_one]
  rfl

/-- On the finest grid every magnitude has its exact value, which reads back. -/
theorem magnitude_exact {m : Nat} (hm : m < Number.infinityWord) :
    (onGrid (Number.units m * Nat.pow 5 finest) 0).magnitude = m := by
  rw [magnitude_onGrid_zero, nearest_exact, Number.nearest_units, Nat.min_eq_right hm.le]

theorem magnitude_of_neighbour? {m exact j : Nat} {d : Decimal}
    (h : neighbour? m exact j = some d) : d.magnitude = m := by
  unfold neighbour? at h
  simp only at h
  split at h
  · next hlower =>
    rw [Bool.and_eq_true] at hlower
    cases h
    exact beq_iff_eq.mp hlower.1
  · split at h
    · next hupper =>
      cases h
      exact beq_iff_eq.mp hupper
    · cases h

/-- Whatever grid the search ends on, the decimal found reads back. -/
theorem magnitude_search {m exact : Nat} (hexact : (onGrid exact 0).magnitude = m) (j : Nat) :
    (search m exact j).magnitude = m := by
  induction j with
  | zero => exact hexact
  | succ j ih =>
    rw [search]
    cases h : neighbour? m exact (j + 1) with
    | none => exact ih
    | some d => exact magnitude_of_neighbour? h

/-- The shortest decimal of a finite magnitude reads back as that magnitude. -/
theorem magnitude_shortest {m : Nat} (hm : m < Number.infinityWord) :
    (shortest m).magnitude = m :=
  magnitude_search (magnitude_exact hm) _

end Imperative.Decimal
