import Imperative.Proofs.Reading

/-! The search for the shortest decimal.  It stops on the coarsest grid where a neighbour of the
exact value reads back.  The digits found there do not end in a zero: without it they would be a
neighbour on the next coarser grid, and the coarsest grid of all is coarser than the value. -/

namespace Imperative.Decimal

/-- One of the two points of grid `j` next to the exact value. -/
def IsNeighbour (exact j count : Nat) : Prop :=
  count = exact / tenTo j ∨ count = exact / tenTo j + 1

theorem IsNeighbour.le_succ {exact j count : Nat} (h : IsNeighbour exact j count) :
    count ≤ exact + 1 := by
  have hbelow : exact / tenTo j ≤ exact := Nat.div_le_self _ _
  unfold IsNeighbour at h
  omega

theorem IsNeighbour.coarser {exact j count : Nat} (h : IsNeighbour exact j (count * 10)) :
    IsNeighbour exact (j + 1) count := by
  have hnext : exact / tenTo (j + 1) = exact / tenTo j / 10 := by
    rw [Nat.div_div_eq_div_mul]
    rfl
  unfold IsNeighbour at h ⊢
  omega

theorem neighbour?_eq_onGrid {m exact j : Nat} {d : Decimal} (h : neighbour? m exact j = some d) :
    ∃ count, IsNeighbour exact j count ∧ d = onGrid count j := by
  unfold neighbour? at h
  simp only at h
  split at h
  · cases h
    exact ⟨_, .inl rfl, rfl⟩
  · split at h
    · cases h
      exact ⟨_, .inr rfl, rfl⟩
    · cases h

theorem neighbour?_ne_none {m exact j count : Nat} (hcount : IsNeighbour exact j count)
    (hreads : (onGrid count j).magnitude = m) : neighbour? m exact j ≠ none := by
  unfold neighbour?
  rcases hcount with rfl | rfl <;> grind

/-- The search ends on one of its grids, next to the exact value, and on no coarser grid does a
neighbour read back. -/
theorem search_eq_onGrid (m exact k : Nat) : ∃ j ≤ k, ∃ count,
    search m exact k = onGrid count j ∧ IsNeighbour exact j count ∧
      ∀ i, j < i → i ≤ k → neighbour? m exact i = none := by
  induction k with
  | zero => exact ⟨0, Nat.le_refl 0, exact, rfl, .inl (Nat.div_one exact).symm, by omega⟩
  | succ k ih =>
    rw [search]
    cases h : neighbour? m exact (k + 1) with
    | none =>
      obtain ⟨j, hj, count, heq, hcount, hcoarser⟩ := ih
      refine ⟨j, by omega, count, heq, hcount, fun i hji hik => ?_⟩
      by_cases hi : i = k + 1
      · rw [hi, h]
      · exact hcoarser i hji (by omega)
    | some d =>
      obtain ⟨count, hcount, rfl⟩ := neighbour?_eq_onGrid h
      exact ⟨k + 1, Nat.le_refl _, count, rfl, hcount, by omega⟩

/-! ### Zeros at the end -/

theorem magnitude_onGrid_mul_ten (count j : Nat) :
    (onGrid (count * 10) j).magnitude = (onGrid count (j + 1)).magnitude := by
  have hshift := magnitude_shift count ((j + 1 : Nat) - (finest : Int)) 1
  have hexponent : ((j + 1 : Nat) : Int) - finest - (1 : Nat) = (j : Int) - finest := by omega
  rw [hexponent, pow_one] at hshift
  exact hshift

/-- Digits found below a grid that is coarser than the exact value do not end in a zero. -/
theorem digits_search {m exact k : Nat} (hm : m ≠ 0) (hexact : (onGrid exact 0).magnitude = m)
    (hk : exact < tenTo k) : (search m exact k).digits % 10 ≠ 0 := by
  have hreads := magnitude_search hexact k
  obtain ⟨j, hj, count, heq, hcount, hcoarser⟩ := search_eq_onGrid m exact k
  rw [heq] at hreads ⊢
  show count % 10 ≠ 0
  intro hmod
  obtain ⟨less, rfl⟩ : ∃ less, count = less * 10 := ⟨count / 10, by omega⟩
  have hless : less ≠ 0 := by
    rintro rfl
    exact hm (hreads.symm.trans (by simp [onGrid, magnitude]))
  have hlt : j < k := by
    by_contra hge
    obtain rfl : j = k := by omega
    have hbelow : exact / tenTo j = 0 := Nat.div_eq_of_lt hk
    unfold IsNeighbour at hcount
    omega
  refine neighbour?_ne_none hcount.coarser ?_ (hcoarser (j + 1) (by omega) (by omega))
  rw [← magnitude_onGrid_mul_ten, hreads]

/-- The power of ten above a number: `2^93` is just below `10^28`. -/
theorem lt_tenTo_coarsest (n : Nat) : n < tenTo (coarsest n) := by
  refine Nat.lt_of_lt_of_le Nat.lt_log2_self ?_
  unfold coarsest
  generalize n.log2 + 1 = k
  refine (Nat.pow_le_pow_iff_left (show 93 ≠ 0 by decide)).mp ?_
  calc (2 ^ k) ^ 93 = (2 ^ 93) ^ k := by rw [← pow_mul, ← pow_mul, Nat.mul_comm]
    _ ≤ (10 ^ 28) ^ k := Nat.pow_le_pow_left (by decide) k
    _ = 10 ^ (28 * k) := (pow_mul 10 28 k).symm
    _ ≤ 10 ^ ((k * 28 / 93 + 1) * 93) := Nat.pow_le_pow_right (by decide) (by omega)
    _ = tenTo (k * 28 / 93 + 1) ^ 93 := pow_mul 10 _ 93

/-- The digits of a shortest decimal do not end in a zero. -/
theorem digits_shortest {m : Nat} (hzero : m ≠ 0) (hm : m < Number.infinityWord) :
    (shortest m).digits % 10 ≠ 0 :=
  digits_search hzero (magnitude_exact hm) (lt_tenTo_coarsest _)

end Imperative.Decimal
