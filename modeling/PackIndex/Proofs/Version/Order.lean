import PackIndex.Number.Binary64

/-!
# The order of versions

Numbers other than not-a-number are compared by their places in one row, so `lt` is a strict linear
order on them and `same` is its equality. Not-a-number is neither less than, nor the same as,
anything.
-/

namespace PackIndex.Binary64

variable {x y z : Binary64}

theorem same_iff : x.same y = true ↔ ∃ i, x.place? = some i ∧ y.place? = some i := by
  cases hx : x.place? <;> cases hy : y.place? <;> simp only [same, hx, hy]
  case some.some i j =>
    simp only [beq_iff_eq, Option.some.injEq]
    constructor
    · intro h
      exact ⟨i, rfl, h.symm⟩
    · rintro ⟨k, hi, hj⟩
      exact hi.trans hj.symm
  all_goals simp

theorem lt_iff : x.lt y = true ↔ ∃ i j, x.place? = some i ∧ y.place? = some j ∧ i < j := by
  cases hx : x.place? <;> cases hy : y.place? <;> simp [lt, hx, hy]

theorem isNaN_eq_false_iff : x.isNaN = false ↔ ∃ i, x.place? = some i := by
  cases hx : x.place? <;> simp [isNaN, hx]

theorem same_symm (h : x.same y = true) : y.same x = true := by rwa [same_comm]

theorem same_trans (hxy : x.same y = true) (hyz : y.same z = true) : x.same z = true := by
  obtain ⟨i, hx, hy⟩ := same_iff.mp hxy
  obtain ⟨j, hy', hz⟩ := same_iff.mp hyz
  obtain rfl : i = j := Option.some.inj (hy.symm.trans hy')
  exact same_iff.mpr ⟨i, hx, hz⟩

theorem lt_trans (hxy : x.lt y = true) (hyz : y.lt z = true) : x.lt z = true := by
  obtain ⟨i, j, hx, hy, hij⟩ := lt_iff.mp hxy
  obtain ⟨j', k, hy', hz, hjk⟩ := lt_iff.mp hyz
  obtain rfl : j = j' := Option.some.inj (hy.symm.trans hy')
  exact lt_iff.mpr ⟨i, k, hx, hz, by omega⟩

theorem lt_asymm (h : x.lt y = true) : y.lt x = false := by
  rw [Bool.eq_false_iff]
  intro hyx
  have hself := lt_trans h hyx
  rw [lt_irrefl] at hself
  cases hself

theorem same_of_not_lt (hx : x.isNaN = false) (hy : y.isNaN = false) (hxy : x.lt y = false)
    (hyx : y.lt x = false) : x.same y = true := by
  obtain ⟨i, hi⟩ := isNaN_eq_false_iff.mp hx
  obtain ⟨j, hj⟩ := isNaN_eq_false_iff.mp hy
  rw [Bool.eq_false_iff] at hxy hyx
  have hij : ¬ i < j := fun h => hxy (lt_iff.mpr ⟨i, j, hi, hj, h⟩)
  have hji : ¬ j < i := fun h => hyx (lt_iff.mpr ⟨j, i, hj, hi, h⟩)
  obtain rfl : i = j := by omega
  exact same_iff.mpr ⟨i, hi, hj⟩

theorem isNaN_of_isPositive (h : x.isPositive = true) : x.isNaN = false := by
  obtain ⟨_, j, _, hx, _⟩ := lt_iff.mp h
  exact isNaN_eq_false_iff.mpr ⟨j, hx⟩

end PackIndex.Binary64
