import Mathlib.Algebra.Order.Ring.Nat
import PackIndex.Proofs.Version.Order

/-!
# Whole numbers as doubles

A whole number is rounded to the nearest place in the row of doubles. Below `2 ^ 53` each one has a
place of its own, with exactly its value, and no other whole number is rounded there. From
`roundingLimit` on, half a step below `2 ^ 1024`, the nearest place is infinity.
-/

namespace PackIndex.Binary64

variable {m k s a b : Nat}

/-! ### Rounding inside a binade -/

theorem rankBelow_eq (hlow : 2 ^ (52 + k) ≤ m) (hhigh : m < 2 ^ (53 + k)) :
    rankBelow m = k * 2 ^ 52 + m / 2 ^ k := by
  have hne : m ≠ 0 := Nat.ne_of_gt (Nat.lt_of_lt_of_le (Nat.two_pow_pos _) hlow)
  cases k with
  | zero =>
    have hsmall : m < Nat.pow 2 53 := hhigh
    rw [rankBelow, if_pos hsmall]
    omega
  | succ k =>
    have hlarge : ¬ m < Nat.pow 2 53 := Nat.not_lt.mpr
      (Nat.le_trans (Nat.pow_le_pow_right (by decide) (by omega : 53 ≤ 52 + (k + 1))) hlow)
    have hlog : m.log2 = 52 + (k + 1) := (Nat.log2_eq_iff hne).mpr ⟨hlow, by
      rwa [show 52 + (k + 1) + 1 = 53 + (k + 1) by omega]⟩
    rw [rankBelow, if_neg hlarge, hlog, Nat.add_sub_cancel_left]
    rfl

theorem units_eq (hlow : 2 ^ 52 ≤ s) (hhigh : s ≤ 2 ^ 53) : units (k * 2 ^ 52 + s) = s * 2 ^ k := by
  change (if k * 2 ^ 52 + s < 2 * 2 ^ 52 then k * 2 ^ 52 + s
    else (2 ^ 52 + (k * 2 ^ 52 + s) % 2 ^ 52) * 2 ^ ((k * 2 ^ 52 + s) / 2 ^ 52 - 1)) = s * 2 ^ k
  by_cases hsmall : k * 2 ^ 52 + s < 2 * 2 ^ 52
  · obtain rfl : k = 0 := by omega
    rw [if_pos hsmall]
    omega
  · rw [if_neg hsmall]
    rcases Nat.lt_or_ge s (2 ^ 53) with hs | hs
    · have hmod : (k * 2 ^ 52 + s) % 2 ^ 52 = s - 2 ^ 52 := by omega
      have hdiv : (k * 2 ^ 52 + s) / 2 ^ 52 - 1 = k := by omega
      rw [hmod, hdiv, Nat.add_sub_cancel' hlow]
    · obtain rfl : s = 2 ^ 53 := Nat.le_antisymm hhigh hs
      have hmod : (k * 2 ^ 52 + 2 ^ 53) % 2 ^ 52 = 0 := by omega
      have hdiv : (k * 2 ^ 52 + 2 ^ 53) / 2 ^ 52 - 1 = k + 1 := by omega
      rw [hmod, hdiv, Nat.pow_succ]
      omega

theorem nearestRank_one (m : Nat) : nearestRank m 1 =
    if 2 * m < units (rankBelow m) + units (rankBelow m + 1) then rankBelow m
    else if units (rankBelow m) + units (rankBelow m + 1) < 2 * m then rankBelow m + 1
    else if rankBelow m % 2 = 0 then rankBelow m else rankBelow m + 1 := by
  simp only [nearestRank, Nat.div_one, Nat.mul_one]

theorem nearestRank_bounds (m : Nat) :
    rankBelow m ≤ nearestRank m 1 ∧ nearestRank m 1 ≤ rankBelow m + 1 := by
  rw [nearestRank_one]
  split_ifs <;> omega

theorem exists_binade {j : Nat} (hj : 52 ≤ j) (h : 2 ^ j ≤ m) :
    ∃ k, j ≤ 52 + k ∧ 2 ^ (52 + k) ≤ m ∧ m < 2 ^ (53 + k) := by
  have hne : m ≠ 0 := Nat.ne_of_gt (Nat.lt_of_lt_of_le (Nat.two_pow_pos j) h)
  have hlog : j ≤ m.log2 := (Nat.le_log2 hne).mpr h
  refine ⟨m.log2 - 52, by omega, ?_, ?_⟩
  · rw [show 52 + (m.log2 - 52) = m.log2 by omega]
    exact Nat.log2_self_le hne
  · rw [show 53 + (m.log2 - 52) = m.log2 + 1 by omega]
    exact Nat.lt_log2_self

theorem quotient_bounds (hlow : 2 ^ (52 + k) ≤ m) (hhigh : m < 2 ^ (53 + k)) :
    2 ^ 52 ≤ m / 2 ^ k ∧ m / 2 ^ k < 2 ^ 53 := by
  rw [Nat.le_div_iff_mul_le (Nat.two_pow_pos k), Nat.div_lt_iff_lt_mul (Nat.two_pow_pos k),
    ← Nat.pow_add, ← Nat.pow_add]
  exact ⟨hlow, hhigh⟩

/-- Numbers of one binade are rounded to ranks of the binade or the first of the next. -/
theorem nearestRank_binade (hlow : 2 ^ (52 + k) ≤ m) (hhigh : m < 2 ^ (53 + k)) :
    (k + 1) * 2 ^ 52 ≤ nearestRank m 1 ∧ nearestRank m 1 ≤ (k + 2) * 2 ^ 52 := by
  have hq := quotient_bounds hlow hhigh
  have hrank := nearestRank_bounds m
  rw [rankBelow_eq hlow hhigh] at hrank
  omega

theorem nearestRank_exact (hlow : 2 ^ 52 ≤ s) (hhigh : s < 2 ^ 53) :
    nearestRank (s * 2 ^ k) 1 = k * 2 ^ 52 + s := by
  have hpos := Nat.two_pow_pos k
  have hlow' : 2 ^ (52 + k) ≤ s * 2 ^ k := by
    rw [Nat.pow_add]
    exact Nat.mul_le_mul_right _ hlow
  have hhigh' : s * 2 ^ k < 2 ^ (53 + k) := by
    rw [Nat.pow_add]
    exact Nat.mul_lt_mul_of_pos_right hhigh hpos
  have hbelow : rankBelow (s * 2 ^ k) = k * 2 ^ 52 + s := by
    rw [rankBelow_eq hlow' hhigh', Nat.mul_div_cancel _ hpos]
  have hnext : units (k * 2 ^ 52 + s + 1) = (s + 1) * 2 ^ k := by
    rw [Nat.add_assoc]
    exact units_eq (by omega) (by omega)
  rw [nearestRank_one, hbelow, units_eq hlow hhigh.le, hnext, if_pos]
  rw [Nat.add_mul]
  omega

/-! ### Whole numbers -/

-- The exponents are variables here: the powers are too large to be computed with.
theorem unitsPerOne_eq {e : Nat} (he : 1074 = e) : unitsPerOne = 2 ^ e := by
  unfold unitsPerOne
  rw [he]
  exact Nat.pow_eq

theorem two_pow_mul_unitsPerOne {j e : Nat} (he : j + 1074 = e) :
    2 ^ j * unitsPerOne = 2 ^ e := by
  generalize hunit : 1074 = k at he
  rw [unitsPerOne_eq hunit, ← Nat.pow_add, he]

theorem unitsPerOne_pos : 0 < unitsPerOne := by
  obtain ⟨e, he⟩ : ∃ e, 1074 = e := ⟨_, rfl⟩
  rw [unitsPerOne_eq he]
  exact Nat.two_pow_pos e

theorem nearestRank_zero : nearestRank 0 1 = 0 := by decide +kernel

theorem nearestRank_small (hpos : 0 < a) (h : a < 2 ^ 53) : ∃ k s, k ≤ 1074 ∧ 2 ^ 52 ≤ s ∧
    s < 2 ^ 53 ∧ a * unitsPerOne = s * 2 ^ k ∧
      nearestRank (a * unitsPerOne) 1 = k * 2 ^ 52 + s := by
  have hne : a ≠ 0 := by omega
  have hlog : a.log2 ≤ 52 := Nat.lt_succ_iff.mp ((Nat.log2_lt hne).mpr h)
  have hlow : 2 ^ 52 ≤ a * 2 ^ (52 - a.log2) := by
    calc 2 ^ 52 = 2 ^ a.log2 * 2 ^ (52 - a.log2) := by rw [← Nat.pow_add]; congr 1; omega
      _ ≤ a * 2 ^ (52 - a.log2) := Nat.mul_le_mul_right _ (Nat.log2_self_le hne)
  have hhigh : a * 2 ^ (52 - a.log2) < 2 ^ 53 := by
    calc a * 2 ^ (52 - a.log2) < 2 ^ (a.log2 + 1) * 2 ^ (52 - a.log2) :=
          Nat.mul_lt_mul_of_pos_right Nat.lt_log2_self (Nat.two_pow_pos _)
      _ = 2 ^ 53 := by rw [← Nat.pow_add]; congr 1; omega
  have hvalue : a * unitsPerOne = a * 2 ^ (52 - a.log2) * 2 ^ (1022 + a.log2) := by
    rw [unitsPerOne_eq rfl, Nat.mul_assoc, ← Nat.pow_add]
    congr 2
    omega
  refine ⟨1022 + a.log2, _, by omega, hlow, hhigh, hvalue, ?_⟩
  rw [hvalue, nearestRank_exact hlow hhigh]

theorem units_nearestRank_small (h : a < 2 ^ 53) :
    units (nearestRank (a * unitsPerOne) 1) = a * unitsPerOne := by
  rcases Nat.eq_zero_or_pos a with rfl | hpos
  · rw [Nat.zero_mul, nearestRank_zero]
    decide +kernel
  · obtain ⟨k, s, -, hlow, hhigh, hvalue, hrank⟩ := nearestRank_small hpos h
    rw [hrank, units_eq hlow hhigh.le, hvalue]

theorem nearestRank_small_lt (h : a < 2 ^ 53) :
    nearestRank (a * unitsPerOne) 1 < 1076 * 2 ^ 52 := by
  rcases Nat.eq_zero_or_pos a with rfl | hpos
  · rw [Nat.zero_mul, nearestRank_zero]
    decide +kernel
  · obtain ⟨k, s, hk, -, hhigh, -, hrank⟩ := nearestRank_small hpos h
    omega

/-- A whole number from `2 ^ j` on lies in a binade that does not begin before. -/
theorem exists_binade_whole {j : Nat} (h : 2 ^ j ≤ a) :
    ∃ k, j + 1022 ≤ k ∧ 2 ^ (52 + k) ≤ a * unitsPerOne ∧ a * unitsPerOne < 2 ^ (53 + k) := by
  have hunits : 2 ^ (j + 1074) ≤ a * unitsPerOne := by
    rw [← two_pow_mul_unitsPerOne rfl]
    exact Nat.mul_le_mul_right _ h
  obtain ⟨k, hk, hbinade⟩ := exists_binade (by omega) hunits
  exact ⟨k, by omega, hbinade⟩

theorem le_nearestRank_large (h : 2 ^ 53 ≤ a) :
    1076 * 2 ^ 52 ≤ nearestRank (a * unitsPerOne) 1 := by
  obtain ⟨k, hk, hlow, hhigh⟩ := exists_binade_whole h
  calc 1076 * 2 ^ 52 ≤ (k + 1) * 2 ^ 52 := Nat.mul_le_mul_right _ (Nat.succ_le_succ hk)
    _ ≤ nearestRank (a * unitsPerOne) 1 := (nearestRank_binade hlow hhigh).1

theorem nearestRank_inj (hb : b < 2 ^ 53) :
    nearestRank (a * unitsPerOne) 1 = nearestRank (b * unitsPerOne) 1 ↔ a = b := by
  refine ⟨fun h => ?_, fun h => by rw [h]⟩
  have hsmall := nearestRank_small_lt hb
  rcases Nat.lt_or_ge a (2 ^ 53) with ha | ha
  · have hunits := congrArg units h
    rw [units_nearestRank_small ha, units_nearestRank_small hb] at hunits
    exact Nat.eq_of_mul_eq_mul_right unitsPerOne_pos hunits
  · have hlarge := le_nearestRank_large ha
    omega

/-! ### The end of the row -/

/-- The numbers of a binade from half a step below its end on are rounded up to the end. -/
theorem nearestRank_lt_end_iff (hlow : 2 ^ (52 + k) ≤ m) (hhigh : m < 2 ^ (53 + k)) :
    nearestRank m 1 < (k + 2) * 2 ^ 52 ↔ 2 * m < (2 ^ 54 - 1) * 2 ^ k := by
  obtain ⟨hq, hq'⟩ := quotient_bounds hlow hhigh
  have hbelow := rankBelow_eq hlow hhigh
  have hdiv := Nat.div_add_mod m (2 ^ k)
  have hmod := Nat.mod_lt m (Nat.two_pow_pos k)
  generalize m / 2 ^ k = q at hq hq' hbelow hdiv
  generalize m % 2 ^ k = r at hdiv hmod
  rcases Nat.lt_or_ge q (2 ^ 53 - 1) with hbefore | hlast
  · have hrank := (nearestRank_bounds m).2
    have hstep : (q + 1) * 2 ^ k ≤ (2 ^ 53 - 1) * 2 ^ k := Nat.mul_le_mul_right _ hbefore
    rw [Nat.add_mul, Nat.mul_comm q] at hstep
    exact iff_of_true (by omega) (by omega)
  · obtain rfl : q = 2 ^ 53 - 1 := by omega
    have hodd : rankBelow m % 2 ≠ 0 := by omega
    have hunits : units (rankBelow m) = (2 ^ 53 - 1) * 2 ^ k := by
      rw [hbelow, units_eq (by decide) (by decide)]
    have hnext : units (rankBelow m + 1) = 2 ^ 53 * 2 ^ k := by
      rw [hbelow, Nat.add_assoc, units_eq (by decide) (by decide)]
      rfl
    rw [nearestRank_one, hunits, hnext, if_neg hodd]
    split_ifs <;> omega

/-- Numbers are rounded below the end of a binade up to half a step before it. -/
theorem nearestRank_lt_iff (m e : Nat) :
    nearestRank m 1 < (e + 2) * 2 ^ 52 ↔ 2 * m < (2 ^ 54 - 1) * 2 ^ e := by
  rcases Nat.lt_or_ge m (2 ^ 52) with hsmall | hlarge
  · have hbelow : rankBelow m = m := if_pos (Nat.lt_of_lt_of_le hsmall (by decide))
    have hrank := (nearestRank_bounds m).2
    have hpow := Nat.two_pow_pos e
    exact iff_of_true (by omega) (by omega)
  · obtain ⟨k, -, hlow, hhigh⟩ := exists_binade (Nat.le_refl 52) hlarge
    have hrank := nearestRank_binade hlow hhigh
    rw [Nat.pow_add] at hlow hhigh
    rcases Nat.lt_trichotomy k e with hlt | rfl | hgt
    · have hpow : 2 ^ (k + 1) ≤ 2 ^ e := Nat.pow_le_pow_right (by decide) hlt
      rw [Nat.pow_succ] at hpow
      exact iff_of_true (by omega) (by omega)
    · exact nearestRank_lt_end_iff (by rwa [Nat.pow_add]) (by rwa [Nat.pow_add])
    · have hpow : 2 ^ (e + 1) ≤ 2 ^ k := Nat.pow_le_pow_right (by decide) hgt
      rw [Nat.pow_succ] at hpow
      exact iff_of_false (by omega) (by omega)

theorem nearestRank_whole_lt_iff {e : Nat} (he : e = b + 1 + 1074) :
    nearestRank (a * unitsPerOne) 1 < (e + 2) * 2 ^ 52 ↔ a < (2 ^ 54 - 1) * 2 ^ b := by
  have hpow : 2 ^ e = 2 ^ b * (2 * unitsPerOne) := by
    rw [← two_pow_mul_unitsPerOne he.symm, Nat.pow_succ, Nat.mul_assoc]
  have hpos := unitsPerOne_pos
  rw [nearestRank_lt_iff, hpow]
  generalize unitsPerOne = u at hpos
  rw [Nat.mul_left_comm, ← Nat.mul_assoc (2 ^ 54 - 1),
    Nat.mul_lt_mul_right (Nat.mul_pos Nat.two_pos hpos)]

/-- The least whole number that is rounded to infinity. -/
def roundingLimit : Nat := (2 ^ 54 - 1) * 2 ^ 970

theorem le_roundingLimit : 2 ^ 64 ≤ roundingLimit := by decide +kernel

theorem nearestRank_lt_infinityRank_iff (a : Nat) :
    nearestRank (a * unitsPerOne) 1 < infinityRank ↔ a < roundingLimit :=
  nearestRank_whole_lt_iff rfl

theorem ofInt?_eq_none_iff (n : Int) : ofInt? n = none ↔ roundingLimit ≤ n.natAbs := by
  rw [← Nat.not_lt, ← nearestRank_lt_infinityRank_iff, ofInt?]
  simp

/-! ### Signed whole numbers -/

variable {n c : Int} {x : Binary64}

/-- The rank of a whole number, with its sign. -/
def wholePlace (n : Int) : Int :=
  if n < 0 then -(nearestRank (n.natAbs * unitsPerOne) 1 : Int)
  else nearestRank (n.natAbs * unitsPerOne) 1

theorem place?_of_ofInt? (h : ofInt? n = some x) : x.place? = some (wholePlace n) := by
  simp only [ofInt?, Option.ite_none_right_eq_some, Option.some.injEq] at h
  obtain ⟨hrank, rfl⟩ := h
  simp only [ofRank, place?, Nat.min_eq_left hrank.le, decide_eq_true_eq, wholePlace]

theorem eq_ofInt (h : ofInt? n = some x) : x = ofInt n := by
  simp only [ofInt?, Option.ite_none_right_eq_some, Option.some.injEq] at h
  exact h.2.symm

theorem ofInt?_of_small (h : n.natAbs < 2 ^ 53) : ofInt? n = some (ofInt n) := by
  have hrank : nearestRank (n.natAbs * unitsPerOne) 1 < infinityRank :=
    Nat.lt_trans (nearestRank_small_lt h) (by decide)
  exact if_pos hrank

theorem wholePlace_inj (hc : c.natAbs < 2 ^ 53) : wholePlace n = wholePlace c ↔ n = c := by
  have hinj := nearestRank_inj (a := n.natAbs) hc
  have hzero := nearestRank_inj (a := n.natAbs) (b := 0) (by decide)
  have hzero' := nearestRank_inj (a := c.natAbs) (b := 0) (by decide)
  rw [Nat.zero_mul, nearestRank_zero] at hzero hzero'
  unfold wholePlace
  generalize nearestRank (n.natAbs * unitsPerOne) 1 = r at *
  generalize nearestRank (c.natAbs * unitsPerOne) 1 = r' at *
  split_ifs <;> omega

theorem same_ofInt_iff (h : ofInt? n = some x) (hc : c.natAbs < 2 ^ 53) :
    x.same (ofInt c) = true ↔ n = c := by
  rw [same_iff, place?_of_ofInt? h, place?_of_ofInt? (ofInt?_of_small hc), ← wholePlace_inj hc]
  simp [eq_comm]

theorem isPositive_of_ofInt? (h : ofInt? n = some x) : x.isPositive = true ↔ 0 < n := by
  have hzero := wholePlace_inj (n := n) (c := 0) (by decide)
  have hplace : wholePlace 0 = 0 := by decide +kernel
  have hsign : n < 0 → wholePlace n ≤ 0 := fun hn => by rw [wholePlace, if_pos hn]; omega
  have hsign' : ¬ n < 0 → 0 ≤ wholePlace n := fun hn => by rw [wholePlace, if_neg hn]; omega
  rw [isPositive, lt_iff, place?_of_ofInt? h]
  have hfirst : zero.place? = some 0 := rfl
  simp only [hfirst, Option.some.injEq, exists_and_left, exists_eq_left']
  rw [hplace] at hzero
  omega

theorem toInt?_ofInt (h : n.natAbs < 2 ^ 53) : (ofInt n).toInt? = some n := by
  have hrank : nearestRank (n.natAbs * unitsPerOne) 1 < infinityRank :=
    Nat.lt_trans (nearestRank_small_lt h) (by decide)
  have hunits := units_nearestRank_small h
  have hvalue : (ofInt n).toUnits? = some (n * unitsPerOne) := by
    simp only [ofInt, ofRatio, ofUnits, ofRank, toUnits?, Nat.min_eq_left hrank.le, if_pos hrank,
      hunits, decide_eq_true_eq, Option.some.injEq]
    by_cases hn : n < 0
    · rw [if_pos hn, Int.natCast_mul, Int.ofNat_natAbs_of_nonpos hn.le, Int.neg_mul, Int.neg_neg]
    · rw [if_neg hn, Int.natCast_mul, Int.natAbs_of_nonneg (Int.not_lt.mp hn)]
  have hpos : (unitsPerOne : Int) ≠ 0 := Int.natCast_ne_zero.mpr unitsPerOne_pos.ne'
  rw [toInt?, hvalue, Option.bind_some, if_pos (Int.mul_emod_left _ _), Int.mul_ediv_cancel _ hpos]

end PackIndex.Binary64
