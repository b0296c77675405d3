import Mathlib.Algebra.Order.Field.Power
import Mathlib.Data.Nat.Cast.Order.Field
import Mathlib.Tactic.FieldSimp
import Mathlib.Tactic.Linarith
import Mathlib.Tactic.Positivity
import Mathlib.Tactic.Ring
import PackIndex.Number.Shortest
import PackIndex.Proofs.Number.Nearest

/-!
# The shortest digits read back

The digits that a positive finite double is written with denote a number between the midpoints to its
neighbours: at the latest seventeen digits are fine enough for one of the two decimals next to the
double to lie there. So reading them as a decimal gives the double.
-/

namespace PackIndex.Binary64

variable {rank n num den : Nat} {e : Int} {q : ℚ}

theorem units_infinityRank : units infinityRank = 2 ^ 1024 * unitsPerOne := by
  obtain ⟨k, hk⟩ : ∃ k, 2046 = k := ⟨_, rfl⟩
  have hrank : infinityRank = k * 2 ^ 52 + 2 ^ 52 := by
    rw [← hk]
    decide
  have hexponent : 1024 + 1074 = 52 + k := by omega
  rw [hrank, units_eq (Nat.le_refl _) (by decide), two_pow_mul_unitsPerOne hexponent, Nat.pow_add]

-- the numbers behind these names are too large to be computed with
attribute [local irreducible] unitsPerOne infinityRank

/-! ### Powers of ten and of two -/

theorem two_pow_le_ten_pow {a b : Nat} (h : 28 * a ≤ 93 * b) : (2 : ℚ) ^ a ≤ 10 ^ b := by
  refine (pow_le_pow_iff_left₀ (by positivity) (by positivity) (by decide : 93 ≠ 0)).mp ?_
  calc ((2 : ℚ) ^ a) ^ 93 = (2 ^ 93) ^ a := pow_right_comm _ _ _
    _ ≤ (10 ^ 28) ^ a := pow_le_pow_left₀ (by positivity) (by norm_num) _
    _ = 10 ^ (28 * a) := (pow_mul _ _ _).symm
    _ ≤ 10 ^ (93 * b) := pow_le_pow_right₀ (by norm_num) h
    _ = (10 ^ b) ^ 93 := by rw [Nat.mul_comm, pow_mul]

/-- Powers of ten against powers of two: `93 / 28` and `103 / 31` are next to the logarithm. -/
theorem ten_zpow_le_two_zpow {x y : ℤ} (hpos : 0 ≤ x → 103 * x ≤ 31 * y)
    (hneg : x ≤ 0 → 93 * x ≤ 28 * y) : (10 : ℚ) ^ x ≤ 2 ^ y := by
  rcases le_total 0 x with hx | hx
  · refine (pow_le_pow_iff_left₀ (by positivity) (by positivity) (by decide : 31 ≠ 0)).mp ?_
    calc ((10 : ℚ) ^ x) ^ 31 = (10 ^ 31) ^ x := by rw [← zpow_natCast, ← zpow_natCast, zpow_comm]
      _ ≤ (2 ^ 103) ^ x := zpow_le_zpow_left₀ hx (by positivity) (by norm_num)
      _ = 2 ^ (103 * x) := by rw [← zpow_natCast, ← zpow_mul]; rfl
      _ ≤ 2 ^ (31 * y) := zpow_le_zpow_right₀ (by norm_num) (hpos hx)
      _ = (2 ^ y) ^ 31 := by rw [← zpow_natCast, ← zpow_mul, mul_comm]; rfl
  · refine (pow_le_pow_iff_left₀ (by positivity) (by positivity) (by decide : 28 ≠ 0)).mp ?_
    calc ((10 : ℚ) ^ x) ^ 28 = ((10 ^ 28) ^ (-x))⁻¹ := by
          rw [zpow_neg, inv_inv, ← zpow_natCast, ← zpow_natCast, zpow_comm]
      _ ≤ ((2 ^ 93) ^ (-x))⁻¹ :=
        inv_anti₀ (by positivity) (zpow_le_zpow_left₀ (by omega) (by positivity) (by norm_num))
      _ = 2 ^ (93 * x) := by rw [zpow_neg, inv_inv, ← zpow_natCast, ← zpow_mul]; rfl
      _ ≤ 2 ^ (28 * y) := zpow_le_zpow_right₀ (by norm_num) (hneg hx)
      _ = (2 ^ y) ^ 28 := by rw [← zpow_natCast, ← zpow_mul, mul_comm]; rfl

/-! ### Exact comparisons -/

theorem cast_unitsPerOne_pos : (0 : ℚ) < unitsPerOne := by exact_mod_cast unitsPerOne_pos

theorem zpow_of_neg (he : e < 0) : (10 : ℚ) ^ e * 10 ^ e.natAbs = 1 := by
  rw [← zpow_natCast, ← zpow_add₀ (by norm_num), Int.ofNat_natAbs_of_nonpos he.le, add_neg_cancel,
    zpow_zero]

theorem zpow_of_nonneg (he : 0 ≤ e) : (10 : ℚ) ^ e = 10 ^ e.natAbs := by
  rw [← zpow_natCast, Int.natAbs_of_nonneg he]

theorem compareScaled_spec (n : Nat) (e : Int) (num : Nat) (hden : 0 < den) :
    (compareScaled n e num den = .lt ↔ (n : ℚ) * 10 ^ e < num / den) ∧
      (compareScaled n e num den = .eq ↔ (n : ℚ) * 10 ^ e = num / den) ∧
      (compareScaled n e num den = .gt ↔ (num : ℚ) / den < n * 10 ^ e) := by
  have hpos : (0 : ℚ) < den := by exact_mod_cast hden
  have hscale : (0 : ℚ) < 10 ^ e.natAbs := by positivity
  obtain ⟨a, b, c, hc, hcompare, ha, hb⟩ : ∃ (a b : ℕ) (c : ℚ), 0 < c ∧
      compareScaled n e num den = compare a b ∧ (n : ℚ) * 10 ^ e * c = a ∧ (num : ℚ) / den * c = b := by
    unfold compareScaled
    simp only [Nat.pow_eq]
    split
    · next he =>
      refine ⟨_, _, den * 10 ^ e.natAbs, by positivity, rfl, ?_, ?_⟩
      · push_cast
        calc (n : ℚ) * 10 ^ e * (den * 10 ^ e.natAbs) = n * den * (10 ^ e * 10 ^ e.natAbs) := by ring
          _ = n * den := by rw [zpow_of_neg he, mul_one]
      · push_cast
        field_simp
    · next he =>
      refine ⟨_, _, den, hpos, rfl, ?_, ?_⟩
      · push_cast
        rw [zpow_of_nonneg (not_lt.mp he)]
      · field_simp
  have hlt : (n : ℚ) * 10 ^ e < num / den ↔ a < b := by
    rw [← mul_lt_mul_iff_of_pos_right hc, ha, hb, Nat.cast_lt]
  have heq : (n : ℚ) * 10 ^ e = num / den ↔ a = b := by
    rw [← mul_left_inj' hc.ne', ha, hb, Nat.cast_inj]
  have hgt : (num : ℚ) / den < n * 10 ^ e ↔ b < a := by
    rw [← mul_lt_mul_iff_of_pos_right hc, ha, hb, Nat.cast_lt]
  rw [hcompare, hlt, heq, hgt]
  exact ⟨Nat.compare_eq_lt, Nat.compare_eq_eq, Nat.compare_eq_gt⟩

/-! ### The numbers around a double -/

def midpoint (rank : Nat) : ℚ := (units rank + units (rank + 1) : ℕ) / (2 * unitsPerOne : ℕ)

/-- Whether a number is rounded to the double of a positive rank. -/
def RoundsTo (rank : Nat) (q : ℚ) : Prop :=
  (midpoint (rank - 1) < q ∨ rank % 2 = 0 ∧ midpoint (rank - 1) = q) ∧
    (q < midpoint rank ∨ rank % 2 = 0 ∧ q = midpoint rank)

theorem readsBack_iff (hrank : 0 < rank) :
    readsBack rank n e = true ↔ RoundsTo rank (n * 10 ^ e) := by
  have hden : 0 < 2 * unitsPerOne := Nat.mul_pos Nat.two_pos unitsPerOne_pos
  have hprev : midpoint (rank - 1) =
      (units (rank - 1) + units rank : ℕ) / (2 * unitsPerOne : ℕ) := by
    rw [midpoint, Nat.sub_add_cancel hrank]
  obtain ⟨-, hloweq, hlow⟩ := compareScaled_spec n e (units (rank - 1) + units rank) hden
  obtain ⟨hhigh, hhigheq, -⟩ := compareScaled_spec n e (units rank + units (rank + 1)) hden
  rw [RoundsTo, hprev, midpoint, readsBack]
  simp only [Bool.and_eq_true, Bool.or_eq_true, beq_iff_eq, hloweq, hlow, hhigheq, hhigh]
  refine and_congr (or_congr_right ?_) (or_congr_right and_comm)
  exact and_comm.trans (and_congr_right fun _ => eq_comm)

theorem midpoint_pos (rank : Nat) : 0 < midpoint rank := by
  have hnext : 0 < units rank + units (rank + 1) :=
    Nat.add_pos_right _ (Nat.zero_lt_of_lt (units_lt_succ rank))
  exact div_pos (by exact_mod_cast hnext)
    (by exact_mod_cast Nat.mul_pos Nat.two_pos unitsPerOne_pos)

theorem RoundsTo.pos (h : RoundsTo rank q) : 0 < q := by
  have hpos := midpoint_pos (rank - 1)
  rcases h.1 with hlow | ⟨-, hlow⟩ <;> linarith

theorem midpoint_mul (rank : Nat) :
    midpoint rank * (2 * unitsPerOne) = (units rank + units (rank + 1) : ℕ) := by
  have hpos := cast_unitsPerOne_pos
  rw [midpoint, Nat.cast_mul, Nat.cast_ofNat, div_mul_cancel₀ _ (by positivity)]

/-- A quotient of units that is rounded to a rank has that rank as the nearest one. -/
theorem RoundsTo.nearestRank_eq (h : RoundsTo rank q) (hrank : 0 < rank) (hden : 0 < den)
    (hq : q * (unitsPerOne * den) = num) : nearestRank num den = rank := by
  have hpos : (0 : ℚ) < 2 * unitsPerOne * den := by
    have hunits := cast_unitsPerOne_pos
    have hcast : (0 : ℚ) < den := by exact_mod_cast hden
    positivity
  have hnum : q * (2 * unitsPerOne * den) = (2 * num : ℕ) := by
    push_cast
    rw [← hq]
    ring
  have hmid (r : Nat) : midpoint r * (2 * unitsPerOne * den) =
      ((units r + units (r + 1)) * den : ℕ) := by
    rw [← mul_assoc, midpoint_mul, Nat.cast_mul]
  have hprev := hmid (rank - 1)
  rw [Nat.sub_add_cancel hrank] at hprev
  obtain ⟨hlow, hhigh⟩ := h
  rw [← mul_lt_mul_iff_of_pos_right hpos, ← mul_left_inj' hpos.ne', hprev, hnum, Nat.cast_lt,
    Nat.cast_inj] at hlow
  rw [← mul_lt_mul_iff_of_pos_right hpos, ← mul_left_inj' hpos.ne', hmid, hnum, Nat.cast_lt,
    Nat.cast_inj] at hhigh
  exact nearestRank_of_between hden hrank hlow hhigh

/-! ### Reading decimals -/

theorem RoundsTo.lt (h : RoundsTo rank q) (hfinite : rank < infinityRank) : q < 10 ^ (309 : ℤ) := by
  have hunits : units rank + units (rank + 1) < 2 * units infinityRank := by
    have hrank := units_strictMono hfinite
    have hnext := units_strictMono.monotone (Nat.succ_le_of_lt hfinite)
    rw [Nat.succ_eq_add_one] at hnext
    omega
  have hmid : midpoint rank < 2 ^ 1024 := by
    have hpos := cast_unitsPerOne_pos
    rw [← mul_lt_mul_iff_of_pos_right (by positivity : (0 : ℚ) < 2 * unitsPerOne), midpoint_mul]
    rw [units_infinityRank] at hunits
    calc ((units rank + units (rank + 1) : ℕ) : ℚ) < (2 * (2 ^ 1024 * unitsPerOne) : ℕ) := by
          exact_mod_cast hunits
      _ = 2 ^ 1024 * (2 * unitsPerOne) := by
        rw [Nat.cast_mul, Nat.cast_mul, Nat.cast_pow, Nat.cast_ofNat]
        exact mul_left_comm _ _ _
  have hend : (2 : ℚ) ^ 1024 ≤ 10 ^ (309 : ℤ) := by
    exact_mod_cast two_pow_le_ten_pow (by decide : 28 * 1024 ≤ 93 * 309)
  rcases h.2 with hhigh | ⟨-, hhigh⟩
  · exact hhigh.trans (hmid.trans_le hend)
  · exact hhigh.trans_lt (hmid.trans_le hend)

/-- What is rounded to a positive double is not far below the first of them. -/
theorem RoundsTo.gt (h : RoundsTo rank q) : (10 : ℚ) ^ (-324 : ℤ) < q := by
  have hunits : 1 ≤ units (rank - 1) + units (rank - 1 + 1) :=
    Nat.le_add_left_of_le (Nat.zero_lt_of_lt (units_lt_succ (rank - 1)))
  have hmid : (10 : ℚ) ^ (-324 : ℤ) < midpoint (rank - 1) := by
    have hpos := cast_unitsPerOne_pos
    have hend : (2 : ℚ) * unitsPerOne < 10 ^ 324 := by
      rw [unitsPerOne_eq rfl, Nat.cast_pow, Nat.cast_ofNat, ← pow_succ']
      exact (pow_lt_pow_right₀ (by norm_num) (Nat.lt_succ_self _)).trans_le
        (two_pow_le_ten_pow (by decide))
    rw [← mul_lt_mul_iff_of_pos_right (by positivity : (0 : ℚ) < 2 * unitsPerOne), midpoint_mul,
      zpow_neg, inv_mul_eq_div]
    calc (2 : ℚ) * unitsPerOne / 10 ^ (324 : ℤ) < 1 := by
          rw [div_lt_one (by positivity)]
          exact_mod_cast hend
      _ ≤ (units (rank - 1) + units (rank - 1 + 1) : ℕ) := by exact_mod_cast hunits
  rcases h.1 with hlow | ⟨-, hlow⟩
  · exact hmid.trans hlow
  · exact hmid.trans_eq hlow

theorem pow_le_of_log2 (hn : n ≠ 0) :
    10 ^ (n.log2 / 4) ≤ n ∧ n < 10 ^ (2 * (n.log2 / 4) + 2) := by
  have hlow := Nat.log2_self_le hn
  have hhigh := Nat.lt_log2_self (n := n)
  generalize n.log2 = a at *
  constructor
  · calc 10 ^ (a / 4) ≤ 16 ^ (a / 4) := Nat.pow_le_pow_left (by decide) _
      _ = 2 ^ (4 * (a / 4)) := (Nat.pow_mul 2 4 _).symm
      _ ≤ 2 ^ a := Nat.pow_le_pow_right (by decide) (by omega)
      _ ≤ n := hlow
  · calc n < 2 ^ (a + 1) := hhigh
      _ ≤ 2 ^ (4 * (a / 4 + 1)) := Nat.pow_le_pow_right (by decide) (by omega)
      _ = 16 ^ (a / 4 + 1) := Nat.pow_mul 2 4 _
      _ ≤ 100 ^ (a / 4 + 1) := Nat.pow_le_pow_left (by decide) _
      _ = 10 ^ (2 * (a / 4) + 2) := (Nat.pow_mul 10 2 _).symm

theorem ofDecimal_eq (negative : Bool) (hrank : 0 < rank) (hfinite : rank < infinityRank)
    (h : RoundsTo rank (n * 10 ^ e)) : ofDecimal negative n e = ofRank negative rank := by
  have hpos := h.pos
  have hn : n ≠ 0 := by
    rintro rfl
    simp at hpos
  have hten : (0 : ℚ) < 10 ^ e := by positivity
  obtain ⟨hlow, hhigh⟩ := pow_le_of_log2 hn
  have hplaces : ((n.log2 / 4 : ℕ) : ℤ) + e < 309 := by
    rw [← zpow_lt_zpow_iff_right₀ (by norm_num : (1 : ℚ) < 10), zpow_add₀ (by norm_num), zpow_natCast]
    have hcast : ((10 ^ (n.log2 / 4) : ℕ) : ℚ) ≤ n := by exact_mod_cast hlow
    rw [Nat.cast_pow, Nat.cast_ofNat] at hcast
    exact (mul_le_mul_of_nonneg_right hcast hten.le).trans_lt (h.lt hfinite)
  have hplaces' : (-324 : ℤ) < ((2 * (n.log2 / 4) + 2 : ℕ) : ℤ) + e := by
    rw [← zpow_lt_zpow_iff_right₀ (by norm_num : (1 : ℚ) < 10), zpow_add₀ (by norm_num), zpow_natCast]
    have hcast : (n : ℚ) ≤ (10 ^ (2 * (n.log2 / 4) + 2) : ℕ) := by exact_mod_cast hhigh.le
    rw [Nat.cast_pow, Nat.cast_ofNat] at hcast
    exact h.gt.trans_le (mul_le_mul_of_nonneg_right hcast hten.le)
  push_cast at hplaces hplaces'
  unfold ofDecimal
  simp only [if_neg hn, Nat.pow_eq]
  rw [if_neg (by omega), if_neg (by omega)]
  split
  · next he =>
    rw [ofRatio, ofUnits, h.nearestRank_eq hrank (Nat.pow_pos (by decide))]
    push_cast
    calc (n : ℚ) * 10 ^ e * (unitsPerOne * 10 ^ e.natAbs) =
          n * unitsPerOne * (10 ^ e * 10 ^ e.natAbs) := by ring
      _ = n * unitsPerOne := by rw [zpow_of_neg he, mul_one]
  · next he =>
    rw [ofRatio, ofUnits, h.nearestRank_eq hrank Nat.one_pos]
    push_cast
    rw [zpow_of_nonneg (not_lt.mp he)]
    ring

/-! ### Seventeen digits -/

/-- The gap around a double is wider than two units of its seventeenth digit. -/
theorem units_gap (hrank : 0 < rank) :
    2 * units rank + 10 ^ 16 * units (rank - 1) < 10 ^ 16 * units (rank + 1) := by
  rcases Nat.lt_or_ge rank (2 ^ 52) with hless | hge
  · rw [units_small (by omega), units_small (by omega), units_small (by omega)]
    omega
  · obtain ⟨k, s, hlow, hhigh, rfl⟩ := exists_step hge
    have hpow := Nat.two_pow_pos k
    rw [Nat.add_assoc, units_eq hlow hhigh.le, units_eq (by omega) hhigh]
    rcases Nat.lt_or_eq_of_le hlow with hinner | rfl
    · have hprev : units (k * 2 ^ 52 + s - 1) = (s - 1) * 2 ^ k := by
        rw [Nat.add_sub_assoc (by omega)]
        exact units_eq (by omega) (by omega)
      rw [hprev]
      calc 2 * (s * 2 ^ k) + 10 ^ 16 * ((s - 1) * 2 ^ k) =
            (2 * s + 10 ^ 16 * (s - 1)) * 2 ^ k := by ring
        _ < 10 ^ 16 * (s + 1) * 2 ^ k := Nat.mul_lt_mul_of_pos_right (by omega) hpow
        _ = 10 ^ 16 * ((s + 1) * 2 ^ k) := Nat.mul_assoc _ _ _
    · -- at the start of a binade the step below is only half as wide
      have hprev := (units_strictMono (Nat.sub_one_lt_of_lt hrank)).le
      rw [units_eq hlow hhigh.le] at hprev
      calc 2 * (2 ^ 52 * 2 ^ k) + 10 ^ 16 * units (k * 2 ^ 52 + 2 ^ 52 - 1) ≤
            2 * (2 ^ 52 * 2 ^ k) + 10 ^ 16 * (2 ^ 52 * 2 ^ k) :=
          Nat.add_le_add_left (Nat.mul_le_mul_left _ hprev) _
        _ = (2 * 2 ^ 52 + 10 ^ 16 * 2 ^ 52) * 2 ^ k := by ring
        _ < 10 ^ 16 * (2 ^ 52 + 1) * 2 ^ k := Nat.mul_lt_mul_of_pos_right (by omega) hpow
        _ = 10 ^ 16 * ((2 ^ 52 + 1) * 2 ^ k) := Nat.mul_assoc _ _ _

/-! ### The grid of the seventeenth digit -/

def value (rank : Nat) : ℚ := units rank / unitsPerOne

theorem value_mul (rank : Nat) : value rank * (2 * unitsPerOne) = (2 * units rank : ℕ) := by
  have hpos := cast_unitsPerOne_pos
  rw [value, Nat.cast_mul, Nat.cast_ofNat]
  field_simp

theorem log2_unitsPerOne : unitsPerOne.log2 = 1074 := by
  rw [unitsPerOne_eq rfl, Nat.log2_two_pow]

theorem two_zpow_le_value (hrank : 0 < rank) :
    (2 : ℚ) ^ (((units rank).log2 : ℤ) - 1074) ≤ value rank := by
  have hunits : units rank ≠ 0 := (Nat.zero_lt_of_lt (units_strictMono hrank)).ne'
  have hlow : ((2 ^ (units rank).log2 : ℕ) : ℚ) ≤ units rank := by
    exact_mod_cast Nat.log2_self_le hunits
  have hone : ((unitsPerOne : ℕ) : ℚ) = 2 ^ (1074 : ℤ) := by
    rw [unitsPerOne_eq rfl, Nat.cast_pow, Nat.cast_ofNat, ← zpow_natCast, Nat.cast_ofNat]
  rw [value, hone, zpow_sub₀ (by norm_num), zpow_natCast]
  refine div_le_div_of_nonneg_right ?_ (by positivity)
  exact_mod_cast hlow

theorem units_log2_lt (hfinite : rank < infinityRank) : (units rank).log2 < 2098 := by
  rcases Nat.eq_zero_or_pos (units rank) with hzero | hpos
  · rw [hzero]; decide
  · obtain ⟨e, he⟩ : ∃ e, 1024 + 1074 = e := ⟨_, rfl⟩
    have hlt := units_strictMono hfinite
    rw [units_infinityRank, two_pow_mul_unitsPerOne he] at hlt
    exact ((Nat.log2_lt hpos.ne').mpr hlt).trans_eq he.symm

theorem decimalPoint_le (hrank : 0 < rank) (hfinite : rank < infinityRank) :
    (10 : ℚ) ^ (decimalPoint (units rank) unitsPerOne - 1) ≤ value rank := by
  have hbelow {p : ℤ} (h : (compareScaled 1 p (units rank) unitsPerOne == .gt) = false) :
      (10 : ℚ) ^ p ≤ value rank := by
    have hspec := (compareScaled_spec 1 p (units rank) unitsPerOne_pos).2.2
    rw [Nat.cast_one, one_mul] at hspec
    exact not_lt.mp fun hlt => absurd (beq_iff_eq.mpr (hspec.mpr hlt)) (by rw [h]; decide)
  have hlog := units_log2_lt hfinite
  unfold decimalPoint
  simp only [log2_unitsPerOne]
  generalize hguess : (((units rank).log2 : ℤ) - (1074 : ℕ) - 1) * 30103 / 100000 = guess
  split
  · next k hk =>
    rcases Nat.eq_zero_or_pos k with rfl | hpos
    · refine (ten_zpow_le_two_zpow ?_ ?_).trans (two_zpow_le_value hrank) <;> omega
    · obtain ⟨-, -, hbefore⟩ := List.find?_range_eq_some.mp hk
      have hprev := hbefore (k - 1) (by omega)
      rw [Bool.not_eq_eq_eq_not, Bool.not_true] at hprev
      have h := hbelow hprev
      rwa [show guess + ((k - 1 : ℕ) : ℤ) = guess + k - 1 by omega] at h
  · next hnone =>
    have hlast := List.find?_range_eq_none.mp hnone 3 (by decide)
    rw [Bool.not_eq_eq_eq_not, Bool.not_true] at hlast
    have h := hbelow hlast
    rwa [show guess + ((3 : ℕ) : ℤ) = guess + 4 - 1 by omega] at h

theorem scaledFloor_spec (hden : 0 < den) :
    (scaledFloor num den e : ℚ) * 10 ^ e ≤ num / den ∧
      (num : ℚ) / den < (scaledFloor num den e + 1 : ℕ) * 10 ^ e := by
  have hpos : (0 : ℚ) < den := by exact_mod_cast hden
  obtain ⟨a, b, hb, hfloor, hvalue⟩ : ∃ a b : ℕ, 0 < b ∧ scaledFloor num den e = a / b ∧
      (num : ℚ) / den = a / b * 10 ^ e := by
    unfold scaledFloor
    simp only [Nat.pow_eq]
    split
    · next he =>
      refine ⟨num * 10 ^ e.natAbs, den, hden, rfl, ?_⟩
      push_cast
      calc (num : ℚ) / den = num / den * (10 ^ e * 10 ^ e.natAbs) := by rw [zpow_of_neg he, mul_one]
        _ = num * 10 ^ e.natAbs / den * 10 ^ e := by ring
    · next he =>
      refine ⟨num, den * 10 ^ e.natAbs, Nat.mul_pos hden (Nat.pow_pos (by decide)), rfl, ?_⟩
      push_cast
      rw [zpow_of_nonneg (not_lt.mp he)]
      field_simp
  have hcast : (0 : ℚ) < b := by exact_mod_cast hb
  have hten : (0 : ℚ) < 10 ^ e := by positivity
  rw [hfloor, hvalue]
  refine ⟨mul_le_mul_of_nonneg_right Nat.cast_div_le hten.le, mul_lt_mul_of_pos_right ?_ hten⟩
  rw [div_lt_iff₀ hcast]
  exact_mod_cast Nat.lt_mul_of_div_lt (Nat.lt_succ_self (a / b)) hb

theorem midpoint_lt_value (hrank : 0 < rank) :
    midpoint (rank - 1) < value rank ∧ value rank < midpoint rank := by
  have hpos := cast_unitsPerOne_pos
  have htwo : (0 : ℚ) < 2 * unitsPerOne := by positivity
  have hprev := units_strictMono (Nat.sub_one_lt_of_lt hrank)
  have hnext := units_lt_succ rank
  constructor
  · rw [← mul_lt_mul_iff_of_pos_right htwo, midpoint_mul, value_mul, Nat.cast_lt,
      Nat.sub_add_cancel hrank]
    omega
  · rw [← mul_lt_mul_iff_of_pos_right htwo, midpoint_mul, value_mul, Nat.cast_lt]
    omega

/-- A unit of the seventeenth digit is less than the distance of the midpoints. -/
theorem value_lt_gap (hrank : 0 < rank) :
    value rank < 10 ^ 16 * (midpoint rank - midpoint (rank - 1)) := by
  have hpos := cast_unitsPerOne_pos
  have htwo : (0 : ℚ) < 2 * unitsPerOne := by positivity
  have hgap : ((2 * units rank + 10 ^ 16 * units (rank - 1) : ℕ) : ℚ) <
      (10 ^ 16 * units (rank + 1) : ℕ) := by
    exact_mod_cast units_gap hrank
  rw [← mul_lt_mul_iff_of_pos_right htwo, value_mul, mul_assoc, sub_mul, midpoint_mul, midpoint_mul,
    Nat.sub_add_cancel hrank]
  push_cast at hgap ⊢
  linarith

theorem readsBack_of_onGrid? (h : onGrid? rank e = some n) : readsBack rank n e = true := by
  simp only [onGrid?] at h
  split at h
  · next hread hnext =>
    split at h
    · rwa [← Option.some.inj h]
    · rwa [← Option.some.inj h]
    · rw [← Option.some.inj h]
      split <;> assumption
  · next hread _ => rwa [← Option.some.inj h]
  · next _ hnext => rwa [← Option.some.inj h]
  · cases h

theorem isSome_onGrid? (h : readsBack rank (scaledFloor (units rank) unitsPerOne e) e = true ∨
    readsBack rank (scaledFloor (units rank) unitsPerOne e + 1) e = true) :
    (onGrid? rank e).isSome = true := by
  simp only [onGrid?]
  split
  · split <;> rfl
  · rfl
  · rfl
  · next hread hnext =>
    rcases h with h | h
    · exact absurd h (by rw [hread]; decide)
    · exact absurd h (by rw [hnext]; decide)

/-- One of the two decimals with seventeen digits that are next to a double reads back. -/
theorem isSome_onGrid?_seventeen (hrank : 0 < rank) (hfinite : rank < infinityRank) :
    (onGrid? rank (decimalPoint (units rank) unitsPerOne - 17)).isSome = true := by
  have hpoint := decimalPoint_le hrank hfinite
  generalize decimalPoint (units rank) unitsPerOne = point at hpoint ⊢
  refine isSome_onGrid? ?_
  rw [readsBack_iff hrank, readsBack_iff hrank]
  obtain ⟨hbelow, habove⟩ : _ * _ ≤ value rank ∧ value rank < _ * _ :=
    scaledFloor_spec (e := point - 17) unitsPerOne_pos
  generalize scaledFloor (units rank) unitsPerOne (point - 17) = n at *
  obtain ⟨hlow, hhigh⟩ := midpoint_lt_value hrank
  by_contra hnone
  obtain ⟨hfirst, hsecond⟩ := not_or.mp hnone
  have hleft : (n : ℚ) * 10 ^ (point - 17) ≤ midpoint (rank - 1) :=
    not_lt.mp fun h => hfirst ⟨Or.inl h, Or.inl (hbelow.trans_lt hhigh)⟩
  have hright : midpoint rank ≤ (n + 1 : ℕ) * 10 ^ (point - 17) :=
    not_lt.mp fun h => hsecond ⟨Or.inl (hlow.trans habove), Or.inl h⟩
  -- then the two decimals are as far apart as the midpoints
  have hunit : (10 : ℚ) ^ 16 * 10 ^ (point - 17) = 10 ^ (point - 1) := by
    rw [← zpow_natCast, ← zpow_add₀ (by norm_num)]
    congr 1
    omega
  have hgap := value_lt_gap hrank
  push_cast at hright
  linarith

/-! ### The digits found -/

theorem trimZeros_value (fuel n : Nat) (e : Int) :
    ((trimZeros fuel n e).1 : ℚ) * 10 ^ (trimZeros fuel n e).2 = n * 10 ^ e := by
  induction fuel generalizing n e with
  | zero => rfl
  | succ fuel ih =>
    rw [trimZeros]
    split
    · next hzero =>
      obtain ⟨m, rfl⟩ := Nat.dvd_of_mod_eq_zero hzero.1
      rw [ih, Nat.mul_div_cancel_left m (by decide), zpow_add_one₀ (by norm_num)]
      push_cast
      ring
    · rfl

theorem roundsTo_shortest (hrank : 0 < rank) (hfinite : rank < infinityRank) :
    RoundsTo rank ((shortest rank).1 * 10 ^ (shortest rank).2) := by
  unfold shortest
  simp only
  generalize hpoint : decimalPoint (units rank) unitsPerOne = point
  split
  · next m exponent hfound =>
    obtain ⟨k, -, hk⟩ := List.exists_of_findSome?_eq_some hfound
    obtain ⟨n, hgrid, heq⟩ := Option.map_eq_some_iff.mp hk
    obtain ⟨rfl, rfl⟩ := Prod.mk.inj heq
    rw [trimZeros_value]
    exact (readsBack_iff hrank).mp (readsBack_of_onGrid? hgrid)
  · next hnone =>
    have hlast := List.findSome?_eq_none_iff.mp hnone 16 (by decide)
    have hsome := isSome_onGrid?_seventeen hrank hfinite
    rw [Option.map_eq_none_iff] at hlast
    rw [hpoint, show point - 17 = point - ((16 : ℕ) + 1) from rfl, hlast] at hsome
    cases hsome

end PackIndex.Binary64
