import Mathlib.Order.Monotone.Basic
import PackIndex.Proofs.Number.Whole

/-!
# The double nearest to a quotient

The row of doubles ascends strictly, so every quotient stands between two neighbours in it, and is
rounded to a double if it lies between the midpoints to the neighbours of that double.
-/

namespace PackIndex.Binary64

variable {m k s rank num den : Nat}

/-! ### The row -/

theorem units_small (h : rank ≤ 2 ^ 53) : units rank = rank := by
  rcases Nat.lt_or_ge rank (2 ^ 52) with hless | hge
  · exact if_pos (Nat.lt_of_lt_of_le hless (by decide))
  · have heq := units_eq (k := 0) hge h
    rwa [Nat.zero_mul, Nat.zero_add, Nat.pow_zero, Nat.mul_one] at heq

theorem exists_step (h : 2 ^ 52 ≤ rank) :
    ∃ k s, 2 ^ 52 ≤ s ∧ s < 2 ^ 53 ∧ rank = k * 2 ^ 52 + s :=
  ⟨rank / 2 ^ 52 - 1, 2 ^ 52 + rank % 2 ^ 52, by omega, by omega, by omega⟩

theorem units_lt_succ (rank : Nat) : units rank < units (rank + 1) := by
  rcases Nat.lt_or_ge rank (2 ^ 52) with hless | hge
  · rw [units_small (by omega), units_small (by omega)]
    exact Nat.lt_succ_self rank
  · obtain ⟨k, s, hlow, hhigh, rfl⟩ := exists_step hge
    rw [Nat.add_assoc, units_eq hlow hhigh.le, units_eq (by omega) hhigh]
    exact Nat.mul_lt_mul_of_pos_right (Nat.lt_succ_self s) (Nat.two_pow_pos k)

theorem units_strictMono : StrictMono units := strictMono_nat_of_lt_succ units_lt_succ

theorem units_rankBelow (m : Nat) :
    units (rankBelow m) ≤ m ∧ m < units (rankBelow m + 1) := by
  rcases Nat.lt_or_ge m (2 ^ 52) with hless | hge
  · have hbelow : rankBelow m = m := if_pos (Nat.lt_of_lt_of_le hless (by decide))
    rw [hbelow, units_small (by omega), units_small (by omega)]
    exact ⟨Nat.le_refl m, Nat.lt_succ_self m⟩
  · obtain ⟨k, -, hlow, hhigh⟩ := exists_binade (Nat.le_refl 52) hge
    obtain ⟨hq, hq'⟩ := quotient_bounds hlow hhigh
    rw [rankBelow_eq hlow hhigh, Nat.add_assoc, units_eq hq hq'.le, units_eq (by omega) hq']
    refine ⟨Nat.div_mul_le_self m _, ?_⟩
    rw [Nat.mul_comm]
    exact Nat.lt_mul_div_succ m (Nat.two_pow_pos k)

/-! ### Rounding -/

/-- A quotient between the midpoints around a double is rounded to it; the midpoints themselves
count for even ranks. -/
theorem nearestRank_of_between (hden : 0 < den) (hrank : 0 < rank)
    (hlow : (units (rank - 1) + units rank) * den < 2 * num ∨
      rank % 2 = 0 ∧ (units (rank - 1) + units rank) * den = 2 * num)
    (hhigh : 2 * num < (units rank + units (rank + 1)) * den ∨
      rank % 2 = 0 ∧ 2 * num = (units rank + units (rank + 1)) * den) :
    nearestRank num den = rank := by
  obtain ⟨hbelow, habove⟩ := units_rankBelow (num / den)
  rw [Nat.le_div_iff_mul_le hden] at hbelow
  rw [Nat.div_lt_iff_lt_mul hden] at habove
  have hprev := Nat.mul_lt_mul_of_pos_right (units_strictMono (Nat.sub_one_lt_of_lt hrank)) hden
  have hnext := Nat.mul_lt_mul_of_pos_right (units_lt_succ rank) hden
  rw [Nat.add_mul] at hlow hhigh
  unfold nearestRank
  generalize rankBelow (num / den) = low at *
  have hle : low ≤ rank := by
    have hless : units low * den < units (rank + 1) * den := by omega
    exact Nat.lt_succ_iff.mp (units_strictMono.lt_iff_lt.mp (Nat.lt_of_mul_lt_mul_right hless))
  have hge : rank - 1 < low + 1 := by
    have hless : units (rank - 1) * den < units (low + 1) * den := by omega
    exact units_strictMono.lt_iff_lt.mp (Nat.lt_of_mul_lt_mul_right hless)
  simp only [Nat.add_mul]
  obtain rfl | rfl : rank = low ∨ rank = low + 1 := by omega
  · split_ifs <;> omega
  · rw [Nat.add_sub_cancel] at hlow
    split_ifs <;> omega

end PackIndex.Binary64
