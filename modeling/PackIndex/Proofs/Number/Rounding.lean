import Mathlib.Algebra.Order.Field.Basic
import Mathlib.Data.Rat.Cast.Order
import Mathlib.Tactic.FieldSimp
import Mathlib.Tactic.Linarith
import PackIndex.Number.Text

/-!
# Rounding to a whole number

The whole number that a quotient is rounded to is at most one half away from it, and does not fall
while the quotient grows.
-/

namespace PackIndex.Number

variable {num other den : Nat}

theorem div_le_roundHalfEven (num den : Nat) : num / den ≤ roundHalfEven num den := by
  unfold roundHalfEven
  dsimp only
  split_ifs <;> omega

theorem roundHalfEven_le (num den : Nat) : roundHalfEven num den ≤ num / den + 1 := by
  unfold roundHalfEven
  dsimp only
  split_ifs <;> omega

theorem roundHalfEven_near (num den : Nat) (hden : 0 < den) :
    2 * (roundHalfEven num den * den) ≤ 2 * num + den ∧
      2 * num ≤ 2 * (roundHalfEven num den * den) + den := by
  have hdiv := Nat.div_add_mod num den
  have hrest := Nat.mod_lt num hden
  have hnext : (num / den + 1) * den = den * (num / den) + den := by
    rw [Nat.add_mul, Nat.mul_comm, Nat.one_mul]
  have hsame : num / den * den = den * (num / den) := Nat.mul_comm _ _
  unfold roundHalfEven
  dsimp only
  split_ifs <;> simp only [hnext, hsame] <;> omega

theorem roundHalfEven_mono (h : num ≤ other) (den : Nat) :
    roundHalfEven num den ≤ roundHalfEven other den := by
  rcases Nat.lt_or_eq_of_le (Nat.div_le_div_right (c := den) h) with hless | hsame
  · calc roundHalfEven num den ≤ num / den + 1 := roundHalfEven_le num den
      _ ≤ other / den := hless
      _ ≤ roundHalfEven other den := div_le_roundHalfEven other den
  · -- both have the same whole part, so the rest decides
    have hnum := Nat.div_add_mod num den
    have hother := Nat.div_add_mod other den
    rw [← hsame] at hother
    have hrest : num % den ≤ other % den := by omega
    unfold roundHalfEven
    dsimp only
    rw [← hsame]
    split_ifs <;> omega

theorem abs_roundHalfEven_sub_le (num : Nat) (hden : 0 < den) :
    |(roundHalfEven num den : ℚ) - num / den| ≤ 1 / 2 := by
  have hpos : (0 : ℚ) < den := by exact_mod_cast hden
  obtain ⟨hhigh, hlow⟩ := roundHalfEven_near num den hden
  have hhigh' : 2 * ((roundHalfEven num den : ℚ) * den) ≤ 2 * num + den := by exact_mod_cast hhigh
  have hlow' : 2 * (num : ℚ) ≤ 2 * (roundHalfEven num den * den) + den := by exact_mod_cast hlow
  have hquotient : (num : ℚ) / den * den = num := div_mul_cancel₀ _ hpos.ne'
  rw [abs_le]
  constructor
  · refine le_of_mul_le_mul_right ?_ hpos
    rw [sub_mul, hquotient]
    linarith
  · refine le_of_mul_le_mul_right ?_ hpos
    rw [sub_mul, hquotient]
    linarith

/-- A number of places keeps a quotient up to half a unit of the last place. -/
theorem abs_roundHalfEven_div_sub_le (num : Nat) (hden : 0 < den) (places : Nat) :
    |(roundHalfEven (num * 10 ^ places) den : ℚ) / 10 ^ places - num / den| ≤
      1 / (2 * 10 ^ places) := by
  have hscale : (0 : ℚ) < 10 ^ places := by positivity
  have hnear := abs_roundHalfEven_sub_le (num * 10 ^ places) hden
  have hdiff : (roundHalfEven (num * 10 ^ places) den : ℚ) / 10 ^ places - num / den =
      (roundHalfEven (num * 10 ^ places) den - (num * 10 ^ places : ℕ) / den) / 10 ^ places := by
    push_cast
    field_simp
  rw [hdiff, abs_div, abs_of_pos hscale, div_le_iff₀ hscale]
  refine hnear.trans (le_of_eq ?_)
  field_simp

end PackIndex.Number
