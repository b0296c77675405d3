import PackIndex.Proofs.Version.Order
import PackIndex.Version.Selector

/-!
# Selecting by a positive number

The numbers that stand for sentinels are negative, so a positive number always asks for exactly the
version that it is.
-/

namespace PackIndex

variable {x y : Binary64}

theorem Binary64.isPositive_of_same (h : x.same y = true) : x.isPositive = y.isPositive := by
  obtain ⟨i, hx, hy⟩ := same_iff.mp h
  rw [isPositive, isPositive, lt, lt, hx, hy]

namespace Selector

theorem newestNumber_isPositive : newestNumber.isPositive = false := by decide +kernel

theorem oldestNumber_isPositive : oldestNumber.isPositive = false := by decide +kernel

theorem ofNumber_of_isPositive (given : Value) (h : x.isPositive = true) :
    ofNumber given x = .ok (.exactly x) := by
  have hnewest : ¬ x.same newestNumber = true := fun hsame => by
    rw [Binary64.isPositive_of_same hsame, newestNumber_isPositive] at h
    cases h
  have holdest : ¬ x.same oldestNumber = true := fun hsame => by
    rw [Binary64.isPositive_of_same hsame, oldestNumber_isPositive] at h
    cases h
  rw [ofNumber, if_neg hnewest, if_neg holdest, if_pos h]

theorem ofValue_float (h : x.isPositive = true) : ofValue (.float x) = .ok (.exactly x) :=
  ofNumber_of_isPositive (.float x) h

end Selector

end PackIndex
