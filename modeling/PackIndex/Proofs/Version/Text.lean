import PackIndex.Proofs.Number.Decimal
import PackIndex.Proofs.Number.Rounding
import PackIndex.Proofs.Number.Whole
import PackIndex.Version.Text

/-!
# What a version text says

The text of a version is a decimal of at most six places, the nearest one to the version. It does
not fall while versions grow, and two versions share it only if they are close together.
-/

namespace PackIndex

open Number

namespace Binary64

def value? (x : Binary64) : Option ℚ := x.toUnits?.map fun n : ℤ => (n : ℚ) / unitsPerOne

theorem units_pos {rank : Nat} (h : 0 < rank) : 0 < units rank := by
  unfold units
  dsimp only
  split
  · exact h
  · exact Nat.mul_pos (Nat.add_pos_left (Nat.two_pow_pos 52) _) (Nat.two_pow_pos _)

theorem exists_rank_of_isPositive {x : Binary64} (hfinite : x.isFinite = true)
    (hpos : x.isPositive = true) : ∃ rank hrank,
      x = .signed false rank hrank ∧ 0 < rank ∧ rank < infinityRank := by
  cases x with
  | nan => cases hfinite
  | signed negative rank hrank =>
    obtain ⟨i, j, hi, hj, hij⟩ := lt_iff.mp hpos
    obtain rfl : 0 = i := Option.some.inj hi
    obtain rfl := Option.some.inj hj
    cases negative with
    | true => exact absurd hij (by simp)
    | false => exact ⟨rank, hrank, rfl, by simpa using hij, of_decide_eq_true hfinite⟩

end Binary64

namespace Version

variable {v w : Version} {x y : ℚ} {d e : Decimal}

/-- Whether a version is finite and positive, with this exact value. -/
structure Worth (v : Version) (x : ℚ) : Prop where
  value : v.value? = some x
  pos : 0 < x

theorem exists_worth (hfinite : v.isFinite = true) (hpos : v.isPositive = true) :
    ∃ x, v.Worth x := by
  obtain ⟨rank, hrank, rfl, hzero, hend⟩ := Binary64.exists_rank_of_isPositive hfinite hpos
  have hunits : Binary64.toUnits? (.signed false rank hrank) = some (Binary64.units rank : ℤ) :=
    if_pos hend
  refine ⟨(Binary64.units rank : ℤ) / Binary64.unitsPerOne, ?_, ?_⟩
  · rw [Binary64.value?, hunits, Option.map_some]
  · have hvalue : (0 : ℚ) < (Binary64.units rank : ℤ) := by exact_mod_cast Binary64.units_pos hzero
    exact div_pos hvalue (by exact_mod_cast Binary64.unitsPerOne_pos)

/-! ### The text as a decimal -/

/-- Only zeros of the places are dropped, whatever stands before the point. -/
theorem trimPlaces_append {places : List Char} (hplaces : ∀ c ∈ places, Text.isDigit c = true)
    (whole : List Char) :
    trimPlaces (whole ++ '.' :: places) = whole ++ '.' :: leanPlaces places := by
  have hkept : Text.dropEndWhile (· == '0') (whole ++ '.' :: places) =
      whole ++ '.' :: Text.dropEndWhile (· == '0') places :=
    Text.dropEndWhile_append_cons (by decide) whole places
  unfold trimPlaces leanPlaces
  rw [hkept]
  rcases List.eq_nil_or_concat (Text.dropEndWhile (· == '0') places) with hnil | ⟨init, last, hlast⟩
  · simp [hnil]
  · -- a digit is last, so the point is not
    have hmem : last ∈ places :=
      (List.rdropWhile_prefix (· == '0') places).subset (by
        rw [← Text.dropEndWhile_eq, hlast]
        simp)
    have hpoint : last ≠ '.' := by
      rintro rfl
      exact absurd (hplaces '.' hmem) (by decide)
    have hend : (whole ++ '.' :: init.concat last).getLast? ≠ some '.' := by
      rw [List.concat_eq_append, ← List.cons_append, ← List.append_assoc, List.getLast?_concat]
      simpa using hpoint
    have hne : init.concat last ≠ [] := by simp
    rw [hlast, if_neg hne]
    exact if_neg hend

theorem trimPlaces_placesText {places : Nat} (hplaces : places ≠ 0) (n : Nat) :
    String.ofList (trimPlaces (placesText places n)) = (Decimal.ofPlaces places n).text := by
  have htext : placesText places n =
      Decimal.wholeDigits places n ++ '.' :: Decimal.placeDigits places n := if_neg hplaces
  rw [htext, trimPlaces_append (Decimal.isDigit_of_mem_placeDigits places n)]
  rfl

def millionths (units : Nat) : Nat := roundHalfEven (units * 10 ^ 6) Binary64.unitsPerOne

theorem Worth.exists_units (h : v.Worth x) : ∃ units : Nat,
    x = units / Binary64.unitsPerOne ∧ v.text = (Decimal.ofPlaces 6 (millionths units)).text := by
  obtain ⟨hvalue, hpos⟩ := h
  obtain ⟨n, hn, rfl⟩ := Option.map_eq_some_iff.mp hvalue
  cases v with
  | nan => cases hn
  | signed negative rank hrank =>
    rw [Binary64.toUnits?] at hn
    obtain ⟨hfinite, hn⟩ := Option.ite_none_right_eq_some.mp hn
    obtain rfl := Option.some.inj hn
    cases negative with
    | true =>
      have hunits : ((-(Binary64.units rank : ℤ) : ℤ) : ℚ) ≤ 0 :=
        Int.cast_nonpos.mpr (Int.neg_nonpos_of_nonneg (Int.natCast_nonneg _))
      exact absurd hpos (div_nonpos_of_nonpos_of_nonneg hunits (Nat.cast_nonneg _)).not_gt
    | false =>
      have htext : Binary64.fixedText 6 (.signed false rank hrank) =
          String.ofList (placesText 6 (millionths (Binary64.units rank))) := by
        simp only [Binary64.fixedText, if_neg hfinite.ne, fixedMagnitude, millionths, Nat.pow_eq,
          if_neg Bool.false_ne_true]
      refine ⟨Binary64.units rank, ?_, ?_⟩
      · rw [if_neg Bool.false_ne_true, Int.cast_natCast]
      · rw [Version.text, htext, String.toList_ofList, trimPlaces_placesText (by decide)]

theorem Worth.near_of_text (h : v.Worth x) (hd : v.text = d.text) :
    |d.value - x| ≤ 1 / 2000000 := by
  obtain ⟨units, rfl, htext⟩ := h.exists_units
  obtain rfl := Decimal.eq_of_text (hd.symm.trans htext)
  rw [Decimal.value_ofPlaces]
  have hnear := abs_roundHalfEven_div_sub_le units Binary64.unitsPerOne_pos 6
  exact hnear.trans (by norm_num)

theorem Worth.value_mono (hv : v.Worth x) (hw : w.Worth y) (hxy : x ≤ y)
    (hd : v.text = d.text) (he : w.text = e.text) : d.value ≤ e.value := by
  obtain ⟨m, rfl, hm⟩ := hv.exists_units
  obtain ⟨n, rfl, hn⟩ := hw.exists_units
  obtain rfl := Decimal.eq_of_text (hd.symm.trans hm)
  obtain rfl := Decimal.eq_of_text (he.symm.trans hn)
  have hunits : m ≤ n := by
    have hone : (0 : ℚ) < Binary64.unitsPerOne := by exact_mod_cast Binary64.unitsPerOne_pos
    exact_mod_cast (div_le_div_iff_of_pos_right hone).mp hxy
  have hmillionths : (millionths m : ℚ) ≤ millionths n := by
    exact_mod_cast roundHalfEven_mono (Nat.mul_le_mul_right _ hunits) _
  rw [Decimal.value_ofPlaces, Decimal.value_ofPlaces]
  exact div_le_div_of_nonneg_right hmillionths (by norm_num)

/-- The text of a finite positive version is a decimal in its shortest form, of at most six places
and at most half a millionth away from the version. A greater version does not get a smaller
decimal, and versions of one text are at most a millionth apart. -/
theorem text_canonical :
    (∀ v : Version, v.isFinite = true → v.isPositive = true → ∃ x, v.Worth x ∧
      ∃ d : Decimal, v.text = d.text ∧ d.places.length ≤ 6 ∧ |d.value - x| ≤ 1 / 2000000) ∧
    ∀ v w : Version, ∀ x y, v.Worth x → w.Worth y →
      (x ≤ y → ∀ d e : Decimal, v.text = d.text → w.text = e.text → d.value ≤ e.value) ∧
      (v.text = w.text → |x - y| ≤ 1 / 1000000) := by
  refine ⟨fun v hfinite hpos => ?_, fun v w x y hv hw => ⟨fun hxy d e => hv.value_mono hw hxy,
    fun hsame => ?_⟩⟩
  · obtain ⟨x, hx⟩ := exists_worth hfinite hpos
    obtain ⟨units, -, htext⟩ := hx.exists_units
    exact ⟨x, hx, _, htext, Decimal.length_places_ofPlaces 6 _, hx.near_of_text htext⟩
  · obtain ⟨units, -, htext⟩ := hw.exists_units
    have hx := hv.near_of_text (hsame.trans htext)
    have hy := hw.near_of_text htext
    rw [abs_sub_comm] at hx
    refine (abs_sub_le x _ y).trans ((add_le_add hx hy).trans ?_)
    norm_num

/-- One and three 128ths lie halfway between two millionths, and go to the even one. The double
below the first has its text. -/
theorem text_canonical_halfway :
    let v : Version := .ofRank false (1016 * 2 ^ 52)
    let below : Version := .ofRank false (1016 * 2 ^ 52 - 1)
    let w : Version := .ofRank false (1017 * 2 ^ 52 + 2 ^ 51)
    v.isFinite = true ∧ v.isPositive = true ∧ v.Worth (1 / 128) ∧ w.Worth (3 / 128) ∧
    v.text = "0.007812" ∧ below.text = "0.007812" ∧ w.text = "0.023438" ∧
    (∃ d : Decimal, v.text = d.text ∧ d.places.length ≤ 6 ∧ |d.value - 1 / 128| ≤ 1 / 2000000) ∧
    (∀ d e : Decimal, v.text = d.text → w.text = e.text → d.value ≤ e.value) ∧
    ∃ y, below.Worth y ∧ |1 / 128 - y| ≤ 1 / 1000000 := by
  intro v below w
  have hfinite : v.isFinite = true := by decide +kernel
  have hpos : v.isPositive = true := by decide +kernel
  have hv : v.Worth (1 / 128) := ⟨by decide +kernel, by norm_num⟩
  have hw : w.Worth (3 / 128) := ⟨by decide +kernel, by norm_num⟩
  have htext : v.text = "0.007812" := by decide +kernel
  have hbelow : below.text = "0.007812" := by decide +kernel
  obtain ⟨hdecimal, hpairs⟩ := text_canonical
  obtain ⟨y, hy⟩ := exists_worth (v := below) (by decide +kernel) (by decide +kernel)
  refine ⟨hfinite, hpos, hv, hw, htext, hbelow, by decide +kernel, ?_, ?_, y, hy, ?_⟩
  · obtain ⟨x, hx, hnear⟩ := hdecimal v hfinite hpos
    obtain rfl : x = 1 / 128 := Option.some.inj (hx.value.symm.trans hv.value)
    exact hnear
  · exact (hpairs v w _ _ hv hw).1 (by norm_num)
  · exact (hpairs v below _ _ hv hy).2 (htext.trans hbelow.symm)

end Version

end PackIndex
