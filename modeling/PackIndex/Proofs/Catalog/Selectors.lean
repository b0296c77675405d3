import PackIndex.Proofs.Catalog.View
import PackIndex.Proofs.Number.Whole
import PackIndex.Proofs.Version.Spelling

/-!
# Which selectors are refused

A value that is given as a selector is accepted, refused as invalid, or refused because no double is
near it. The last happens to whole numbers of any sign from `Binary64.roundingLimit` on, and to
nothing else. What a question to a catalog says of a selector is what the selector alone says.
-/

namespace PackIndex

namespace Selector

variable {value : Value} {selector : Selector} {e : SelectorError}

/-- The values that ask for a version: a sentinel, its word in any case, the numbers that stand for
sentinels, and positive numbers. -/
inductive Admissible : Value → Prop where
  | sentinel (s : Sentinel) : Admissible (.sentinel s)
  | word {w : String} : Text.lower w = "newest" ∨ Text.lower w = "oldest" → Admissible (.str w)
  | whole {n : Int} : 0 < n ∨ n = -1000 ∨ n = -2000 → Admissible (.int n)
  | double {x : Binary64} : x.isPositive = true ∨ x.same (.ofInt (-1000)) = true ∨
      x.same (.ofInt (-2000)) = true → Admissible (.float x)

def Outsized (value : Value) : Prop :=
  ∃ n, value = .int n ∧ Binary64.roundingLimit ≤ n.natAbs

theorem outsized_int_iff {n : Int} : Outsized (.int n) ↔ Binary64.ofInt? n = none := by
  simp [Outsized, Binary64.ofInt?_eq_none_iff]

theorem spells_double_iff {x : Binary64} (hx : value.double? = some x) :
    (∃ s, Spells value s) ↔
      x.isPositive = true ∨ x.same (.ofInt (-1000)) = true ∨ x.same (.ofInt (-2000)) = true := by
  constructor
  · rintro ⟨s, hs⟩
    cases hs with
    | sentinel | newestWord _ | oldestWord _ => cases hx
    | newestNumber hy hsame => exact Or.inr (Or.inl (Option.some.inj (hx.symm.trans hy) ▸ hsame))
    | oldestNumber hy hsame => exact Or.inr (Or.inr (Option.some.inj (hx.symm.trans hy) ▸ hsame))
    | number hy hpos => exact Or.inl (Option.some.inj (hx.symm.trans hy) ▸ hpos)
  · rintro (hpos | hsame | hsame)
    · exact ⟨_, .number hx hpos⟩
    · exact ⟨_, .newestNumber hx hsame⟩
    · exact ⟨_, .oldestNumber hx hsame⟩

/-- A value that is no number spells a selector only as a sentinel or as the word of one. -/
theorem spells_no_double_iff (hx : value.double? = none) : (∃ s, Spells value s) ↔
    (∃ s, value = .sentinel s) ∨
      ∃ w, value = .str w ∧ (Text.lower w = "newest" ∨ Text.lower w = "oldest") := by
  constructor
  · rintro ⟨s, hs⟩
    cases hs with
    | sentinel s => exact Or.inl ⟨s, rfl⟩
    | newestWord hw => exact Or.inr ⟨_, rfl, Or.inl hw⟩
    | oldestWord hw => exact Or.inr ⟨_, rfl, Or.inr hw⟩
    | newestNumber hy _ | oldestNumber hy _ | number hy _ => cases hx.symm.trans hy
  · rintro (⟨s, rfl⟩ | ⟨w, rfl, hw | hw⟩)
    · exact ⟨_, .sentinel s⟩
    · exact ⟨_, .newestWord hw⟩
    · exact ⟨_, .oldestWord hw⟩

/-- The values that spell a selector are those that ask for a version and are not too large. -/
theorem spells_iff : (∃ s, Spells value s) ↔ Admissible value ∧ ¬ Outsized value := by
  cases value with
  | int n =>
    rw [outsized_int_iff]
    cases hx : Binary64.ofInt? n with
    | none =>
      have hdouble : (Value.int n).double? = none := hx
      rw [spells_no_double_iff hdouble]
      simp
    | some x =>
      have hdouble : (Value.int n).double? = some x := hx
      rw [spells_double_iff hdouble, Binary64.isPositive_of_ofInt? hx,
        Binary64.same_ofInt_iff hx (by decide), Binary64.same_ofInt_iff hx (by decide)]
      exact ⟨fun h => ⟨.whole h, Option.some_ne_none x⟩, fun ⟨.whole h, _⟩ => h⟩
  | float x =>
    rw [spells_double_iff rfl]
    exact ⟨fun h => ⟨.double h, nofun⟩, fun ⟨.double h, _⟩ => h⟩
  | sentinel s => exact ⟨fun _ => ⟨.sentinel s, nofun⟩, fun _ => ⟨_, .sentinel s⟩⟩
  | str w =>
    rw [spells_no_double_iff rfl]
    constructor
    · rintro (⟨_, ⟨⟩⟩ | ⟨_, ⟨⟩, hw⟩)
      exact ⟨.word hw, nofun⟩
    · rintro ⟨hadmissible, -⟩
      cases hadmissible with
      | word hw => exact Or.inr ⟨w, rfl, hw⟩
  | _ =>
    rw [spells_no_double_iff rfl]
    constructor
    · rintro (⟨_, ⟨⟩⟩ | ⟨_, ⟨⟩, _⟩)
    · rintro ⟨⟨⟩, -⟩

theorem ofNumber_error {given : Value} {x : Binary64} (h : ofNumber given x = .error e) :
    e = .invalid given := by
  unfold ofNumber at h
  split_ifs at h
  exact (Except.error.inj h).symm

theorem error_of_ofValue (h : ofValue value = .error e) :
    (Outsized value ∧ e = .tooLarge) ∨ (¬ Outsized value ∧ e = .invalid value) := by
  cases value with
  | int n =>
    rw [outsized_int_iff]
    rw [ofValue_int] at h
    cases hx : Binary64.ofInt? n with
    | none =>
      rw [hx, ofWhole] at h
      exact Or.inl ⟨rfl, (Except.error.inj h).symm⟩
    | some x =>
      rw [hx, ofWhole] at h
      exact Or.inr ⟨Option.some_ne_none x, ofNumber_error h⟩
  | float x => exact Or.inr ⟨by rintro ⟨_, ⟨⟩, _⟩, ofNumber_error h⟩
  | str w =>
    simp only [ofValue] at h
    split at h
    · cases h
    · exact Or.inr ⟨by rintro ⟨_, ⟨⟩, _⟩, (Except.error.inj h).symm⟩
  | sentinel s => cases h
  | _ => exact Or.inr ⟨by rintro ⟨_, ⟨⟩, _⟩, (Except.error.inj h).symm⟩

theorem ofValue_ok_iff :
    (∃ s, ofValue value = .ok s) ↔ Admissible value ∧ ¬ Outsized value := by
  simp only [ofValue_eq_ok_iff, spells_iff]

theorem ofValue_eq_error_iff : ofValue value = .error e ↔
    (Outsized value ∧ e = .tooLarge) ∨
      (¬ Outsized value ∧ ¬ Admissible value ∧ e = .invalid value) := by
  constructor
  · intro h
    have hrefused : ¬ (Admissible value ∧ ¬ Outsized value) := by
      rw [← ofValue_ok_iff, h]
      rintro ⟨s, ⟨⟩⟩
    rcases error_of_ofValue h with hlarge | ⟨hsmall, he⟩
    · exact Or.inl hlarge
    · exact Or.inr ⟨hsmall, fun hadmissible => hrefused ⟨hadmissible, hsmall⟩, he⟩
  · intro h
    cases hv : ofValue value with
    | ok s =>
      obtain ⟨hadmissible, hsmall⟩ := ofValue_ok_iff.mp ⟨s, hv⟩
      rcases h with ⟨hlarge, -⟩ | ⟨-, hnot, -⟩
      · exact absurd hlarge hsmall
      · exact absurd hadmissible hnot
    | error e' =>
      congr 1
      rcases error_of_ofValue hv with ⟨hlarge, rfl⟩ | ⟨hsmall, rfl⟩
      · rcases h with ⟨-, rfl⟩ | ⟨hsmall, -⟩
        · rfl
        · exact absurd hlarge hsmall
      · rcases h with ⟨hlarge, -⟩ | ⟨-, -, rfl⟩
        · exact absurd hlarge hsmall
        · rfl

/-- What is accepted asks for the newest thing, the oldest, or a version that is a number. -/
theorem ofValue_ok_cases (h : ofValue value = .ok selector) :
    selector = .newest ∨ selector = .oldest ∨
      ∃ v, selector = .exactly v ∧ v.isPositive = true ∧ v.isNaN = false := by
  cases selector with
  | sentinel s =>
    cases s with
    | newest => exact Or.inl rfl
    | oldest => exact Or.inr (Or.inl rfl)
  | exactly v =>
    have hpos := (ofValue_eq_ok_iff.mp h).isPositive
    exact Or.inr (Or.inr ⟨v, rfl, hpos, Binary64.isNaN_of_isPositive hpos⟩)

end Selector

namespace Catalog

variable {c : Catalog} {kind value : Value} {name : Option String} {strict : Bool}
  {e : SelectorError}

theorem requireReady_ne_selector : c.requireReady ≠ .error (.selector e) := by
  unfold requireReady
  split <;> simp

theorem kindOf_ne_selector : kindOf kind ≠ .error (.selector e) := by
  unfold kindOf
  split
  · split <;> simp
  · simp

theorem latest_ne_selector (c : Catalog) (kind : PackKind) :
    (c.latest kind).1 ≠ .error (.selector e) := by
  rw [latest_fst, ne_eq, bind_eq_error_iff, mapError_eq_error_iff]
  rintro (h | ⟨-, -, -, -, ⟨⟩⟩)
  exact requireReady_ne_selector h

/-- A chain that starts with a selector fails on the selector exactly if the selector is refused. -/
theorem bind_selector_iff {α : Type} {f : Selector → Except QueryError α}
    (hrest : ∀ selector, f selector ≠ .error (.selector e)) :
    ((Selector.ofValue value).mapError .selector >>= f) = .error (.selector e) ↔
      Selector.ofValue value = .error e := by
  rw [bind_eq_error_iff, mapError_eq_error_iff]
  constructor
  · rintro (⟨_, h, ⟨⟩⟩ | ⟨selector, -, h⟩)
    · exact h
    · exact absurd h (hrest selector)
  · exact fun h => Or.inl ⟨e, h, rfl⟩

theorem get_selector_iff : c.get kind name value strict = .error (.selector e) ↔
    Selector.ofValue value = .error e := by
  refine bind_selector_iff fun selector => ?_
  rw [ne_eq, bind_eq_error_iff]
  rintro (h | ⟨-, -, h⟩)
  · exact requireReady_ne_selector h
  · rcases bind_eq_error_iff.mp h with h | ⟨_, -, ⟨⟩⟩
    exact kindOf_ne_selector h

theorem hasVersion_selector_iff : c.hasVersion kind name value = .error (.selector e) ↔
    Selector.ofValue value = .error e := by
  rw [hasVersion, map_eq_error_iff, get_selector_iff]

/-- A version that is a number but not positive counts as none, so no symbol pack is refused for
it. -/
theorem symbolPack_selector_iff {map : MapStyle} :
    (c.symbolPack (some map) name value).1.result = .error (.selector e) ↔
      isNonPositiveNumber value = false ∧ Selector.ofValue value = .error e := by
  rw [symbolPack_fst]
  refine (bind_selector_iff fun selector => ?_).trans ?_
  · rw [ne_eq, bind_eq_error_iff]
    rintro (h | ⟨-, -, h⟩)
    · exact requireReady_ne_selector h
    · split at h
      · cases h
      · rcases bind_eq_error_iff.mp h with h | ⟨listing, -, h⟩
        · exact latest_ne_selector c _ h
        · cases listing <;> cases h
  · cases isNonPositiveNumber value with
    | true =>
      constructor
      · rintro ⟨⟩
      · rintro ⟨⟨⟩, -⟩
    | false => simp

/-- Which values select, and what is said of those that do not: by themselves, and in a question to
a catalog in any state. -/
theorem selectors_checked (value : Value) :
    ((∃ selector, Selector.ofValue value = .ok selector) ↔
      Selector.Admissible value ∧ ¬ Selector.Outsized value) ∧
    (∀ selector, Selector.ofValue value = .ok selector → selector = .newest ∨ selector = .oldest ∨
      ∃ v, selector = .exactly v ∧ v.isPositive = true ∧ v.isNaN = false) ∧
    (∀ e, Selector.ofValue value = .error e ↔ (Selector.Outsized value ∧ e = .tooLarge) ∨
      (¬ Selector.Outsized value ∧ ¬ Selector.Admissible value ∧ e = .invalid value)) ∧
    ∀ (c : Catalog) (name : Option String) (e : SelectorError),
      (∀ kind strict, c.get kind name value strict = .error (.selector e) ↔
        Selector.ofValue value = .error e) ∧
      (∀ kind, c.hasVersion kind name value = .error (.selector e) ↔
        Selector.ofValue value = .error e) ∧
      ∀ map, (c.symbolPack (some map) name value).1.result = .error (.selector e) ↔
        isNonPositiveNumber value = false ∧ Selector.ofValue value = .error e :=
  ⟨Selector.ofValue_ok_iff, fun _ => Selector.ofValue_ok_cases,
    fun _ => Selector.ofValue_eq_error_iff, fun _ _ _ =>
      ⟨fun _ _ => get_selector_iff, fun _ => hasVersion_selector_iff,
        fun _ => symbolPack_selector_iff⟩⟩

theorem selectors_checked_three : ∃ v, Selector.ofValue (.int 3) = .ok (.exactly v) ∧
    v.isPositive = true ∧ v.isNaN = false := by
  obtain ⟨-, hform, -, -⟩ := selectors_checked (.int 3)
  have hspells : Selector.Spells (.int 3) (.exactly (.ofInt 3)) := by
    refine .number ?_ ?_ <;> decide +kernel
  have hvalue := Selector.ofValue_eq_ok_iff.mpr hspells
  obtain h | h | ⟨v, hv, hpos, hnan⟩ := hform _ hvalue
  · cases h
  · cases h
  · exact ⟨v, hv ▸ hvalue, hpos, hnan⟩

end Catalog

/-- A negative whole number that no double is near is refused for its size, although it is no more a
selector than a smaller one. -/
theorem Selector.ofValue_beyond_doubles :
    ¬ ∀ value e, Selector.ofValue value = .error e → e = .invalid value := by
  intro h
  have hlarge : Selector.Outsized (.int (-(Binary64.roundingLimit : Int))) :=
    ⟨_, rfl, by rw [Int.natAbs_neg, Int.natAbs_natCast]⟩
  have herror := Selector.ofValue_eq_error_iff.mpr (Or.inl ⟨hlarge, rfl⟩)
  cases h _ _ herror

end PackIndex
