import PackIndex.Proofs.Version.Ascending

/-!
# What is picked for a value

A value that is accepted as a selector spells the newest thing, the oldest one, or a positive
number, and what is picked depends on what it spells only. The newest thing is the one above all
others and the oldest the one below; a number picks the thing of that version, and without one the
newest thing or, if the request is strict, nothing. A whole number counts as the double nearest to
it, which need not be the same number.
-/

namespace PackIndex

def Value.double? : Value → Option Binary64
  | .int n => Binary64.ofInt? n
  | .float x => some x
  | _ => none

/-- The values that stand for a selector. -/
inductive Selector.Spells : Value → Selector → Prop where
  | sentinel (s : Sentinel) : Spells (.sentinel s) (.sentinel s)
  | newestWord {w : String} : Text.lower w = "newest" → Spells (.str w) .newest
  | oldestWord {w : String} : Text.lower w = "oldest" → Spells (.str w) .oldest
  | newestNumber {value : Value} {x : Binary64} : value.double? = some x →
      x.same (.ofInt (-1000)) = true → Spells value .newest
  | oldestNumber {value : Value} {x : Binary64} : value.double? = some x →
      x.same (.ofInt (-2000)) = true → Spells value .oldest
  | number {value : Value} {x : Binary64} : value.double? = some x → x.isPositive = true →
      Spells value (.exactly x)

namespace Selector

variable {value : Value} {selector : Selector} {x : Binary64}

theorem newestNumber_same_oldestNumber : newestNumber.same oldestNumber = false := by
  decide +kernel

theorem ofNumber_of_newest (given : Value) (h : x.same newestNumber = true) :
    ofNumber given x = .ok .newest := if_pos h

theorem ofNumber_of_oldest (given : Value) (h : x.same oldestNumber = true) :
    ofNumber given x = .ok .oldest := by
  have hnewest : ¬ x.same newestNumber = true := fun hsame => by
    have hboth := Binary64.same_trans (Binary64.same_symm hsame) h
    rw [newestNumber_same_oldestNumber] at hboth
    cases hboth
  rw [ofNumber, if_neg hnewest, if_pos h]

theorem ofNumber_eq_ok_iff (given : Value) : ofNumber given x = .ok selector ↔
    (x.same newestNumber = true ∧ selector = .newest) ∨
    (x.same oldestNumber = true ∧ selector = .oldest) ∨
    (x.isPositive = true ∧ selector = .exactly x) := by
  constructor
  · intro h
    unfold ofNumber at h
    split at h
    · next hsame => exact Or.inl ⟨hsame, (Except.ok.inj h).symm⟩
    · split at h
      · next hsame => exact Or.inr (Or.inl ⟨hsame, (Except.ok.inj h).symm⟩)
      · split at h
        · next hpos => exact Or.inr (Or.inr ⟨hpos, (Except.ok.inj h).symm⟩)
        · cases h
  · rintro (⟨hsame, rfl⟩ | ⟨hsame, rfl⟩ | ⟨hpos, rfl⟩)
    · exact ofNumber_of_newest given hsame
    · exact ofNumber_of_oldest given hsame
    · exact ofNumber_of_isPositive given hpos

theorem spells_of_ofNumber {given : Value} (hx : value.double? = some x)
    (h : ofNumber given x = .ok selector) : Spells value selector := by
  rcases (ofNumber_eq_ok_iff given).mp h with ⟨hsame, rfl⟩ | ⟨hsame, rfl⟩ | ⟨hpos, rfl⟩
  · exact .newestNumber hx hsame
  · exact .oldestNumber hx hsame
  · exact .number hx hpos

theorem ofValue_int (n : Int) : ofValue (.int n) = ofWhole n (Binary64.ofInt? n) := by
  simp only [ofValue]

theorem ofValue_of_double? (hx : value.double? = some x) : ofValue value = ofNumber value x := by
  cases value with
  | int n =>
    have hn : Binary64.ofInt? n = some x := hx
    rw [ofValue_int, hn, ofWhole]
  | float y =>
    obtain rfl : y = x := Option.some.inj hx
    rfl
  | _ => cases hx

/-- A value is accepted exactly if it spells a selector, and as that selector. -/
theorem ofValue_eq_ok_iff : ofValue value = .ok selector ↔ Spells value selector := by
  constructor
  · intro h
    cases value with
    | sentinel s =>
      obtain rfl := Except.ok.inj h
      exact .sentinel s
    | str w =>
      simp only [ofValue, sentinelOfWord?] at h
      by_cases hnewest : Text.lower w = "newest"
      · rw [if_pos hnewest] at h
        obtain rfl := Except.ok.inj h
        exact .newestWord hnewest
      · rw [if_neg hnewest] at h
        by_cases holdest : Text.lower w = "oldest"
        · rw [if_pos holdest] at h
          obtain rfl := Except.ok.inj h
          exact .oldestWord holdest
        · rw [if_neg holdest] at h
          cases h
    | int n =>
      rw [ofValue_int] at h
      cases hx : Binary64.ofInt? n with
      | none =>
        rw [hx, ofWhole] at h
        cases h
      | some x =>
        rw [hx, ofWhole] at h
        exact spells_of_ofNumber hx h
    | float x => exact spells_of_ofNumber rfl h
    | _ => cases h
  · intro h
    cases h with
    | sentinel s => rfl
    | newestWord hw => simp [ofValue, sentinelOfWord?, hw]
    | oldestWord hw => simp [ofValue, sentinelOfWord?, hw]
    | newestNumber hx hsame => rw [ofValue_of_double? hx, ofNumber_of_newest _ hsame]
    | oldestNumber hx hsame => rw [ofValue_of_double? hx, ofNumber_of_oldest _ hsame]
    | number hx hpos => rw [ofValue_of_double? hx, ofNumber_of_isPositive _ hpos]

theorem Spells.isPositive {v : Version} (h : Spells value (.exactly v)) : v.isPositive = true := by
  cases h with
  | number _ hpos => exact hpos

theorem Spells.toValue (h : Spells value selector) : Spells selector.toValue selector := by
  cases h with
  | sentinel s => exact .sentinel s
  | newestWord _ | newestNumber _ _ => exact .sentinel .newest
  | oldestWord _ | oldestNumber _ _ => exact .sentinel .oldest
  | number _ hpos => exact .number rfl hpos

end Selector

namespace Selection

variable {α : Type} {version : α → Version} {things : List α} {value : Value}
  {selector : Selector} {strict : Bool}

theorem newest?_eq_none_iff : newest? version things = none ↔ things = [] := by
  rw [← Option.not_isSome_iff_eq_none, newest?_isSome, not_not]

theorem oldest?_eq_none_iff : oldest? version things = none ↔ things = [] := by
  rw [← Option.not_isSome_iff_eq_none, oldest?_isSome, not_not]

/-- What a selector has to pick: nothing only where nothing is there or a strict request for a
version fails, and otherwise the thing that it asks for. -/
structure Picks (version : α → Version) (strict : Bool) (things : List α) (selector : Selector)
    (picked : Option α) : Prop where
  none_iff : picked = none ↔ things = [] ∨
    strict = true ∧ ∃ v, selector = .exactly v ∧ ∀ x ∈ things, version x ≠ v
  newest : selector = .newest → ∀ x, picked = some x ↔ IsNewest version things x
  oldest : selector = .oldest → ∀ x, picked = some x ↔ IsOldest version things x
  exactly : ∀ v, selector = .exactly v → ∀ x ∈ things, version x = v → picked = some x
  otherwise : ∀ v, selector = .exactly v → (∀ x ∈ things, version x ≠ v) → strict = false →
    ∀ x, picked = some x ↔ IsNewest version things x

theorem pick?_picks (h : Comparable version things)
    (hpos : ∀ v, selector = .exactly v → v.isPositive = true) (strict : Bool) :
    Picks version strict things selector (pick? version strict things selector) := by
  cases selector with
  | sentinel s =>
    cases s with
    | newest =>
      refine ⟨by simp [pick?, newest?_eq_none_iff], fun _ => newest?_iff_isNewest h, ?_, ?_, ?_⟩
      · rintro ⟨⟩
      · rintro v ⟨⟩
      · rintro v ⟨⟩
    | oldest =>
      refine ⟨by simp [pick?, oldest?_eq_none_iff], ?_, fun _ => oldest?_iff_isOldest h, ?_, ?_⟩
      · rintro ⟨⟩
      · rintro v ⟨⟩
      · rintro v ⟨⟩
  | exactly v =>
    have hv := hpos v rfl
    by_cases hmem : v ∈ versionsOf version things
    · obtain ⟨x, hx, hversion, honly, hpick⟩ := pick?_of_mem h hmem strict
      refine ⟨?_, by rintro ⟨⟩, by rintro ⟨⟩, ?_, ?_⟩
      · simp only [hpick, reduceCtorEq, false_iff, not_or]
        refine ⟨List.ne_nil_of_mem hx, ?_⟩
        rintro ⟨-, _, ⟨⟩, hnone⟩
        exact hnone x hx hversion
      · rintro _ ⟨⟩ y hy hy'
        rw [hpick, honly y hy hy']
      · rintro _ ⟨⟩ hnone
        exact absurd hversion (hnone x hx)
    · have hnone : ∀ x ∈ things, version x ≠ v := fun x hx hversion =>
        hmem (mem_versionsOf.mpr ⟨x, hx, hversion⟩)
      have hpick := pick?_of_not_mem h hv hmem strict
      refine ⟨?_, by rintro ⟨⟩, by rintro ⟨⟩, ?_, ?_⟩
      · rw [hpick]
        cases strict with
        | false => simp [newest?_eq_none_iff]
        | true => simpa using Or.inr hnone
      · rintro _ ⟨⟩ x hx hversion
        exact absurd hversion (hnone x hx)
      · rintro _ ⟨⟩ - hlenient
        rw [hpick, hlenient]
        exact newest?_iff_isNewest h

/-- Exactly the values that spell a selector are accepted; a whole number spells what the double
nearest to it spells. Of things whose versions differ such a value picks what the selector asks
for, in whatever order the things are listed, and the selector itself picks the same. -/
theorem select_spelled (h : Comparable version things) (value : Value) (selector : Selector)
    (strict : Bool) :
    (Selector.ofValue value = .ok selector ↔ Selector.Spells value selector) ∧
    (Selector.Spells value selector → ∃ picked,
      select version strict things value = .ok picked ∧
      Picks version strict things selector picked ∧
      (∀ others, things.Perm others → select version strict others value = .ok picked) ∧
      select version strict things selector.toValue = .ok picked) := by
  refine ⟨Selector.ofValue_eq_ok_iff, fun hspells => ?_⟩
  have hselect {value : Value} (hspells : Selector.Spells value selector) :
      select version strict things value = .ok (pick? version strict things selector) := by
    rw [select, Selector.ofValue_eq_ok_iff.mpr hspells]
    rfl
  have hpos (v : Version) (hv : selector = .exactly v) : v.isPositive = true :=
    (hv ▸ hspells).isPositive
  refine ⟨_, hselect hspells, pick?_picks h hpos strict, fun others hperm => ?_,
    hselect hspells.toValue⟩
  rw [← select_perm h hperm]
  exact hselect hspells

/-- Versions `2`, infinity and `1`: the newest is infinity, the oldest of a saved game is `1`, and a
strict request for `3` fails. -/
theorem select_spelled_infinite :
    Comparable id [Binary64.ofInt 2, .infinity false, .ofInt 1] ∧
    Selector.Spells (.str "NeWeSt") .newest ∧
    select id false [Binary64.ofInt 2, .infinity false, .ofInt 1] (.str "NeWeSt") =
      .ok (some (.infinity false)) ∧
    select id false [Binary64.ofInt 2, .infinity false, .ofInt 1] (.int (-2000)) =
      .ok (some (.ofInt 1)) ∧
    select id true [Binary64.ofInt 2, .infinity false, .ofInt 1] (.int 3) = .ok none := by
  have h : Comparable id [Binary64.ofInt 2, .infinity false, .ofInt 1] :=
    ⟨by decide +kernel, by decide +kernel⟩
  have hword : Selector.Spells (.str "NeWeSt") .newest := .newestWord (by decide +kernel)
  have hsaved : Selector.Spells (.int (-2000)) .oldest := by
    refine .oldestNumber (x := .ofInt (-2000)) ?_ ?_ <;> decide +kernel
  have hthree : Selector.Spells (.int 3) (.exactly (.ofInt 3)) := by
    refine .number ?_ ?_ <;> decide +kernel
  refine ⟨h, hword, ?_, ?_, ?_⟩
  · obtain ⟨picked, hpicked, hpicks, -⟩ := (select_spelled h (.str "NeWeSt") .newest false).2 hword
    rw [hpicked, (hpicks.newest rfl (.infinity false)).mpr ⟨by decide +kernel, by decide +kernel⟩]
  · obtain ⟨picked, hpicked, hpicks, -⟩ := (select_spelled h (.int (-2000)) .oldest false).2 hsaved
    rw [hpicked, (hpicks.oldest rfl (.ofInt 1)).mpr ⟨by decide +kernel, by decide +kernel⟩]
  · obtain ⟨picked, hpicked, hpicks, -⟩ := (select_spelled h (.int 3) _ true).2 hthree
    rw [hpicked, hpicks.none_iff.mpr (.inr ⟨rfl, _, rfl, by decide +kernel⟩)]

/-- A strict request for a whole number does not fail exactly if no version is that number: it asks
for the double nearest to it. -/
theorem select_rounded : ¬ ∀ (versions : List Version) (n : Int) (selector : Selector),
    Comparable id versions → 0 < n → Selector.ofValue (.int n) = .ok selector →
    (select id true versions (.int n) = .ok none ↔
      versions = [] ∨ ∀ v ∈ versions, v.toInt? ≠ some n) := by
  intro hall
  have h : Comparable id [Binary64.ofInt 9007199254740992] :=
    ⟨by decide +kernel, by decide +kernel⟩
  have hspells : Selector.Spells (.int 9007199254740993) (.exactly (.ofInt 9007199254740992)) := by
    refine .number ?_ ?_ <;> decide +kernel
  have haccepted := Selector.ofValue_eq_ok_iff.mpr hspells
  have hother : ∀ v ∈ [Binary64.ofInt 9007199254740992], v.toInt? ≠ some 9007199254740993 := by
    decide +kernel
  have hfails := (hall _ _ _ h (by decide) haccepted).mpr (Or.inr hother)
  have hpick : pick? id true [Binary64.ofInt 9007199254740992]
      (.exactly (.ofInt 9007199254740992)) = some (.ofInt 9007199254740992) := by decide +kernel
  rw [select, haccepted, Except.map, hpick] at hfails
  cases hfails

end Selection

end PackIndex
