import PackIndex.Proofs.Registry.Contents

/-!
# Runs of a table

A run submits, clears and lists in any order and goes on after refusals with the table left behind.
Every table of a run is well formed. Until the table is cleared, aliases and items stay.
-/

namespace PackIndex

inductive TableStep where
  | submit (s : Submission)
  | clear
  | latest

namespace ItemTable

def fresh (kind : PackKind) (allowAliases tolerateDuplicates : Bool) : ItemTable :=
  { empty kind tolerateDuplicates with allowAliases := allowAliases }

def after (t : ItemTable) : TableStep → ItemTable
  | .submit s => (t.submit s).2
  | .clear => t.clear
  | .latest => t.latest.2

def run (t : ItemTable) (steps : List TableStep) : ItemTable := steps.foldl after t

variable {t : ItemTable} {s : Submission}

theorem wellFormed_fresh (kind : PackKind) (allowAliases tolerateDuplicates : Bool) :
    (fresh kind allowAliases tolerateDuplicates).WellFormed := by
  constructor <;> simp [fresh, empty, names]

theorem holds_fresh (kind : PackKind) (allowAliases tolerateDuplicates : Bool) :
    (fresh kind allowAliases tolerateDuplicates).Holds [] where
  wellFormed := wellFormed_fresh kind allowAliases tolerateDuplicates
  items name := by simp [fresh, empty, itemsOf, groupNamed?]
  aliases key name := by simp [fresh, empty, aliasOwner?]

theorem WellFormed.after (h : t.WellFormed) (step : TableStep) : (t.after step).WellFormed := by
  cases step with
  | submit s => exact (h.submit s).1
  | clear => exact wellFormed_clear t
  | latest => exact h.latest.1

theorem WellFormed.run (h : t.WellFormed) (steps : List TableStep) : (t.run steps).WellFormed := by
  induction steps generalizing t with
  | nil => exact h
  | cons step steps ih => exact ih (h.after step)

theorem run_append (t : ItemTable) (before after : List TableStep) :
    t.run (before ++ after) = (t.run before).run after := List.foldl_append

/-! ### Settings and listings -/

/-- Submitting an entry changes groups, aliases and the count of duplicates only. -/
theorem WellFormed.submit_eq (h : t.WellFormed) (s : Submission) :
    ∃ groups more skipped, (t.submit s).2 =
      { t with
        groups := groups, aliases := t.aliases ++ more, duplicatesSkipped := skipped } := by
  cases ha : t.aliasOwner? s.key with
  | some other => exact ⟨t.groups, [], t.duplicatesSkipped, by simp [submit_of_alias ha]⟩
  | none =>
    cases hv : Selection.find? Item.version s.entry.version (t.itemsOf s.key) with
    | some existing =>
      rw [submit_of_taken h.names_nodup ha hv]
      split
      · exact ⟨t.groups, [], t.duplicatesSkipped + 1, by simp⟩
      · exact ⟨t.groups, [], t.duplicatesSkipped, by simp⟩
    | none =>
      have hput := putGroup_eq t (t.grown s)
      rw [submit_of_new ha hv]
      by_cases hallow : t.allowAliases = true
      · have hallow' : (t.putGroup (t.grown s)).allowAliases = true := by simpa using hallow
        obtain ⟨-, more, hmore⟩ := mapAliases_wellFormed (h.putGrown ha hv)
          (name_mem_putGrown t s) hallow' s.entry.aliases
        refine ⟨(t.putGroup (t.grown s)).groups, more, t.duplicatesSkipped, ?_⟩
        rw [if_pos hallow]
        split <;> next hu => rw [hu] at hmore; rw [hmore, hput]
      · rw [if_neg hallow]
        exact ⟨(t.putGroup (t.grown s)).groups, [], t.duplicatesSkipped, by simpa using hput⟩

theorem latest_snd_eq (t : ItemTable) : t.latest.2 = { t with snapshot := t.latest.2.snapshot } := by
  unfold latest
  split
  · rfl
  · split <;> rfl

theorem kind_after (h : t.WellFormed) (step : TableStep) : (t.after step).kind = t.kind := by
  cases step with
  | submit s =>
    obtain ⟨groups, more, skipped, hs⟩ := h.submit_eq s
    rw [after, hs]
  | clear => rfl
  | latest => rw [after, latest_snd_eq]

theorem allowAliases_after (h : t.WellFormed) (step : TableStep) :
    (t.after step).allowAliases = t.allowAliases := by
  cases step with
  | submit s =>
    obtain ⟨groups, more, skipped, hs⟩ := h.submit_eq s
    simp only [after, hs]
  | clear => rfl
  | latest => rw [after, latest_snd_eq]

theorem allowAliases_run (h : t.WellFormed) (steps : List TableStep) :
    (t.run steps).allowAliases = t.allowAliases := by
  induction steps generalizing t with
  | nil => rfl
  | cons step steps ih => exact (ih (h.after step)).trans (allowAliases_after h step)

/-- An alias keeps leading to its name, and with the name to what is added later. -/
theorem WellFormed.aliasOwner?_submit (h : t.WellFormed) {key name : String}
    (ha : t.aliasOwner? key = some name) (s : Submission) :
    (t.submit s).2.aliasOwner? key = some name := by
  obtain ⟨groups, more, skipped, hs⟩ := h.submit_eq s
  simp only [hs, aliasOwner?, List.lookup_append]
  rw [show t.aliases.lookup key = some name from ha]
  rfl

/-- An alias and the name that it leads to have one group. -/
theorem WellFormed.group_of_alias (h : t.WellFormed) {key name : String}
    (ha : t.aliasOwner? key = some name) :
    ∃ g ∈ t.groups, g.name = name ∧ t.groupNamed? name = some g ∧ t.owner? key = some g ∧
      ∀ word, Text.lower word = key → t.group? word = some g := by
  have hmem := (h.aliasOwner?_eq_some_iff key name).mp ha
  obtain ⟨g, hg, hname, -⟩ := h.group_of_mem (h.alias_leads _ hmem)
  have hnot := (groupNamed?_eq_none_iff key).mpr (h.alias_not_name _ hmem)
  refine ⟨g, mem_of_groupNamed? hg, hname, hg, by simp only [owner?, ha, hg], ?_⟩
  rintro word rfl
  simp only [group?, hnot, ha, Option.bind_some, hg]

/-- A table in which names and aliases are one name space, and which never has to report a fault of
its own: not for an entry, not for a listing, and not for the newest and the oldest item of a group
that a message names. -/
structure Coherent (t : ItemTable) : Prop where
  wellFormed : t.WellFormed
  refusals : ∀ s e, (t.submit s).1 = .refused e → e.isDataError = true
  listing : ∃ items, t.latest.1 = .ok items
  ends : ∀ g ∈ t.groups, ∃ newest oldest, g.newest? = some newest ∧ g.oldest? = some oldest
  aliases_lead : ∀ key name, t.aliasOwner? key = some name →
    ∃ g ∈ t.groups, g.name = name ∧ t.groupNamed? name = some g ∧ t.owner? key = some g ∧
      ∀ word, Text.lower word = key → t.group? word = some g
  aliases_stay : ∀ key name, t.aliasOwner? key = some name →
    ∀ s, (t.submit s).2.aliasOwner? key = some name

theorem WellFormed.coherent (h : t.WellFormed) : t.Coherent where
  wellFormed := h
  refusals s := (h.submit s).2
  listing := h.latest.2
  ends g hg := by
    have hne := (h.groups g hg).nonempty
    obtain ⟨newest, hnewest⟩ :=
      Option.isSome_iff_exists.mp ((Selection.newest?_isSome Item.version g.items).mpr hne)
    obtain ⟨oldest, holdest⟩ :=
      Option.isSome_iff_exists.mp ((Selection.oldest?_isSome Item.version g.items).mpr hne)
    exact ⟨newest, oldest, hnewest, holdest⟩
  aliases_lead _ _ ha := h.group_of_alias ha
  aliases_stay _ _ ha := h.aliasOwner?_submit ha

end ItemTable

end PackIndex
