import PackIndex.Proofs.Registry.Submission
import PackIndex.Proofs.Version.Selection

/-!
# Well-formed tables

Names and aliases share one name space: no key is both, an alias leads to a name that is there, and
every group holds items of its own name in versions that differ. Submitting, clearing and listing
keep a table well formed, also where they are refused half-way, so the faults that a table could
only report about itself never arise.
-/

namespace PackIndex

structure VersionGroup.WellFormed (g : VersionGroup) : Prop where
  nonempty : g.items ≠ []
  name_eq : ∀ i ∈ g.items, i.name = g.name
  differ : g.items.Pairwise fun i j => i.version.same j.version = false

namespace ItemTable

structure WellFormed (t : ItemTable) : Prop where
  names_nodup : t.names.Nodup
  groups : ∀ g ∈ t.groups, g.WellFormed
  aliases_nodup : (t.aliases.map Prod.fst).Nodup
  alias_ne_empty : ∀ p ∈ t.aliases, p.1 ≠ ""
  alias_not_name : ∀ p ∈ t.aliases, p.1 ∉ t.names
  alias_leads : ∀ p ∈ t.aliases, p.2 ∈ t.names
  aliases_allowed : t.allowAliases = false → t.aliases = []

variable {t : ItemTable} {s : Submission}

theorem wellFormed_empty (kind : PackKind) (tolerateDuplicates : Bool) :
    (empty kind tolerateDuplicates).WellFormed := by
  constructor <;> simp [empty, names]

namespace WellFormed

variable (h : t.WellFormed)
include h

theorem aliasOwner?_eq_some_iff (key name : String) :
    t.aliasOwner? key = some name ↔ (key, name) ∈ t.aliases :=
  lookup_eq_some_iff_mem h.aliases_nodup

theorem aliasOwner?_of_name {name : String} (hname : name ∈ t.names) :
    t.aliasOwner? name = none := by
  rw [Option.eq_none_iff_forall_ne_some]
  intro owner howner
  exact h.alias_not_name _ ((h.aliasOwner?_eq_some_iff name owner).mp howner) hname

theorem holder?_eq_some_iff (key name : String) :
    t.holder? key = some name ↔ t.aliasOwner? key = some name ∨ key = name ∧ name ∈ t.names := by
  have hgroup (n : String) (hn : n ∈ t.names) : (t.groupNamed? n).map VersionGroup.name = some n := by
    obtain ⟨g, hg⟩ := Option.isSome_iff_exists.mp ((groupNamed?_isSome_iff n).mpr hn)
    rw [hg, Option.map_some, name_of_groupNamed? hg]
  unfold holder? owner?
  cases ha : t.aliasOwner? key with
  | some owner =>
    have hmem := (h.aliasOwner?_eq_some_iff key owner).mp ha
    simp only [hgroup owner (h.alias_leads _ hmem)]
    refine ⟨Or.inl, fun hk => hk.elim id ?_⟩
    rintro ⟨rfl, hn⟩
    exact absurd hn (h.alias_not_name _ hmem)
  | none =>
    simp only [reduceCtorEq, false_or]
    by_cases hn : key ∈ t.names
    · rw [hgroup key hn, Option.some.injEq]
      exact ⟨fun he => ⟨he, he ▸ hn⟩, fun he => he.1⟩
    · rw [(groupNamed?_eq_none_iff key).mpr hn]
      simp only [Option.map_none, reduceCtorEq, false_iff]
      rintro ⟨rfl, hk⟩
      exact hn hk

theorem holder?_eq_none_iff (key : String) :
    t.holder? key = none ↔ t.aliasOwner? key = none ∧ key ∉ t.names := by
  rw [Option.eq_none_iff_forall_ne_some, Option.eq_none_iff_forall_ne_some]
  simp only [ne_eq, h.holder?_eq_some_iff, not_or, forall_and]
  exact and_congr_right fun _ => ⟨fun hk hn => hk key ⟨rfl, hn⟩, fun hk n hn => hk (hn.1 ▸ hn.2)⟩

theorem group_of_mem {key : String} (hkey : key ∈ t.names) :
    ∃ g, t.groupNamed? key = some g ∧ g.name = key ∧ g.WellFormed := by
  obtain ⟨g, hg⟩ := Option.isSome_iff_exists.mp ((groupNamed?_isSome_iff key).mpr hkey)
  exact ⟨g, hg, name_of_groupNamed? hg, h.groups g (mem_of_groupNamed? hg)⟩

theorem name_of_mem_itemsOf {key : String} {i : Item} (hi : i ∈ t.itemsOf key) : i.name = key := by
  by_cases hkey : key ∈ t.names
  · obtain ⟨g, hg, hname, hw⟩ := h.group_of_mem hkey
    rw [itemsOf_of_groupNamed? hg] at hi
    rw [hw.name_eq i hi, hname]
  · rw [itemsOf_of_not_mem hkey] at hi
    cases hi

theorem differ_itemsOf (key : String) :
    (t.itemsOf key).Pairwise fun i j => i.version.same j.version = false := by
  by_cases hkey : key ∈ t.names
  · obtain ⟨g, hg, -, hw⟩ := h.group_of_mem hkey
    rw [itemsOf_of_groupNamed? hg]
    exact hw.differ
  · rw [itemsOf_of_not_mem hkey]
    exact List.Pairwise.nil

theorem itemsOf_ne_nil_iff (key : String) : t.itemsOf key ≠ [] ↔ key ∈ t.names := by
  refine ⟨fun hne => ?_, fun hkey => ?_⟩
  · by_contra hkey
    exact hne (itemsOf_of_not_mem hkey)
  · obtain ⟨g, hg, -, hw⟩ := h.group_of_mem hkey
    rw [itemsOf_of_groupNamed? hg]
    exact hw.nonempty

end WellFormed

/-! ### Mapping aliases -/

theorem aliasOwner?_addAlias {key : String} (name : String) (hkey : t.aliasOwner? key = none)
    (k : String) :
    (t.addAlias key name).aliasOwner? k = if k = key then some name else t.aliasOwner? k := by
  simp only [aliasOwner?, addAlias, List.lookup_append]
  by_cases hk : k = key
  · rw [if_pos hk, hk, show t.aliases.lookup key = none from hkey]
    simp
  · rw [if_neg hk]
    have hlookup : List.lookup k [(key, name)] = none := by
      simp [List.lookup_cons, beq_false_of_ne hk]
    rw [hlookup, Option.or_none]

/-- What mapping an alias of an item does: nothing, a new alias, or a refusal. -/
theorem mapAlias_cases (h : t.WellFormed) (item : Item) (word : String) :
    (t.mapAlias item word = .ok t ∧ (aliasKey word = "" ∨ aliasKey word = item.name ∨
      t.holder? (aliasKey word) = some item.name)) ∨
    (t.mapAlias item word = .ok (t.addAlias (aliasKey word) item.name) ∧ aliasKey word ≠ "" ∧
      aliasKey word ≠ item.name ∧ t.holder? (aliasKey word) = none) ∨
    (∃ other, t.mapAlias item word = .error (.aliasTaken t.kind (aliasKey word) item other) ∧
      aliasKey word ≠ "" ∧ aliasKey word ≠ item.name ∧
      ∃ name, t.holder? (aliasKey word) = some name ∧ name ≠ item.name) := by
  simp only [mapAlias]
  by_cases hskip : aliasKey word = "" ∨ aliasKey word = item.name
  · rw [if_pos hskip]
    exact Or.inl ⟨rfl, or_assoc.mp (Or.inl hskip)⟩
  · rw [if_neg hskip]
    obtain ⟨hempty, hname⟩ := not_or.mp hskip
    cases ho : t.owner? (aliasKey word) with
    | none =>
      exact Or.inr (Or.inl ⟨rfl, hempty, hname, by rw [holder?, ho]; rfl⟩)
    | some owner =>
      have hholder : t.holder? (aliasKey word) = some owner.name := by rw [holder?, ho]; rfl
      by_cases hown : owner.name = item.name
      · refine Or.inl ⟨if_pos hown, Or.inr (Or.inr (hown ▸ hholder))⟩
      · obtain ⟨other, hother⟩ := Option.isSome_iff_exists.mp
          ((Selection.oldest?_isSome Item.version owner.items).mpr
            (h.groups owner (mem_of_owner? ho)).nonempty)
        refine Or.inr (Or.inr ⟨other, ?_, hempty, hname, owner.name, hholder, hown⟩)
        simp only [if_neg hown, VersionGroup.oldest?, hother]

theorem WellFormed.addAlias (h : t.WellFormed) {key name : String} (hempty : key ≠ "")
    (hfree : t.holder? key = none) (hname : name ∈ t.names) (hallow : t.allowAliases = true) :
    (t.addAlias key name).WellFormed := by
  obtain ⟨halias, hkey⟩ := (h.holder?_eq_none_iff key).mp hfree
  have hmem (p : String × String) : p ∈ (t.addAlias key name).aliases ↔
      p ∈ t.aliases ∨ p = (key, name) := by simp [ItemTable.addAlias]
  constructor
  · exact h.names_nodup
  · exact h.groups
  · simp only [ItemTable.addAlias, List.map_append, List.map_cons, List.map_nil]
    refine List.nodup_append.mpr ⟨h.aliases_nodup, List.nodup_singleton _, ?_⟩
    rintro k hk _ hk' rfl
    obtain rfl := List.mem_singleton.mp hk'
    obtain ⟨⟨k, n⟩, hp, rfl⟩ := List.mem_map.mp hk
    rw [(h.aliasOwner?_eq_some_iff k n).mpr hp] at halias
    cases halias
  · intro p hp
    rcases (hmem p).mp hp with hp | rfl
    · exact h.alias_ne_empty p hp
    · exact hempty
  · intro p hp
    rcases (hmem p).mp hp with hp | rfl
    · exact h.alias_not_name p hp
    · exact hkey
  · intro p hp
    rcases (hmem p).mp hp with hp | rfl
    · exact h.alias_leads p hp
    · exact hname
  · intro hno
    rw [ItemTable.addAlias, hallow] at hno
    cases hno

section MapAliases

variable {item : Item} (h : t.WellFormed) (hname : item.name ∈ t.names)
  (hallow : t.allowAliases = true)
include h hname hallow

/-- Mapping aliases adds aliases to a table and keeps it well formed, however far it gets. -/
theorem mapAliases_wellFormed (words : List String) :
    (mapAliases item t words).2.WellFormed ∧
      ∃ more, (mapAliases item t words).2 = { t with aliases := t.aliases ++ more } := by
  induction words generalizing t with
  | nil => exact ⟨h, [], by simp [mapAliases]⟩
  | cons word words ih =>
    rcases mapAlias_cases h item word with ⟨hm, -⟩ | ⟨hm, hempty, -, hfree⟩ | ⟨other, hm, -⟩
    · simp only [mapAliases, hm]
      exact ih h hname hallow
    · simp only [mapAliases, hm]
      obtain ⟨hw, more, hmore⟩ := ih (h.addAlias hempty hfree hname hallow) hname hallow
      refine ⟨hw, (aliasKey word, item.name) :: more, ?_⟩
      rw [hmore]
      simp [addAlias]
    · simp only [mapAliases, hm]
      exact ⟨h, [], by simp⟩

theorem mapAliases_error (words : List String) {e : RegistryError}
    (he : (mapAliases item t words).1 = some e) :
    ∃ key other, e = .aliasTaken t.kind key item other := by
  induction words generalizing t with
  | nil => simp [mapAliases] at he
  | cons word words ih =>
    rcases mapAlias_cases h item word with ⟨hm, -⟩ | ⟨hm, hempty, -, hfree⟩ | ⟨other, hm, -⟩
    · simp only [mapAliases, hm] at he
      exact ih h hname hallow he
    · simp only [mapAliases, hm] at he
      exact ih (t := t.addAlias _ _) (h.addAlias hempty hfree hname hallow) hname hallow he
    · simp only [mapAliases, hm, Option.some.injEq] at he
      exact ⟨_, other, he.symm⟩

end MapAliases

/-! ### Changes of a table -/

theorem WellFormed.putGrown (h : t.WellFormed) (ha : t.aliasOwner? s.key = none)
    (hv : Selection.find? Item.version s.entry.version (t.itemsOf s.key) = none) :
    (t.putGroup (t.grown s)).WellFormed := by
  have hkey : ∀ p ∈ t.aliases, p.1 ≠ s.key := by
    rintro ⟨k, n⟩ hp rfl
    rw [(h.aliasOwner?_eq_some_iff _ n).mpr hp] at ha
    cases ha
  have hgrown : (t.grown s).WellFormed := by
    constructor
    · simp [grown]
    · intro i hi
      rcases List.mem_append.mp hi with hi | hi
      · exact h.name_of_mem_itemsOf hi
      · rw [List.mem_singleton.mp hi]
        rfl
    · refine List.pairwise_append.mpr ⟨h.differ_itemsOf s.key, List.pairwise_singleton _ _, ?_⟩
      intro i hi j hj
      rw [List.mem_singleton.mp hj]
      simpa using List.find?_eq_none.mp hv i hi
  constructor
  · rw [names_putGroup]
    split
    · exact h.names_nodup
    · next hnot =>
      refine List.nodup_append.mpr ⟨h.names_nodup, List.nodup_singleton _, ?_⟩
      rintro k hk _ hk' rfl
      exact hnot (List.mem_singleton.mp hk' ▸ hk)
  · intro g hg
    rcases mem_groups_putGroup hg with rfl | hg
    · exact hgrown
    · exact h.groups g hg
  · simpa using h.aliases_nodup
  · simpa using h.alias_ne_empty
  · intro p hp
    rw [aliases_putGroup] at hp
    rw [mem_names_putGroup]
    exact not_or.mpr ⟨hkey p hp, h.alias_not_name p hp⟩
  · intro p hp
    rw [aliases_putGroup] at hp
    exact (mem_names_putGroup t _ _).mpr (Or.inr (h.alias_leads p hp))
  · simpa using h.aliases_allowed

theorem name_mem_putGrown (t : ItemTable) (s : Submission) :
    (s.item t.kind).name ∈ (t.putGroup (t.grown s)).names :=
  (mem_names_putGroup t _ _).mpr (Or.inl rfl)

/-- Submitting an entry keeps a table well formed, whether it is admitted, passed over or refused,
and a refusal tells of the data. -/
theorem WellFormed.submit (h : t.WellFormed) (s : Submission) :
    (t.submit s).2.WellFormed ∧ ∀ e, (t.submit s).1 = .refused e → e.isDataError = true := by
  cases ha : t.aliasOwner? s.key with
  | some other =>
    rw [submit_of_alias ha]
    refine ⟨h, ?_⟩
    rintro e ⟨⟩
    rfl
  | none =>
    cases hv : Selection.find? Item.version s.entry.version (t.itemsOf s.key) with
    | some existing =>
      rw [submit_of_taken h.names_nodup ha hv]
      split
      · refine ⟨⟨h.1, h.2, h.3, h.4, h.5, h.6, h.7⟩, ?_⟩
        rintro e ⟨⟩
      · refine ⟨h, ?_⟩
        rintro e ⟨⟩
        rfl
    | none =>
      rw [submit_of_new ha hv]
      have hput := h.putGrown ha hv
      split
      · next hallow =>
        have hallow : (t.putGroup (t.grown s)).allowAliases = true := by simpa using hallow
        have hmap := mapAliases_wellFormed hput (name_mem_putGrown t s) hallow s.entry.aliases
        have herr (e : RegistryError) :=
          mapAliases_error hput (name_mem_putGrown t s) hallow s.entry.aliases (e := e)
        split
        · next u hu =>
          rw [hu] at hmap
          refine ⟨hmap.1, ?_⟩
          rintro e ⟨⟩
        · next e u hu =>
          rw [hu] at hmap herr
          refine ⟨hmap.1, ?_⟩
          rintro _ ⟨⟩
          obtain ⟨key, other, rfl⟩ := herr e rfl
          rfl
      · refine ⟨hput, ?_⟩
        rintro e ⟨⟩

theorem wellFormed_clear (t : ItemTable) : t.clear.WellFormed := by
  constructor <;> simp [ItemTable.clear, names]

theorem newestItems_isOk {groups : List VersionGroup} (h : ∀ g ∈ groups, g.WellFormed) :
    ∃ items, newestItems groups = .ok items := by
  induction groups with
  | nil => exact ⟨[], rfl⟩
  | cons g groups ih =>
    obtain ⟨item, hitem⟩ := Option.isSome_iff_exists.mp
      ((Selection.newest?_isSome Item.version g.items).mpr (h g List.mem_cons_self).nonempty)
    obtain ⟨items, hitems⟩ := ih fun g hg => h g (List.mem_cons_of_mem _ hg)
    exact ⟨item :: items, by simp only [newestItems, VersionGroup.newest?, hitem, hitems]; rfl⟩

theorem WellFormed.latest (h : t.WellFormed) :
    t.latest.2.WellFormed ∧ ∃ items, t.latest.1 = .ok items := by
  obtain ⟨items, hitems⟩ := newestItems_isOk h.groups
  unfold ItemTable.latest
  split
  · exact ⟨h, _, rfl⟩
  · simp only [hitems]
    exact ⟨⟨h.1, h.2, h.3, h.4, h.5, h.6, h.7⟩, _, rfl⟩

end ItemTable

end PackIndex
