import PackIndex.Proofs.Registry.Invariant

/-!
# What a table holds

A well-formed table holds a list of submissions if its items are theirs, name by name in the order
of the list, and its aliases are those that they claim. Admitting one more submission extends the
list by it, passing one over leaves the list alone; so after a run a table holds exactly what was
admitted on the way.
-/

namespace PackIndex.ItemTable

variable {t u : ItemTable} {s : Submission} {kept subs : List Submission}

structure Holds (t : ItemTable) (kept : List Submission) : Prop where
  wellFormed : t.WellFormed
  items : ∀ name, t.itemsOf name = (kept.filter fun s => s.key = name).map (Submission.item t.kind)
  aliases : ∀ key name, t.aliasOwner? key = some name ↔
    t.allowAliases = true ∧ ∃ s ∈ kept, s.key = name ∧ key ∈ s.aliasKeys

/-- Two tables that treat entries in the same way and remember the same listing. -/
structure SameSetting (t u : ItemTable) : Prop where
  kind : u.kind = t.kind
  allowAliases : u.allowAliases = t.allowAliases
  tolerateDuplicates : u.tolerateDuplicates = t.tolerateDuplicates
  snapshot : u.snapshot = t.snapshot

theorem SameSetting.refl (t : ItemTable) : SameSetting t t := ⟨rfl, rfl, rfl, rfl⟩

theorem SameSetting.trans {v : ItemTable} (h : SameSetting t u) (h' : SameSetting u v) :
    SameSetting t v :=
  ⟨h'.1.trans h.1, h'.2.trans h.2, h'.3.trans h.3, h'.4.trans h.4⟩

theorem holds_empty (kind : PackKind) (tolerateDuplicates : Bool) :
    (empty kind tolerateDuplicates).Holds [] where
  wellFormed := wellFormed_empty kind tolerateDuplicates
  items name := by simp [empty, itemsOf, groupNamed?]
  aliases key name := by simp [empty, aliasOwner?]

theorem holds_clear (t : ItemTable) : t.clear.Holds [] where
  wellFormed := wellFormed_clear t
  items name := by simp [clear, itemsOf, groupNamed?]
  aliases key name := by simp [clear, aliasOwner?]

namespace Holds

variable (h : t.Holds kept)
include h

theorem mem_itemsOf_iff {name : String} {i : Item} :
    i ∈ t.itemsOf name ↔ ∃ s ∈ kept, s.key = name ∧ s.item t.kind = i := by
  simp [h.items, and_assoc]

theorem mem_names_iff {name : String} : name ∈ t.names ↔ ∃ s ∈ kept, s.key = name := by
  rw [← h.wellFormed.itemsOf_ne_nil_iff, h.items, ne_eq, List.map_eq_nil_iff, List.filter_eq_nil_iff]
  simp

end Holds

/-! ### Mapping a list of aliases -/

theorem mem_usableKeys_cons {name key word : String} {words : List String} :
    key ∈ usableKeys name (word :: words) ↔
      (key = aliasKey word ∧ key ≠ "" ∧ key ≠ name) ∨ key ∈ usableKeys name words := by
  simp only [mem_usableKeys, List.exists_mem_cons_iff, eq_comm (a := key) (b := aliasKey word)]
  exact or_and_right

section MapAliases

variable {item : Item} (h : t.WellFormed) (hname : item.name ∈ t.names)
  (hallow : t.allowAliases = true)
include h hname hallow

theorem holder?_addAlias {key : String} (hempty : key ≠ "") (hfree : t.holder? key = none)
    (k : String) :
    (t.addAlias key item.name).holder? k = if k = key then some item.name else t.holder? k := by
  have hnone := ((h.holder?_eq_none_iff key).mp hfree).1
  ext n
  rw [(h.addAlias hempty hfree hname hallow).holder?_eq_some_iff, aliasOwner?_addAlias _ hnone]
  by_cases hk : k = key
  · have hnot := ((h.holder?_eq_none_iff key).mp hfree).2
    rw [if_pos hk, if_pos hk]
    refine ⟨fun hn => hn.elim id ?_, Or.inl⟩
    rintro ⟨rfl, hmem⟩
    exact absurd (hk ▸ hmem) hnot
  · rw [if_neg hk, if_neg hk, h.holder?_eq_some_iff]
    rfl

/-- Aliases are mapped to the end exactly if none of them belongs to another name. -/
theorem mapAliases_eq_none_iff (words : List String) :
    (mapAliases item t words).1 = none ↔
      ∀ key ∈ usableKeys item.name words, ∀ name, t.holder? key = some name → name = item.name := by
  induction words generalizing t with
  | nil => simp [mapAliases, usableKeys]
  | cons word words ih =>
    simp only [mem_usableKeys_cons, or_imp, forall_and]
    rcases mapAlias_cases h item word with
      ⟨hm, hskip⟩ | ⟨hm, hempty, hne, hfree⟩ | ⟨other, hm, hempty, hne, name, hheld, hother⟩
    · simp only [mapAliases, hm]
      rw [ih h hname hallow]
      refine ⟨fun hrest => ⟨?_, hrest⟩, fun hall => hall.2⟩
      rintro _ ⟨rfl, hempty, hne⟩ name hheld
      rcases hskip with hk | hk | hk
      · exact absurd hk hempty
      · exact absurd hk hne
      · rw [hk] at hheld
        exact (Option.some.inj hheld).symm
    · simp only [mapAliases, hm]
      rw [ih (t := t.addAlias _ _) (h.addAlias hempty hfree hname hallow) hname hallow]
      simp only [holder?_addAlias h hname hallow hempty hfree]
      refine ⟨fun hrest => ⟨?_, ?_⟩, fun hall k hk name hheld => ?_⟩
      · rintro _ ⟨rfl, -, -⟩ name hheld
        rw [hfree] at hheld
        cases hheld
      · intro k hk name hheld
        by_cases hkey : k = aliasKey word
        · rw [hkey, hfree] at hheld
          cases hheld
        · exact hrest k hk name (by rwa [if_neg hkey])
      · by_cases hkey : k = aliasKey word
        · rw [if_pos hkey] at hheld
          exact (Option.some.inj hheld).symm
        · rw [if_neg hkey] at hheld
          exact hall.2 k hk name hheld
    · simp only [mapAliases, hm, reduceCtorEq, false_iff]
      intro hall
      exact hother (hall.1 _ ⟨rfl, hempty, hne⟩ name hheld)

theorem aliasOwner?_mapAliases {words : List String} (hok : (mapAliases item t words).1 = none)
    (key name : String) :
    (mapAliases item t words).2.aliasOwner? key = some name ↔
      t.aliasOwner? key = some name ∨ name = item.name ∧ key ∈ usableKeys item.name words := by
  induction words generalizing t with
  | nil => simp [mapAliases, usableKeys]
  | cons word words ih =>
    rw [mem_usableKeys_cons]
    rcases mapAlias_cases h item word with
      ⟨hm, hskip⟩ | ⟨hm, hempty, hne, hfree⟩ | ⟨other, hm, -⟩
    · simp only [mapAliases, hm] at hok ⊢
      rw [ih h hname hallow hok]
      have hold (hk : key = aliasKey word ∧ key ≠ "" ∧ key ≠ item.name) :
          t.aliasOwner? key = some item.name := by
        obtain ⟨rfl, hempty, hne⟩ := hk
        have hheld := (hskip.resolve_left hempty).resolve_left hne
        exact ((h.holder?_eq_some_iff _ _).mp hheld).resolve_right fun hk => hne hk.1
      refine or_congr_right' fun hnot => and_congr_right fun hn => ?_
      refine ⟨Or.inr, fun hk => hk.resolve_left fun hk => hnot ?_⟩
      rw [hold hk, hn]
    · have hnone := ((h.holder?_eq_none_iff _).mp hfree).1
      simp only [mapAliases, hm] at hok ⊢
      rw [ih (t := t.addAlias _ _) (h.addAlias hempty hfree hname hallow) hname hallow hok,
        aliasOwner?_addAlias _ hnone]
      by_cases hk : key = aliasKey word
      · rw [if_pos hk, hk, hnone]
        simp only [Option.some.injEq, reduceCtorEq, false_or, ne_eq, true_and]
        refine ⟨fun hn => ?_, fun hn => Or.inl hn.1.symm⟩
        rcases hn with rfl | hn
        · exact ⟨rfl, Or.inl ⟨hempty, hne⟩⟩
        · exact ⟨hn.1, Or.inr hn.2⟩
      · rw [if_neg hk]
        simp only [hk, false_and, false_or]
    · simp [mapAliases, hm] at hok

end MapAliases

/-! ### Admitting one submission -/

/-- An entry is admitted exactly if its name is no alias, its version is new, and its aliases can be
mapped to the end. -/
theorem submit_eq_admitted_iff (h : t.WellFormed) {i : Item} :
    t.submit s = (.admitted i, u) ↔
      t.aliasOwner? s.key = none ∧
      Selection.find? Item.version s.entry.version (t.itemsOf s.key) = none ∧
      i = s.item t.kind ∧
      if t.allowAliases = true then
        mapAliases (s.item t.kind) (t.putGroup (t.grown s)) s.entry.aliases = (none, u)
      else u = t.putGroup (t.grown s) := by
  cases ha : t.aliasOwner? s.key with
  | some other => simp [submit_of_alias ha]
  | none =>
    cases hv : Selection.find? Item.version s.entry.version (t.itemsOf s.key) with
    | some existing =>
      rw [submit_of_taken h.names_nodup ha hv]
      split <;> simp
    | none =>
      rw [submit_of_new ha hv]
      by_cases hallow : t.allowAliases = true
      · rw [if_pos hallow, if_pos hallow]
        rcases mapAliases (s.item t.kind) (t.putGroup (t.grown s)) s.entry.aliases with ⟨_ | e, v⟩
        · simp [eq_comm]
        · simp
      · rw [if_neg hallow, if_neg hallow]
        simp [eq_comm]

theorem submit_eq_skipped_iff (h : t.WellFormed) {i : Item} :
    t.submit s = (.skipped i, u) ↔
      t.aliasOwner? s.key = none ∧
      (∃ existing, Selection.find? Item.version s.entry.version (t.itemsOf s.key) = some existing) ∧
      t.tolerateDuplicates = true ∧ i = s.item t.kind ∧
      u = { t with duplicatesSkipped := t.duplicatesSkipped + 1 } := by
  cases ha : t.aliasOwner? s.key with
  | some other => simp [submit_of_alias ha]
  | none =>
    cases hv : Selection.find? Item.version s.entry.version (t.itemsOf s.key) with
    | some existing =>
      rw [submit_of_taken h.names_nodup ha hv]
      split
      · next htol => simp [htol, eq_comm]
      · next htol => simp [htol]
    | none =>
      rw [submit_of_new ha hv]
      split
      · split <;> simp
      · simp

namespace Holds

variable (h : t.Holds kept)
include h

theorem itemsOf_putGrown (name : String) :
    (t.putGroup (t.grown s)).itemsOf name =
      ((kept ++ [s]).filter fun s => s.key = name).map (Submission.item t.kind) := by
  rw [itemsOf_putGroup, List.filter_append, List.map_append, ← h.items]
  by_cases hname : name = s.key
  · rw [if_pos (show name = (t.grown s).name from hname)]
    simp [grown, hname]
  · rw [if_neg (show ¬ name = (t.grown s).name from hname)]
    simp [Ne.symm hname]

theorem admitted {i : Item} (hs : t.submit s = (.admitted i, u)) :
    i = s.item t.kind ∧ u.Holds (kept ++ [s]) ∧ SameSetting t u := by
  obtain ⟨ha, hv, hi, hu⟩ := (submit_eq_admitted_iff h.wellFormed).mp hs
  have hput := h.wellFormed.putGrown ha hv
  refine ⟨hi, ?_⟩
  by_cases hallow : t.allowAliases = true
  · rw [if_pos hallow] at hu
    have hallow' : (t.putGroup (t.grown s)).allowAliases = true := by simpa using hallow
    have hmem := name_mem_putGrown t s
    obtain ⟨hw, more, hmore⟩ := mapAliases_wellFormed hput hmem hallow' s.entry.aliases
    have hok : (mapAliases (s.item t.kind) (t.putGroup (t.grown s)) s.entry.aliases).1 = none := by
      rw [hu]
    have halias := aliasOwner?_mapAliases hput hmem hallow' hok
    simp only [hu] at hw hmore halias
    refine ⟨⟨hw, fun name => ?_, fun key name => ?_⟩, ?_⟩
    · rw [hmore, kind_putGroup]
      exact h.itemsOf_putGrown name
    · rw [halias, aliasOwner?_putGroup, h.aliases, hmore]
      simp only [hallow, allowAliases_putGroup, true_and, List.mem_append, List.mem_singleton,
        or_and_right, exists_or, exists_eq_left, Submission.item_name]
      exact or_congr_right (and_congr_left' eq_comm)
    · rw [hmore]
      exact ⟨kind_putGroup _ _, allowAliases_putGroup _ _, tolerateDuplicates_putGroup _ _,
        snapshot_putGroup _ _⟩
  · rw [if_neg hallow] at hu
    subst hu
    refine ⟨⟨hput, fun name => ?_, fun key name => ?_⟩, ?_⟩
    · rw [kind_putGroup]
      exact h.itemsOf_putGrown name
    · rw [aliasOwner?_putGroup, h.aliases, allowAliases_putGroup]
      simp [hallow]
    · exact ⟨kind_putGroup _ _, allowAliases_putGroup _ _, tolerateDuplicates_putGroup _ _,
        snapshot_putGroup _ _⟩

/-- A submission that is passed over is one of a version that the table holds. -/
theorem skipped {i : Item} (hs : t.submit s = (.skipped i, u)) :
    t.tolerateDuplicates = true ∧
      (∃ a ∈ kept, a.key = s.key ∧ a.entry.version.same s.entry.version = true) ∧
      u.Holds kept ∧ SameSetting t u := by
  obtain ⟨-, ⟨existing, hv⟩, htol, -, rfl⟩ := (submit_eq_skipped_iff h.wellFormed).mp hs
  have hw := h.wellFormed
  obtain ⟨hmem, hsame⟩ := (Selection.find?_eq_some_iff (hw.differ_itemsOf s.key) _ _).mp hv
  obtain ⟨a, ha, hkey, rfl⟩ := h.mem_itemsOf_iff.mp hmem
  refine ⟨htol, ⟨a, ha, hkey, hsame⟩, ⟨?_, h.items, h.aliases⟩, ⟨rfl, rfl, rfl, rfl⟩⟩
  exact ⟨hw.1, hw.2, hw.3, hw.4, hw.5, hw.6, hw.7⟩

end Holds

/-! ### Admitting a list of submissions -/

/-- Submits one entry after the other, up to the first that is refused. -/
def submitAll (t : ItemTable) : List Submission → Except RegistryError ItemTable
  | [] => .ok t
  | s :: rest =>
    match t.submit s with
    | (.refused e, _) => .error e
    | (_, u) => u.submitAll rest

def admittedFrom (t : ItemTable) : List Submission → List Submission
  | [] => []
  | s :: rest =>
    match t.submit s with
    | (.admitted _, u) => s :: u.admittedFrom rest
    | (_, u) => u.admittedFrom rest

theorem admittedFrom_sublist (t : ItemTable) (subs : List Submission) :
    (t.admittedFrom subs).Sublist subs := by
  induction subs generalizing t with
  | nil => exact List.Sublist.refl _
  | cons s rest ih =>
    simp only [admittedFrom]
    split
    · exact (ih _).cons_cons s
    · exact (ih _).cons s

def skippedFrom (t : ItemTable) : List Submission → List Submission
  | [] => []
  | s :: rest =>
    match t.submit s with
    | (.skipped _, u) => s :: u.skippedFrom rest
    | (_, u) => u.skippedFrom rest

/-- A run that comes to its end admits its first submission or passes it over. -/
theorem submitAll_cons_cases {rest : List Submission} (hu : t.submitAll (s :: rest) = .ok u) :
    ∃ i v, v.submitAll rest = .ok u ∧
      (t.submit s = (.admitted i, v) ∧ t.admittedFrom (s :: rest) = s :: v.admittedFrom rest ∨
        t.submit s = (.skipped i, v) ∧ t.admittedFrom (s :: rest) = v.admittedFrom rest) := by
  simp only [submitAll, admittedFrom] at hu ⊢
  rcases hs : t.submit s with ⟨admission, v⟩
  rw [hs] at hu
  cases admission with
  | refused e => cases hu
  | admitted i => exact ⟨i, v, hu, Or.inl ⟨rfl, rfl⟩⟩
  | skipped i => exact ⟨i, v, hu, Or.inr ⟨rfl, rfl⟩⟩

theorem Holds.submitAll (h : t.Holds kept) (hu : t.submitAll subs = .ok u) :
    u.Holds (kept ++ t.admittedFrom subs) ∧ SameSetting t u := by
  induction subs generalizing t kept with
  | nil =>
    obtain rfl := Except.ok.inj hu
    exact ⟨by simpa [admittedFrom] using h, .refl t⟩
  | cons s rest ih =>
    obtain ⟨i, v, hu, ⟨hs, heq⟩ | ⟨hs, heq⟩⟩ := submitAll_cons_cases hu
    · obtain ⟨-, hv, hset⟩ := h.admitted hs
      obtain ⟨hu, hset'⟩ := ih hv hu
      rw [heq]
      exact ⟨by simpa using hu, hset.trans hset'⟩
    · obtain ⟨-, -, hv, hset⟩ := h.skipped hs
      obtain ⟨hu, hset'⟩ := ih hv hu
      rw [heq]
      exact ⟨hu, hset.trans hset'⟩

theorem Holds.duplicatesSkipped_of_admitted (h : t.Holds kept) {i : Item}
    (hs : t.submit s = (.admitted i, u)) : u.duplicatesSkipped = t.duplicatesSkipped := by
  obtain ⟨ha, hv, -, hu⟩ := (submit_eq_admitted_iff h.wellFormed).mp hs
  by_cases hallow : t.allowAliases = true
  · rw [if_pos hallow] at hu
    obtain ⟨-, more, hmore⟩ := mapAliases_wellFormed (h.wellFormed.putGrown ha hv)
      (name_mem_putGrown t s) (by simpa using hallow) s.entry.aliases
    rw [hu] at hmore
    simp only at hmore
    rw [hmore, duplicatesSkipped_putGroup]
  · rw [if_neg hallow] at hu
    rw [hu, duplicatesSkipped_putGroup]

theorem Holds.duplicatesSkipped_submitAll (h : t.Holds kept) (hu : t.submitAll subs = .ok u) :
    u.duplicatesSkipped = t.duplicatesSkipped + (t.skippedFrom subs).length := by
  induction subs generalizing t kept with
  | nil =>
    obtain rfl := Except.ok.inj hu
    rfl
  | cons s rest ih =>
    obtain ⟨i, v, hu, ⟨hs, -⟩ | ⟨hs, -⟩⟩ := submitAll_cons_cases hu
    · obtain ⟨-, hv, -⟩ := h.admitted hs
      rw [ih hv hu, h.duplicatesSkipped_of_admitted hs, skippedFrom, hs]
    · obtain ⟨-, -, hv, -⟩ := h.skipped hs
      obtain ⟨-, -, -, -, hcounted⟩ := (submit_eq_skipped_iff h.wellFormed).mp hs
      have hone : v.duplicatesSkipped = t.duplicatesSkipped + 1 := by rw [hcounted]
      rw [ih hv hu, hone, skippedFrom, hs, List.length_cons]
      omega

/-- In a run that comes to its end, what is not admitted is a version that the table holds. -/
theorem Holds.admitted_or_held (h : t.Holds kept) (hu : t.submitAll subs = .ok u)
    (hmem : s ∈ subs) : s ∈ t.admittedFrom subs ∨ t.tolerateDuplicates = true ∧
      ∃ a ∈ kept ++ t.admittedFrom subs,
        a.key = s.key ∧ a.entry.version.same s.entry.version = true := by
  induction subs generalizing t kept with
  | nil => cases hmem
  | cons first rest ih =>
    obtain ⟨i, v, hu, ⟨hs, heq⟩ | ⟨hs, heq⟩⟩ := submitAll_cons_cases hu
    · obtain ⟨-, hv, hset⟩ := h.admitted hs
      rw [heq]
      rcases List.mem_cons.mp hmem with rfl | hmem
      · exact Or.inl List.mem_cons_self
      · rcases ih hv hu hmem with hin | ⟨htol, a, ha, hsame⟩
        · exact Or.inl (List.mem_cons_of_mem _ hin)
        · exact Or.inr ⟨hset.tolerateDuplicates ▸ htol, a, by simpa using ha, hsame⟩
    · obtain ⟨htol, ⟨a, ha, hsame⟩, hv, -⟩ := h.skipped hs
      rw [heq]
      rcases List.mem_cons.mp hmem with rfl | hmem
      · exact Or.inr ⟨htol, a, List.mem_append_left _ ha, hsame⟩
      · rcases ih hv hu hmem with hin | ⟨-, hheld⟩
        · exact Or.inl hin
        · exact Or.inr ⟨htol, hheld⟩

end PackIndex.ItemTable
