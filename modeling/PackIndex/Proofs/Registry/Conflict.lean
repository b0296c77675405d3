import PackIndex.Proofs.Registry.Answers

/-!
# Submissions that clash

Two submissions clash if they have the same name and version, if they have an alias in common
without having the name in common, or if one's name is an alias of the other. This does not depend
on which of the two came first, although a table finds the clash in different places. A table
without duplicates admits a list of variants exactly if no two of them clash, so the order of the
list decides neither whether it is admitted nor what the table answers afterwards.
-/

namespace PackIndex

namespace Submission

def Clash (a b : Submission) : Prop :=
  (a.key = b.key ∧ a.entry.version.same b.entry.version = true) ∨
  (a.key ≠ b.key ∧ ∃ key ∈ a.aliasKeys, key ∈ b.aliasKeys) ∨
  a.key ∈ b.aliasKeys

instance (a b : Submission) : Decidable (a.Clash b) :=
  inferInstanceAs (Decidable (_ ∨ _ ∨ _))

/-- Neither clashes with the other. -/
def Compatible (a b : Submission) : Prop := ¬ a.Clash b ∧ ¬ b.Clash a

theorem Compatible.symm {a b : Submission} (h : a.Compatible b) : b.Compatible a := And.symm h

theorem compatible_iff (a b : Submission) : a.Compatible b ↔
    (a.key = b.key → a.entry.version.same b.entry.version = false) ∧
    (∀ key ∈ b.aliasKeys, key ∈ a.aliasKeys → a.key = b.key) ∧
    a.key ∉ b.aliasKeys ∧ b.key ∉ a.aliasKeys := by
  have hsame : b.entry.version.same a.entry.version = a.entry.version.same b.entry.version :=
    Binary64.same_comm _ _
  simp only [Compatible, Clash, hsame, eq_comm (a := b.key), not_or, not_and, not_exists,
    Bool.not_eq_true, ne_eq]
  constructor
  · rintro ⟨⟨hversion, hshare, hab⟩, -, -, hba⟩
    refine ⟨hversion, fun key hb ha => ?_, hab, hba⟩
    by_contra hne
    exact hshare hne key ha hb
  · rintro ⟨hversion, hshare, hab, hba⟩
    exact ⟨⟨hversion, fun hne key ha hb => hne (hshare key hb ha), hab⟩,
      hversion, fun hne key hb ha => hne (hshare key hb ha), hba⟩

end Submission

namespace ItemTable

variable {t u : ItemTable} {s : Submission} {kept subs others : List Submission}

namespace Holds

variable (h : t.Holds kept)
include h

theorem aliasOwner?_eq_none_iff (hallow : t.allowAliases = true) (key : String) :
    t.aliasOwner? key = none ↔ ∀ a ∈ kept, key ∉ a.aliasKeys := by
  rw [Option.eq_none_iff_forall_ne_some]
  simp only [ne_eq, h.aliases, hallow, true_and, not_exists, not_and]
  exact ⟨fun hkey a ha => hkey a.key a ha rfl, fun hkey _ a ha _ => hkey a ha⟩

theorem find?_eq_none_iff : Selection.find? Item.version s.entry.version (t.itemsOf s.key) = none ↔
    ∀ a ∈ kept, a.key = s.key → a.entry.version.same s.entry.version = false := by
  simp only [Selection.find?, List.find?_eq_none, h.mem_itemsOf_iff, Bool.not_eq_true]
  constructor
  · intro hv a ha hkey
    exact hv _ ⟨a, ha, hkey, rfl⟩
  · rintro hv _ ⟨a, ha, hkey, rfl⟩
    exact hv a ha hkey

theorem mapAliases_eq_none_iff (hallow : t.allowAliases = true)
    (ha : t.aliasOwner? s.key = none)
    (hv : Selection.find? Item.version s.entry.version (t.itemsOf s.key) = none) :
    (mapAliases (s.item t.kind) (t.putGroup (t.grown s)) s.entry.aliases).1 = none ↔
      ∀ a ∈ kept, (∀ key ∈ s.aliasKeys, key ∈ a.aliasKeys → a.key = s.key) ∧
        a.key ∉ s.aliasKeys := by
  have hput := h.wellFormed.putGrown ha hv
  rw [ItemTable.mapAliases_eq_none_iff hput (name_mem_putGrown t s) (by simpa using hallow)]
  simp only [hput.holder?_eq_some_iff, aliasOwner?_putGroup, h.aliases, hallow, true_and,
    mem_names_putGroup, h.mem_names_iff, Submission.item_name]
  change (∀ key ∈ s.aliasKeys, ∀ name, _ ∨ key = name ∧ (name = s.key ∨ _) → name = s.key) ↔ _
  constructor
  · intro hall a ha
    refine ⟨fun key hs hkey => hall key hs a.key (Or.inl ⟨a, ha, rfl, hkey⟩), fun hs => ?_⟩
    have hname := hall a.key hs a.key (Or.inr ⟨rfl, Or.inr ⟨a, ha, rfl⟩⟩)
    exact s.key_not_mem_aliasKeys (hname ▸ hs)
  · rintro hall key hs name (⟨a, ha, rfl, hkey⟩ | ⟨rfl, rfl | ⟨a, ha, rfl⟩⟩)
    · exact (hall a ha).1 key hs hkey
    · rfl
    · exact absurd hs (hall a ha).2

/-- One more submission is admitted exactly if it is compatible with all that are there. -/
theorem submit_admitted_iff (hallow : t.allowAliases = true) :
    (∃ i u, t.submit s = (.admitted i, u)) ↔ ∀ a ∈ kept, a.Compatible s := by
  simp only [submit_eq_admitted_iff h.wellFormed, if_pos hallow]
  constructor
  · rintro ⟨_, u, ha, hv, rfl, hu⟩ a hmem
    have hfree := (h.mapAliases_eq_none_iff hallow ha hv).mp (by rw [hu]) a hmem
    exact (a.compatible_iff s).mpr ⟨h.find?_eq_none_iff.mp hv a hmem, hfree.1, hfree.2,
      (h.aliasOwner?_eq_none_iff hallow s.key).mp ha a hmem⟩
  · intro hall
    have hall' (a : Submission) (hmem : a ∈ kept) := (a.compatible_iff s).mp (hall a hmem)
    have ha := (h.aliasOwner?_eq_none_iff hallow s.key).mpr fun a hmem => (hall' a hmem).2.2.2
    have hv := h.find?_eq_none_iff.mpr fun a hmem => (hall' a hmem).1
    have hmap := (h.mapAliases_eq_none_iff hallow ha hv).mpr
      fun a hmem => ⟨(hall' a hmem).2.1, (hall' a hmem).2.2.1⟩
    exact ⟨_, _, ha, hv, rfl, Prod.ext hmap rfl⟩

/-- A list of submissions is admitted to its end exactly if they are compatible with each other and
with all that are there. -/
theorem submitAll_isOk_iff (hallow : t.allowAliases = true)
    (htol : t.tolerateDuplicates = false) : (∃ u, t.submitAll subs = .ok u) ↔
      subs.Pairwise Submission.Compatible ∧ ∀ a ∈ kept, ∀ s ∈ subs, a.Compatible s := by
  induction subs generalizing t kept with
  | nil => simp [ItemTable.submitAll]
  | cons s rest ih =>
    have hstep := h.submit_admitted_iff (s := s) hallow
    -- what is kept grows by `s`, so compatibility with `s` moves from the list to what is kept
    rw [List.pairwise_cons]
    simp only [ItemTable.submitAll]
    rcases hs : t.submit s with ⟨admission, v⟩
    cases admission with
    | admitted i =>
      obtain ⟨-, hv, hset⟩ := h.admitted hs
      have hnew := hstep.mp ⟨i, v, hs⟩
      simp only
      rw [ih hv (hset.allowAliases.trans hallow) (hset.tolerateDuplicates.trans htol)]
      simp only [List.mem_append, List.mem_singleton, or_imp, forall_and, forall_eq,
        List.forall_mem_cons]
      constructor
      · rintro ⟨hpair, hkept, hrest⟩
        exact ⟨⟨hrest, hpair⟩, hnew, hkept⟩
      · rintro ⟨⟨hrest, hpair⟩, -, hkept⟩
        exact ⟨hpair, hkept, hrest⟩
    | skipped i =>
      rw [(h.skipped hs).1] at htol
      cases htol
    | refused e =>
      simp only [reduceCtorEq, exists_false, false_iff, not_and]
      intro _ hall
      obtain ⟨i, w, hok⟩ := hstep.mpr fun a ha => hall a ha s List.mem_cons_self
      rw [hs] at hok
      cases hok

end Holds

/-- Without duplicates, a list that is admitted to its end is admitted as a whole. -/
theorem admittedFrom_eq (h : t.Holds kept) (htol : t.tolerateDuplicates = false)
    (hu : t.submitAll subs = .ok u) : t.admittedFrom subs = subs := by
  induction subs generalizing t kept with
  | nil => rfl
  | cons s rest ih =>
    obtain ⟨i, v, hu, ⟨hs, heq⟩ | ⟨hs, -⟩⟩ := submitAll_cons_cases hu
    · obtain ⟨-, hv, hset⟩ := h.admitted hs
      rw [heq, ih hv (hset.tolerateDuplicates.trans htol) hu]
    · rw [(h.skipped hs).1] at htol
      cases htol

theorem submitAll_variants_isOk_iff : (∃ t, (empty .variants false).submitAll subs = .ok t) ↔
    subs.Pairwise Submission.Compatible := by
  rw [(holds_empty .variants false).submitAll_isOk_iff rfl rfl]
  simp

theorem pairwise_compatible_iff : subs.Pairwise Submission.Compatible ↔
    ∀ (i j : Nat) (a b : Submission), i ≠ j → subs[i]? = some a → subs[j]? = some b →
      ¬ a.Clash b := by
  rw [List.pairwise_iff_getElem]
  constructor
  · intro hpair i j a b hne ha hb
    obtain ⟨hi, rfl⟩ := List.getElem?_eq_some_iff.mp ha
    obtain ⟨hj, rfl⟩ := List.getElem?_eq_some_iff.mp hb
    rcases Nat.lt_or_gt_of_ne hne with hlt | hlt
    · exact (hpair i j hi hj hlt).1
    · exact (hpair j i hj hi hlt).2
  · intro hall i j hi hj hlt
    have hi' := List.getElem?_eq_getElem hi
    have hj' := List.getElem?_eq_getElem hj
    exact ⟨hall i j _ _ (Nat.ne_of_lt hlt) hi' hj', hall j i _ _ (Nat.ne_of_gt hlt) hj' hi'⟩

/-- A list of variants is admitted to its end exactly if no two of them clash, in whatever order
they come, and the tables they end in answer alike. -/
theorem submitAll_variants (subs : List Submission)
    (hn : ∀ s ∈ subs, s.entry.version.isNaN = false) :
    ((∃ t, (empty .variants false).submitAll subs = .ok t) ↔
      ∀ (i j : Nat) (a b : Submission), i ≠ j → subs[i]? = some a → subs[j]? = some b →
        ¬ a.Clash b) ∧
    ∀ others, subs.Perm others →
      ((∃ t, (empty .variants false).submitAll subs = .ok t) ↔
        ∃ u, (empty .variants false).submitAll others = .ok u) ∧
      ∀ t u, (empty .variants false).submitAll subs = .ok t →
        (empty .variants false).submitAll others = .ok u → SameAnswers t u := by
  refine ⟨submitAll_variants_isOk_iff.trans pairwise_compatible_iff, fun others hp => ⟨?_, ?_⟩⟩
  · rw [submitAll_variants_isOk_iff, submitAll_variants_isOk_iff]
    exact hp.pairwise_iff fun hab => hab.symm
  · intro t u ht hu
    have hempty := holds_empty .variants false
    obtain ⟨htholds, htset⟩ := hempty.submitAll ht
    obtain ⟨huholds, huset⟩ := hempty.submitAll hu
    rw [admittedFrom_eq hempty rfl ht, List.nil_append] at htholds
    rw [admittedFrom_eq hempty rfl hu, List.nil_append] at huholds
    exact htholds.sameAnswers huholds hp
      ⟨huset.1.trans htset.1.symm, huset.2.trans htset.2.symm, huset.3.trans htset.3.symm,
        huset.4.trans htset.4.symm⟩ htset.snapshot hn

def classicVariant : Submission :=
  ⟨⟨"Classic", .ofInt 1, [" Standard "], none⟩, "Classic.zip", .ofParts ["Classic.zip"]⟩

def modernVariant : Submission :=
  ⟨⟨"Modern", .ofInt 1, ["Tournament", ""], none⟩, "Modern.zip", .ofParts ["Modern.zip"]⟩

theorem submitAll_classic_modern :
    (∀ s ∈ [classicVariant, modernVariant], s.entry.version.isNaN = false) ∧
      ∃ t u, (empty .variants false).submitAll [classicVariant, modernVariant] = .ok t ∧
        (empty .variants false).submitAll [modernVariant, classicVariant] = .ok u ∧
        SameAnswers t u := by
  have hn : ∀ s ∈ [classicVariant, modernVariant], s.entry.version.isNaN = false := by
    decide +kernel
  have hclash : ¬ classicVariant.Clash modernVariant ∧ ¬ modernVariant.Clash classicVariant := by
    decide +kernel
  have hpair : [classicVariant, modernVariant].Pairwise Submission.Compatible := by
    simp [Submission.Compatible, hclash]
  obtain ⟨hiff, hperm⟩ := submitAll_variants [classicVariant, modernVariant] hn
  obtain ⟨hsuccess, hsame⟩ :=
    hperm [modernVariant, classicVariant] (List.Perm.swap modernVariant classicVariant [])
  obtain ⟨t, ht⟩ := hiff.mpr (pairwise_compatible_iff.mp hpair)
  obtain ⟨u, hu⟩ := hsuccess.mp ⟨t, ht⟩
  exact ⟨hn, t, u, ht, hu, hsame t u ht hu⟩

end ItemTable

end PackIndex
