import Mathlib.Data.Option.Basic
import PackIndex.Proofs.Registry.Contents
import PackIndex.Proofs.Text.Lower
import PackIndex.Proofs.Version.Selection

/-!
# What a table answers

The answers of a well-formed table depend only on the items under each name and on the aliases. So
two tables that hold the same submissions, in whatever order, answer alike: they have the same
names, the same item for every version of a name, the same aliases, the same first listing, and the
same item for every name and selector.
-/

namespace PackIndex.ItemTable

variable {t u : ItemTable} {kept others : List Submission}

theorem groupNamed?_eq_ite (t : ItemTable) (key : String) :
    t.groupNamed? key = if key ∈ t.names then some ⟨key, t.itemsOf key⟩ else none := by
  by_cases hkey : key ∈ t.names
  · obtain ⟨g, hg⟩ := Option.isSome_iff_exists.mp ((groupNamed?_isSome_iff key).mpr hkey)
    have hget := groupNamed?_getD t key
    rw [hg, Option.getD_some] at hget
    rw [if_pos hkey, hg, hget]
  · rw [if_neg hkey, (groupNamed?_eq_none_iff key).mpr hkey]

theorem WellFormed.group?_eq (h : t.WellFormed) (name : String) :
    t.group? name = (t.holder? (Text.lower name)).map fun key => ⟨key, t.itemsOf key⟩ := by
  unfold group?
  simp only [groupNamed?_eq_ite]
  by_cases hkey : Text.lower name ∈ t.names
  · rw [if_pos hkey, (h.holder?_eq_some_iff _ _).mpr (Or.inr ⟨rfl, hkey⟩)]
    rfl
  · rw [if_neg hkey]
    cases ha : t.aliasOwner? (Text.lower name) with
    | none => rw [(h.holder?_eq_none_iff _).mpr ⟨ha, hkey⟩]; rfl
    | some owner =>
      have hmem := h.alias_leads _ ((h.aliasOwner?_eq_some_iff _ _).mp ha)
      rw [(h.holder?_eq_some_iff _ _).mpr (Or.inl ha)]
      simp only [Option.bind_some, Option.map_some]
      exact if_pos hmem

/-! ### Listing -/

theorem map_newestItems {groups : List VersionGroup} {items : List Item}
    (h : newestItems groups = .ok items) : items.map some = groups.map VersionGroup.newest? := by
  induction groups generalizing items with
  | nil =>
    obtain rfl := Except.ok.inj h
    rfl
  | cons g groups ih =>
    simp only [newestItems] at h
    cases hg : g.newest? with
    | none => simp [hg] at h
    | some item =>
      cases hrest : newestItems groups with
      | error e => simp [hg, hrest, Except.map] at h
      | ok rest =>
        simp only [hg, hrest, Except.map, Except.ok.injEq] at h
        rw [← h, List.map_cons, List.map_cons, ih hrest, hg]

theorem WellFormed.newestItems (h : t.WellFormed) :
    ∃ items, newestItems t.groups = .ok items ∧ items.map Item.name = t.names ∧
      ∀ i, i ∈ items ↔ ∃ name, Selection.newest? Item.version (t.itemsOf name) = some i := by
  obtain ⟨items, hitems⟩ := newestItems_isOk h.groups
  have hmap := map_newestItems hitems
  refine ⟨items, hitems, ?_, fun i => ?_⟩
  · apply List.map_injective_iff.mpr (Option.some_injective String)
    calc (items.map Item.name).map some = (items.map some).map (Option.map Item.name) := by simp
      _ = (t.groups.map VersionGroup.newest?).map (Option.map Item.name) := by rw [hmap]
      _ = t.names.map some := by
        rw [names, List.map_map, List.map_map]
        apply List.map_congr_left
        intro g hg
        have hw := h.groups g hg
        obtain ⟨i, hi⟩ := Option.isSome_iff_exists.mp
          ((Selection.newest?_isSome Item.version g.items).mpr hw.nonempty)
        simp [VersionGroup.newest?, hi, hw.name_eq i (Selection.newest?_mem hi)]
  · have hsome : i ∈ items ↔ some i ∈ t.groups.map VersionGroup.newest? := by simp [← hmap]
    rw [hsome, List.mem_map]
    constructor
    · rintro ⟨g, hg, hi⟩
      exact ⟨g.name, by rwa [itemsOf_of_groupNamed? (groupNamed?_of_mem h.names_nodup hg)]⟩
    · rintro ⟨name, hi⟩
      obtain ⟨g, hg, -, -⟩ := h.group_of_mem
        ((h.itemsOf_ne_nil_iff name).mp (List.ne_nil_of_mem (Selection.newest?_mem hi)))
      exact ⟨g, mem_of_groupNamed? hg, by rwa [itemsOf_of_groupNamed? hg] at hi⟩

def byName (items : List Item) : List Item :=
  items.mergeSort fun a b => Text.atMost a.name b.name

theorem pairwise_mergeSort_atMost {α : Type} (key : α → String) (xs : List α) :
    (xs.mergeSort fun a b => Text.atMost (key a) (key b)).Pairwise
      fun a b => Text.atMost (key a) (key b) = true := by
  apply List.pairwise_mergeSort
  · intro a b c hab hbc
    exact decide_eq_true (String.le_trans (of_decide_eq_true hab) (of_decide_eq_true hbc))
  · intro a b
    simpa [Text.atMost] using String.le_total (key a) (key b)

theorem pairwise_byName (items : List Item) :
    (byName items).Pairwise fun a b => Text.atMost a.name b.name = true :=
  pairwise_mergeSort_atMost Item.name items

theorem byName_perm (items : List Item) : (byName items).Perm items := List.mergeSort_perm items _

theorem byName_eq {items items' : List Item} (hn : (items.map Item.name).Nodup)
    (hp : items.Perm items') : byName items = byName items' := by
  refine List.Perm.eq_of_pairwise ?_ (pairwise_byName items) (pairwise_byName items') ?_
  · intro a b ha hb hab hba
    have hname := String.le_antisymm (of_decide_eq_true hab) (of_decide_eq_true hba)
    have ha' := (byName_perm items).mem_iff.mp ha
    have hb' := hp.mem_iff.mpr ((byName_perm items').mem_iff.mp hb)
    exact List.inj_on_of_nodup_map hn ha' hb' hname
  · exact (byName_perm items).trans (hp.trans (byName_perm items').symm)

/-- What is remembered of listings is nothing, or the listing of the groups that are there. -/
def Remembers (t : ItemTable) : Prop :=
  t.snapshot = [] ∨ ∃ items, ItemTable.newestItems t.groups = .ok items ∧ t.snapshot = byName items

/-- A listing is that of the groups that are there, whether it is remembered or made anew. -/
theorem WellFormed.latest_eq (h : t.WellFormed) (hs : t.Remembers) :
    ∃ items, ItemTable.newestItems t.groups = .ok items ∧
      t.latest.1 = .ok (byName items) ∧ t.latest.2.Remembers := by
  obtain ⟨items, hitems, -, -⟩ := h.newestItems
  refine ⟨items, hitems, ?_⟩
  unfold ItemTable.latest
  split
  · next hlen =>
    refine ⟨congrArg Except.ok ?_, hs⟩
    rcases hs with hempty | ⟨items', hitems', hsnapshot⟩
    · -- nothing is remembered, and that is enough only for a table without groups
      have hgroups : t.groups = [] := by
        rw [hempty, List.length_nil] at hlen
        exact List.eq_nil_of_length_eq_zero hlen.symm
      rw [hgroups] at hitems
      obtain rfl := Except.ok.inj hitems
      rw [hempty, byName, List.mergeSort_nil]
    · obtain rfl := Except.ok.inj (hitems'.symm.trans hitems)
      exact hsnapshot
  · simp only [hitems]
    exact ⟨rfl, Or.inr ⟨items, hitems, rfl⟩⟩

/-! ### Tables that answer alike -/

/-- The two tables cannot be told apart by what they answer. -/
structure SameAnswers (t u : ItemTable) : Prop where
  names : ∀ name, name ∈ t.names ↔ name ∈ u.names
  items : ∀ name, (t.itemsOf name).Perm (u.itemsOf name)
  find : ∀ name version, ((t.groupNamed? name).bind fun g => g.find? version) =
    (u.groupNamed? name).bind fun g => g.find? version
  aliases : ∀ key, t.aliasOwner? key = u.aliasOwner? key
  latest : ∃ listing, t.latest.1 = .ok listing ∧ u.latest.1 = .ok listing
  select : ∀ name strict selector, ((t.group? name).map fun g => g.select strict selector) =
    (u.group? name).map fun g => g.select strict selector

theorem Holds.comparable (ht : t.Holds kept) (hn : ∀ s ∈ kept, s.entry.version.isNaN = false)
    (name : String) : Selection.Comparable Item.version (t.itemsOf name) := by
  refine ⟨fun i hi => ?_, ht.wellFormed.differ_itemsOf name⟩
  obtain ⟨s, hs, -, rfl⟩ := ht.mem_itemsOf_iff.mp hi
  exact hn s hs

theorem Holds.sameAnswers (ht : t.Holds kept) (hu : u.Holds others) (hp : kept.Perm others)
    (hset : SameSetting t u) (hs : t.snapshot = [])
    (hn : ∀ s ∈ kept, s.entry.version.isNaN = false) : SameAnswers t u := by
  have hitems (name : String) : (t.itemsOf name).Perm (u.itemsOf name) := by
    rw [ht.items, hu.items, hset.kind]
    exact (hp.filter _).map _
  have hnames (name : String) : name ∈ t.names ↔ name ∈ u.names := by
    simp only [ht.mem_names_iff, hu.mem_names_iff, hp.mem_iff]
  have haliases (key : String) : t.aliasOwner? key = u.aliasOwner? key := by
    ext name
    simp only [ht.aliases, hu.aliases, hset.allowAliases, hp.mem_iff]
  have hholder (key : String) : t.holder? key = u.holder? key := by
    ext name
    rw [ht.wellFormed.holder?_eq_some_iff, hu.wellFormed.holder?_eq_some_iff, haliases, hnames]
  have hcomp := ht.comparable hn
  refine ⟨hnames, hitems, fun name version => ?_, haliases, ?_, fun name strict selector => ?_⟩
  · simp only [groupNamed?_eq_ite, hnames]
    split
    · exact Selection.find?_perm (hcomp name) (hitems name) version
    · rfl
  · obtain ⟨items, hnew, hfirst, -⟩ := ht.wellFormed.latest_eq (Or.inl hs)
    obtain ⟨items', hnew', hfirst', -⟩ :=
      hu.wellFormed.latest_eq (Or.inl (hset.snapshot.trans hs))
    obtain ⟨_, hi, hname, hmem⟩ := ht.wellFormed.newestItems
    obtain rfl := Except.ok.inj (hi.symm.trans hnew)
    obtain ⟨_, hi', hname', hmem'⟩ := hu.wellFormed.newestItems
    obtain rfl := Except.ok.inj (hi'.symm.trans hnew')
    have hnodup : (List.map Item.name _).Nodup := hname ▸ ht.wellFormed.names_nodup
    have hnodup' : (List.map Item.name _).Nodup := hname' ▸ hu.wellFormed.names_nodup
    have hperm := (List.perm_ext_iff_of_nodup hnodup.of_map hnodup'.of_map).mpr fun i => by
      simp only [hmem, hmem', Selection.newest?_perm (hcomp _) (hitems _)]
    exact ⟨_, hfirst, by rw [hfirst', byName_eq hnodup hperm]⟩
  · rw [ht.wellFormed.group?_eq, hu.wellFormed.group?_eq, hholder]
    simp only [Option.map_map, Function.comp_def, VersionGroup.select,
      Selection.select_perm (hcomp _) (hitems _)]

/-! ### Asking for a submission -/

namespace Holds

variable (ht : t.Holds kept) {s : Submission} (hs : s ∈ kept)
include ht hs

theorem holder?_key : t.holder? s.key = some s.key :=
  (ht.wellFormed.holder?_eq_some_iff _ _).mpr (Or.inr ⟨rfl, ht.mem_names_iff.mpr ⟨s, hs, rfl⟩⟩)

theorem holder?_alias (hallow : t.allowAliases = true) {word : String}
    (hword : word ∈ s.entry.aliases) (hne : Text.strip word ≠ "") :
    t.holder? (aliasKey word) = some s.key := by
  by_cases hkey : aliasKey word = s.key
  · rw [hkey]
    exact ht.holder?_key hs
  · have hempty : aliasKey word ≠ "" := fun he => hne ((Text.lower_eq_empty_iff _).mp he)
    have hmem : aliasKey word ∈ s.aliasKeys := mem_usableKeys.mpr ⟨⟨word, hword, rfl⟩, hempty, hkey⟩
    exact (ht.wellFormed.holder?_eq_some_iff _ _).mpr
      (Or.inl ((ht.aliases _ _).mpr ⟨hallow, s, hs, rfl, hmem⟩))

/-- Asking strictly for its version under a name that leads to it gives a submission's item. -/
theorem pick?_exactly (hn : s.entry.version.isNaN = false) {name : String}
    (hname : t.holder? (Text.lower name) = some s.key) :
    ((t.group? name).bind fun g => g.pick? true (.exactly s.entry.version)) =
      some (s.item t.kind) := by
  have hfind : Selection.find? Item.version s.entry.version (t.itemsOf s.key) =
      some (s.item t.kind) := by
    rw [Selection.find?_eq_some_iff (ht.wellFormed.differ_itemsOf s.key)]
    exact ⟨ht.mem_itemsOf_iff.mpr ⟨s, hs, rfl, rfl⟩, (Binary64.same_self_iff _).mpr hn⟩
  rw [ht.wellFormed.group?_eq, hname]
  simp only [Option.map_some, Option.bind_some, VersionGroup.pick?, Selection.pick?, hfind]

theorem item_inj (hn : ∀ s ∈ kept, s.entry.version.isNaN = false) {other : Submission}
    (ho : other ∈ kept) (heq : other.item t.kind = s.item t.kind) : other = s := by
  have hkey : other.key = s.key := congrArg Item.name heq
  have hdiffer := ht.wellFormed.differ_itemsOf s.key
  rw [ht.items] at hdiffer
  have hnodup : ((kept.filter fun a => a.key = s.key).map (Submission.item t.kind)).Nodup := by
    refine hdiffer.imp_of_mem ?_
    rintro i j hi - hij rfl
    obtain ⟨a, ha, rfl⟩ := List.mem_map.mp hi
    have hself := (Binary64.same_self_iff _).mpr (hn a (List.mem_filter.mp ha).1)
    rw [Submission.item_version, hself] at hij
    cases hij
  refine List.inj_on_of_nodup_map hnodup (List.mem_filter.mpr ⟨ho, ?_⟩)
    (List.mem_filter.mpr ⟨hs, ?_⟩) heq
  · exact decide_eq_true hkey
  · exact decide_eq_true rfl

end Holds

end PackIndex.ItemTable
