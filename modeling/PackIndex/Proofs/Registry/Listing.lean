import Mathlib.Algebra.GroupWithZero.Nat
import PackIndex.Catalog.Query
import PackIndex.Proofs.Registry.Answers
import PackIndex.Proofs.Registry.Run
import PackIndex.Proofs.Version.Ascending

/-!
# Listing and looking up

A listing may come from memory while look-ups go to the groups, and names, items and versions are
counted in three ways. For a table whose versions are positive and whose memory is empty or up to
date, all of them agree on the items under each name.
-/

namespace PackIndex.ItemTable

variable {t : ItemTable}

/-! ### The items behind a name -/

/-- The items that a name or an alias leads to, in any case. -/
def under (t : ItemTable) (name : String) : List Item := (t.group? name).elim [] VersionGroup.items

theorem WellFormed.under_of_name (h : t.WellFormed) {name : String}
    (hname : Text.lower name ∈ t.names) : t.under name = t.itemsOf (Text.lower name) := by
  have hholder := (h.holder?_eq_some_iff _ _).mpr (Or.inr ⟨rfl, hname⟩)
  rw [under, h.group?_eq, hholder]
  rfl

theorem WellFormed.under_cases (h : t.WellFormed) (name : String) :
    t.under name = [] ∨ ∃ key, t.under name = t.itemsOf key := by
  rw [under, h.group?_eq]
  cases t.holder? (Text.lower name) with
  | none => exact Or.inl rfl
  | some key => exact Or.inr ⟨key, rfl⟩

theorem lookup_eq (t : ItemTable) (name : String) (selector : Selector) (strict : Bool) :
    Catalog.lookup t (some name) selector strict =
      Selection.pick? Item.version strict (t.under name) selector := by
  rw [Catalog.lookup, Option.bind_some, under]
  cases t.group? name with
  | some g => rfl
  | none =>
    match selector with
    | .sentinel .newest => rfl
    | .sentinel .oldest => rfl
    | .exactly v => cases strict <;> rfl

theorem versionsOf_eq (t : ItemTable) (name : String) :
    Catalog.versionsOf t name = Selection.versionsOf Item.version (t.under name) := by
  unfold Catalog.versionsOf under
  cases t.group? name <;> rfl

theorem WellFormed.itemCount_eq (h : t.WellFormed) :
    t.itemCount = (t.names.map fun name => (t.itemsOf name).length).sum := by
  have hgroups : (t.groups.map fun g => g.items.length) =
      t.names.map fun name => (t.itemsOf name).length := by
    rw [ItemTable.names, List.map_map]
    apply List.map_congr_left
    intro g hg
    have hgroup := groupNamed?_of_mem h.names_nodup hg
    rw [Function.comp_apply, itemsOf_of_groupNamed? hgroup]
  rw [itemCount, List.length_flatMap, hgroups]

/-! ### Listings -/

theorem nodup_names_of_ascending {listing : List Item}
    (hascending : listing.Pairwise fun x y => x.name < y.name) : (listing.map Item.name).Nodup := by
  refine List.pairwise_map.mpr (hascending.imp ?_)
  intro a b hlt he
  rw [he] at hlt
  exact String.lt_irrefl _ hlt

/-- Where items in ascending order have the names of a table, a name is there exactly if one of the
items, and no second one, has it. -/
theorem mem_names_iff_of_ascending {listing : List Item}
    (hascending : listing.Pairwise fun x y => x.name < y.name)
    (hnames : (listing.map Item.name).Perm t.names) (key : String) :
    key ∈ t.names ↔ ∃! x, x ∈ listing ∧ x.name = key := by
  have hmem : key ∈ t.names ↔ ∃ x ∈ listing, x.name = key := by
    rw [← hnames.mem_iff, List.mem_map]
  rw [hmem]
  constructor
  · rintro ⟨x, hx, rfl⟩
    refine ⟨x, ⟨hx, rfl⟩, ?_⟩
    rintro y ⟨hy, hxy⟩
    exact List.inj_on_of_nodup_map (nodup_names_of_ascending hascending) hy hx hxy
  · rintro ⟨x, hx, -⟩
    exact ⟨x, hx⟩

/-- One item for each name, the newest of its group, in the order of names. -/
structure IsListing (t : ItemTable) (listing : List Item) : Prop where
  ascending : listing.Pairwise fun x y => x.name < y.name
  names : (listing.map Item.name).Perm t.names
  newest : ∀ x ∈ listing, Selection.newest? Item.version (t.itemsOf x.name) = some x

theorem WellFormed.isListing (h : t.WellFormed) {items : List Item}
    (hitems : ItemTable.newestItems t.groups = .ok items) : t.IsListing (byName items) := by
  obtain ⟨items', hitems', hnames, hmem⟩ := h.newestItems
  obtain rfl := Except.ok.inj (hitems'.symm.trans hitems)
  have hperm := byName_perm items'
  have hperm' : ((byName items').map Item.name).Perm t.names := hnames ▸ hperm.map Item.name
  refine ⟨?_, hperm', fun x hx => ?_⟩
  · have hdiffer := List.pairwise_map.mp (hperm'.symm.nodup h.names_nodup)
    refine ((pairwise_byName items').and hdiffer).imp ?_
    rintro x y ⟨hxy, hne⟩
    by_contra hlt
    exact hne (String.le_antisymm (of_decide_eq_true hxy) hlt)
  · obtain ⟨name, hnewest⟩ := (hmem x).mp (hperm.mem_iff.mp hx)
    have hname := h.name_of_mem_itemsOf (Selection.newest?_mem hnewest)
    rwa [hname]

namespace IsListing

variable {listing : List Item} (hl : t.IsListing listing)
include hl

theorem size_eq : t.size = listing.length := by
  have hlength := hl.names.length_eq
  rw [List.length_map, ItemTable.names, List.length_map] at hlength
  exact hlength.symm

theorem mem_names_iff (key : String) : key ∈ t.names ↔ ∃! x, x ∈ listing ∧ x.name = key :=
  mem_names_iff_of_ascending hl.ascending hl.names key

theorem mem_names {x : Item} (hx : x ∈ listing) : x.name ∈ t.names :=
  hl.names.mem_iff.mp (List.mem_map_of_mem hx)

theorem itemCount_eq (h : t.WellFormed) :
    t.itemCount = (listing.map fun x => (t.itemsOf x.name).length).sum := by
  calc t.itemCount = (t.names.map fun name => (t.itemsOf name).length).sum := h.itemCount_eq
    _ = ((listing.map Item.name).map fun name => (t.itemsOf name).length).sum :=
        (hl.names.map _).sum_nat.symm
    _ = (listing.map fun x => (t.itemsOf x.name).length).sum := by rw [List.map_map]; rfl

end IsListing

/-! ### Tables of catalogs -/

/-- A table as a catalog that reads manifests keeps it. -/
structure Sound (t : ItemTable) : Prop where
  wellFormed : t.WellFormed
  lower : ∀ name ∈ t.names, Text.lower name = name
  positive : ∀ name, ∀ i ∈ t.itemsOf name, i.version.isPositive = true
  remembers : t.Remembers

theorem Holds.sound {kept : List Submission} (h : t.Holds kept)
    (hpositive : ∀ s ∈ kept, s.entry.version.isPositive = true) (hs : t.snapshot = []) :
    t.Sound := by
  refine ⟨h.wellFormed, fun name hname => ?_, fun name i hi => ?_, Or.inl hs⟩
  · obtain ⟨s, -, rfl⟩ := h.mem_names_iff.mp hname
    exact Text.lower_lower s.entry.name
  · obtain ⟨s, hmem, -, rfl⟩ := h.mem_itemsOf_iff.mp hi
    exact hpositive s hmem

theorem sound_empty (kind : PackKind) (tolerateDuplicates : Bool) :
    (empty kind tolerateDuplicates).Sound :=
  (holds_empty kind tolerateDuplicates).sound (fun _ hs => absurd hs List.not_mem_nil) rfl

theorem sound_clear (t : ItemTable) : t.clear.Sound :=
  (holds_clear t).sound (fun _ hs => absurd hs List.not_mem_nil) rfl

namespace Sound

variable (h : t.Sound)
include h

theorem latest : t.latest.2.Sound := by
  obtain ⟨items, -, -, hremembers⟩ := h.wellFormed.latest_eq h.remembers
  refine ⟨h.wellFormed.latest.1, fun name hname => ?_, fun name i hi => ?_, hremembers⟩
  · rw [latest_snd_eq] at hname
    exact h.lower name hname
  · rw [latest_snd_eq] at hi
    exact h.positive name i hi

theorem listing : ∃ listing, t.latest.1 = .ok listing ∧ t.IsListing listing := by
  obtain ⟨items, hitems, hlatest, -⟩ := h.wellFormed.latest_eq h.remembers
  exact ⟨byName items, hlatest, h.wellFormed.isListing hitems⟩

theorem comparable (name : String) : Selection.Comparable Item.version (t.under name) := by
  rcases h.wellFormed.under_cases name with hunder | ⟨key, hunder⟩
  · rw [hunder]
    exact ⟨fun _ hi => absurd hi List.not_mem_nil, List.Pairwise.nil⟩
  · rw [hunder]
    refine ⟨fun i hi => ?_, h.wellFormed.differ_itemsOf key⟩
    exact Binary64.isNaN_of_isPositive (h.positive key i hi)

section Listed

variable {listing : List Item} (hl : t.IsListing listing)
include hl

theorem under_listed {x : Item} (hx : x ∈ listing) : t.under x.name = t.itemsOf x.name := by
  have hname := hl.mem_names hx
  have hlower := h.lower _ hname
  rw [h.wellFormed.under_of_name (hlower.symm ▸ hname), hlower]

theorem itemCount_eq : t.itemCount = (listing.map fun x =>
    (Selection.versionsOf Item.version (t.under x.name)).length).sum := by
  rw [hl.itemCount_eq h.wellFormed]
  congr 1
  apply List.map_congr_left
  intro x hx
  rw [Selection.length_versionsOf, h.under_listed hl hx]

end Listed

end Sound

end PackIndex.ItemTable
