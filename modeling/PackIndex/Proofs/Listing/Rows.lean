import Mathlib.Algebra.BigOperators.Group.Finset.Basic
import PackIndex.Listing.Basic
import PackIndex.Proofs.Catalog.Coherence
import PackIndex.Proofs.Catalog.Stock

/-!
# What a listing shows

The rows of a listing are put together from the newest items, the versions of their names, and the
aliases, each asked for on its own and joined by name. Nothing is lost or shown twice on the way: a
row stands for each name, its versions are those registered under the name, and each alias is in the
row of the name it leads to.
-/

namespace PackIndex

namespace Catalog

variable {c d : Catalog} {kind : PackKind} {items : List Item} {r : ListingRow}

/-! ### The aliases of a name -/

section Aliases

variable {aliases : List (String × String)} {key name : String}

theorem mem_aliasesOf : key ∈ aliasesOf aliases name ↔ (key, name) ∈ aliases := by
  simp [aliasesOf]

theorem pairwise_aliasesOf (h : (aliases.map Prod.fst).Nodup) (name : String) :
    (aliasesOf aliases name).Pairwise (· < ·) := by
  have hnodup : (aliasesOf aliases name).Nodup :=
    (List.mergeSort_perm _ _).symm.nodup (h.sublist (List.filter_sublist.map Prod.fst))
  have hsorted := ItemTable.pairwise_mergeSort_atMost id
    ((aliases.filter fun pair => pair.2 = name).map Prod.fst)
  refine (List.Pairwise.and hsorted hnodup).imp ?_
  rintro a b ⟨hab, hne⟩
  by_contra hlt
  exact hne (String.le_antisymm (of_decide_eq_true hab) hlt)

/-- If each alias leads to one of some names, all are counted under these names. -/
theorem sum_length_aliasesOf {names : List String} (hnames : names.Nodup)
    (h : ∀ pair ∈ aliases, pair.2 ∈ names) :
    (names.map fun name => (aliasesOf aliases name).length).sum = aliases.length := by
  have hcount (name : String) : (aliasesOf aliases name).length =
      (aliases.map Prod.snd : Multiset String).count name := by
    rw [aliasesOf, List.length_mergeSort, List.length_map, Multiset.coe_count, List.count,
      List.countP_map, List.countP_eq_length_filter]
    rfl
  have hmem : ∀ owner ∈ (aliases.map Prod.snd : Multiset String), owner ∈ names.toFinset := by
    simpa using fun owner key hpair => h (key, owner) hpair
  simp only [hcount]
  rw [← List.sum_toFinset _ hnames, Multiset.sum_count_eq_card hmem, Multiset.coe_card,
    List.length_map]

end Aliases

/-! ### The questions of a listing -/

theorem latest_of_ready (hready : c.state = .ready) (h : (c.table kind).UpToDate) :
    ∃ items, (c.table kind).IsListing items ∧ (c.latest kind).1 = .ok items := by
  obtain ⟨items, hitems, hlatest, -⟩ := h.wellFormed.latest_eq h.remembers
  refine ⟨_, h.wellFormed.isListing hitems, ?_⟩
  rw [latest_fst, requireReady_of_ready hready, hlatest]
  rfl

theorem SameStock.rows (h : SameStock c d) (kind : PackKind) (items : List Item) :
    d.rows kind items = c.rows kind items := by
  have haliases : d.variants.aliases = c.variants.aliases := (h.entries .variants).aliases
  simp only [Catalog.rows, Catalog.versionsOf, (h.entries kind).group?, haliases]

theorem listing_fst (h : c.Sane) (hready : c.state = .ready) :
    ∃ items : PackKind → List Item, (∀ kind, (c.table kind).IsListing (items kind)) ∧
      c.listing.1 = .ok ⟨c.rows .variants (items .variants), c.rows .symbols (items .symbols)⟩ := by
  choose items hitems hlatest using fun kind => latest_of_ready hready (h.upToDate kind)
  -- the symbol packs are asked for when the listing of the variants is remembered already
  have hfirst : c.latest .variants = (.ok (items .variants), (c.latest .variants).2) :=
    Prod.ext (hlatest .variants) rfl
  have hstock := sameStock_latest c .variants
  have hready' := hstock.state.trans hready
  have hsecond : (c.latest .variants).2.latest .symbols =
      (.ok (items .symbols), ((c.latest .variants).2.latest .symbols).2) := by
    refine Prod.ext ?_ rfl
    rw [latest_fst, requireReady_of_ready hready', (hstock.entries .symbols).latest
      (h.upToDate .symbols) (h.upToDate_latest .variants .symbols), ← hlatest .symbols, latest_fst,
      requireReady_of_ready hready]
  have hstock' := sameStock_latest (c.latest .variants).2 .symbols
  refine ⟨items, hitems, ?_⟩
  rw [listing, hfirst]
  simp only
  rw [hsecond]
  simp only [hstock'.rows, hstock.rows]

/-! ### The rows of a kind -/

theorem mem_rows_iff : r ∈ c.rows kind items ↔ ∃ item ∈ items,
    ⟨item.displayName, versionsOf (c.table kind) item.name,
      if kind = .variants then aliasesOf c.variants.aliases item.name else [],
      item.packageName⟩ = r := List.mem_map

/-- Rows that show a table: one for each name, with all its versions and the archive of its newest
item. The versions ascend to the newest, unless one of them is no number, as none of a manifest
is. -/
structure Shows (c : Catalog) (kind : PackKind) (rows : List ListingRow) : Prop where
  ascending : rows.Pairwise fun r s => Text.lower r.name < Text.lower s.name
  registered : ∀ key, key ∈ (c.table kind).names ↔ ∃ r ∈ rows, Text.lower r.name = key
  versions_ne_nil : ∀ r ∈ rows, r.versions ≠ []
  versions_perm : ∀ r ∈ rows, r.versions.Perm
    (((c.table kind).itemsOf (Text.lower r.name)).map Item.version)
  newest : ∀ r ∈ rows, ∃ item,
    Selection.newest? Item.version ((c.table kind).itemsOf (Text.lower r.name)) = some item ∧
      r.name = item.displayName ∧ r.package = item.source.name ∧
        ((∀ v ∈ r.versions, v.isNaN = false) → r.versions.getLast? = some item.version)
  versions_ascending : ∀ r ∈ rows, (∀ v ∈ r.versions, v.isNaN = false) →
    r.versions.Pairwise fun v w => v.lt w = true
  versions_numbers : c.loader kind = .manifests → ∀ r ∈ rows, ∀ v ∈ r.versions, v.isNaN = false
  aliases_ascending : ∀ r ∈ rows, r.aliases.Pairwise (· < ·)

section Rows

variable (hw : (c.table kind).WellFormed) (hs : c.Stocked kind)
  (hl : (c.table kind).IsListing items)
include hs hl

theorem lower_displayName_of_listed {x : Item} (hx : x ∈ items) :
    Text.lower x.displayName = x.name :=
  hs.lower_displayName (Selection.newest?_mem (hl.newest x hx))

include hw

theorem versionsOf_listed {x : Item} (hx : x ∈ items) : versionsOf (c.table kind) x.name =
    Selection.versionsOf Item.version ((c.table kind).itemsOf x.name) := by
  have hname := hl.mem_names hx
  have hlower := hs.lower_name hname
  rw [ItemTable.versionsOf_eq, hw.under_of_name (hlower.symm ▸ hname), hlower]

/-- A row shows the newest item of its name, with the versions of all items of the name. -/
theorem exists_newest_of_mem_rows (hr : r ∈ c.rows kind items) : ∃ x ∈ items,
    Selection.newest? Item.version ((c.table kind).itemsOf (Text.lower r.name)) = some x ∧
      r.name = x.displayName ∧ r.package = x.packageName ∧
      r.versions =
        Selection.versionsOf Item.version ((c.table kind).itemsOf (Text.lower r.name)) := by
  obtain ⟨x, hx, rfl⟩ := mem_rows_iff.mp hr
  have hlower := lower_displayName_of_listed hs hl hx
  refine ⟨x, hx, ?_, rfl, rfl, ?_⟩
  · rw [hlower]
    exact hl.newest x hx
  · rw [hlower]
    exact versionsOf_listed hw hs hl hx

theorem shows_rows (hv : c.variants.WellFormed) :
    c.Shows kind (c.rows kind items) where
  ascending := by
    refine List.pairwise_map.mpr (hl.ascending.imp_of_mem fun hx hy hlt => ?_)
    rwa [lower_displayName_of_listed hs hl hx, lower_displayName_of_listed hs hl hy]
  registered key := by
    rw [← hl.names.mem_iff, List.mem_map]
    constructor
    · rintro ⟨x, hx, rfl⟩
      exact ⟨_, mem_rows_iff.mpr ⟨x, hx, rfl⟩, lower_displayName_of_listed hs hl hx⟩
    · rintro ⟨r, hr, rfl⟩
      obtain ⟨x, hx, rfl⟩ := mem_rows_iff.mp hr
      exact ⟨x, hx, (lower_displayName_of_listed hs hl hx).symm⟩
  versions_ne_nil r hr := by
    obtain ⟨x, -, hnewest, -, -, hversions⟩ := exists_newest_of_mem_rows hw hs hl hr
    rw [hversions]
    intro hnil
    rw [Selection.versionsOf_eq_nil_iff, hnewest] at hnil
    cases hnil
  versions_ascending r hr hn := by
    obtain ⟨-, -, -, -, -, hversions⟩ := exists_newest_of_mem_rows hw hs hl hr
    rw [hversions, Selection.forall_mem_versionsOf] at hn
    rw [hversions]
    exact Selection.versionsOf_pairwise (hs.comparable hn)
  versions_numbers hloader r hr v hv := by
    obtain ⟨-, -, -, -, -, hversions⟩ := exists_newest_of_mem_rows hw hs hl hr
    obtain ⟨i, hi, rfl⟩ := Selection.mem_versionsOf.mp (hversions ▸ hv)
    exact Binary64.isNaN_of_isPositive (hs.isPositive hi hloader)
  versions_perm r hr := by
    obtain ⟨-, -, -, -, -, hversions⟩ := exists_newest_of_mem_rows hw hs hl hr
    rw [hversions]
    exact Selection.ascending_perm _
  newest r hr := by
    obtain ⟨x, -, hnewest, hname, hpackage, hversions⟩ := exists_newest_of_mem_rows hw hs hl hr
    refine ⟨x, hnewest, hname,
      hpackage.trans (hs.packageName_eq (Selection.newest?_mem hnewest)), fun hn => ?_⟩
    rw [hversions, Selection.forall_mem_versionsOf] at hn
    have hlast := Selection.newest?_version (hs.comparable hn)
    rw [hnewest, ← hversions] at hlast
    exact hlast.symm
  aliases_ascending r hr := by
    obtain ⟨x, -, rfl⟩ := mem_rows_iff.mp hr
    simp only
    split
    · exact pairwise_aliasesOf hv.aliases_nodup x.name
    · exact List.Pairwise.nil

theorem itemCount_eq_versions :
    (c.table kind).itemCount = ((c.rows kind items).map fun r => r.versions.length).sum := by
  rw [hl.itemCount_eq hw, rows, List.map_map]
  congr 1
  refine List.map_congr_left fun x hx => ?_
  rw [Function.comp_apply, versionsOf_listed hw hs hl hx, Selection.length_versionsOf]

end Rows

/-! ### The aliases of a kind -/

theorem mem_aliases_iff (hs : c.Stocked .variants) (hl : c.variants.IsListing items)
    (hr : r ∈ c.rows .variants items) (key : String) :
    key ∈ r.aliases ↔ (key, Text.lower r.name) ∈ c.variants.aliases := by
  obtain ⟨x, hx, rfl⟩ := mem_rows_iff.mp hr
  simp only [if_true, mem_aliasesOf, lower_displayName_of_listed hs hl hx]

theorem aliases_of_symbols (hr : r ∈ c.rows .symbols items) : r.aliases = [] := by
  obtain ⟨x, -, rfl⟩ := mem_rows_iff.mp hr
  rfl

section Variants

variable (hw : c.variants.WellFormed) (hl : c.variants.IsListing items)
include hw hl

theorem existsUnique_row {pair : String × String} (hpair : pair ∈ c.variants.aliases) :
    ∃! r, r ∈ c.rows .variants items ∧ pair.1 ∈ r.aliases := by
  obtain ⟨x, ⟨hx, hname⟩, honly⟩ := (hl.mem_names_iff pair.2).mp (hw.alias_leads pair hpair)
  refine ⟨_, ⟨mem_rows_iff.mpr ⟨x, hx, rfl⟩, ?_⟩, ?_⟩
  · rw [if_pos rfl, mem_aliasesOf, hname]
    exact hpair
  · rintro r ⟨hr, hmem⟩
    obtain ⟨y, hy, rfl⟩ := mem_rows_iff.mp hr
    simp only [if_true, mem_aliasesOf] at hmem
    have howner := (hw.aliasOwner?_eq_some_iff _ _).mpr hmem
    rw [(hw.aliasOwner?_eq_some_iff _ _).mpr hpair] at howner
    rw [honly y ⟨hy, (Option.some.inj howner).symm⟩]

theorem sum_aliases :
    ((c.rows .variants items).map fun r => r.aliases.length).sum = c.variants.aliases.length := by
  have hnames := hl.names.symm.nodup hw.names_nodup
  have hleads (pair : String × String) (hpair : pair ∈ c.variants.aliases) :
      pair.2 ∈ items.map Item.name := hl.names.mem_iff.mpr (hw.alias_leads pair hpair)
  rw [← sum_length_aliasesOf hnames hleads, rows, List.map_map, List.map_map]
  rfl

end Variants

/-- The counts of a summary are those of rows, of their versions and of their aliases. -/
theorem summary_of_rows {variants symbols : List Item} (hready : c.state = .ready)
    (hw : ∀ kind, (c.table kind).WellFormed) (hs : ∀ kind, c.Stocked kind)
    (hv : c.variants.IsListing variants) (hy : c.symbols.IsListing symbols) :
    c.summary = .ok [
      ("variant_names", .int (c.rows .variants variants).length),
      ("variant_items", .int (((c.rows .variants variants).map fun r =>
        r.versions.length).sum : Nat)),
      ("aliases", .int (((c.rows .variants variants).map fun r => r.aliases.length).sum : Nat)),
      ("symbol_pack_names", .int (c.rows .symbols symbols).length),
      ("symbol_pack_items", .int (((c.rows .symbols symbols).map fun r =>
        r.versions.length).sum : Nat))] := by
  have hlength (kind : PackKind) (items : List Item) : (c.rows kind items).length = items.length :=
    List.length_map _
  have hvariants : c.variants.itemCount = _ :=
    itemCount_eq_versions (hw .variants) (hs .variants) hv
  have hsymbols : c.symbols.itemCount = _ := itemCount_eq_versions (hw .symbols) (hs .symbols) hy
  rw [hlength, hlength, ← hv.size_eq, ← hy.size_eq, ← hvariants, ← hsymbols,
    sum_aliases (hw .variants) hv, summary, requireReady_of_ready hready]
  rfl

end Catalog

namespace GuardedCatalog

/-- A listing that loses and adds nothing: its rows show the tables, each alias stands in one row,
that of the name it leads to, and rows, versions and aliases are as many as the summary says. -/
structure Faithful (c : Catalog) (l : Listing) (aliases : List (String × String)) : Prop where
  variants : c.Shows .variants l.variants
  symbols : c.Shows .symbols l.symbols
  mem_aliases_iff : ∀ r ∈ l.variants, ∀ key, key ∈ r.aliases ↔ (key, Text.lower r.name) ∈ aliases
  existsUnique_row : ∀ pair ∈ aliases, ∃! r, r ∈ l.variants ∧ pair.1 ∈ r.aliases
  aliases_of_symbols : ∀ r ∈ l.symbols, r.aliases = []
  summary : c.summary = .ok [
    ("variant_names", .int l.variants.length),
    ("variant_items", .int ((l.variants.map fun r => r.versions.length).sum : Nat)),
    ("aliases", .int ((l.variants.map fun r => r.aliases.length).sum : Nat)),
    ("symbol_pack_names", .int l.symbols.length),
    ("symbol_pack_items", .int ((l.symbols.map fun r => r.versions.length).sum : Nat))]

/-- Whenever a catalog is ready, whatever loads its packs, it can be listed faithfully. -/
theorem listing_faithful {g : GuardedCatalog} (hg : g.Reached)
    (hready : g.catalog.state = .ready) :
    ∃ l aliases, g.catalog.listing.1 = .ok l ∧ g.catalog.aliases = .ok aliases ∧
      Faithful g.catalog l aliases := by
  have hsane := hg.sane
  have hs := hg.stocked
  have hw (kind : PackKind) := (hsane.upToDate kind).wellFormed
  obtain ⟨items, hitems, hlisting⟩ := Catalog.listing_fst hsane hready
  refine ⟨_, g.catalog.variants.aliases, hlisting, ?_, {
    variants := Catalog.shows_rows (hw .variants) (hs .variants) (hitems .variants) (hw .variants)
    symbols := Catalog.shows_rows (hw .symbols) (hs .symbols) (hitems .symbols) (hw .variants)
    mem_aliases_iff := fun r hr =>
      Catalog.mem_aliases_iff (hs .variants) (hitems .variants) hr
    existsUnique_row := fun pair =>
      Catalog.existsUnique_row (hw .variants) (hitems .variants)
    aliases_of_symbols := fun r => Catalog.aliases_of_symbols
    summary := Catalog.summary_of_rows hready hw hs (hitems .variants) (hitems .symbols) }⟩
  rw [Catalog.aliases, Catalog.requireReady_of_ready hready]
  rfl

/-- The listing of a catalog with one variant that has one alias. -/
theorem listing_faithful_fjord :
    ∃ g : GuardedCatalog, g.Reached ∧ g.catalog.state = .ready ∧ ∃ l, g.catalog.listing.1 = .ok l ∧
      ∃! r, r ∈ l.variants ∧ "old fjord" ∈ r.aliases := by
  have hcreated : Reached ⟨Catalog.fjordCatalog, .initial⟩ :=
    .created (show Catalog.create Catalog.fjordTree Catalog.fjordCatalog.config none _ =
      .ok Catalog.fjordCatalog from rfl)
  let g : GuardedCatalog := ⟨(Catalog.fjordCatalog.rebuild Catalog.fjordTree).1, .initial⟩
  have hg : Reached g := hcreated.rebuilt Catalog.fjordTree "main"
  obtain ⟨hready, haliases⟩ : g.catalog.state = .ready ∧
      g.catalog.aliases.toOption = some [("old fjord", "fjord")] := by
    decide +kernel
  obtain ⟨l, aliases, hlisting, hgiven, hfaithful⟩ := listing_faithful hg hready
  rw [hgiven] at haliases
  obtain rfl := Option.some.inj haliases
  exact ⟨g, hg, hready, l, hlisting, hfaithful.existsUnique_row _ List.mem_cons_self⟩

/-- Two entries of one name whose versions are no numbers, and so not the same. -/
def unnumberedLoader : PackKind → PackLoader
  | .variants => .fixed (some [⟨"Fjord", .nan, [], none⟩, ⟨"Fjord", .nan, [], none⟩])
  | .symbols => .manifests

def unnumberedCatalog : Catalog :=
  .ofNamespace Catalog.fjordCatalog.config none unnumberedLoader

theorem listing_unnumbered :
    ¬ ∀ g : GuardedCatalog, g.Reached → g.catalog.state = .ready →
      ∀ l, g.catalog.listing.1 = .ok l →
        ∀ r ∈ l.variants, r.versions.Pairwise fun v w => v.lt w = true := by
  intro hall
  have hcreated : Reached ⟨unnumberedCatalog, .initial⟩ :=
    .created (show Catalog.create Catalog.fjordTree unnumberedCatalog.config none unnumberedLoader =
      .ok unnumberedCatalog from rfl)
  let g : GuardedCatalog := ⟨(unnumberedCatalog.rebuild Catalog.fjordTree).1, .initial⟩
  have hg : Reached g := hcreated.rebuilt Catalog.fjordTree "main"
  obtain ⟨hready, hversions⟩ : g.catalog.state = .ready ∧
      g.catalog.listing.1.toOption.map (fun l => l.variants.map ListingRow.versions) =
        some [[.nan, .nan]] := by
    decide +kernel
  obtain ⟨l, hlisting, hrows⟩ := toOption_map_eq_some_iff.mp hversions
  obtain ⟨r, hr, hvalues⟩ := List.mem_map.mp (hrows ▸ List.mem_singleton_self _)
  have hpair := hall g hg hready l hlisting r hr
  rw [hvalues] at hpair
  exact absurd hpair (by decide)

end GuardedCatalog

end PackIndex
