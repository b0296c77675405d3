import PackIndex.Proofs.Catalog.InPlace
import PackIndex.Proofs.Catalog.Reachability
import PackIndex.Proofs.Registry.Listing

/-!
# One catalog in all its answers

Listing, looking up, versions and counts answer from different data: from what was remembered of
listings, from the groups, and from both tables. At any point of the life of a catalog that reads
manifests, memory is empty or up to date and versions are positive. So whenever it is ready, its
answers are of one piece.
-/

namespace PackIndex.Catalog

variable {t : FileTree} {c : Catalog} {kind : PackKind}

/-! ### Tables stay sound -/

theorem Furnished.sound_rebuild (h : c.Furnished) (t : FileTree) (kind : PackKind) :
    ((c.rebuild t).1.table kind).Sound := by
  rcases rebuild_cases t c with ⟨d, -, -, hresult⟩ | ⟨left, e, -, hleft, -⟩
  · have hholds := holds_rebuild hresult kind
    obtain ⟨-, hbuilt⟩ := rebuild_spec t c
    obtain ⟨-, hsubmit⟩ := hbuilt hresult
    obtain ⟨-, hset⟩ := (ItemTable.holds_clear _).submitAll (hsubmit kind)
    exact hholds.sound (fun s hs => (h.describes (offered_of_admitted hs)).isPositive) hset.snapshot
  · have hclear : (left.failed e).table kind = (left.table kind).clear :=
      table_clearTables left kind
    rw [hleft, hclear]
    exact ItemTable.sound_clear _

theorem sound_latest (h : ∀ kind, (c.table kind).Sound) (listed kind : PackKind) :
    ((c.latest listed).2.table kind).Sound := by
  unfold latest
  split
  · exact h kind
  · by_cases hkind : kind = listed
    · rw [hkind, table_setTable_self]
      exact (h listed).latest
    · rw [table_setTable_of_ne hkind]
      exact h kind

theorem sound_ofNamespace (config : CatalogConfig) (shared : Option SharedNamespace)
    (loader : PackKind → PackLoader) (kind : PackKind) :
    ((ofNamespace config shared loader).table kind).Sound := by
  cases kind with
  | variants => exact ItemTable.sound_empty .variants shared.isSome
  | symbols => exact ItemTable.sound_empty .symbols shared.isSome

theorem Reached.sound (h : Reached c) : ∀ kind, (c.table kind).Sound := by
  refine h.invariant (P := fun c => ∀ kind, (c.table kind).Sound) ?_ ?_ ?_ ?_
  · exact fun config ns _ => sound_ofNamespace config ns _
  · exact fun c t hc _ => hc.furnished.sound_rebuild t
  · exact fun c listed ih => sound_latest ih listed
  · exact fun c m ih => ih

/-! ### Asking a ready catalog -/

section Ready

variable (hready : c.state = .ready)
include hready

theorem list_of_ready (kind : PackKind) :
    (c.list (.str kind.word)).1 = (c.table kind).latest.1.mapError .registry := by
  simp only [list, latest, requireReady_of_ready hready, kindOf_word]

theorem get_eq_pick? {value : Value} {selector : Selector}
    (hvalue : Selector.ofValue value = .ok selector) (kind : PackKind) (name : String)
    (strict : Bool) : c.get (.str kind.word) (some name) value strict =
      .ok (Selection.pick? Item.version strict ((c.table kind).under name) selector) := by
  rw [get_of_ready hready hvalue, ← ItemTable.lookup_eq]
  rfl

theorem versions_of_ready (kind : PackKind) (name : String) :
    c.versions (.str kind.word) (some name) =
      .ok (Selection.versionsOf Item.version ((c.table kind).under name)) := by
  rw [versions, requireReady_of_ready hready, kindOf_word, ← ItemTable.versionsOf_eq]
  rfl

theorem get_newest (kind : PackKind) (name : String) :
    c.get (.str kind.word) (some name) (.sentinel .newest) false =
      .ok (Selection.newest? Item.version ((c.table kind).under name)) :=
  get_eq_pick? hready (show Selector.ofValue (.sentinel .newest) = .ok .newest from rfl) kind name
    false

theorem get_oldest (kind : PackKind) (name : String) :
    c.get (.str kind.word) (some name) (.sentinel .oldest) false =
      .ok (Selection.oldest? Item.version ((c.table kind).under name)) :=
  get_eq_pick? hready (show Selector.ofValue (.sentinel .oldest) = .ok .oldest from rfl) kind name
    false

section Comparable

variable {name : String} (hcomp : Selection.Comparable Item.version ((c.table kind).under name))
include hcomp

theorem hasVersion_of_ready {v : Version} (hv : v.isPositive = true) :
    c.hasVersion (.str kind.word) (some name) (.float v) = .ok
      (decide (v ∈ Selection.versionsOf Item.version ((c.table kind).under name))) := by
  rw [hasVersion, get_eq_pick? hready (Selector.ofValue_float hv)]
  by_cases hmem : v ∈ Selection.versionsOf Item.version ((c.table kind).under name)
  · obtain ⟨x, -, -, -, hpick⟩ := Selection.pick?_of_mem hcomp hmem true
    rw [hpick, decide_eq_true hmem]
    rfl
  · rw [Selection.pick?_of_not_mem hcomp hv hmem, decide_eq_false hmem]
    rfl

/-- The first and the last of the versions are those of the oldest and the newest item. -/
theorem exists_ends_of_ready
    (hne : Selection.versionsOf Item.version ((c.table kind).under name) ≠ []) :
    ∃ newest oldest,
      c.get (.str kind.word) (some name) (.sentinel .newest) false = .ok (some newest) ∧
      c.get (.str kind.word) (some name) (.sentinel .oldest) false = .ok (some oldest) ∧
      (Selection.versionsOf Item.version ((c.table kind).under name)).getLast? =
        some newest.version ∧
      (Selection.versionsOf Item.version ((c.table kind).under name)).head? =
        some oldest.version := by
  obtain ⟨newest, oldest, hn, ho, hlast, hhead⟩ := Selection.exists_ends hcomp hne
  exact ⟨newest, oldest, by rw [get_newest hready, hn], by rw [get_oldest hready, ho], hlast, hhead⟩

theorem exists_get_of_mem {v : Version} (hv : v.isPositive = true)
    (hmem : v ∈ Selection.versionsOf Item.version ((c.table kind).under name)) :
    ∃ item ∈ (c.table kind).under name, item.version = v ∧
      (∀ other ∈ (c.table kind).under name, other.version = v → other = item) ∧
      c.get (.str kind.word) (some name) (.float v) false = .ok (some item) := by
  obtain ⟨x, hx, hversion, honly, hpick⟩ := Selection.pick?_of_mem hcomp hmem false
  refine ⟨x, hx, hversion, honly, ?_⟩
  rw [get_eq_pick? hready (Selector.ofValue_float hv), hpick]

theorem get_of_not_mem {v : Version} (hv : v.isPositive = true)
    (hmem : v ∉ Selection.versionsOf Item.version ((c.table kind).under name)) :
    c.get (.str kind.word) (some name) (.float v) false =
      c.get (.str kind.word) (some name) (.sentinel .newest) false := by
  rw [get_newest hready, get_eq_pick? hready (Selector.ofValue_float hv),
    Selection.pick?_of_not_mem hcomp hv hmem]
  rfl

end Comparable

end Ready

/-! ### Answers of one piece -/

/-- The answers about the packs of a kind fit together: a listing of the newest item of each name,
and the versions behind any name or alias. -/
structure Coherent (c : Catalog) (kind : PackKind) (listing : List Item)
    (versions : String → List Version) : Prop where
  lists : (c.list (.str kind.word)).1 = .ok listing
  versions_of : ∀ name, c.versions (.str kind.word) (some name) = .ok (versions name)
  ascending : ∀ name, (versions name).Pairwise fun v w => v.lt w = true
  unknown : ∀ name, versions name = [] ↔
    c.get (.str kind.word) (some name) (.sentinel .newest) false = .ok none
  ends : ∀ name, versions name ≠ [] → ∃ newest oldest,
    c.get (.str kind.word) (some name) (.sentinel .newest) false = .ok (some newest) ∧
    c.get (.str kind.word) (some name) (.sentinel .oldest) false = .ok (some oldest) ∧
    (versions name).getLast? = some newest.version ∧ (versions name).head? = some oldest.version
  has : ∀ name v, v.isPositive = true →
    c.hasVersion (.str kind.word) (some name) (.float v) = .ok (decide (v ∈ versions name))
  exactly : ∀ name v, v.isPositive = true → v ∈ versions name →
    ∃ item ∈ (c.table kind).under name, item.version = v ∧
      (∀ other ∈ (c.table kind).under name, other.version = v → other = item) ∧
      c.get (.str kind.word) (some name) (.float v) false = .ok (some item)
  otherwise : ∀ name v, v.isPositive = true → v ∉ versions name →
    c.get (.str kind.word) (some name) (.float v) false =
      c.get (.str kind.word) (some name) (.sentinel .newest) false
  by_name : listing.Pairwise fun x y => x.name < y.name
  registered : ∀ name, name ∈ (c.table kind).names ↔ ∃! x, x ∈ listing ∧ x.name = name
  no_alias : ∀ x ∈ listing, (c.table kind).aliasOwner? x.name = none
  newest : ∀ x ∈ listing,
    c.get (.str kind.word) (some x.name) (.sentinel .newest) false = .ok (some x)

theorem coherent_of_sound (hsound : (c.table kind).Sound) (hready : c.state = .ready)
    {listing : List Item} (hlist : (c.table kind).latest.1 = .ok listing)
    (hl : (c.table kind).IsListing listing) : c.Coherent kind listing fun name =>
      Selection.versionsOf Item.version ((c.table kind).under name) := by
  have hcomp := hsound.comparable
  exact
    { lists := by rw [list_of_ready hready, hlist]; rfl
      versions_of := versions_of_ready hready kind
      ascending := fun name => Selection.versionsOf_pairwise (hcomp name)
      unknown := fun name => by
        rw [get_newest hready, Except.ok.injEq]
        exact Selection.versionsOf_eq_nil_iff
      ends := fun name => exists_ends_of_ready hready (hcomp name)
      has := fun name v => hasVersion_of_ready hready (hcomp name)
      exactly := fun name v => exists_get_of_mem hready (hcomp name)
      otherwise := fun name v => get_of_not_mem hready (hcomp name)
      by_name := hl.ascending
      registered := hl.mem_names_iff
      no_alias := fun x hx => hsound.wellFormed.aliasOwner?_of_name (hl.mem_names hx)
      newest := fun x hx => by
        rw [get_newest hready, hsound.under_listed hl hx, hl.newest x hx] }

/-- Whenever a catalog that reads manifests is ready, its answers about each kind fit together, and
the counts of its summary are those of its listings, of their versions and of its aliases. -/
theorem ready_coherent (hc : Reached c) (hready : c.state = .ready) :
    ∃ (listing : PackKind → List Item) (versions : PackKind → String → List Version)
      (aliases : List (String × String)),
      (∀ kind, c.Coherent kind (listing kind) (versions kind)) ∧
      c.aliases = .ok aliases ∧ (aliases.map Prod.fst).Nodup ∧
      (∀ x ∈ listing .variants, x.name ∉ aliases.map Prod.fst) ∧
      c.summary = .ok [
        ("variant_names", .int (listing .variants).length),
        ("variant_items", .int (((listing .variants).map fun x =>
          (versions .variants x.name).length).sum : Nat)),
        ("aliases", .int aliases.length),
        ("symbol_pack_names", .int (listing .symbols).length),
        ("symbol_pack_items", .int (((listing .symbols).map fun x =>
          (versions .symbols x.name).length).sum : Nat))] := by
  have hsound := hc.sound
  choose listing hlatest hlisting using fun kind => (hsound kind).listing
  refine ⟨listing, fun kind name =>
    Selection.versionsOf Item.version ((c.table kind).under name), c.variants.aliases,
    fun kind => coherent_of_sound (hsound kind) hready (hlatest kind) (hlisting kind), ?_,
    (hsound .variants).wellFormed.aliases_nodup, ?_, ?_⟩
  · rw [Catalog.aliases, requireReady_of_ready hready]
    rfl
  · intro x hx halias
    obtain ⟨pair, hpair, hname⟩ := List.mem_map.mp halias
    have hnot := (hsound .variants).wellFormed.alias_not_name pair hpair
    exact hnot (hname ▸ (hlisting .variants).mem_names hx)
  · have hsize (kind : PackKind) := (hlisting kind).size_eq
    have hcount (kind : PackKind) := (hsound kind).itemCount_eq (hlisting kind)
    rw [← hsize, ← hsize, ← hcount, ← hcount, summary, requireReady_of_ready hready]
    rfl

/-- Builds the catalog and lists it, fails over a tree without packs, and builds it again over packs
with one other variant. -/
def fjordHistory : List (FileTree × Call) :=
  [(fjordTree, .rebuild), (fjordTree, .ask (.list (.str "variants"))), (⟨.dir [], []⟩, .rebuild),
    (deltaTree, .rebuild)]

theorem ready_coherent_fjord :
    Reached (fjordCatalog.session fjordHistory).2 ∧
      (fjordCatalog.session fjordHistory).2.state = .ready ∧
      ∃ listing versions, (fjordCatalog.session fjordHistory).2.Coherent .variants listing versions ∧
        listing.map Item.name = ["delta"] := by
  have hreached := reached_fjordCatalog.session fjordHistory
  obtain ⟨hready, hnames⟩ : (fjordCatalog.session fjordHistory).2.state = .ready ∧
      (((fjordCatalog.session fjordHistory).2.list (.str PackKind.variants.word)).1.toOption.map
        fun items => items.map Item.name) = some ["delta"] := by
    decide +kernel
  obtain ⟨listing, versions, -, hcoherent, -⟩ := ready_coherent hreached hready
  refine ⟨hreached, hready, listing .variants, versions .variants, hcoherent .variants, ?_⟩
  rw [(hcoherent .variants).lists] at hnames
  exact Option.some.inj hnames

end PackIndex.Catalog
