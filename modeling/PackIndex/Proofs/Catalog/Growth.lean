import PackIndex.Proofs.Catalog.Coherence
import PackIndex.Proofs.Catalog.History
import PackIndex.Proofs.Manifest.Loading
import PackIndex.Proofs.Registry.Conflict
import PackIndex.Proofs.Registry.Growth

/-!
# Installing more packs

Without a shared namespace a cycle that succeeds admits everything that it is offered. So a catalog
that is built from more archives, wherever they stand among the others, holds all that the smaller
one holds, and no name, alias or version of the smaller one leads elsewhere in it.
-/

namespace PackIndex.Catalog

variable {t t' : FileTree} {c d : Catalog} {kind : PackKind}

/-- An archive that a cycle looks into. -/
def Visits (t : FileTree) (c : Catalog) (kind : PackKind) (l : Location) : Prop :=
  ∃ found, (c.locations t kind).result = .ok found ∧ l ∈ found

/-- The other catalog looks into every archive that this one looks into, and reads the same
there. -/
def Within (t : FileTree) (c : Catalog) (t' : FileTree) (d : Catalog) : Prop :=
  ∀ kind l, c.Visits t kind l →
    d.Visits t' kind l ∧ (d.loadEntries t' kind l).result = (c.loadEntries t kind l).result

theorem Within.offered_subset (h : Within t c t' d) (kind : PackKind) :
    c.offered t kind ⊆ d.offered t' kind := by
  intro s hs
  obtain ⟨found, hfound, l, hl, entries, hload, e, he, hsub⟩ := mem_offered_iff.mp hs
  obtain ⟨⟨found', hfound', hl'⟩, hsame⟩ := h kind l ⟨found, hfound, hl⟩
  exact mem_offered_iff.mpr ⟨found', hfound', l, hl', entries, hsame.trans hload, e, he, hsub⟩

/-- It is enough that the archives are the same, and their manifests have the same name. -/
theorem within_of_readFile (hc : c.Furnished) (hd : d.Furnished)
    (hname : ∀ kind, d.manifestName kind = c.manifestName kind)
    (h : ∀ kind l, c.Visits t kind l → d.Visits t' kind l ∧ t'.readFile l.path = t.readFile l.path) :
    Within t c t' d := by
  intro kind l hl
  obtain ⟨hvisits, hread⟩ := h kind l hl
  refine ⟨hvisits, ?_⟩
  simp only [loadEntries, hc.loader, hd.loader, result_mapError, load_result, hname,
    Manifest.load?_of_readFile hread]

theorem Reached.holds_offered (hc : Reached c) (hshared : c.shared = none)
    (hok : (c.rebuild t).2.result = .ok ()) (kind : PackKind) :
    ((c.rebuild t).1.table kind).Holds (c.offered t kind) := by
  have hholds := holds_rebuild hok kind
  have htol := hc.tolerates_nothing hshared kind
  obtain ⟨-, hbuilt⟩ := rebuild_spec t c
  obtain ⟨-, hsubmit⟩ := hbuilt hok
  rwa [admitted, ItemTable.admittedFrom_eq (ItemTable.holds_clear _) htol (hsubmit kind)] at hholds

/-- A catalog keeps the answers of a smaller one to exact questions. -/
structure Outgrows (c d : Catalog) : Prop where
  exactly : ∀ (kind : PackKind) name selector v item,
    Selector.ofValue selector = .ok (.exactly v) →
    c.get (.str kind.word) (some name) selector true = .ok (some item) →
    d.get (.str kind.word) (some name) selector true = .ok (some item)
  versions : ∀ (kind : PackKind) name, ∃ few many,
    c.versions (.str kind.word) (some name) = .ok few ∧
    d.versions (.str kind.word) (some name) = .ok many ∧ few ⊆ many
  aliases : ∃ few many, c.aliases = .ok few ∧ d.aliases = .ok many ∧
    ∀ key name, few.lookup key = some name → many.lookup key = some name
  newest : ∀ (kind : PackKind) name selector strict item,
    Selector.ofValue selector = .ok .newest →
    c.get (.str kind.word) (some name) selector strict = .ok (some item) →
    ∃ newer, d.get (.str kind.word) (some name) selector strict = .ok (some newer) ∧
      newer.version.lt item.version = false

theorem outgrows_of_under (hc : c.state = .ready) (hd : d.state = .ready)
    (hsound : ∀ kind, (c.table kind).Sound) (hsound' : ∀ kind, (d.table kind).Sound)
    (hunder : ∀ kind name, (c.table kind).under name ⊆ (d.table kind).under name)
    (halias : ∀ key name, c.variants.aliasOwner? key = some name →
      d.variants.aliasOwner? key = some name) : Outgrows c d := by
  have hcomp (kind : PackKind) := (hsound kind).comparable
  have hcomp' (kind : PackKind) := (hsound' kind).comparable
  refine ⟨?_, ?_, ?_, ?_⟩
  · intro kind name selector v item hselector hget
    rw [get_eq_pick? hc hselector, Except.ok.injEq] at hget
    rw [get_eq_pick? hd hselector, Except.ok.injEq]
    exact Selection.pick?_exactly_of_subset (hcomp kind name) (hcomp' kind name)
      (hunder kind name) hget
  · intro kind name
    exact ⟨_, _, versions_of_ready hc kind name, versions_of_ready hd kind name,
      Selection.versionsOf_subset (hunder kind name)⟩
  · refine ⟨c.variants.aliases, d.variants.aliases, ?_, ?_, halias⟩
    · rw [aliases, requireReady_of_ready hc]
      rfl
    · rw [aliases, requireReady_of_ready hd]
      rfl
  · intro kind name selector strict item hselector hget
    rw [get_eq_pick? hc hselector, Except.ok.injEq] at hget
    obtain ⟨newer, hnewer, hlt⟩ := Selection.newest?_of_subset (hcomp kind name)
      (hcomp' kind name) (hunder kind name) hget
    refine ⟨newer, ?_, hlt⟩
    rw [get_eq_pick? hd hselector, Except.ok.injEq]
    exact hnewer

/-- Of two catalogs without a shared namespace, both built without error, the one whose archives
contain those of the other keeps all its answers to exact questions. -/
theorem rebuild_outgrows (hc : Reached c) (hd : Reached d) (hshared : c.shared = none)
    (hshared' : d.shared = none) (hok : (c.rebuild t).2.result = .ok ())
    (hok' : (d.rebuild t').2.result = .ok ()) (hwithin : Within t c t' d) :
    Outgrows (c.rebuild t).1 (d.rebuild t').1 := by
  have hready := ((rebuild_spec t c).2 hok).1
  have hready' := ((rebuild_spec t' d).2 hok').1
  have hholds := hc.holds_offered hshared hok
  have hholds' := hd.holds_offered hshared' hok'
  have hoffered := hwithin.offered_subset
  have hkind (kind : PackKind) :
      ((d.rebuild t').1.table kind).kind = ((c.rebuild t).1.table kind).kind :=
    ((hd.rebuilt t').furnished.kinds kind).trans ((hc.rebuilt t).furnished.kinds kind).symm
  have hallow (kind : PackKind) :
      ((d.rebuild t').1.table kind).allowAliases = ((c.rebuild t).1.table kind).allowAliases := by
    have hclear := congrArg ItemTable.allowAliases ((hc.rebuilt t).rooted.cleared kind)
    have hclear' := congrArg ItemTable.allowAliases ((hd.rebuilt t').rooted.cleared kind)
    exact hclear'.trans hclear.symm
  refine outgrows_of_under hready hready' (hc.rebuilt t).sound (hd.rebuilt t').sound ?_ ?_
  · intro kind name
    exact (hholds kind).under_subset (hholds' kind) (hoffered kind) (hkind kind) (hallow kind) name
  · intro key name ha
    exact (hholds .variants).aliasOwner?_of_subset (hholds' .variants) (hoffered .variants)
      (hallow .variants) ha

/-- Two directories with a pack each. -/
def northSouthTree : FileTree :=
  ⟨.dir [("north", .dir [("NorthVariant.zip",
      .file (.archive ⟨[⟨"variants.json", fjordManifest.toUTF8.toList, none⟩]⟩))]),
    ("south", .dir [("SouthVariant.zip",
      .file (.archive ⟨[⟨"variants.json", deltaManifest.toUTF8.toList, none⟩]⟩))])], []⟩

def southVariant : Location := .ofParts ["south", "SouthVariant.zip"]

/-- A new catalog that looks into these directories and does without symbol packs. -/
def catalogOver (dirs : List String) : Catalog :=
  ofNamespace { CatalogConfig.default with
    searchPaths := dirs.map fun dir => .ofParts [dir], requireSymbolPacks := false } none
    fun _ => .manifests

theorem reached_catalogOver (dirs : List String) : Reached (catalogOver dirs) :=
  .created (show create northSouthTree (catalogOver dirs).config none _ = .ok (catalogOver dirs)
    from rfl)

theorem visits_southVariant {l : Location}
    (h : (catalogOver ["south"]).Visits northSouthTree kind l) :
    l = southVariant ∧ (catalogOver ["north", "south"]).Visits northSouthTree kind l := by
  obtain ⟨found, hfound, hl⟩ := h
  have hsouth : ∀ kind, ((catalogOver ["south"]).locations northSouthTree kind).result.toOption =
      some (if kind = .variants then [southVariant] else []) := by
    intro kind
    cases kind <;> decide +kernel
  have hlist := hsouth kind
  rw [hfound] at hlist
  obtain rfl := Option.some.inj hlist
  cases kind with
  | symbols => cases hl
  | variants =>
    obtain rfl := List.mem_singleton.mp hl
    have hboth : (((catalogOver ["north", "south"]).locations northSouthTree
        .variants).result.toOption.map fun found => decide (southVariant ∈ found)) = some true := by
      decide +kernel
    cases hresult : ((catalogOver ["north", "south"]).locations northSouthTree .variants).result with
    | error e =>
      rw [hresult] at hboth
      cases hboth
    | ok found' =>
      rw [hresult] at hboth
      exact ⟨rfl, found', hresult, of_decide_eq_true (Option.some.inj hboth)⟩

/-- A directory is put in front of the only one. -/
theorem rebuild_outgrows_south :
    Within northSouthTree (catalogOver ["south"]) northSouthTree (catalogOver ["north", "south"]) ∧
      Outgrows ((catalogOver ["south"]).rebuild northSouthTree).1
        ((catalogOver ["north", "south"]).rebuild northSouthTree).1 := by
  have hwithin : Within northSouthTree (catalogOver ["south"]) northSouthTree
      (catalogOver ["north", "south"]) :=
    within_of_readFile (reached_catalogOver _).furnished (reached_catalogOver _).furnished
      (fun kind => by cases kind <;> rfl) fun kind l hl => ⟨(visits_southVariant hl).2, rfl⟩
  exact ⟨hwithin, rebuild_outgrows (reached_catalogOver _) (reached_catalogOver _) rfl rfl
    (eq_ok_of_isOk (by decide +kernel)) (eq_ok_of_isOk (by decide +kernel)) hwithin⟩

end PackIndex.Catalog
