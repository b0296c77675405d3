import PackIndex.Proofs.Catalog.Lifetime
import PackIndex.Proofs.Registry.Listing

/-!
# Which symbol pack a map is drawn with

A ready catalog that has symbol packs always finds one. It is the named pack, if there is one of the
name, in the version asked for or else the newest; then the newest of the pack that the map prefers;
then the newest of the first pack by name.
-/

namespace PackIndex

namespace ItemTable

variable {t : ItemTable} {name preferred : Option String} {selector : Selector} {key : String}
  {item : Item}

/-- A name is given, and the table has items under its key. -/
def Registers (t : ItemTable) (name : Option String) (key : String) : Prop :=
  ∃ given, name = some given ∧ key = Text.lower given ∧ key ∈ t.names

theorem Registers.mem_names (h : t.Registers name key) : key ∈ t.names := by
  obtain ⟨-, -, -, hkey⟩ := h
  exact hkey

def IsNewest (t : ItemTable) (key : String) (item : Item) : Prop :=
  item ∈ t.itemsOf key ∧ ∀ other ∈ t.itemsOf key, item.version.lt other.version = false

def IsOldest (t : ItemTable) (key : String) (item : Item) : Prop :=
  item ∈ t.itemsOf key ∧ ∀ other ∈ t.itemsOf key, other.version.lt item.version = false

/-- The item that a table has for a name and a version, a preferred name, or neither. -/
inductive Chooses (t : ItemTable) (name preferred : Option String) (selector : Selector) :
    Item → Prop where
  | exactly {key : String} {v : Version} {item : Item} : t.Registers name key →
      selector = .exactly v → item ∈ t.itemsOf key → item.version = v →
      (∀ other ∈ t.itemsOf key, other.version = v → other = item) →
      Chooses t name preferred selector item
  | oldest {key : String} {item : Item} : t.Registers name key → selector = .oldest →
      t.IsOldest key item → Chooses t name preferred selector item
  | newest {key : String} {item : Item} : t.Registers name key → selector ≠ .oldest →
      (∀ v, selector = .exactly v → ∀ other ∈ t.itemsOf key, other.version ≠ v) →
      t.IsNewest key item → Chooses t name preferred selector item
  | preferred {key : String} {item : Item} : (∀ key, ¬ t.Registers name key) →
      t.Registers preferred key → t.IsNewest key item → Chooses t name preferred selector item
  | first {key : String} {item : Item} : (∀ key, ¬ t.Registers name key) →
      (∀ key, ¬ t.Registers preferred key) → key ∈ t.names → (∀ other ∈ t.names, key ≤ other) →
      t.IsNewest key item → Chooses t name preferred selector item

theorem Chooses.registered (h : t.Chooses name preferred selector item) :
    ∃ key ∈ t.names, item ∈ t.itemsOf key := by
  cases h with
  | exactly hname _ hmem => exact ⟨_, hname.mem_names, hmem⟩
  | oldest hname _ hitem => exact ⟨_, hname.mem_names, hitem.1⟩
  | newest hname _ _ hitem => exact ⟨_, hname.mem_names, hitem.1⟩
  | preferred _ hname hitem => exact ⟨_, hname.mem_names, hitem.1⟩
  | first _ _ hkey _ hitem => exact ⟨_, hkey, hitem.1⟩

section Items

variable (h : t.WellFormed)
include h

theorem exists_newest (hkey : key ∈ t.names) :
    ∃ item, Selection.newest? Item.version (t.itemsOf key) = some item ∧ t.IsNewest key item := by
  obtain ⟨item, hitem⟩ := Option.isSome_iff_exists.mp
    ((Selection.newest?_isSome Item.version _).mpr ((h.itemsOf_ne_nil_iff key).mpr hkey))
  exact ⟨item, hitem, Selection.newest?_mem hitem, Selection.newest?_spec hitem⟩

theorem exists_oldest (hkey : key ∈ t.names) :
    ∃ item, Selection.oldest? Item.version (t.itemsOf key) = some item ∧ t.IsOldest key item := by
  obtain ⟨item, hitem⟩ := Option.isSome_iff_exists.mp
    ((Selection.oldest?_isSome Item.version _).mpr ((h.itemsOf_ne_nil_iff key).mpr hkey))
  exact ⟨item, hitem, Selection.oldest?_mem hitem, Selection.oldest?_spec hitem⟩

theorem find?_cases {v : Version} (hv : v.isPositive = true) (key : String) :
    (∃ item ∈ t.itemsOf key, Selection.find? Item.version v (t.itemsOf key) = some item ∧
      item.version = v ∧ ∀ other ∈ t.itemsOf key, other.version = v → other = item) ∨
    (Selection.find? Item.version v (t.itemsOf key) = none ∧
      ∀ other ∈ t.itemsOf key, other.version ≠ v) := by
  have hself := (Binary64.same_self_iff v).mpr (Binary64.isNaN_of_isPositive hv)
  have hiff := Selection.find?_eq_some_iff (h.differ_itemsOf key) v
  cases hfind : Selection.find? Item.version v (t.itemsOf key) with
  | none =>
    refine Or.inr ⟨rfl, fun other hother hversion => ?_⟩
    have hsome := (hiff other).mpr ⟨hother, hversion ▸ hself⟩
    rw [hfind] at hsome
    cases hsome
  | some item =>
    obtain ⟨hmem, hsame⟩ := (hiff item).mp hfind
    have hversion : v = item.version := Binary64.eq_of_same hv (Binary64.same_symm hsame)
    refine Or.inl ⟨item, hmem, rfl, hversion.symm, fun other hother hother' => ?_⟩
    have hsome := (hiff other).mpr ⟨hother, hother' ▸ hself⟩
    exact Option.some.inj (hsome.symm.trans hfind)

theorem lookup_of_mem_names {given : String} (hkey : Text.lower given ∈ t.names)
    (selector : Selector) (strict : Bool) : Catalog.lookup t (some given) selector strict =
      Selection.pick? Item.version strict (t.itemsOf (Text.lower given)) selector := by
  rw [lookup_eq, h.under_of_name hkey]

variable (hallow : t.allowAliases = false)
include hallow

/-- A table without aliases finds nothing under a name that it does not have. -/
theorem lookup_of_not_registers (hname : ∀ key, ¬ t.Registers name key) (selector : Selector)
    (strict : Bool) : Catalog.lookup t name selector strict = none := by
  cases name with
  | none => rfl
  | some given =>
    have hkey : Text.lower given ∉ t.names := fun hmem => hname _ ⟨given, rfl, rfl, hmem⟩
    have hholder : t.holder? (Text.lower given) = none := by
      refine (h.holder?_eq_none_iff _).mpr ⟨?_, hkey⟩
      rw [aliasOwner?, h.aliases_allowed hallow]
      rfl
    rw [Catalog.lookup, Option.bind_some, h.group?_eq, hholder]
    rfl

end Items

/-! ### Along the chain -/

section Chain

variable (h : t.WellFormed) (hpositive : ∀ v, selector = .exactly v → v.isPositive = true)
include h

include hpositive in
theorem choosePack_of_registers (hname : t.Registers name key) (preferred : Option String) :
    ∃ item, Catalog.choosePack t name selector preferred = some item ∧
      t.Chooses name preferred selector item := by
  have hregisters := hname
  obtain ⟨given, rfl, rfl, hkey⟩ := hname
  obtain ⟨newest, hnewest, hnewest'⟩ := exists_newest h hkey
  obtain ⟨oldest, holdest, holdest'⟩ := exists_oldest h hkey
  simp only [Catalog.choosePack, lookup_of_mem_names h hkey, Selection.pick?, hnewest]
  cases selector with
  | sentinel s =>
    cases s with
    | newest =>
      refine ⟨newest, rfl, .newest hregisters ?_ ?_ hnewest'⟩
      · rintro ⟨⟩
      · rintro w ⟨⟩
    | oldest => exact ⟨oldest, by simp [holdest], .oldest hregisters rfl holdest'⟩
  | exactly v =>
    rcases find?_cases h (hpositive v rfl) (Text.lower given) with
      ⟨item, hmem, hfind, hversion, honly⟩ | ⟨hfind, hnone⟩
    · exact ⟨item, by simp [hfind], .exactly hregisters rfl hmem hversion honly⟩
    · refine ⟨newest, by simp [hfind], .newest hregisters ?_ ?_ hnewest'⟩
      · rintro ⟨⟩
      · rintro w ⟨⟩
        exact hnone

variable (hallow : t.allowAliases = false) (hname : ∀ key, ¬ t.Registers name key)
include hallow hname

theorem choosePack_of_preferred (hpreferred : t.Registers preferred key) (selector : Selector) :
    ∃ item, Catalog.choosePack t name selector preferred = some item ∧
      t.Chooses name preferred selector item := by
  have hregisters := hpreferred
  obtain ⟨given, rfl, rfl, hkey⟩ := hpreferred
  obtain ⟨newest, hnewest, hnewest'⟩ := exists_newest h hkey
  refine ⟨newest, ?_, .preferred hname hregisters hnewest'⟩
  simp [Catalog.choosePack, lookup_of_not_registers h hallow hname, lookup_of_mem_names h hkey,
    Selection.pick?, hnewest]

theorem choosePack_of_neither (hpreferred : ∀ key, ¬ t.Registers preferred key)
    (selector : Selector) : Catalog.choosePack t name selector preferred = none := by
  simp [Catalog.choosePack, lookup_of_not_registers h hallow hname,
    lookup_of_not_registers h hallow hpreferred]

end Chain

/-- The listing of a table that is not empty begins with the newest item of the first name. -/
theorem UpToDate.latest_first (h : t.UpToDate) (hsize : t.size ≠ 0) :
    ∃ first rest, t.latest.1 = .ok (first :: rest) ∧ first.name ∈ t.names ∧
      (∀ other ∈ t.names, first.name ≤ other) ∧ t.IsNewest first.name first := by
  obtain ⟨items, hitems, hlatest, -⟩ := h.wellFormed.latest_eq h.remembers
  have hl := h.wellFormed.isListing hitems
  cases hlisting : byName items with
  | nil =>
    rw [hlisting] at hl
    exact absurd hl.size_eq hsize
  | cons first rest =>
    rw [hlisting] at hl hlatest
    have hnewest := hl.newest first List.mem_cons_self
    refine ⟨first, rest, hlatest, hl.mem_names List.mem_cons_self, fun other hother => ?_,
      Selection.newest?_mem hnewest, Selection.newest?_spec hnewest⟩
    obtain ⟨item, ⟨hmem, rfl⟩, -⟩ := (hl.mem_names_iff other).mp hother
    rcases List.mem_cons.mp hmem with rfl | hmem
    · exact String.le_refl _
    · exact String.lt_asymm ((List.pairwise_cons.mp hl.ascending).1 item hmem)

end ItemTable

namespace Catalog

variable {c : Catalog} {version : Value} {selector : Selector}

/-- What a version asks for: sentinels and positive numbers mean themselves, and numbers that are not
positive the newest pack. -/
inductive Asks : Value → Selector → Prop where
  | sentinel (s : Sentinel) : Asks (.sentinel s) (.sentinel s)
  | exactly {v : Version} : v.isPositive = true → Asks (.float v) (.exactly v)
  | integer {n : Int} : n ≤ 0 → Asks (.int n) .newest
  | float {v : Version} : v.isNaN = false → v.isPositive = false → Asks (.float v) .newest

theorem Asks.ofValue (h : Asks version selector) : Selector.ofValue
    (if isNonPositiveNumber version then .sentinel .newest else version) = .ok selector := by
  cases h with
  | sentinel s => rfl
  | exactly hv => simp [isNonPositiveNumber, hv, Selector.ofValue_float hv]
  | @integer n hn =>
    have hignored : isNonPositiveNumber (.int n) = true := decide_eq_true hn
    rw [if_pos hignored]
    rfl
  | @float v hnumber hv =>
    have hignored : isNonPositiveNumber (.float v) = true := by
      simp [isNonPositiveNumber, hnumber, hv]
    rw [if_pos hignored]
    rfl

theorem Asks.isPositive (h : Asks version selector) {v : Version} (hv : selector = .exactly v) :
    v.isPositive = true := by
  cases h with
  | exactly hpositive =>
    obtain rfl := Selector.exactly.inj hv
    exact hpositive
  | sentinel | integer | float => cases hv

theorem Sane.symbolPack_chooses (h : c.Sane) (hready : c.state = .ready) (hsize : c.symbols.size ≠ 0)
    (map : MapStyle) (name : Option String) (hversion : Asks version selector) :
    ∃ item, (c.symbolPack (some map) name version).1.result = .ok item ∧
      c.symbols.Chooses name map.preferredPack selector item := by
  have hupToDate : c.symbols.UpToDate := h.upToDate .symbols
  have hwell := hupToDate.wellFormed
  have hpositive : ∀ v, selector = .exactly v → v.isPositive = true := fun _ => hversion.isPositive
  rw [symbolPack_fst, hversion.ofValue, requireReady_of_ready hready]
  by_cases hname : ∃ key, c.symbols.Registers name key
  · obtain ⟨key, hkey⟩ := hname
    obtain ⟨item, hchoose, hitem⟩ :=
      ItemTable.choosePack_of_registers hwell hpositive hkey map.preferredPack
    exact ⟨item, by simp only [Except.mapError, ok_bind, hchoose], hitem⟩
  · rw [not_exists] at hname
    by_cases hpreferred : ∃ key, c.symbols.Registers map.preferredPack key
    · obtain ⟨key, hkey⟩ := hpreferred
      obtain ⟨item, hchoose, hitem⟩ :=
        ItemTable.choosePack_of_preferred hwell h.no_alias hname hkey selector
      exact ⟨item, by simp only [Except.mapError, ok_bind, hchoose], hitem⟩
    · rw [not_exists] at hpreferred
      obtain ⟨first, rest, hlatest, hmem, hleast, hnewest⟩ := hupToDate.latest_first hsize
      have hlisted : (c.latest .symbols).1 = .ok (first :: rest) := by
        rw [latest_fst, requireReady_of_ready hready, ok_bind]
        exact congrArg (Except.mapError QueryError.registry) hlatest
      have hneither :=
        ItemTable.choosePack_of_neither hwell h.no_alias hname hpreferred selector
      refine ⟨first, ?_, .first hname hpreferred hmem hleast hnewest⟩
      simp only [Except.mapError, ok_bind, hneither, hlisted]
      rfl

end Catalog

/-- Whenever a catalog is ready and has symbol packs, as it must if they are required, it has one for
every map, name and version. -/
theorem GuardedCatalog.symbolPack_chosen {g : GuardedCatalog} (hg : g.Reached)
    (hready : g.catalog.state = .ready)
    (hpacks : g.catalog.symbols.size ≠ 0 ∨ g.catalog.config.requireSymbolPacks = true)
    (map : Catalog.MapStyle) (name : Option String) {version : Value} {selector : Selector}
    (hversion : Catalog.Asks version selector) :
    ∃ item, (g.catalog.symbolPack (some map) name version).1.result = .ok item ∧
      (∃ key ∈ g.catalog.symbols.names, item ∈ g.catalog.symbols.itemsOf key) ∧
      g.catalog.symbols.Chooses name map.preferredPack selector item := by
  have hsane := hg.sane
  have hsize : g.catalog.symbols.size ≠ 0 := by
    rcases hpacks with hsize | hrequired
    · exact hsize
    · exact hsane.furnished hready .symbols (Or.inr hrequired)
  obtain ⟨item, hresult, hchooses⟩ := hsane.symbolPack_chooses hready hsize map name hversion
  exact ⟨item, hresult, hchooses.registered, hchooses⟩

/-- Entries of symbol packs that a loader given from outside finds everywhere. -/
def tilesLoader : PackKind → PackLoader
  | .variants => .manifests
  | .symbols => .fixed (some [⟨"Tiles", .ofInt 1, [], none⟩, ⟨"Tiles", .ofInt 2, [], none⟩,
      ⟨"Arrows", .ofInt 1, [], none⟩])

def tilesCatalog : Catalog :=
  .ofNamespace { CatalogConfig.default with
    searchPaths := [.ofParts []], symbolSuffixes := ["Variant.zip"] } none tilesLoader

/-- A version that is not there, under a name in another case: the newest of the name. -/
theorem GuardedCatalog.symbolPack_chosen_tiles :
    ∃ g : GuardedCatalog, g.Reached ∧ g.catalog.state = .ready ∧ ∃ item : Item,
      (g.catalog.symbolPack (some ⟨none⟩) (some "TILES") (.float (.ofInt 3))).1.result = .ok item ∧
      item.displayName = "Tiles" ∧ item.version = .ofInt 2 ∧
      g.catalog.symbols.Chooses (some "TILES") none (.exactly (.ofInt 3)) item := by
  have hcreated : Reached ⟨tilesCatalog, .initial⟩ :=
    .created (show Catalog.create Catalog.fjordTree tilesCatalog.config none tilesLoader =
      .ok tilesCatalog from rfl)
  let g : GuardedCatalog := ⟨(tilesCatalog.rebuild Catalog.fjordTree).1, .initial⟩
  have hg : g.Reached := hcreated.rebuilt Catalog.fjordTree "main"
  obtain ⟨hready, hrequired, hfound⟩ : g.catalog.state = .ready ∧
      g.catalog.config.requireSymbolPacks = true ∧
      ((g.catalog.symbolPack (some ⟨none⟩) (some "TILES") (.float (.ofInt 3))).1.result.toOption.map
        fun item => (item.displayName, item.version)) = some ("Tiles", .ofInt 2) := by
    decide +kernel
  obtain ⟨item, hresult, -, hchooses⟩ := symbolPack_chosen hg hready (Or.inr hrequired) ⟨none⟩
    (some "TILES") (.exactly (v := .ofInt 3) (by decide +kernel))
  rw [hresult] at hfound
  obtain ⟨hname, hversion⟩ := Prod.mk.inj (Option.some.inj hfound)
  exact ⟨g, hg, hready, item, hresult, hname, hversion, hchooses⟩

end PackIndex
