import PackIndex.Proofs.Catalog.Lifetime
import PackIndex.Proofs.Resource.Unreadable

/-!
# A catalog among unreadable inputs

Further search paths that cannot be listed, and further archives on the shared namespace that cannot
be opened, are noticed in three places: by the scan, and where the namespace is asked for manifests
and for resources. All three pass them over. So each cycle ends as it would without them, with an
error of the same categories if with any, and every question has the same answer.
-/

namespace PackIndex

/-- A configuration with more search paths, none of which can be listed, and with more archives on
its shared namespace, if it has one, none of which can be opened. -/
structure CatalogConfig.Padded (t : FileTree) (config config' : CatalogConfig) : Prop where
  rest : config' = { config with
    searchPaths := config'.searchPaths, sharedNamespace := config'.sharedNamespace }
  searchPaths : Inserted t.Unlistable config.searchPaths config'.searchPaths
  sharedNamespace : Inserted t.UnopenablePath config.sharedNamespace config'.sharedNamespace
  enabled : config.sharedNamespace = [] → config'.sharedNamespace = []

namespace Catalog

variable {t : FileTree} {c d : Catalog} {kind : PackKind}

/-- Catalogs with the same entries that differ in inputs which cannot be read. -/
structure Padded (t : FileTree) (c d : Catalog) : Prop where
  config : c.config.Padded t d.config
  searched : c.config.searchPaths ≠ []
  shared : PaddedNamespace t c.shared d.shared
  loader : d.loader = c.loader
  state : d.state = c.state
  entries : ∀ kind, (c.table kind).SameEntries (d.table kind)
  cleared : ∀ kind, (d.table kind).clear = (c.table kind).clear

theorem checkTables_withTables (c : Catalog) (variants symbols : ItemTable) :
    (c.withTables variants symbols).checkTables =
      if variants.size = 0 then .error (.noPacks .variants c.config.searchPaths)
      else if c.config.requireSymbolPacks = true ∧ symbols.size = 0 then
        .error (.noPacks .symbols c.config.searchPaths)
      else .ok () := rfl

namespace Padded

variable (h : Padded t c d)
include h

/-! ### A cycle -/

theorem manifestName (kind : PackKind) : d.manifestName kind = c.manifestName kind := by
  cases kind with
  | variants => exact (congrArg CatalogConfig.variantManifest h.config.rest :)
  | symbols => exact (congrArg CatalogConfig.symbolManifest h.config.rest :)

theorem suffixes (kind : PackKind) : d.suffixes kind = c.suffixes kind := by
  cases kind with
  | variants => exact (congrArg CatalogConfig.variantSuffixes h.config.rest :)
  | symbols => exact (congrArg CatalogConfig.symbolSuffixes h.config.rest :)

theorem locations (kind : PackKind) :
    (d.locations t kind).result = (c.locations t kind).result := by
  have hshared := h.shared
  simp only [Catalog.locations, h.manifestName, h.suffixes, Traced.result_bind, result_mapError,
    scanPackages_inserted h.config.searchPaths]
  generalize c.shared = ns at hshared ⊢
  generalize d.shared = ns' at hshared ⊢
  cases hshared with
  | none => rfl
  | some hinserted =>
    simp only [Traced.result_bind, SharedNamespace.findResources_inserted hinserted]

theorem loadEntries (kind : PackKind) (l : Location) :
    d.loadEntries t kind l = c.loadEntries t kind l := by
  simp only [Catalog.loadEntries, h.loader, h.manifestName]

theorem offered (kind : PackKind) : d.offered t kind = c.offered t kind := by
  have hsubmissions : d.submissionsOf t kind = c.submissionsOf t kind := by
    funext l
    simp only [Catalog.submissionsOf, h.loadEntries]
  simp only [Catalog.offered, h.locations, hsubmissions]

theorem begun : Padded t c.begun d.begun :=
  ⟨h.config, h.searched, h.shared, h.loader, rfl,
    fun kind => by rw [table_begun, table_begun, h.cleared]; exact ⟨rfl, rfl⟩,
    fun kind => by rw [table_begun, table_begun, h.cleared]⟩

theorem populate (kind : PackKind) :
    (d.begun.populate t kind).result = (c.begun.populate t kind).result := by
  have hbegun := h.begun
  have htable : d.begun.table kind = c.begun.table kind := by
    rw [table_begun, table_begun, h.cleared]
  have hadmit (found : List Location) :
      admitPackages t d.begun kind (c.begun.table kind) 0 found =
        admitPackages t c.begun kind (c.begun.table kind) 0 found :=
    admitPackages_congr (hbegun.loadEntries kind) (hbegun.manifestName kind) _ _ _
  simp only [Catalog.populate, Traced.result_bind, hbegun.locations, htable, hadmit]

theorem checkTables (variants symbols : ItemTable) :
    (d.withTables variants symbols).checkTables.mapError BuildError.categories =
      (c.withTables variants symbols).checkTables.mapError BuildError.categories := by
  have hrequired : d.config.requireSymbolPacks = c.config.requireSymbolPacks :=
    (congrArg CatalogConfig.requireSymbolPacks h.config.rest :)
  rw [checkTables_withTables, checkTables_withTables, hrequired]
  by_cases hvariants : variants.size = 0
  · rw [if_pos hvariants, if_pos hvariants]
    rfl
  · rw [if_neg hvariants, if_neg hvariants]
    by_cases hsymbols : c.config.requireSymbolPacks = true ∧ symbols.size = 0
    · rw [if_pos hsymbols, if_pos hsymbols]
      rfl
    · rw [if_neg hsymbols, if_neg hsymbols]

theorem rebuild_categories : (d.rebuild t).2.result.mapError BuildError.categories =
    (c.rebuild t).2.result.mapError BuildError.categories := by
  rw [rebuild_result, rebuild_result, if_neg h.searched,
    if_neg (h.config.searchPaths.ne_nil h.searched), h.populate, h.populate]
  cases (c.begun.populate t .variants).result with
  | error e => rfl
  | ok variants =>
    cases (c.begun.populate t .symbols).result with
    | error e => rfl
    | ok symbols => exact h.checkTables variants.1 symbols.1

theorem rebuild : Padded t (c.rebuild t).1 (d.rebuild t).1 := by
  obtain ⟨hplan, hbuilt⟩ := rebuild_spec t c
  obtain ⟨hplan', hbuilt'⟩ := rebuild_spec t d
  have hcleared (kind : PackKind) :
      ((d.rebuild t).1.table kind).clear = ((c.rebuild t).1.table kind).clear := by
    rw [clear_rebuild, clear_rebuild, h.cleared]
  have hended := h.rebuild_categories
  have hsame : (d.rebuild t).1.state = (c.rebuild t).1.state ∧
      ∀ kind, ((c.rebuild t).1.table kind).SameEntries ((d.rebuild t).1.table kind) := by
    rcases rebuild_cases t c with ⟨-, -, -, hok⟩ | ⟨left, e, -, hleft, herror⟩
    · have hok' : (d.rebuild t).2.result = .ok () := by
        rw [hok] at hended
        exact mapError_eq_ok_iff.mp hended
      obtain ⟨hready, hsubmit⟩ := hbuilt hok
      obtain ⟨hready', hsubmit'⟩ := hbuilt' hok'
      refine ⟨hready'.trans hready.symm, fun kind => ?_⟩
      have htable := hsubmit' kind
      rw [h.cleared, h.offered, hsubmit kind] at htable
      rw [Except.ok.inj htable]
      exact ⟨rfl, rfl⟩
    · rcases rebuild_cases t d with ⟨-, -, -, hok'⟩ | ⟨left', e', -, hleft', -⟩
      · rw [hok', herror] at hended
        cases hended
      · rw [hleft, hleft']
        exact ⟨rfl, fun kind => by cases kind <;> exact ⟨rfl, rfl⟩⟩
  refine ⟨?_, ?_, ?_, ?_, hsame.1, hsame.2, hcleared⟩
  · rw [hplan.config, hplan'.config]
    exact h.config
  · rw [hplan.config]
    exact h.searched
  · rw [hplan.shared, hplan'.shared]
    exact h.shared
  · rw [hplan.loader, hplan'.loader, h.loader]

end Padded

/-! ### Questions -/

/-- An answer does not depend on archives of the shared namespace that cannot be opened. -/
theorem ask_result_of_padded {ns : Option SharedNamespace} (h : PaddedNamespace t c.shared ns)
    (q : Query) : (({ c with shared := ns } : Catalog).ask t q).1.result = (c.ask t q).1.result := by
  have hlatest (kind : PackKind) : (({ c with shared := ns } : Catalog).latest kind).1 =
      (c.latest kind).1 := by
    rw [latest_fst, latest_fst]
    rfl
  cases q with
  | list kind =>
    have hlist : (({ c with shared := ns } : Catalog).list kind).1 = (c.list kind).1 := by
      rw [list_fst, list_fst]
      simp only [hlatest]
      rfl
    simp only [ask, hlist]
  | get | versions | hasVersion | aliases | summary => rfl
  | resolve item ref =>
    simp only [ask, resolve, result_map, counted_result, Resolver.resolveGiven_padded h]
    rfl
  | resolveInPackage l ref =>
    simp only [ask, resolveInPackage, result_map, counted_result, Resolver.resolveInGiven_padded h]
    rfl
  | symbolPack map name version =>
    cases map with
    | none => rfl
    | some map =>
      simp only [ask, result_map, symbolPack_fst, hlatest]
      rfl

theorem Padded.ask_result (h : Padded t c d) (hc : c.Sane) (hd : d.Sane) (q : Query) :
    (d.ask t q).1.result = (c.ask t q).1.result := by
  -- the catalog on the way: the tables of the one, the namespace of the other
  have hview : SameView { c with shared := d.shared } d := ⟨h.state, rfl, h.entries⟩
  rw [hview.ask hc.upToDate hd.upToDate t q]
  exact ask_result_of_padded h.shared q

theorem Padded.ask (h : Padded t c d) (q : Query) : Padded t (c.ask t q).2 (d.ask t q).2 := by
  have hc := sameStock_ask t c q
  have hd := sameStock_ask t d q
  refine ⟨?_, ?_, ?_, ?_, ?_, fun kind => ⟨?_, ?_⟩, fun kind => ?_⟩
  · rw [hc.plan.config, hd.plan.config]
    exact h.config
  · rw [hc.plan.config]
    exact h.searched
  · rw [hc.plan.shared, hd.plan.shared]
    exact h.shared
  · rw [hc.plan.loader, hd.plan.loader, h.loader]
  · rw [hc.state, hd.state, h.state]
  · rw [(hc.entries kind).groups, (hd.entries kind).groups, (h.entries kind).groups]
  · rw [(hc.entries kind).aliases, (hd.entries kind).aliases, (h.entries kind).aliases]
  · rw [hc.cleared, hd.cleared, h.cleared]

end Catalog

/-! ### A life together -/

/-- What is told apart about how a call ended: the categories of an error of a cycle, and the answer
to a question. -/
def CallResult.seen : CallResult → Except (List String) Unit ⊕ Except QueryError Reply
  | .built ended => .inl (ended.result.mapError BuildError.categories)
  | .answered answer => .inr answer.result

namespace Catalog

variable {t : FileTree} {c d : Catalog}

theorem Padded.perform (h : Padded t c d) (hc : c.Sane) (hd : d.Sane) (call : Call) :
    (d.perform t call).1.seen = (c.perform t call).1.seen ∧
      Padded t (c.perform t call).2 (d.perform t call).2 := by
  cases call with
  | rebuild => exact ⟨congrArg Sum.inl h.rebuild_categories, h.rebuild⟩
  | ask q => exact ⟨congrArg Sum.inr (h.ask_result hc hd q), h.ask q⟩

theorem Padded.session (h : Padded t c d) (hc : c.Sane) (hd : d.Sane) (calls : List Call) :
    (d.session (calls.map fun call => (t, call))).1.map CallResult.seen =
      (c.session (calls.map fun call => (t, call))).1.map CallResult.seen := by
  induction calls generalizing c d with
  | nil => rfl
  | cons call rest ih =>
    obtain ⟨hseen, hnext⟩ := h.perform hc hd call
    simp only [List.map_cons, session, hseen, ih hnext (hc.perform t call) (hd.perform t call)]

theorem create_padded {config config' : CatalogConfig} {shared shared' : Option SharedNamespace}
    {loader : PackKind → PackLoader} (hconfig : config.Padded t config')
    (hsearched : config.searchPaths ≠ []) (hshared : PaddedNamespace t shared shared')
    (hc : create t config shared loader = .ok c) :
    ∃ d, create t config' shared' loader = .ok d ∧ Padded t c d := by
  have hnew {ns ns' : Option SharedNamespace} (hns : PaddedNamespace t ns ns') :
      Padded t (ofNamespace config ns loader) (ofNamespace config' ns' loader) := by
    have htable (kind : PackKind) : (ofNamespace config' ns' loader).table kind =
        (ofNamespace config ns loader).table kind := by
      cases hns <;> cases kind <;> rfl
    exact ⟨hconfig, hsearched, hns, rfl, rfl, fun kind => by rw [htable]; exact ⟨rfl, rfl⟩,
      fun kind => by rw [htable]⟩
  cases hshared with
  | some hinserted =>
    obtain rfl := Except.ok.inj hc
    exact ⟨_, rfl, hnew (.some hinserted)⟩
  | none =>
    unfold create at hc ⊢
    by_cases hempty : config.sharedNamespace = []
    · have henabled : config.sharedNamespaceEnabled = false := by
        simp [CatalogConfig.sharedNamespaceEnabled, hempty]
      have henabled' : config'.sharedNamespaceEnabled = false := by
        simp [CatalogConfig.sharedNamespaceEnabled, hconfig.enabled hempty]
      simp only [henabled, henabled'] at hc ⊢
      obtain rfl := Except.ok.inj hc
      exact ⟨_, rfl, hnew .none⟩
    · have henabled : config.sharedNamespaceEnabled = true := by
        simp [CatalogConfig.sharedNamespaceEnabled, hempty]
      have henabled' : config'.sharedNamespaceEnabled = true := by
        simp [CatalogConfig.sharedNamespaceEnabled, hconfig.sharedNamespace.ne_nil hempty]
      simp only [henabled, henabled', if_true] at hc ⊢
      obtain ⟨ns, hns, rfl⟩ := map_eq_ok_iff.mp hc
      obtain ⟨locations, hlocations, rfl⟩ := map_eq_ok_iff.mp hns
      obtain ⟨locations', hlocations', hinserted⟩ :=
        SharedNamespace.resolvePaths_inserted hconfig.sharedNamespace hlocations
      refine ⟨_, ?_, hnew (.some hinserted)⟩
      rw [SharedNamespace.ofPaths, hlocations']
      rfl

/-- Directories among the search paths that cannot be listed, and archives on the shared namespace
that cannot be opened, change nothing that can be seen of a catalog: neither how its cycles end nor
any answer. -/
theorem unreadable_unseen {config config' : CatalogConfig} {shared shared' : Option SharedNamespace}
    {loader : PackKind → PackLoader} (hconfig : config.Padded t config')
    (hsearched : config.searchPaths ≠ []) (hshared : PaddedNamespace t shared shared')
    (hc : create t config shared loader = .ok c) :
    ∃ d, create t config' shared' loader = .ok d ∧ ∀ calls : List Call,
      (d.session (calls.map fun call => (t, call))).1.map CallResult.seen =
        (c.session (calls.map fun call => (t, call))).1.map CallResult.seen := by
  obtain ⟨d, hd, hpadded⟩ := create_padded hconfig hsearched hshared hc
  exact ⟨d, hd, hpadded.session (.create hc) (.create hd)⟩

/-- A search path and one archive on the shared namespace. -/
def plainConfig : CatalogConfig :=
  { CatalogConfig.default with
    searchPaths := [.ofParts []], sharedNamespace := [.ofParts ["NorthVariant.zip"]]
    requireSymbolPacks := false }

/-- The same with a directory that is missing, a file in the place of one, an archive that is
missing and a directory in the place of one. -/
def paddedConfig : CatalogConfig :=
  { plainConfig with
    searchPaths := [.ofParts ["missing"], .ofParts [], .ofParts ["NorthVariant.zip"]]
    sharedNamespace := [.ofParts ["Gone.zip"], .ofParts ["NorthVariant.zip"], .ofParts []] }

theorem padded_plainConfig : plainConfig.Padded fjordTree paddedConfig where
  rest := rfl
  searchPaths := .insert ⟨rfl, _, rfl⟩ (.keep _ (.insert ⟨rfl, _, rfl⟩ .nil))
  sharedNamespace := .insert ⟨_, rfl, _, rfl⟩ (.keep _ (.insert ⟨_, rfl, _, rfl⟩ .nil))
  enabled := nofun

theorem unreadable_unseen_fjord :
    ∃ c d, create fjordTree plainConfig none (fun _ => .manifests) = .ok c ∧
      create fjordTree paddedConfig none (fun _ => .manifests) = .ok d ∧
      (c.rebuild fjordTree).2.result = .ok () ∧ (d.rebuild fjordTree).2.result = .ok () ∧
      ((d.rebuild fjordTree).1.ask fjordTree (.list (.str "variants"))).1.result =
        ((c.rebuild fjordTree).1.ask fjordTree (.list (.str "variants"))).1.result := by
  obtain ⟨c, hc, hok⟩ : ∃ c, create fjordTree plainConfig none (fun _ => .manifests) = .ok c ∧
      (c.rebuild fjordTree).2.result.isOk = true := ⟨_, rfl, by decide +kernel⟩
  have hok := eq_ok_of_isOk hok
  obtain ⟨d, hd, hunseen⟩ :=
    unreadable_unseen padded_plainConfig (List.cons_ne_nil _ _) .none hc
  have hseen := hunseen [.rebuild, .ask (.list (.str "variants"))]
  simp only [List.map_cons, List.map_nil, session, perform, CallResult.seen, List.cons.injEq,
    Sum.inl.injEq, Sum.inr.injEq, and_true, hok] at hseen
  exact ⟨c, d, hc, hd, hok, mapError_eq_ok_iff.mp hseen.1, hseen.2⟩

end Catalog

end PackIndex
