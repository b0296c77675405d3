import PackIndex.Proofs.Catalog.InPlace
import PackIndex.Proofs.Catalog.Reachability

/-!
# A cycle forgets what was before

Metrics and the last error are written but never read, and a cycle starts from cleared tables. So a
catalog with a history that is built again cannot be told from a new one, by its state or by any
later call; only what its metrics have added up may differ.
-/

namespace PackIndex

/-- The metrics that are not added up: the sizes of the tables. -/
def Metrics.tableSizes (m : Metrics) : Int × Int × Int × Int :=
  (m.variantNames, m.variantItems, m.symbolPackNames, m.symbolPackItems)

namespace Catalog

variable {t : FileTree} {c d : Catalog} {kind : PackKind}

/-! ### What is never read -/

/-- The catalog with other metrics and another last error. -/
def withRecord (c : Catalog) (m : Metrics) (e : Option BuildError) : Catalog :=
  { c with metrics := m, lastError := e }

section WithRecord

variable (t : FileTree) (c : Catalog) (m : Metrics) (e : Option BuildError)

theorem setTable_withRecord (kind : PackKind) (table : ItemTable) :
    (c.withRecord m e).setTable kind table = (c.setTable kind table).withRecord m e := by
  cases kind <;> rfl

theorem table_withRecord (kind : PackKind) : (c.withRecord m e).table kind = c.table kind := by
  cases kind <;> rfl

theorem samePlan_withRecord : SamePlan c (c.withRecord m e) :=
  ⟨rfl, rfl, rfl, fun kind => by rw [table_withRecord], fun kind => by rw [table_withRecord]⟩

theorem populate_withRecord (kind : PackKind) :
    (c.withRecord m e).populate t kind = c.populate t kind :=
  (samePlan_withRecord c m e).populate (table_withRecord c m e kind) t

theorem fill_withRecord (kind : PackKind) : ∃ m', (c.withRecord m e).fill t kind =
    ((c.fill t kind).1.withRecord m' e, (c.fill t kind).2) := by
  unfold fill
  rw [populate_withRecord]
  simp only
  split
  · exact ⟨m, rfl⟩
  · next table count _ =>
    refine ⟨m.recordScan count.scanned count.withoutManifest, ?_⟩
    rw [setTable_withRecord]
    rfl

theorem build_withRecord : ∃ m', (c.withRecord m e).build t =
    ((c.build t).1.withRecord m' e, (c.build t).2) := by
  have hpaths : (c.withRecord m e).config = c.config := rfl
  unfold build
  rw [hpaths]
  split
  · exact ⟨m, rfl⟩
  · obtain ⟨m', hfill⟩ := fill_withRecord t c m e .variants
    rw [hfill]
    rcases c.fill t .variants with ⟨d, e' | _, events⟩
    · exact ⟨m', rfl⟩
    · obtain ⟨m'', hfill'⟩ := fill_withRecord t d m' e .symbols
      simp only [hfill']
      rcases d.fill t .symbols with ⟨d', e' | _, more⟩
      · exact ⟨m'', rfl⟩
      · exact ⟨m'', rfl⟩

theorem latest_withRecord (kind : PackKind) : (c.withRecord m e).latest kind =
    ((c.latest kind).1, (c.latest kind).2.withRecord m e) := by
  have hrequire : (c.withRecord m e).requireReady = c.requireReady := rfl
  simp only [latest, hrequire, table_withRecord, setTable_withRecord]
  cases c.requireReady <;> rfl

theorem list_withRecord (kind : Value) : (c.withRecord m e).list kind =
    ((c.list kind).1, (c.list kind).2.withRecord m e) := by
  have hrequire : (c.withRecord m e).requireReady = c.requireReady := rfl
  simp only [list, hrequire, latest_withRecord]
  cases c.requireReady with
  | error => rfl
  | ok => cases kindOf kind <;> rfl

theorem counted_withRecord (found : Traced ResolutionError Resolution) :
    ∃ m', (c.withRecord m e).counted found =
      ((c.counted found).1, (c.counted found).2.withRecord m' e) ∧ m'.tableSizes = m.tableSizes := by
  have hrequire : (c.withRecord m e).requireReady = c.requireReady := rfl
  simp only [counted, hrequire]
  cases c.requireReady with
  | error => exact ⟨m, rfl, rfl⟩
  | ok =>
    cases found.result with
    | error => exact ⟨m, rfl, rfl⟩
    | ok r => exact ⟨m.recordResolution r.outcome, rfl, rfl⟩

theorem symbolPack_withRecord (map : Option MapStyle) (name : Option String) (version : Value) :
    (c.withRecord m e).symbolPack map name version =
      ((c.symbolPack map name version).1, (c.symbolPack map name version).2.withRecord m e) := by
  have hrequire : (c.withRecord m e).requireReady = c.requireReady := rfl
  have hsymbols : (c.withRecord m e).symbols = c.symbols := rfl
  simp only [symbolPack, hrequire, hsymbols, latest_withRecord]
  cases map with
  | none => rfl
  | some map =>
    simp only
    split
    · rfl
    · split
      · rfl
      · split
        · rfl
        · rcases c.latest .symbols with ⟨e' | _ | ⟨item, items⟩, d⟩ <;> rfl

theorem ask_withRecord (q : Query) : ∃ m', (c.withRecord m e).ask t q =
    ((c.ask t q).1, (c.ask t q).2.withRecord m' e) ∧ m'.tableSizes = m.tableSizes := by
  cases q with
  | list kind =>
    refine ⟨m, ?_, rfl⟩
    simp only [ask, list_withRecord]
  | resolve item ref =>
    obtain ⟨m', hcounted, hsizes⟩ :=
      counted_withRecord c m e (Resolver.resolveGiven t c.shared item ref)
    refine ⟨m', ?_, hsizes⟩
    have hresolve : (c.withRecord m e).resolve t item ref =
        (c.withRecord m e).counted (Resolver.resolveGiven t c.shared item ref) := rfl
    simp only [ask, hresolve, hcounted]
    rfl
  | resolveInPackage l ref =>
    obtain ⟨m', hcounted, hsizes⟩ :=
      counted_withRecord c m e (Resolver.resolveInGiven t c.shared l ref)
    refine ⟨m', ?_, hsizes⟩
    have hresolve : (c.withRecord m e).resolveInPackage t l ref =
        (c.withRecord m e).counted (Resolver.resolveInGiven t c.shared l ref) := rfl
    simp only [ask, hresolve, hcounted]
    rfl
  | symbolPack map name version =>
    refine ⟨m, ?_, rfl⟩
    simp only [ask, symbolPack_withRecord]
  | get | versions | hasVersion =>
    refine ⟨m, ?_, rfl⟩
    simp only [ask, get, Catalog.versions, hasVersion, table_withRecord]
    rfl
  | aliases | summary => exact ⟨m, rfl, rfl⟩

end WithRecord

/-! ### Catalogs that cannot be told apart -/

/-- Two catalogs that are the same in all but what their metrics have added up. -/
structure Alike (c d : Catalog) : Prop where
  same : d = { c with metrics := d.metrics }
  sizes : d.metrics.tableSizes = c.metrics.tableSizes

/-- A cycle ends in the same way wherever it begins with the same tables and the same plan. -/
theorem rebuild_of_begun {m : Metrics} {e : Option BuildError}
    (h : d.begun = c.begun.withRecord m e) (t : FileTree) :
    (d.rebuild t).2 = (c.rebuild t).2 ∧ Alike (c.rebuild t).1 (d.rebuild t).1 := by
  obtain ⟨m', hbuild⟩ := build_withRecord t c.begun m e
  rw [← h] at hbuild
  simp only [begun] at hbuild
  simp only [rebuild, hbuild]
  rcases Catalog.build t { c.clearTables with state := .initializing } with ⟨b, e' | _, events⟩
  · exact ⟨rfl, rfl, rfl⟩
  · exact ⟨rfl, rfl, rfl⟩

namespace Alike

section Step

variable (h : Alike c d)
include h

theorem eq_withRecord : d = c.withRecord d.metrics c.lastError := h.same

theorem rebuild (t : FileTree) :
    (d.rebuild t).2 = (c.rebuild t).2 ∧ Alike (c.rebuild t).1 (d.rebuild t).1 := by
  have hbegun : d.begun = c.begun.withRecord d.metrics c.lastError := by
    rw [h.eq_withRecord]
    rfl
  exact rebuild_of_begun hbegun t

theorem ask (t : FileTree) (q : Query) :
    (d.ask t q).1 = (c.ask t q).1 ∧ Alike (c.ask t q).2 (d.ask t q).2 := by
  obtain ⟨m, hd, hm⟩ := ask_withRecord t c d.metrics c.lastError q
  rw [← h.eq_withRecord] at hd
  -- a question leaves the last error and the sizes of its own catalog alone as well
  obtain ⟨m', hc, hm'⟩ := ask_withRecord t c c.metrics c.lastError q
  have hself : (c.ask t q).2 = (c.ask t q).2.withRecord m' c.lastError := congrArg Prod.snd hc
  have herror : (c.ask t q).2.lastError = c.lastError := by rw [hself]; rfl
  have hsizes : (c.ask t q).2.metrics.tableSizes = c.metrics.tableSizes := by rw [hself]; exact hm'
  rw [hd]
  refine ⟨rfl, ?_, ?_⟩
  · simp only [withRecord, herror]
  · exact hm.trans (h.sizes.trans hsizes.symm)

theorem perform (t : FileTree) (call : Call) :
    (d.perform t call).1 = (c.perform t call).1 ∧
      Alike (c.perform t call).2 (d.perform t call).2 := by
  cases call with
  | rebuild =>
    obtain ⟨hended, halike⟩ := h.rebuild t
    exact ⟨congrArg CallResult.built hended, halike⟩
  | ask q =>
    obtain ⟨hanswer, halike⟩ := h.ask t q
    exact ⟨congrArg CallResult.answered hanswer, halike⟩

end Step

/-- Catalogs that are alike give the same results in any session. -/
theorem session (h : Alike c d) (calls : List (FileTree × Call)) :
    (d.session calls).1 = (c.session calls).1 := by
  induction calls generalizing c d with
  | nil => rfl
  | cons call rest ih =>
    obtain ⟨hresult, halike⟩ := h.perform call.1 call.2
    exact congrArg₂ List.cons hresult (ih halike)

end Alike

/-! ### New catalogs -/

/-- What a catalog keeps of its making. -/
structure Rooted (c : Catalog) : Prop where
  cleared : ∀ kind, (c.table kind).clear = .empty kind c.shared.isSome
  no_namespace : c.shared = none → c.config.sharedNamespaceEnabled = false

theorem Rooted.of_samePlan (h : c.Rooted) (hp : SamePlan c d)
    (hclear : ∀ kind, (d.table kind).clear = (c.table kind).clear) : d.Rooted where
  cleared kind := by rw [hclear, h.cleared, hp.shared]
  no_namespace hnone := by
    rw [hp.shared] at hnone
    rw [hp.config]
    exact h.no_namespace hnone

theorem clear_latest (c : Catalog) (listed kind : PackKind) :
    ((c.latest listed).2.table kind).clear = (c.table kind).clear := by
  unfold latest
  split
  · rfl
  · by_cases hkind : kind = listed
    · rw [hkind, table_setTable_self, ItemTable.latest_snd_eq]
      rfl
    · rw [table_setTable_of_ne hkind]

theorem Reached.rooted (h : Reached c) : c.Rooted := by
  refine h.invariant ?_ ?_ ?_ ?_
  · intro config ns hnone
    exact ⟨fun kind => by cases kind <;> rfl, hnone⟩
  · exact fun c t _ ih => ih.of_samePlan (rebuild_spec t c).1 (clear_rebuild t c)
  · exact fun c listed ih => ih.of_samePlan (samePlan_latest c listed) (clear_latest c listed)
  · exact fun c m ih => ih.of_samePlan (samePlan_metrics c m) fun _ => rfl

/-- Without a shared namespace no table passes over a second copy of a version. -/
theorem Reached.tolerates_nothing (h : Reached c) (hshared : c.shared = none) (kind : PackKind) :
    (c.table kind).clear.tolerateDuplicates = false := by
  rw [h.rooted.cleared, hshared]
  rfl

/-- Making a catalog anew with what another one was made of gives one whose first cycle begins as
the next cycle of the other. -/
theorem Reached.create_anew (h : Reached c) (t : FileTree) :
    ∃ fresh, create t c.config c.shared (fun _ => .manifests) = .ok fresh ∧
      c.begun = fresh.begun.withRecord c.metrics c.lastError := by
  have hrooted := h.rooted
  have hloader : c.loader = fun _ => .manifests := funext h.furnished.loader
  refine ⟨ofNamespace c.config c.shared fun _ => .manifests, ?_, ?_⟩
  · cases hshared : c.shared with
    | some ns => rfl
    | none =>
      have hdisabled := hrooted.no_namespace hshared
      simp only [create, hdisabled, Bool.false_eq_true, if_false]
  · have hvariants : c.variants.clear = _ := hrooted.cleared .variants
    have hsymbols : c.symbols.clear = _ := hrooted.cleared .symbols
    simp only [begun, clearTables, hvariants, hsymbols, hloader]
    rfl

/-- Whatever a catalog has been through, a cycle ends, reports and leaves the catalog as the first
cycle of a new one over the same tree, with the same results in every later session. -/
theorem rebuild_forgets (hc : Reached c) (t : FileTree) :
    ∃ fresh, create t c.config c.shared (fun _ => .manifests) = .ok fresh ∧
      (c.rebuild t).2 = (fresh.rebuild t).2 ∧
      Alike (fresh.rebuild t).1 (c.rebuild t).1 ∧
      ∀ calls, ((c.rebuild t).1.session calls).1 = ((fresh.rebuild t).1.session calls).1 := by
  obtain ⟨fresh, hcreate, hbegun⟩ := hc.create_anew t
  obtain ⟨hended, halike⟩ := rebuild_of_begun hbegun t
  exact ⟨fresh, hcreate, hended, halike, halike.session⟩

/-- A catalog that remembers its listing of one variant is built again over packs with one other. -/
theorem rebuild_forgets_listed :
    ∃ c, Reached c ∧ c.variants.snapshot.length = 1 ∧
      ∃ fresh, create deltaTree c.config c.shared (fun _ => .manifests) = .ok fresh ∧
        ∀ calls, ((c.rebuild deltaTree).1.session calls).1 =
          ((fresh.rebuild deltaTree).1.session calls).1 := by
  have hreached := reached_fjordCatalog.session
    [(fjordTree, .rebuild), (fjordTree, .ask (.list (.str "variants")))]
  obtain ⟨fresh, hcreate, -, -, hsession⟩ := rebuild_forgets hreached deltaTree
  exact ⟨_, hreached, by decide +kernel, fresh, hcreate, hsession⟩

end Catalog

end PackIndex
