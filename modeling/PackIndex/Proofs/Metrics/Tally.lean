import PackIndex.Proofs.Catalog.Lifetime
import PackIndex.Proofs.Metrics.Scans

/-!
# What metrics add up to

Some counters grow over the whole life of a catalog and some tell the sizes its tables have now; some
are recorded when a table has been filled and some when a cycle has ended. Here what a call amounts
to is read off the tree and the catalog before it, and added up over a session. The metrics of a
catalog that began with fresh ones always tell that sum, and the sizes of the tables as they are.
-/

namespace PackIndex

structure Tally where
  cycles : Nat
  failures : Nat
  scanned : Nat
  bare : Nat
  passedOver : Nat
  lookups : Nat
  deriving DecidableEq

namespace Tally

def zero : Tally := ⟨0, 0, 0, 0, 0, 0⟩

def add (n k : Tally) : Tally :=
  ⟨n.cycles + k.cycles, n.failures + k.failures, n.scanned + k.scanned, n.bare + k.bare,
    n.passedOver + k.passedOver, n.lookups + k.lookups⟩

theorem zero_add (n : Tally) : zero.add n = n := by
  simp [zero, add]

theorem add_assoc (n k l : Tally) : (n.add k).add l = n.add (k.add l) := by
  simp [add, Nat.add_assoc]

end Tally

def Query.isLookup : Query → Bool
  | .resolve _ _ | .resolveInPackage _ _ => true
  | _ => false

namespace Catalog

variable {t : FileTree} {c : Catalog}

def passedOver (t : FileTree) (c : Catalog) (kind : PackKind) : List Submission :=
  (c.table kind).clear.skippedFrom (c.offered t kind)

/-- Scans count as far as a cycle gets, entries that are passed over only if it succeeds. -/
def tallyCycle (t : FileTree) (c : Catalog) : Tally where
  cycles := 1
  failures := if (c.rebuild t).2.result.isOk then 0 else 1
  scanned := packageCount (c.completed t)
  bare := c.bareCount t (c.completed t)
  passedOver := if (c.rebuild t).2.result.isOk then
    (c.passedOver t .variants).length + (c.passedOver t .symbols).length else 0
  lookups := 0

/-- Look-ups count if they are answered. -/
def tallyQuery (t : FileTree) (c : Catalog) (q : Query) : Tally :=
  { Tally.zero with lookups := if q.isLookup && (c.ask t q).1.result.isOk then 1 else 0 }

def tallyCall (t : FileTree) (c : Catalog) : Call → Tally
  | .rebuild => c.tallyCycle t
  | .ask q => c.tallyQuery t q

def tally (c : Catalog) : List (FileTree × Call) → Tally
  | [] => .zero
  | (t, call) :: rest => (c.tallyCall t call).add ((c.perform t call).2.tally rest)

theorem tally_bare_le (c : Catalog) (calls : List (FileTree × Call)) :
    (c.tally calls).bare ≤ (c.tally calls).scanned := by
  induction calls generalizing c with
  | nil => exact Nat.le_refl 0
  | cons call rest ih =>
    obtain ⟨t, call⟩ := call
    refine Nat.add_le_add ?_ (ih _)
    cases call with
    | rebuild => exact bareCount_le t c _
    | ask q => exact Nat.le_refl 0

end Catalog

/-- The counters that grow tell this tally. -/
structure Metrics.AddsUpTo (m : Metrics) (n : Tally) : Prop where
  cycles : m.initCycles = n.cycles
  failures : m.initFailures = n.failures
  scanned : m.packagesScanned = n.scanned
  bare : m.packagesWithoutManifest = n.bare
  passedOver : m.duplicatesSkipped = n.passedOver
  lookups : m.resolutions.total = n.lookups

theorem Metrics.addsUpTo_fresh : Metrics.fresh.AddsUpTo .zero := ⟨rfl, rfl, rfl, rfl, rfl, rfl⟩

namespace Catalog

variable {t : FileTree} {c : Catalog} {q : Query} {n : Tally}

/-! ### A cycle -/

theorem rebuild_fst (t : FileTree) (c : Catalog) : (c.rebuild t).1 =
    match (c.rebuild t).2.result with
    | .ok () => (c.begun.build t).1.succeeded
    | .error e => (c.begun.build t).1.failed e := by
  rw [rebuild, begun]
  split <;> next hbuild => rw [hbuild]

theorem duplicatesSkipped_rebuild (hok : (c.rebuild t).2.result = .ok ()) (kind : PackKind) :
    ((c.rebuild t).1.table kind).duplicatesSkipped = (c.passedOver t kind).length := by
  obtain ⟨-, hsubmit⟩ := (rebuild_spec t c).2 hok
  rw [(ItemTable.holds_clear _).duplicatesSkipped_submitAll (hsubmit kind)]
  exact Nat.zero_add _

theorem metrics_rebuild (t : FileTree) (c : Catalog) : ∃ sizes : TableSizes,
    (c.rebuild t).1.metrics = (c.metrics.recordScan (c.tallyCycle t).scanned
      (c.tallyCycle t).bare).recordCycle (c.rebuild t).2.result.isOk unmeasured sizes ∧
    sizes.duplicatesSkipped = (c.tallyCycle t).passedOver := by
  have hbuild := metrics_build t c
  have hleft := rebuild_fst t c
  cases hended : (c.rebuild t).2.result with
  | error e =>
    simp only [hended] at hleft
    refine ⟨.none, ?_, by simp [tallyCycle, hended, TableSizes.none, Except.isOk, Except.toBool]⟩
    rw [hleft, failed, hbuild]
    rfl
  | ok =>
    simp only [hended] at hleft
    refine ⟨(c.rebuild t).1.sizes, ?_, ?_⟩
    · rw [hleft, succeeded, hbuild]
      rfl
    · have hvariants : (c.rebuild t).1.variants.duplicatesSkipped = _ :=
        duplicatesSkipped_rebuild hended .variants
      have hsymbols : (c.rebuild t).1.symbols.duplicatesSkipped = _ :=
        duplicatesSkipped_rebuild hended .symbols
      simp only [sizes, hvariants, hsymbols, tallyCycle, hended]
      rfl

theorem addsUpTo_rebuild (h : c.metrics.AddsUpTo n) (t : FileTree) :
    (c.rebuild t).1.metrics.AddsUpTo (n.add (c.tallyCycle t)) := by
  obtain ⟨sizes, hmetrics, hskipped⟩ := metrics_rebuild t c
  rw [hmetrics]
  have hfailures : (if (c.rebuild t).2.result.isOk then (0 : Int) else 1) =
      (c.tallyCycle t).failures := by
    rw [tallyCycle]
    split <;> rfl
  refine ⟨?_, ?_, ?_, ?_, ?_, ?_⟩
  · exact congrArg (· + 1) h.cycles
  · exact congrArg₂ (· + ·) h.failures hfailures
  · exact congrArg (· + _) h.scanned
  · exact congrArg (· + _) h.bare
  · exact congrArg₂ (· + ·) h.passedOver hskipped
  · exact h.lookups

/-! ### A question -/

theorem metrics_latest (c : Catalog) (kind : PackKind) : (c.latest kind).2.metrics = c.metrics := by
  rcases latest_snd_cases c kind with heq | heq
  · rw [heq]
  · rw [heq]
    cases kind <;> rfl

theorem metrics_counted (c : Catalog) (found : Traced ResolutionError Resolution) :
    if (c.counted found).1.result.isOk then
      ∃ o, (c.counted found).2.metrics = c.metrics.recordResolution o
    else (c.counted found).2.metrics = c.metrics := by
  unfold counted
  split
  · rfl
  · split
    · rfl
    · next r _ => exact ⟨r.outcome, rfl⟩

theorem metrics_ask (t : FileTree) (c : Catalog) (q : Query) :
    if q.isLookup && (c.ask t q).1.result.isOk then
      ∃ o, (c.ask t q).2.metrics = c.metrics.recordResolution o
    else (c.ask t q).2.metrics = c.metrics := by
  cases q with
  | list kind =>
    rcases list_snd c kind with heq | ⟨listed, heq⟩
    · exact congrArg Catalog.metrics heq
    · exact (congrArg Catalog.metrics heq).trans (metrics_latest c listed)
  | symbolPack map name version =>
    rcases symbolPack_snd c map name version with heq | heq
    · exact congrArg Catalog.metrics heq
    · exact (congrArg Catalog.metrics heq).trans (metrics_latest c .symbols)
  | resolve item ref =>
    have hcounted := metrics_counted c (Resolver.resolveGiven t c.shared item ref)
    simpa only [Query.isLookup, Bool.true_and, ask, resolve, result_map, isOk_map] using hcounted
  | resolveInPackage l ref =>
    have hcounted := metrics_counted c (Resolver.resolveInGiven t c.shared l ref)
    simpa only [Query.isLookup, Bool.true_and, ask, resolveInPackage, result_map, isOk_map] using hcounted
  | get | versions | hasVersion | aliases | summary => rfl

theorem addsUpTo_ask (h : c.metrics.AddsUpTo n) (t : FileTree) (q : Query) :
    (c.ask t q).2.metrics.AddsUpTo (n.add (c.tallyQuery t q)) := by
  have hasked := metrics_ask t c q
  unfold tallyQuery
  split at hasked
  · next hanswered =>
    obtain ⟨o, hmetrics⟩ := hasked
    rw [hmetrics, if_pos hanswered]
    refine ⟨h.cycles, h.failures, h.scanned, h.bare, h.passedOver, ?_⟩
    exact (OutcomeCounts.total_bump _ o).trans (congrArg (· + 1) h.lookups)
  · next hanswered =>
    rw [hasked, if_neg hanswered]
    exact h

/-! ### A session -/

theorem addsUpTo_perform (h : c.metrics.AddsUpTo n) (t : FileTree) (call : Call) :
    (c.perform t call).2.metrics.AddsUpTo (n.add (c.tallyCall t call)) := by
  cases call with
  | rebuild => exact addsUpTo_rebuild h t
  | ask q => exact addsUpTo_ask h t q

theorem addsUpTo_session (h : c.metrics.AddsUpTo n) (calls : List (FileTree × Call)) :
    (c.session calls).2.metrics.AddsUpTo (n.add (c.tally calls)) := by
  induction calls generalizing c n with
  | nil => exact h
  | cons call rest ih =>
    have hrest := ih (addsUpTo_perform h call.1 call.2)
    rw [Tally.add_assoc] at hrest
    exact hrest

/-! ### The sizes of tables -/

/-- The metrics tell the sizes that the tables have, and there is nothing in them unless the catalog
is ready. -/
structure Measured (c : Catalog) : Prop where
  variantNames : c.metrics.variantNames = c.variants.size
  variantItems : c.metrics.variantItems = c.variants.itemCount
  symbolPackNames : c.metrics.symbolPackNames = c.symbols.size
  symbolPackItems : c.metrics.symbolPackItems = c.symbols.itemCount
  empty : c.state ≠ .ready → ∀ kind, (c.table kind).size = 0 ∧ (c.table kind).itemCount = 0
  failed : c.lastError ≠ none → c.state ≠ .ready

theorem measured_ofNamespace (config : CatalogConfig) (ns : Option SharedNamespace)
    (loader : PackKind → PackLoader) : (ofNamespace config ns loader).Measured :=
  ⟨rfl, rfl, rfl, rfl, fun _ kind => by cases kind <;> exact ⟨rfl, rfl⟩, nofun⟩

theorem measured_rebuild (t : FileTree) (c : Catalog) : (c.rebuild t).1.Measured := by
  have hleft := rebuild_fst t c
  split at hleft
  · rw [hleft]
    exact ⟨rfl, rfl, rfl, rfl, fun hnot => absurd rfl hnot, fun herror => absurd rfl herror⟩
  · rw [hleft]
    exact ⟨rfl, rfl, rfl, rfl, fun _ kind => by cases kind <;> exact ⟨rfl, rfl⟩, fun _ => nofun⟩

theorem lastError_ask (t : FileTree) (c : Catalog) (q : Query) :
    (c.ask t q).2.lastError = c.lastError := by
  rcases ask_snd t c q with heq | ⟨kind, heq⟩ | ⟨m, heq⟩
  · rw [heq]
  · rw [heq]
    rcases latest_snd_cases c kind with heq | heq
    · rw [heq]
    · rw [heq]
      cases kind <;> rfl
  · rw [heq]

theorem Measured.ask (h : c.Measured) (t : FileTree) (q : Query) : (c.ask t q).2.Measured := by
  have hstock := sameStock_ask t c q
  have hvariants : c.variants.SameEntries (c.ask t q).2.variants := hstock.entries .variants
  have hsymbols : c.symbols.SameEntries (c.ask t q).2.symbols := hstock.entries .symbols
  have hsizes : (c.ask t q).2.metrics.tableSizes = c.metrics.tableSizes := by
    have hasked := metrics_ask t c q
    split at hasked
    · obtain ⟨o, hmetrics⟩ := hasked
      rw [hmetrics]
      rfl
    · rw [hasked]
  simp only [Metrics.tableSizes, Prod.mk.injEq] at hsizes
  obtain ⟨hvn, hvi, hsn, hsi⟩ := hsizes
  refine ⟨?_, ?_, ?_, ?_, fun hstate kind => ?_, fun herror => ?_⟩
  · rw [hvn, hvariants.size, h.variantNames]
  · rw [hvi, hvariants.itemCount, h.variantItems]
  · rw [hsn, hsymbols.size, h.symbolPackNames]
  · rw [hsi, hsymbols.itemCount, h.symbolPackItems]
  · rw [(hstock.entries kind).size, (hstock.entries kind).itemCount]
    exact h.empty (hstock.state ▸ hstate) kind
  · rw [hstock.state]
    exact h.failed (lastError_ask t c q ▸ herror)

theorem Measured.session (h : c.Measured) (calls : List (FileTree × Call)) :
    (c.session calls).2.Measured := by
  induction calls generalizing c with
  | nil => exact h
  | cons call rest ih =>
    obtain ⟨t, call⟩ := call
    cases call with
    | rebuild => exact ih (measured_rebuild t c)
    | ask q => exact ih (h.ask t q)

/-- At any point of a session the metrics of a new catalog tell what its calls amount to, no more
packages without a manifest than packages, and the sizes of the tables, which are all zero when the
last cycle has failed. -/
theorem metrics_of_session {t₀ : FileTree} {config : CatalogConfig}
    {shared : Option SharedNamespace} {loader : PackKind → PackLoader}
    (h : create t₀ config shared loader = .ok c) (calls : List (FileTree × Call)) :
    (c.session calls).2.metrics.AddsUpTo (c.tally calls) ∧
    (c.session calls).2.metrics.packagesWithoutManifest ≤
      (c.session calls).2.metrics.packagesScanned ∧
    (c.session calls).2.Measured ∧
    ((c.session calls).2.lastError ≠ none →
      (c.session calls).2.metrics.tableSizes = (0, 0, 0, 0)) := by
  obtain ⟨ns, rfl, -⟩ := create_cases h
  have hadds := addsUpTo_session (c := ofNamespace config ns loader) Metrics.addsUpTo_fresh calls
  rw [Tally.zero_add] at hadds
  have hmeasured := (measured_ofNamespace config ns loader).session calls
  refine ⟨hadds, ?_, hmeasured, fun herror => ?_⟩
  · rw [hadds.bare, hadds.scanned]
    exact Int.ofNat_le.mpr (tally_bare_le _ calls)
  · have hempty := hmeasured.empty (hmeasured.failed herror)
    have hvariants := hempty .variants
    have hsymbols := hempty .symbols
    simp only [table] at hvariants hsymbols
    simp only [Metrics.tableSizes, hmeasured.variantNames, hmeasured.variantItems,
      hmeasured.symbolPackNames, hmeasured.symbolPackItems, hvariants, hsymbols]
    rfl

/-- Builds the catalog, looks up a member of its pack and one of a pack that is not given, and fails
over a tree without packs. -/
def lookupHistory : List (FileTree × Call) :=
  [(fjordTree, .rebuild),
    (fjordTree, .ask (.resolveInPackage (some (.ofParts ["NorthVariant.zip"])) (some "variants.json"))),
    (fjordTree, .ask (.resolveInPackage none (some "variants.json"))),
    (⟨.dir [], []⟩, .rebuild)]

theorem metrics_of_session_fjord :
    (fjordCatalog.session lookupHistory).2.metrics.AddsUpTo ⟨2, 1, 1, 0, 0, 1⟩ ∧
      (fjordCatalog.session lookupHistory).2.metrics.tableSizes = (0, 0, 0, 0) := by
  obtain ⟨hadds, -, -, hempty⟩ := metrics_of_session
    (show create fjordTree fjordCatalog.config none _ = .ok fjordCatalog from rfl) lookupHistory
  have htally : fjordCatalog.tally lookupHistory = ⟨2, 1, 1, 0, 0, 1⟩ := by decide +kernel
  have hfailed : (fjordCatalog.session lookupHistory).2.lastError.isSome = true := by decide +kernel
  rw [htally] at hadds
  exact ⟨hadds, hempty (Option.isSome_iff_ne_none.mp hfailed)⟩

end Catalog

end PackIndex
