import PackIndex.Catalog.Session
import PackIndex.Proofs.Catalog.InPlace
import PackIndex.Proofs.Catalog.Reachability

/-!
# Cycles that fail

A cycle may stop at any package, entry or alias of either table, also over a catalog that was ready
before. Wherever it stops, the catalog is left empty, says why, refuses every question, and its
lock is free.
-/

namespace PackIndex

/-- What is checked before a catalog looks whether it is ready: selectors, and that there is a map
to draw on. -/
def Query.WellPosed : Query → Prop
  | .get _ _ selector _ => ∃ s, Selector.ofValue selector = .ok s
  | .hasVersion _ _ selector => ∃ s, Selector.ofValue selector = .ok s
  | .symbolPack map _ version => map ≠ none ∧
    (Catalog.isNonPositiveNumber version = true ∨ ∃ s, Selector.ofValue version = .ok s)
  | _ => True

namespace Catalog

variable {t : FileTree} {c : Catalog} {q : Query}

/-! ### Asking too early -/

theorem requireReady_of_not_ready (h : c.state ≠ .ready) :
    c.requireReady = .error (.notReady c.state) := if_neg h

theorem get_of_not_ready (h : c.state ≠ .ready) {selector : Value} {s : Selector}
    (hs : Selector.ofValue selector = .ok s) (kind : Value) (name : Option String)
    (strict : Bool) : c.get kind name selector strict = .error (.notReady c.state) := by
  rw [get, hs, requireReady_of_not_ready h]
  rfl

theorem counted_of_not_ready (h : c.state ≠ .ready) (found : Traced ResolutionError Resolution) :
    c.counted found = (.fail (.notReady c.state), c) := by
  simp only [counted, requireReady_of_not_ready h]

theorem symbolPack_of_not_ready (h : c.state ≠ .ready) {map : Option MapStyle} {version : Value}
    (hmap : map ≠ none)
    (hversion : isNonPositiveNumber version = true ∨ ∃ s, Selector.ofValue version = .ok s)
    (name : Option String) : (c.symbolPack map name version).1.result = .error (.notReady c.state) ∧
      (c.symbolPack map name version).2 = c := by
  obtain ⟨map, rfl⟩ := Option.ne_none_iff_exists'.mp hmap
  have hselector : ∃ s, Selector.ofValue
      (if isNonPositiveNumber version then .sentinel .newest else version) = .ok s := by
    by_cases hignored : isNonPositiveNumber version = true
    · rw [if_pos hignored]
      exact ⟨.newest, rfl⟩
    · rw [if_neg hignored]
      exact hversion.resolve_left hignored
  obtain ⟨s, hs⟩ := hselector
  simp only [symbolPack, hs, requireReady_of_not_ready h, and_self]

/-- A catalog that is not ready refuses every question, and is not changed by it. -/
theorem ask_of_not_ready (h : c.state ≠ .ready) (hq : q.WellPosed) (t : FileTree) :
    (c.ask t q).1.result = .error (.notReady c.state) ∧ (c.ask t q).2 = c := by
  have hrequired := requireReady_of_not_ready h
  cases q with
  | list kind => simp [ask, list, hrequired, Except.map]
  | get kind name selector strict =>
    obtain ⟨s, hs⟩ := hq
    simp [ask, get_of_not_ready h hs, Except.map]
  | versions kind name => simp [ask, versions, hrequired, Except.map]
  | hasVersion kind name selector =>
    obtain ⟨s, hs⟩ := hq
    simp [ask, hasVersion, get_of_not_ready h hs, Except.map]
  | aliases => simp [ask, Catalog.aliases, hrequired, Except.map]
  | summary => simp [ask, Catalog.summary, hrequired, Except.map]
  | resolve item ref =>
    rw [ask, Catalog.resolve, counted_of_not_ready h]
    exact ⟨rfl, rfl⟩
  | resolveInPackage l ref =>
    rw [ask, Catalog.resolveInPackage, counted_of_not_ready h]
    exact ⟨rfl, rfl⟩
  | symbolPack map name version =>
    obtain ⟨hresult, hcatalog⟩ := symbolPack_of_not_ready h hq.1 hq.2 name
    refine ⟨?_, hcatalog⟩
    simp only [ask, result_map, hresult]
    rfl

end Catalog

namespace GuardedCatalog

variable {g : GuardedCatalog}

/-! ### The lock between calls -/

theorem lock_round (thread : String) (access : Access) :
    ∃ taken, LockState.initial.step? (.arrive thread access) = some taken ∧
      taken.stage? thread = some (.inside access) ∧
      taken.step? (.leave thread) = some .initial := by
  cases access with
  | read =>
    refine ⟨⟨⟨1, false, 0⟩, [(thread, .inside .read)]⟩, rfl, ?_, ?_⟩
    · simp [LockState.stage?]
    · simp [LockState.step?, LockState.stage?, LockState.dropThread, LockState.notifyAll,
        LockState.initial, LockCounters.leave, LockCounters.free]
  | write =>
    refine ⟨⟨⟨0, true, 0⟩, [(thread, .inside .write)]⟩, rfl, ?_, ?_⟩
    · simp [LockState.stage?]
    · simp [LockState.step?, LockState.stage?, LockState.dropThread, LockState.notifyAll,
        LockState.initial, LockCounters.leave, LockCounters.free]

theorem call?_of_free (h : g.lock = .initial) (t : FileTree) (thread : String) (call : Call) :
    g.call? t thread call =
      some ((g.catalog.perform t call).1, ⟨(g.catalog.perform t call).2, .initial⟩) := by
  obtain ⟨taken, harrive, hinside, hleave⟩ := lock_round thread call.access
  simp [call?, h, harrive, hinside, hleave]

/-- Catalogs with any loader, at any point of their life. -/
inductive Reached : GuardedCatalog → Prop
  | created {t : FileTree} {config : CatalogConfig} {shared : Option SharedNamespace}
      {loader : PackKind → PackLoader} {c : Catalog}
      (h : Catalog.create t config shared loader = .ok c) : Reached ⟨c, .initial⟩
  | called {g g' : GuardedCatalog} {result : CallResult} (t : FileTree) (thread : String)
      (call : Call) (h : Reached g) (hcall : g.call? t thread call = some (result, g')) :
      Reached g'

theorem Reached.lock_free (h : Reached g) : g.lock = .initial := by
  induction h with
  | created => rfl
  | called t thread call _ hcall ih =>
    rw [call?_of_free ih] at hcall
    obtain ⟨-, rfl⟩ := Prod.mk.inj (Option.some.inj hcall)
    rfl

theorem call?_rebuild (h : g.lock = .initial) (t : FileTree) (thread : String) :
    g.call? t thread .rebuild =
      some (.built (g.catalog.rebuild t).2, ⟨(g.catalog.rebuild t).1, .initial⟩) :=
  call?_of_free h t thread .rebuild

theorem Reached.rebuilt (h : Reached g) (t : FileTree) (thread : String) :
    Reached ⟨(g.catalog.rebuild t).1, .initial⟩ :=
  .called t thread .rebuild h (call?_rebuild h.lock_free t thread)

/-! ### What a failed cycle leaves -/

/-- Nothing of a catalog is left but the reason. -/
structure Abandoned (g : GuardedCatalog) (e : BuildError) : Prop where
  state : g.catalog.state = .uninitialized
  last_error : g.catalog.lastError = some e
  no_group : ∀ kind, (g.catalog.table kind).groups = []
  no_alias : ∀ kind, (g.catalog.table kind).aliases = []
  no_snapshot : ∀ kind, (g.catalog.table kind).snapshot = []
  no_duplicate : ∀ kind, (g.catalog.table kind).duplicatesSkipped = 0
  no_variants : g.catalog.metrics.variantNames = 0 ∧ g.catalog.metrics.variantItems = 0
  no_symbols : g.catalog.metrics.symbolPackNames = 0 ∧ g.catalog.metrics.symbolPackItems = 0
  lock_free : g.lock = .initial
  refuses : ∀ t q, Query.WellPosed q →
    (g.catalog.ask t q).1.result = .error (.notReady .uninitialized)

theorem abandoned_failed (left : Catalog) (e : BuildError) :
    Abandoned ⟨left.failed e, .initial⟩ e where
  state := rfl
  last_error := rfl
  no_group kind := by cases kind <;> rfl
  no_alias kind := by cases kind <;> rfl
  no_snapshot kind := by cases kind <;> rfl
  no_duplicate kind := by cases kind <;> rfl
  no_variants := ⟨rfl, rfl⟩
  no_symbols := ⟨rfl, rfl⟩
  lock_free := rfl
  refuses t _ hq := (Catalog.ask_of_not_ready (c := left.failed e) nofun hq t).1

/-- A call that builds a catalog comes to an end. If it fails, then wherever it stopped and whatever
the tables held there, nothing of the catalog is left but the reason. -/
theorem failed_rebuild_abandons (hg : Reached g) (t : FileTree) (thread : String) :
    ∃ ended after, g.call? t thread .rebuild = some (.built ended, after) ∧
      ∀ e, ended.result = .error e →
        (∃ left, g.catalog.begun.buildInPlace t = (left, .error e) ∧
          after.catalog = left.failed e) ∧
        after.Abandoned e := by
  refine ⟨(g.catalog.rebuild t).2, ⟨(g.catalog.rebuild t).1, .initial⟩,
    call?_rebuild hg.lock_free t thread, ?_⟩
  intro e he
  rcases Catalog.rebuild_cases t g.catalog with
    ⟨d, -, -, hended⟩ | ⟨left, e', hstopped, hleft, hended⟩
  · rw [hended] at he
    cases he
  · obtain rfl : e' = e := Except.error.inj (hended.symm.trans he)
    refine ⟨⟨left, hstopped, hleft⟩, ?_⟩
    rw [hleft]
    exact abandoned_failed left e'

/-- A variants manifest whose second variant claims the name of the first as an alias. -/
def clashManifest : String :=
  "\x7b\"variants\":[\x7b\"name\":\"Fjord\",\"version\":2\x7d," ++
    "\x7b\"name\":\"Delta\",\"version\":1,\"aliases\":\"Fjord\"\x7d]\x7d"

def clashTree : FileTree :=
  ⟨.dir [("NorthVariant.zip",
    .file (.archive ⟨[⟨"variants.json", clashManifest.toUTF8.toList, none⟩]⟩))], []⟩

/-- A ready catalog that is built again over packs that contradict each other: the cycle stops with
both variants in the table, and leaves nothing. -/
theorem failed_rebuild_abandons_clash :
    ∃ g : GuardedCatalog, Reached g ∧ g.catalog.state = .ready ∧
      (g.catalog.begun.buildInPlace clashTree).1.variants.size = 2 ∧
      ∃ after e, (g.call? clashTree "main" .rebuild).map Prod.snd = some after ∧
        after.Abandoned e := by
  have hcreated : Reached ⟨Catalog.fjordCatalog, .initial⟩ :=
    .created (show Catalog.create Catalog.fjordTree Catalog.fjordCatalog.config none _ =
      .ok Catalog.fjordCatalog from rfl)
  let g : GuardedCatalog := ⟨(Catalog.fjordCatalog.rebuild Catalog.fjordTree).1, .initial⟩
  have hg : Reached g := hcreated.rebuilt Catalog.fjordTree "main"
  obtain ⟨hready, hsize, hstopped⟩ : g.catalog.state = .ready ∧
      (g.catalog.begun.buildInPlace clashTree).1.variants.size = 2 ∧
      (g.catalog.begun.buildInPlace clashTree).2.isOk = false := by
    decide +kernel
  obtain ⟨ended, after, hcall, habandons⟩ := failed_rebuild_abandons hg clashTree "main"
  rw [call?_rebuild hg.lock_free] at hcall
  obtain ⟨hended, hafter⟩ := Prod.mk.inj (Option.some.inj hcall)
  obtain rfl := CallResult.built.inj hended
  rcases Catalog.rebuild_cases clashTree g.catalog with ⟨d, hplace, -⟩ | ⟨left, e, -, -, he⟩
  · rw [hplace] at hstopped
    cases hstopped
  · refine ⟨g, hg, hready, hsize, after, e, ?_, (habandons e he).2⟩
    rw [call?_rebuild hg.lock_free, Option.map_some, hafter]

end GuardedCatalog

end PackIndex
