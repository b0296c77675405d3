import PackIndex.Proofs.Catalog.History
import PackIndex.Proofs.Catalog.Steps
import PackIndex.Proofs.Catalog.View
import PackIndex.Proofs.Work

/-!
# Catalogs between two cycles

Between two cycles questions alone take steps, and these change no more than what the tables
remember of listings, and the metrics. So the catalog stays as the last cycle has left it in all that answers
and the next cycle are made of, and the steps of a question are not disturbed by those of others.
-/

namespace PackIndex

def ItemTable.remembering (t : ItemTable) (snapshot : List Item) : ItemTable := { t with snapshot }

namespace Catalog

variable {t : FileTree} {k c : Catalog}

/-- A catalog as a cycle leaves it: well-formed tables, and no listing remembered. -/
structure Whole (k : Catalog) : Prop where
  wellFormed : ∀ kind, (k.table kind).WellFormed
  no_listing : ∀ kind, (k.table kind).snapshot = []

/-- A catalog that is as it was left, but for the metrics and for listings that are remembered. -/
structure Settled (k c : Catalog) : Prop where
  same : c = { k with variants := c.variants, symbols := c.symbols, metrics := c.metrics }
  tables : ∀ kind, c.table kind = (k.table kind).remembering (c.table kind).snapshot
  upToDate : ∀ kind, (c.table kind).UpToDate

theorem Whole.upToDate (h : k.Whole) (kind : PackKind) : (k.table kind).UpToDate :=
  ⟨h.wellFormed kind, Or.inl (h.no_listing kind)⟩

theorem Whole.settled (h : k.Whole) : k.Settled k := ⟨rfl, fun _ => rfl, h.upToDate⟩

theorem Whole.create {config : CatalogConfig} {shared : Option SharedNamespace}
    {loader : PackKind → PackLoader} (h : create t config shared loader = .ok c) : c.Whole := by
  obtain ⟨ns, rfl, -⟩ := create_cases h
  refine ⟨fun kind => ?_, fun kind => by cases kind <;> rfl⟩
  cases kind <;> exact ItemTable.wellFormed_empty _ _

theorem whole_rebuild (t : FileTree) (c : Catalog) : (c.rebuild t).1.Whole := by
  rcases rebuild_cases t c with ⟨-, -, -, hok⟩ | ⟨left, e, -, hleft, -⟩
  · obtain ⟨-, hsubmit⟩ := (rebuild_spec t c).2 hok
    have htable (kind : PackKind) := (ItemTable.holds_clear _).submitAll (hsubmit kind)
    exact ⟨fun kind => (htable kind).1.wellFormed, fun kind => (htable kind).2.snapshot⟩
  · rw [hleft]
    refine ⟨fun kind => ?_, fun kind => by cases kind <;> rfl⟩
    cases kind <;> exact ItemTable.wellFormed_clear _

namespace Settled

theorem sameView (h : k.Settled c) : SameView k c where
  state := by rw [h.same]
  shared := by rw [h.same]
  entries kind := ⟨by rw [h.tables]; rfl, by rw [h.tables]; rfl⟩

theorem setMetrics (h : k.Settled c) (m : Metrics) : k.Settled { c with metrics := m } := by
  refine ⟨?_, h.tables, h.upToDate⟩
  have hsame := congrArg (fun d : Catalog => { d with metrics := m }) h.same
  exact hsame

theorem listed (h : k.Settled c) (kind : PackKind) :
    k.Settled (c.setTable kind (c.table kind).latest.2) := by
  have hlatest := ItemTable.latest_snd_eq (c.table kind)
  have hother (other : PackKind) (hne : other ≠ kind) :
      (c.setTable kind (c.table kind).latest.2).table other = c.table other :=
    table_setTable_of_ne hne _
  refine ⟨?_, fun other => ?_, fun other => ?_⟩
  · have hsame := congrArg (fun d : Catalog => d.setTable kind (c.table kind).latest.2) h.same
    cases kind <;> exact hsame
  · by_cases he : other = kind
    · rw [he, table_setTable_self, hlatest, h.tables kind]
      rfl
    · rw [hother other he]
      exact h.tables other
  · by_cases he : other = kind
    · rw [he, table_setTable_self]
      exact (h.upToDate kind).latest
    · rw [hother other he]
      exact h.upToDate other

theorem begun (h : k.Settled c) : c.begun = k.begun.withRecord c.metrics k.lastError := by
  have hclear (kind : PackKind) : (c.table kind).clear = (k.table kind).clear := by
    rw [h.tables kind]
    rfl
  have hvariants : c.variants.clear = k.variants.clear := hclear .variants
  have hsymbols : c.symbols.clear = k.symbols.clear := hclear .symbols
  simp only [Catalog.begun, clearTables, hvariants, hsymbols]
  rw [h.same]
  rfl

theorem rebuild (h : k.Settled c) (t : FileTree) :
    (c.rebuild t).2 = (k.rebuild t).2 ∧ (k.rebuild t).1.Settled (c.rebuild t).1 := by
  obtain ⟨hended, halike⟩ := rebuild_of_begun h.begun t
  have hleft := (whole_rebuild t k).settled.setMetrics (c.rebuild t).1.metrics
  rw [← halike.same] at hleft
  exact ⟨hended, hleft⟩

end Settled

/-! ### Questions -/

theorem steady_requireReady (k : Catalog) : (Work.look requireReady).Steady k.Settled :=
  .look k fun _ hs => hs.sameView.requireReady

theorem steady_groupSteps {α : Type} (k : Catalog) (kind : PackKind) (name : String)
    (read : VersionGroup → α) : (groupSteps kind name read).Steady k.Settled := by
  have howner : (ownerSteps kind name).Steady k.Settled := by
    refine .bind (.look k fun _ hs => (hs.sameView.entries kind).groupNamed? _) fun found => ?_
    cases found with
    | some g => exact .done _
    | none => exact .look k fun _ hs => (hs.sameView.entries kind).aliasOwner? _
  refine howner.bind fun owner => ?_
  cases owner with
  | none => exact .done _
  | some owner =>
    exact .look k fun _ hs =>
      congrArg (Option.map read) ((hs.sameView.entries kind).groupNamed? owner)

theorem steady_lookupSteps (k : Catalog) (kind : PackKind) (name : Option String)
    (selector : Selector) (strict : Bool) :
    (lookupSteps kind name selector strict).Steady k.Settled := by
  cases name with
  | none => exact .done none
  | some name => exact (steady_groupSteps k kind name _).map _

/-- Listings made at different times are the same, whether they are remembered or made anew. -/
theorem Whole.steady_listSteps (hk : k.Whole) (kind : PackKind) :
    (listSteps kind).Steady k.Settled :=
  .act k (fun _ hs => congrArg (Except.mapError QueryError.registry)
    ((hs.sameView.entries kind).latest (hk.upToDate kind) (hs.upToDate kind)))
    fun _ hs => hs.listed kind

theorem steady_getSteps (k : Catalog) (kind : Value) (name : Option String) (selector : Selector)
    (strict : Bool) : (getSteps kind name selector strict).Steady k.Settled :=
  (steady_requireReady k).andThen fun _ =>
    (Work.Steady.done _).andThen fun kind => (steady_lookupSteps k kind name selector strict).map _

theorem steady_versionsSteps (k : Catalog) (kind : Value) (name : Option String) :
    (versionsSteps kind name).Steady k.Settled := by
  refine (steady_requireReady k).andThen fun _ => ?_
  cases name with
  | none => exact .done _
  | some name =>
    exact (Work.Steady.done _).andThen fun kind =>
      (steady_groupSteps k kind name _).bind fun _ => .done _

theorem steady_resolveSteps (k : Catalog)
    (found : Option SharedNamespace → Traced ResolutionError Resolution) :
    (resolveSteps found).Steady k.Settled := by
  have hlook : (Work.look fun c : Catalog =>
      (found c.shared).result.mapError QueryError.resolution).Steady k.Settled :=
    .look k fun s hs => by rw [hs.sameView.shared]
  exact (steady_requireReady k).andThen fun _ => hlook.andThen fun r =>
    (Work.Steady.change fun s hs => hs.setMetrics _).bind fun _ => .done _

theorem Whole.steady_packSteps (hk : k.Whole) (name : Option String) (selector : Selector)
    (preferred : Option String) : (packSteps name selector preferred).Steady k.Settled := by
  refine (steady_requireReady k).andThen fun _ => .bind (.firstOf ?_) fun found => ?_
  · simp only [List.forall_mem_cons]
    exact ⟨steady_lookupSteps k .symbols name selector true,
      steady_lookupSteps k .symbols name .newest false,
      steady_lookupSteps k .symbols preferred .newest false, nofun⟩
  · cases found with
    | some item => exact .done _
    | none =>
      refine (hk.steady_listSteps .symbols).andThen fun items => ?_
      cases items with
      | nil => exact .done _
      | cons item items => exact .done _

theorem steady_summarySteps (k : Catalog) : summarySteps.Steady k.Settled := by
  have hvariants (s : Catalog) (hs : k.Settled s) : k.variants.SameEntries s.variants :=
    hs.sameView.entries .variants
  have hsymbols (s : Catalog) (hs : k.Settled s) : k.symbols.SameEntries s.symbols :=
    hs.sameView.entries .symbols
  exact (steady_requireReady k).andThen fun _ =>
    .bind (.look k fun s hs => (hvariants s hs).size) fun _ =>
    .bind (.look k fun s hs => (hvariants s hs).itemCount) fun _ =>
    .bind (.look k fun s hs => congrArg List.length (hvariants s hs).aliases) fun _ =>
    .bind (.look k fun s hs => (hsymbols s hs).size) fun _ =>
    .bind (.look k fun s hs => (hsymbols s hs).itemCount) fun _ => .done _

/-- The steps of a question between two cycles are not disturbed by those of other questions. -/
theorem Whole.steady_steps (hk : k.Whole) {q : Query}
    {work : Work Catalog (Except QueryError Reply)} (h : q.steps t = .ok work) :
    work.Steady k.Settled := by
  cases q with
  | list kind =>
    obtain rfl := Except.ok.inj h
    exact (steady_requireReady k).andThen fun _ =>
      (Work.Steady.done _).andThen fun kind => (hk.steady_listSteps kind).map _
  | get kind name selector strict =>
    obtain ⟨selector, -, rfl⟩ := map_eq_ok_iff.mp h
    exact (steady_getSteps k kind name selector strict).map _
  | versions kind name =>
    obtain rfl := Except.ok.inj h
    exact (steady_versionsSteps k kind name).map _
  | hasVersion kind name selector =>
    obtain ⟨selector, -, rfl⟩ := map_eq_ok_iff.mp h
    exact (steady_getSteps k kind name selector true).map _
  | aliases =>
    obtain rfl := Except.ok.inj h
    have haliases (s : Catalog) (hs : k.Settled s) : s.variants.aliases = k.variants.aliases :=
      (hs.sameView.entries .variants).aliases
    exact (steady_requireReady k).andThen fun _ =>
      .look k fun s hs => congrArg (fun found => Except.ok (Reply.aliases found)) (haliases s hs)
  | summary =>
    obtain rfl := Except.ok.inj h
    exact (steady_summarySteps k).map _
  | resolve item ref =>
    obtain rfl := Except.ok.inj h
    exact (steady_resolveSteps k _).map _
  | resolveInPackage l ref =>
    obtain rfl := Except.ok.inj h
    exact (steady_resolveSteps k _).map _
  | symbolPack map name version =>
    cases map with
    | none => cases h
    | some map =>
      obtain ⟨selector, -, rfl⟩ := map_eq_ok_iff.mp h
      exact (hk.steady_packSteps name selector map.preferredPack).map _

end Catalog

theorem Call.undisturbed_steps {t : FileTree} {call : Call} {k : Catalog} (hk : k.Whole)
    {work : Work Catalog Ended} (h : call.steps t = .ok work) (hread : call.access = .read) :
    work.Undisturbed k.Settled (k.perform t call).1.ended := by
  have hsteady : work.Steady k.Settled := by
    cases call with
    | rebuild => cases hread
    | ask q =>
      simp only [Call.steps] at h
      split at h
      · cases h
      · next work' hwork =>
        obtain rfl := Except.ok.inj h
        exact (hk.steady_steps hwork).map _
  have hrun := congrArg Prod.fst (Call.run_steps h k)
  have hended := hsteady.undisturbed hk.settled
  rwa [hrun] at hended

end PackIndex
