import PackIndex.Proofs.Catalog.Abandoned
import PackIndex.Proofs.Catalog.Outcome
import PackIndex.Proofs.Catalog.Settled

/-!
# The life of a catalog with any loader

Wherever its entries come from, a catalog is changed by cycles, by listings that are remembered and
by counts. So at any point of its life its tables are well formed, what they remember of listings is
up to date, symbol packs have no aliases, and no table that must not stay empty is empty while the
catalog is ready.
-/

namespace PackIndex

namespace Catalog

variable {t : FileTree} {c : Catalog}

theorem ask_snd (t : FileTree) (c : Catalog) (q : Query) : (c.ask t q).2 = c ∨
    (∃ kind, (c.ask t q).2 = (c.latest kind).2) ∨
      ∃ m, (c.ask t q).2 = { c with metrics := m } := by
  cases q with
  | list kind => exact (list_snd c kind).imp_right Or.inl
  | resolve item ref =>
    exact (counted_snd c (Resolver.resolveGiven t c.shared item ref)).imp_right Or.inr
  | resolveInPackage l ref =>
    exact (counted_snd c (Resolver.resolveInGiven t c.shared l ref)).imp_right Or.inr
  | symbolPack map name version =>
    exact (symbolPack_snd c map name version).imp_right fun h => Or.inl ⟨.symbols, h⟩
  | get | versions | hasVersion | aliases | summary => exact Or.inl rfl

/-- Catalogs with the same plan, state and entries; what they remember of listings, and the metrics,
may differ. -/
structure SameStock (c d : Catalog) : Prop where
  plan : SamePlan c d
  state : d.state = c.state
  entries : ∀ kind, (c.table kind).SameEntries (d.table kind)
  cleared : ∀ kind, (d.table kind).clear = (c.table kind).clear

theorem SameStock.refl (c : Catalog) : SameStock c c :=
  ⟨.refl c, rfl, fun _ => ⟨rfl, rfl⟩, fun _ => rfl⟩

/-- Listing a table may change that table, as far as it remembers listings. -/
theorem latest_snd_cases (c : Catalog) (kind : PackKind) : (c.latest kind).2 = c ∨
    (c.latest kind).2 = c.setTable kind (c.table kind).latest.2 := by
  unfold latest
  split
  · exact Or.inl rfl
  · exact Or.inr rfl

theorem sameStock_latest (c : Catalog) (kind : PackKind) : SameStock c (c.latest kind).2 := by
  rcases latest_snd_cases c kind with heq | heq
  · rw [heq]
    exact .refl c
  · have htable (other : PackKind) : ∃ snapshot, (c.latest kind).2.table other =
        { c.table other with snapshot } := by
      rw [heq]
      by_cases he : other = kind
      · rw [he, table_setTable_self]
        exact ⟨_, ItemTable.latest_snd_eq (c.table kind)⟩
      · exact ⟨(c.table other).snapshot, table_setTable_of_ne he _⟩
    refine ⟨samePlan_latest c kind, by rw [heq]; cases kind <;> rfl, fun other => ?_, fun other => ?_⟩
    · obtain ⟨snapshot, hother⟩ := htable other
      rw [hother]
      exact ⟨rfl, rfl⟩
    · obtain ⟨snapshot, hother⟩ := htable other
      rw [hother]
      rfl

theorem sameStock_ask (t : FileTree) (c : Catalog) (q : Query) : SameStock c (c.ask t q).2 := by
  rcases ask_snd t c q with heq | ⟨kind, heq⟩ | ⟨m, heq⟩
  · rw [heq]
    exact .refl c
  · rw [heq]
    exact sameStock_latest c kind
  · rw [heq]
    exact ⟨samePlan_metrics c m, rfl, fun _ => ⟨rfl, rfl⟩, fun _ => rfl⟩

/-! ### At any point -/

/-- A catalog at any point of its life. -/
structure Sane (c : Catalog) : Prop where
  upToDate : ∀ kind, (c.table kind).UpToDate
  no_alias : c.symbols.allowAliases = false
  furnished : c.state = .ready → ∀ kind, c.Requires kind → (c.table kind).size ≠ 0

theorem Sane.create {config : CatalogConfig} {shared : Option SharedNamespace}
    {loader : PackKind → PackLoader} (h : create t config shared loader = .ok c) : c.Sane := by
  have hwhole := Whole.create h
  obtain ⟨ns, rfl, -⟩ := create_cases h
  exact ⟨hwhole.upToDate, rfl, nofun⟩

theorem Sane.rebuild (h : c.Sane) (t : FileTree) : (c.rebuild t).1.Sane := by
  obtain ⟨hplan, hbuilt⟩ := rebuild_spec t c
  refine ⟨(whole_rebuild t c).upToDate, (hplan.allowAliases .symbols).trans h.no_alias, ?_⟩
  intro hready kind hrequires
  rcases rebuild_cases t c with ⟨-, -, -, hok⟩ | ⟨left, e, -, hleft, -⟩
  · obtain ⟨-, hsubmitted⟩ := hbuilt hok
    obtain ⟨-, hfills⟩ := rebuild_ok_iff.mp hok
    obtain ⟨found, table, hfound, -, hsubmit, hsize⟩ := hfills kind
    have hoffered : c.offered t kind = found.flatMap (c.submissionsOf t kind) := by
      rw [offered, hfound]
    rw [← hoffered, hsubmitted kind] at hsubmit
    obtain rfl := Except.ok.inj hsubmit
    rw [Requires, hplan.config] at hrequires
    exact hsize hrequires
  · rw [hleft] at hready
    cases hready

theorem Sane.upToDate_latest (h : c.Sane) (kind other : PackKind) :
    ((c.latest kind).2.table other).UpToDate := by
  rcases latest_snd_cases c kind with heq | heq
  · rw [heq]
    exact h.upToDate other
  · rw [heq]
    by_cases he : other = kind
    · rw [he, table_setTable_self]
      exact (h.upToDate kind).latest
    · rw [table_setTable_of_ne he]
      exact h.upToDate other

theorem Sane.ask (h : c.Sane) (t : FileTree) (q : Query) : (c.ask t q).2.Sane := by
  have hstock := sameStock_ask t c q
  refine ⟨fun other => ?_, (hstock.plan.allowAliases .symbols).trans h.no_alias, ?_⟩
  · rcases ask_snd t c q with heq | ⟨kind, heq⟩ | ⟨m, heq⟩
    · rw [heq]
      exact h.upToDate other
    · rw [heq]
      exact h.upToDate_latest kind other
    · rw [heq]
      exact h.upToDate other
  · intro hready kind hrequires
    rw [Requires, hstock.plan.config] at hrequires
    rw [(hstock.entries kind).size]
    exact h.furnished (hstock.state.symm.trans hready) kind hrequires

theorem Sane.perform (h : c.Sane) (t : FileTree) (call : Call) : (c.perform t call).2.Sane := by
  cases call with
  | rebuild => exact h.rebuild t
  | ask q => exact h.ask t q

end Catalog

theorem GuardedCatalog.Reached.sane {g : GuardedCatalog} (h : g.Reached) : g.catalog.Sane := by
  induction h with
  | created h => exact .create h
  | @called g g' result t thread call hg hcall ih =>
    rw [call?_of_free hg.lock_free] at hcall
    obtain ⟨-, rfl⟩ := Prod.mk.inj (Option.some.inj hcall)
    exact ih.perform t call

end PackIndex
