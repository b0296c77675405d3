import PackIndex.Proofs.Catalog.InPlace

/-!
# When a cycle succeeds

The two tables are filled one after the other, but neither depends on what is in the other. So the
end of a cycle is that of two independent runs over cleared tables, and a run whose archives can be
read ends as the submission of their entries does.
-/

namespace PackIndex.Catalog

variable {t : FileTree} {c : Catalog} {kind : PackKind} {found : List Location}

/-! ### One table -/

/-- Every package can be read, whether it has a manifest or not. -/
def Readable (t : FileTree) (c : Catalog) (kind : PackKind) (found : List Location) : Prop :=
  ∀ l ∈ found, ∃ entries, (c.loadEntries t kind l).result = .ok entries

theorem admitPackages_of_readable (h : c.Readable t kind found) (table : ItemTable) (n : Nat) :
    ∃ n', (admitPackages t c kind table n found).result =
      ((table.submitAll (found.flatMap (c.submissionsOf t kind))).mapError .registry).map
        fun table => (table, n') := by
  induction found generalizing table n with
  | nil => exact ⟨n, rfl⟩
  | cons l rest ih =>
    obtain ⟨entries, hload⟩ := h l List.mem_cons_self
    have hrest : c.Readable t kind rest := fun l hl => h l (List.mem_cons_of_mem _ hl)
    rw [List.flatMap_cons, ItemTable.submitAll_append]
    simp only [admitPackages, Traced.result_bind, hload, ok_bind, submissionsOf]
    cases entries with
    | none => exact ih hrest table (n + 1)
    | some entries =>
      simp only [Traced.result_bind, ItemTable.admitAll_result]
      cases table.submitAll (entries.map fun e => ⟨e, l.name, l⟩) with
      | error e => exact ⟨n, rfl⟩
      | ok next => exact ih hrest next n

theorem readable_of_admitPackages {table : ItemTable} {n : Nat} {filled : ItemTable × Nat}
    (h : (admitPackages t c kind table n found).result = .ok filled) : c.Readable t kind found := by
  induction found generalizing table n with
  | nil => exact fun _ hl => absurd hl List.not_mem_nil
  | cons l rest ih =>
    simp only [admitPackages, Traced.result_bind] at h
    obtain ⟨entries, hload, h⟩ := bind_eq_ok_iff.mp h
    refine List.forall_mem_cons.mpr ⟨⟨entries, hload⟩, ?_⟩
    cases entries with
    | none =>
      simp only [Traced.result_bind] at h
      obtain ⟨-, -, h⟩ := bind_eq_ok_iff.mp h
      exact ih h
    | some entries =>
      simp only [Traced.result_bind] at h
      obtain ⟨next, -, h⟩ := bind_eq_ok_iff.mp h
      exact ih h

/-- If its archives can be read, a run ends as the submission of their entries does. -/
theorem populate_of_readable (hfound : (c.locations t kind).result = .ok found)
    (h : c.Readable t kind found) : ∃ count, (c.populate t kind).result =
      (((c.table kind).submitAll (found.flatMap (c.submissionsOf t kind))).mapError .registry).map
        fun table => (table, count) := by
  obtain ⟨n, hadmit⟩ := admitPackages_of_readable h (c.table kind) 0
  refine ⟨⟨found.length, n⟩, ?_⟩
  simp only [populate, Traced.result_bind, hfound, ok_bind, hadmit]
  cases (c.table kind).submitAll (found.flatMap (c.submissionsOf t kind)) <;> rfl

theorem populate_ok_iff {table : ItemTable} :
    (∃ count, (c.populate t kind).result = .ok (table, count)) ↔
      ∃ found, (c.locations t kind).result = .ok found ∧ c.Readable t kind found ∧
        (c.table kind).submitAll (found.flatMap (c.submissionsOf t kind)) = .ok table := by
  constructor
  · rintro ⟨count, h⟩
    simp only [populate, Traced.result_bind] at h
    obtain ⟨found, hfound, h⟩ := bind_eq_ok_iff.mp h
    obtain ⟨⟨filled, n⟩, hfilled, h⟩ := bind_eq_ok_iff.mp h
    obtain ⟨-, -, h⟩ := bind_eq_ok_iff.mp h
    obtain ⟨rfl, -⟩ := Prod.mk.inj (Except.ok.inj h)
    exact ⟨found, hfound, readable_of_admitPackages hfilled, admitPackages_ok hfilled⟩
  · rintro ⟨found, hfound, hread, hsubmit⟩
    obtain ⟨count, hpopulate⟩ := populate_of_readable hfound hread
    rw [hsubmit] at hpopulate
    exact ⟨count, hpopulate⟩

/-! ### A whole cycle -/

theorem table_begun (c : Catalog) (kind : PackKind) : c.begun.table kind = (c.table kind).clear :=
  table_clearTables c kind

theorem holds_begun (c : Catalog) (kind : PackKind) : (c.begun.table kind).Holds [] :=
  table_begun c kind ▸ ItemTable.holds_clear _

theorem samePlan_begun (c : Catalog) : SamePlan c c.begun :=
  ⟨rfl, rfl, rfl, (samePlan_clearTables c).kinds, (samePlan_clearTables c).allowAliases⟩

theorem result_rebuild (t : FileTree) (c : Catalog) :
    (c.rebuild t).2.result = (c.begun.build t).2.1 := by
  rw [rebuild, begun]
  split <;> next hbuild => rw [hbuild]

def withTables (c : Catalog) (variants symbols : ItemTable) : Catalog :=
  { c with variants := variants, symbols := symbols }

/-- What has been put into the table of variants does not matter to the run over the other. -/
theorem populate_symbols_of_filled {table : ItemTable} {count : ScanCount}
    (h : (c.begun.populate t .variants).result = .ok (table, count)) (m : Metrics) :
    Catalog.populate t { c.begun.setTable .variants table with metrics := m } .symbols =
      c.begun.populate t .symbols := by
  obtain ⟨-, hset⟩ := (holds_begun c .variants).submitAll (populate_ok h)
  have hplan := samePlan_setTable hset.kind hset.allowAliases
  exact (hplan.trans (samePlan_metrics _ m)).populate rfl t

/-- A cycle ends as the runs over its two cleared tables, which do not depend on each other. -/
theorem rebuild_result (t : FileTree) (c : Catalog) : (c.rebuild t).2.result =
    if c.config.searchPaths = [] then .error .noSearchPaths
    else (c.begun.populate t .variants).result >>= fun variants =>
      (c.begun.populate t .symbols).result >>= fun symbols =>
        (c.withTables variants.1 symbols.1).checkTables := by
  rw [result_rebuild, build]
  have hconfig : c.begun.config = c.config := rfl
  rw [hconfig]
  split
  · rfl
  · cases hvariants : (c.begun.populate t .variants).result with
    | error e => simp only [fill, hvariants, error_bind]
    | ok filled =>
      obtain ⟨table, count⟩ := filled
      simp only [fill, hvariants, populate_symbols_of_filled hvariants, ok_bind]
      cases (c.begun.populate t .symbols).result with
      | error e => rfl
      | ok filled => rfl

/-- Whether a table of a kind must not stay empty. -/
def Requires (c : Catalog) (kind : PackKind) : Prop :=
  kind = .variants ∨ c.config.requireSymbolPacks = true

theorem checkTables_ok_iff : c.checkTables = .ok () ↔
    ∀ kind, c.Requires kind → (c.table kind).size ≠ 0 := by
  have hkinds : (∀ kind, c.Requires kind → (c.table kind).size ≠ 0) ↔
      c.variants.size ≠ 0 ∧ (c.config.requireSymbolPacks = true → c.symbols.size ≠ 0) := by
    refine ⟨fun h => ⟨h .variants (Or.inl rfl), fun hr => h .symbols (Or.inr hr)⟩, ?_⟩
    rintro ⟨hvariants, hsymbols⟩ (_ | _) hrequired
    · exact hvariants
    · exact hsymbols (hrequired.resolve_left nofun)
  rw [hkinds, checkTables]
  by_cases hvariants : c.variants.size = 0
  · simp [hvariants]
  · rw [if_neg hvariants]
    by_cases hsymbols : c.config.requireSymbolPacks = true ∧ c.symbols.size = 0
    · simp [hsymbols]
    · rw [if_neg hsymbols]
      simp only [ne_eq, hvariants, not_false_eq_true, true_and, true_iff]
      exact not_and.mp hsymbols

/-- The archives of a kind can be read, and a cleared table takes their entries and is not left empty
where that is not allowed. -/
def CanFill (t : FileTree) (c : Catalog) (kind : PackKind) : Prop :=
  ∃ found table, (c.locations t kind).result = .ok found ∧ c.Readable t kind found ∧
    (c.table kind).clear.submitAll (found.flatMap (c.submissionsOf t kind)) = .ok table ∧
    (c.Requires kind → table.size ≠ 0)

/-- When the run over a cleared table comes to its end, and what the table then is. -/
theorem populate_begun_ok_iff {table : ItemTable} :
    (∃ count, (c.begun.populate t kind).result = .ok (table, count)) ↔
      ∃ found, (c.locations t kind).result = .ok found ∧ c.Readable t kind found ∧
        (c.table kind).clear.submitAll (found.flatMap (c.submissionsOf t kind)) = .ok table := by
  have hplan := samePlan_begun c
  rw [populate_ok_iff]
  simp only [table_begun, Readable, hplan.locations, hplan.loadEntries, hplan.submissionsOf]

theorem canFill_iff : c.CanFill t kind ↔ ∃ filled, (c.begun.populate t kind).result = .ok filled ∧
    (c.Requires kind → filled.1.size ≠ 0) := by
  constructor
  · rintro ⟨found, table, hfound, hread, hsubmit, hsize⟩
    obtain ⟨count, hpopulate⟩ := populate_begun_ok_iff.mpr ⟨found, hfound, hread, hsubmit⟩
    exact ⟨(table, count), hpopulate, hsize⟩
  · rintro ⟨⟨table, count⟩, hpopulate, hsize⟩
    obtain ⟨found, hfound, hread, hsubmit⟩ := populate_begun_ok_iff.mp ⟨count, hpopulate⟩
    exact ⟨found, table, hfound, hread, hsubmit, hsize⟩

/-- A cycle succeeds exactly if there is a search path and both tables can be filled. -/
theorem rebuild_ok_iff : (c.rebuild t).2.result = .ok () ↔
    c.config.searchPaths ≠ [] ∧ ∀ kind, c.CanFill t kind := by
  rw [rebuild_result]
  by_cases hpaths : c.config.searchPaths = []
  · simp [hpaths]
  · rw [if_neg hpaths]
    simp only [bind_eq_ok_iff, checkTables_ok_iff, canFill_iff]
    constructor
    · rintro ⟨variants, hvariants, symbols, hsymbols, hsizes⟩
      refine ⟨hpaths, fun kind => ?_⟩
      cases kind with
      | variants => exact ⟨variants, hvariants, hsizes .variants⟩
      | symbols => exact ⟨symbols, hsymbols, hsizes .symbols⟩
    · rintro ⟨-, h⟩
      obtain ⟨variants, hvariants, hsize⟩ := h .variants
      obtain ⟨symbols, hsymbols, hsize'⟩ := h .symbols
      refine ⟨variants, hvariants, symbols, hsymbols, fun kind => ?_⟩
      cases kind with
      | variants => exact hsize
      | symbols => exact hsize'

end PackIndex.Catalog
