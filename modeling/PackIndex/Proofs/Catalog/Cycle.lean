import PackIndex.Catalog.Build
import PackIndex.Proofs.Registry.Contents
import PackIndex.Proofs.Result

/-!
# What a cycle submits

A cycle offers to each table the entries of the packages of its kind, one package after the other.
It succeeds only if both tables take what they are offered to the end, starting empty; then each
table is the one that this leads to. However it ends, the configuration stays, and so do the kinds
of the tables and what they do with aliases.
-/

namespace PackIndex

namespace ItemTable

theorem submitAll_append (t : ItemTable) (subs more : List Submission) :
    t.submitAll (subs ++ more) = t.submitAll subs >>= fun u => u.submitAll more := by
  induction subs generalizing t with
  | nil => rfl
  | cons s rest ih =>
    simp only [List.cons_append, submitAll]
    split
    · rfl
    · exact ih _

theorem admitAll_result (t : ItemTable) (packageName : String) (source : Location)
    (entries : List ManifestEntry) : (admitAll packageName source t entries).result =
      (t.submitAll (entries.map fun e => ⟨e, packageName, source⟩)).mapError .registry := by
  induction entries generalizing t with
  | nil => rfl
  | cons e rest ih =>
    have hsubmit : t.submit ⟨e, packageName, source⟩ = t.register e packageName source := rfl
    rw [List.map_cons, admitAll, submitAll, hsubmit]
    rcases t.register e packageName source with ⟨admission, u⟩
    cases admission with
    | refused e => rfl
    | admitted i =>
      simp only [Traced.result_bind, ih]
      rfl
    | skipped i =>
      simp only [Traced.result_bind, ih]
      rfl

end ItemTable

namespace Catalog

variable {t : FileTree} {c d : Catalog} {kind : PackKind}

/-! ### What is offered -/

def submissionsOf (t : FileTree) (c : Catalog) (kind : PackKind) (l : Location) :
    List Submission :=
  match (c.loadEntries t kind l).result with
  | .ok (some entries) => entries.map fun e => ⟨e, l.name, l⟩
  | _ => []

def offered (t : FileTree) (c : Catalog) (kind : PackKind) : List Submission :=
  match (c.locations t kind).result with
  | .ok found => found.flatMap (c.submissionsOf t kind)
  | .error _ => []

theorem mem_offered_iff {s : Submission} : s ∈ c.offered t kind ↔
    ∃ found, (c.locations t kind).result = .ok found ∧ ∃ l ∈ found, ∃ entries,
      (c.loadEntries t kind l).result = .ok (some entries) ∧
        ∃ e ∈ entries, s = ⟨e, l.name, l⟩ := by
  unfold offered
  cases (c.locations t kind).result with
  | error e => simp
  | ok found =>
    simp only [List.mem_flatMap, Except.ok.injEq, exists_eq_left']
    refine exists_congr fun l => and_congr_right fun _ => ?_
    unfold submissionsOf
    rcases (c.loadEntries t kind l).result with e | _ | entries
    · simp
    · simp
    · simp [eq_comm]

theorem admitPackages_ok {table table' : ItemTable} {n n' : Nat} {found : List Location}
    (h : (admitPackages t c kind table n found).result = .ok (table', n')) :
    table.submitAll (found.flatMap (c.submissionsOf t kind)) = .ok table' := by
  induction found generalizing table n with
  | nil =>
    obtain ⟨rfl, -⟩ := Prod.mk.inj (Except.ok.inj h)
    rfl
  | cons l rest ih =>
    simp only [admitPackages, Traced.result_bind] at h
    obtain ⟨entries, hload, h⟩ := bind_eq_ok_iff.mp h
    rw [List.flatMap_cons, ItemTable.submitAll_append, submissionsOf, hload]
    cases entries with
    | none =>
      simp only [Traced.result_bind] at h
      obtain ⟨-, -, h⟩ := bind_eq_ok_iff.mp h
      exact ih h
    | some entries =>
      simp only [Traced.result_bind, ItemTable.admitAll_result] at h
      obtain ⟨next, hnext, h⟩ := bind_eq_ok_iff.mp h
      exact bind_eq_ok_iff.mpr ⟨next, mapError_eq_ok_iff.mp hnext, ih h⟩

theorem admitPackages_congr (hload : ∀ l, d.loadEntries t kind l = c.loadEntries t kind l)
    (hname : d.manifestName kind = c.manifestName kind) (table : ItemTable) (n : Nat)
    (found : List Location) :
    admitPackages t d kind table n found = admitPackages t c kind table n found := by
  induction found generalizing table n with
  | nil => rfl
  | cons l rest ih => simp only [admitPackages, hload, hname, ih]

theorem populate_ok {table : ItemTable} {count : ScanCount}
    (h : (c.populate t kind).result = .ok (table, count)) :
    (c.table kind).submitAll (c.offered t kind) = .ok table := by
  simp only [populate, Traced.result_bind] at h
  obtain ⟨found, hfound, h⟩ := bind_eq_ok_iff.mp h
  obtain ⟨⟨filled, n⟩, hfilled, h⟩ := bind_eq_ok_iff.mp h
  obtain ⟨-, -, h⟩ := bind_eq_ok_iff.mp h
  obtain ⟨rfl, -⟩ := Prod.mk.inj (Except.ok.inj h)
  rw [offered, hfound]
  exact admitPackages_ok hfilled

/-! ### What stays -/

/-- Two catalogs that look for the same packs in the same way and keep tables of the same kinds. -/
structure SamePlan (c d : Catalog) : Prop where
  config : d.config = c.config
  shared : d.shared = c.shared
  loader : d.loader = c.loader
  kinds : ∀ kind, (d.table kind).kind = (c.table kind).kind
  allowAliases : ∀ kind, (d.table kind).allowAliases = (c.table kind).allowAliases

namespace SamePlan

theorem refl (c : Catalog) : SamePlan c c := ⟨rfl, rfl, rfl, fun _ => rfl, fun _ => rfl⟩

theorem trans {e : Catalog} (h : SamePlan c d) (h' : SamePlan d e) : SamePlan c e :=
  ⟨h'.1.trans h.1, h'.2.trans h.2, h'.3.trans h.3, fun kind => (h'.4 kind).trans (h.4 kind),
    fun kind => (h'.5 kind).trans (h.5 kind)⟩

section Plan

variable (h : SamePlan c d)
include h

theorem manifestName (kind : PackKind) : d.manifestName kind = c.manifestName kind := by
  cases kind <;> simp only [Catalog.manifestName, h.config]

theorem suffixes (kind : PackKind) : d.suffixes kind = c.suffixes kind := by
  cases kind <;> simp only [Catalog.suffixes, h.config]

theorem locations (t : FileTree) (kind : PackKind) : d.locations t kind = c.locations t kind := by
  simp only [Catalog.locations, h.config, h.shared, h.manifestName, h.suffixes]

theorem loadEntries (t : FileTree) (kind : PackKind) (l : Location) :
    d.loadEntries t kind l = c.loadEntries t kind l := by
  simp only [Catalog.loadEntries, h.loader, h.manifestName]

theorem submissionsOf (t : FileTree) (kind : PackKind) :
    d.submissionsOf t kind = c.submissionsOf t kind := by
  funext l
  simp only [Catalog.submissionsOf, h.loadEntries]

theorem offered (t : FileTree) (kind : PackKind) : d.offered t kind = c.offered t kind := by
  simp only [Catalog.offered, h.locations, h.submissionsOf]

theorem admitPackages (t : FileTree) (kind : PackKind) (table : ItemTable) (n : Nat)
    (found : List Location) : Catalog.admitPackages t d kind table n found =
      Catalog.admitPackages t c kind table n found :=
  admitPackages_congr (h.loadEntries t kind) (h.manifestName kind) table n found

theorem populate (htable : d.table kind = c.table kind) (t : FileTree) :
    d.populate t kind = c.populate t kind := by
  simp only [Catalog.populate, h.locations, htable, h.admitPackages]

end Plan

end SamePlan

@[simp] theorem table_clearTables (c : Catalog) (kind : PackKind) :
    c.clearTables.table kind = (c.table kind).clear := by
  cases kind <;> rfl

theorem samePlan_clearTables (c : Catalog) : SamePlan c c.clearTables :=
  ⟨rfl, rfl, rfl, fun kind => by rw [table_clearTables]; rfl,
    fun kind => by rw [table_clearTables]; rfl⟩

@[simp] theorem table_setTable_self (c : Catalog) (kind : PackKind) (table : ItemTable) :
    (c.setTable kind table).table kind = table := by
  cases kind <;> rfl

theorem table_setTable_of_ne {other : PackKind} (h : other ≠ kind) (table : ItemTable) :
    (c.setTable kind table).table other = c.table other := by
  cases kind <;> cases other <;> first | rfl | exact absurd rfl h

theorem samePlan_setTable {table : ItemTable} (hkind : table.kind = (c.table kind).kind)
    (hallow : table.allowAliases = (c.table kind).allowAliases) :
    SamePlan c (c.setTable kind table) := by
  refine ⟨by cases kind <;> rfl, by cases kind <;> rfl, by cases kind <;> rfl, ?_, ?_⟩
  · intro other
    by_cases he : other = kind
    · rw [he, table_setTable_self, hkind]
    · rw [table_setTable_of_ne he]
  · intro other
    by_cases he : other = kind
    · rw [he, table_setTable_self, hallow]
    · rw [table_setTable_of_ne he]

theorem samePlan_metrics (c : Catalog) (m : Metrics) : SamePlan c { c with metrics := m } :=
  ⟨rfl, rfl, rfl, fun _ => rfl, fun _ => rfl⟩

/-! ### A cycle -/

/-- Filling a table fails and changes nothing, or ends with what the table made of its offers. -/
theorem fill_cases (t : FileTree) (h : (c.table kind).Holds []) :
    (∃ e events, c.fill t kind = (c, .error e, events)) ∨
    ∃ d events, c.fill t kind = (d, .ok (), events) ∧ SamePlan c d ∧
      (c.table kind).submitAll (c.offered t kind) = .ok (d.table kind) ∧
      ∀ other, other ≠ kind → d.table other = c.table other := by
  cases hfilled : (c.populate t kind).result with
  | error e => exact Or.inl ⟨e, (c.populate t kind).events, by simp only [fill, hfilled]⟩
  | ok filled =>
    obtain ⟨table, count⟩ := filled
    have hsubmit := populate_ok hfilled
    obtain ⟨-, hset⟩ := h.submitAll hsubmit
    have hplan := samePlan_setTable hset.kind hset.allowAliases
    refine Or.inr ⟨{ c.setTable kind table with
      metrics := c.metrics.recordScan count.scanned count.withoutManifest },
      (c.populate t kind).events, by simp only [fill, hfilled],
      ⟨hplan.1, hplan.2, hplan.3, hplan.4, hplan.5⟩, ?_, fun _ ho => table_setTable_of_ne ho table⟩
    exact hsubmit.trans (congrArg Except.ok (table_setTable_self c kind table).symm)

/-- Building keeps the plan, and if it succeeds both tables have taken what they were offered. -/
theorem build_spec (t : FileTree) (h : ∀ kind, (c.table kind).Holds []) :
    SamePlan c (c.build t).1 ∧ ((c.build t).2.1 = .ok () →
      ∀ kind, (c.table kind).submitAll (c.offered t kind) = .ok ((c.build t).1.table kind)) := by
  unfold build
  split
  · exact ⟨.refl c, nofun⟩
  · rcases fill_cases t (h .variants) with ⟨e, events, hfill⟩ | ⟨d, events, hfill, hplan, hsubmit, hkeep⟩
    · simp only [hfill]
      exact ⟨.refl c, nofun⟩
    · -- the scan for variants has left the other table alone, so that is still empty
      have hsymbols : (d.table .symbols).Holds [] := by
        rw [hkeep .symbols nofun]
        exact h .symbols
      simp only [hfill]
      rcases fill_cases t hsymbols with
        ⟨e, more, hfill'⟩ | ⟨d', more, hfill', hplan', hsubmit', hkeep'⟩
      · simp only [hfill']
        exact ⟨hplan, nofun⟩
      · simp only [hfill']
        refine ⟨hplan.trans hplan', fun _ kind => ?_⟩
        cases kind with
        | variants => rw [hkeep' .variants nofun, hsubmit]
        | symbols => rw [← hkeep .symbols nofun, ← hplan.offered, hsubmit']

/-- A cycle keeps the plan. If it succeeds, the catalog is ready, and each table is what an empty
one makes of the entries it was offered. -/
theorem rebuild_spec (t : FileTree) (c : Catalog) :
    SamePlan c (c.rebuild t).1 ∧ ((c.rebuild t).2.result = .ok () →
      (c.rebuild t).1.state = .ready ∧ ∀ kind,
        (c.table kind).clear.submitAll (c.offered t kind) = .ok ((c.rebuild t).1.table kind)) := by
  have hstart : SamePlan c { c.clearTables with state := .initializing } :=
    ⟨rfl, rfl, rfl, (samePlan_clearTables c).kinds, (samePlan_clearTables c).allowAliases⟩
  have hempty (kind : PackKind) :
      (Catalog.table { c.clearTables with state := .initializing } kind).Holds [] := by
    have hclear : Catalog.table { c.clearTables with state := .initializing } kind =
        (c.table kind).clear := table_clearTables c kind
    rw [hclear]
    exact ItemTable.holds_clear _
  obtain ⟨hplan, hok⟩ := build_spec t hempty
  have hwhole := hstart.trans hplan
  unfold rebuild
  split
  · next d e events hbuild =>
    rw [hbuild] at hwhole
    have hclear := samePlan_clearTables d
    have hend := hwhole.trans hclear
    exact ⟨⟨hend.1, hend.2, hend.3, hend.4, hend.5⟩, nofun⟩
  · next d events hbuild =>
    rw [hbuild] at hwhole hok
    refine ⟨⟨hwhole.1, hwhole.2, hwhole.3, hwhole.4, hwhole.5⟩, fun _ => ⟨rfl, fun kind => ?_⟩⟩
    have hsubmit := hok rfl kind
    rw [hstart.offered] at hsubmit
    exact (table_clearTables c kind) ▸ hsubmit

end Catalog

end PackIndex
