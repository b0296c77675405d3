import PackIndex.Proofs.Catalog.Cycle

/-!
# A cycle in place

`rebuild` fills tables of its own and drops them when it fails. Here a cycle fills the tables where
they stand, so a fault leaves them as they then are: with the entries before the one at fault, and
of that one maybe its group, its item and some of its aliases. A failed cycle clears its tables
whatever they hold, so the two are the same.
-/

namespace PackIndex

namespace ItemTable

variable {t : ItemTable}

/-! ### What clearing keeps -/

theorem clear_putGroup (t : ItemTable) (g : VersionGroup) : (t.putGroup g).clear = t.clear := by
  rw [putGroup_eq]
  rfl

theorem clear_mapAlias {u : ItemTable} {item : Item} {word : String}
    (h : t.mapAlias item word = .ok u) : u.clear = t.clear := by
  simp only [mapAlias] at h
  split at h
  · obtain rfl := Except.ok.inj h
    rfl
  · split at h
    · obtain rfl := Except.ok.inj h
      rfl
    · split at h
      · obtain rfl := Except.ok.inj h
        rfl
      · split at h <;> cases h

theorem clear_mapAliases (item : Item) (t : ItemTable) (words : List String) :
    (mapAliases item t words).2.clear = t.clear := by
  induction words generalizing t with
  | nil => rfl
  | cons word rest ih =>
    simp only [mapAliases]
    split
    · next u hu => rw [ih, clear_mapAlias hu]
    · rfl

/-- Registering an entry, refused half-way or not, leaves a table of the same settings. -/
theorem clear_register (t : ItemTable) (entry : ManifestEntry) (packageName : String)
    (source : Location) : (t.register entry packageName source).2.clear = t.clear := by
  unfold register
  simp only
  split
  · rfl
  · split
    · next grown _ =>
      split
      · have hmapped := clear_mapAliases (Item.ofEntry t.kind entry packageName source)
          (t.putGroup grown) entry.aliases
        rw [clear_putGroup] at hmapped
        split <;> next hm => rwa [hm] at hmapped
      · exact clear_putGroup t grown
    · split
      · exact clear_putGroup t _
      · split
        · exact clear_putGroup t _
        · exact clear_putGroup t _

/-- Admits entries one after the other, and stops with the table that a refusal leaves behind. -/
def admitEach (packageName : String) (source : Location) :
    ItemTable → List ManifestEntry → ItemTable × Except BuildError Unit
  | t, [] => (t, .ok ())
  | t, entry :: rest =>
    match t.register entry packageName source with
    | (.refused e, t) => (t, .error (.registry e))
    | (_, t) => admitEach packageName source t rest

theorem admitAll_eq_admitEach (packageName : String) (source : Location) (t : ItemTable)
    (entries : List ManifestEntry) : (admitAll packageName source t entries).result =
      (admitEach packageName source t entries).2.map
        fun _ => (admitEach packageName source t entries).1 := by
  induction entries generalizing t with
  | nil => rfl
  | cons entry rest ih =>
    rw [admitAll, admitEach]
    rcases t.register entry packageName source with ⟨admission, u⟩
    cases admission with
    | refused e => rfl
    | admitted i =>
      rw [Traced.result_bind, ih]
      rfl
    | skipped i =>
      rw [Traced.result_bind, ih]
      rfl

theorem clear_admitEach (packageName : String) (source : Location) (t : ItemTable)
    (entries : List ManifestEntry) :
    (admitEach packageName source t entries).1.clear = t.clear := by
  induction entries generalizing t with
  | nil => rfl
  | cons entry rest ih =>
    have hclear := clear_register t entry packageName source
    rw [admitEach]
    split
    · next h => rwa [h] at hclear
    · next h =>
      rw [h] at hclear
      rw [ih, hclear]

end ItemTable

namespace Catalog

variable {t : FileTree} {c : Catalog} {kind : PackKind}

/-! ### Filling a table where it stands -/

/-- Admits the entries of packages, and stops with the table that a fault leaves behind; counts the
packages without a manifest. -/
def admitInPlace (t : FileTree) (c : Catalog) (kind : PackKind) :
    ItemTable → Nat → List Location → ItemTable × Except BuildError Nat
  | table, withoutManifest, [] => (table, .ok withoutManifest)
  | table, withoutManifest, l :: rest =>
    match (c.loadEntries t kind l).result with
    | .error e => (table, .error e)
    | .ok none => admitInPlace t c kind table (withoutManifest + 1) rest
    | .ok (some entries) =>
      match table.admitEach l.name l entries with
      | (table, .error e) => (table, .error e)
      | (table, .ok ()) => admitInPlace t c kind table withoutManifest rest

theorem admitPackages_eq_admitInPlace (t : FileTree) (c : Catalog) (kind : PackKind)
    (table : ItemTable) (n : Nat) (found : List Location) :
    (admitPackages t c kind table n found).result =
      (admitInPlace t c kind table n found).2.map
        fun counted => ((admitInPlace t c kind table n found).1, counted) := by
  induction found generalizing table n with
  | nil => rfl
  | cons l rest ih =>
    simp only [admitPackages, admitInPlace, Traced.result_bind]
    rcases (c.loadEntries t kind l).result with e | _ | entries
    · rfl
    · simp only [ok_bind, Traced.result_bind]
      exact ih table (n + 1)
    · simp only [ok_bind, Traced.result_bind, ItemTable.admitAll_eq_admitEach]
      rcases table.admitEach l.name l entries with ⟨table', e | _⟩
      · rfl
      · exact ih table' n

theorem clear_admitInPlace (t : FileTree) (c : Catalog) (kind : PackKind) (table : ItemTable)
    (n : Nat) (found : List Location) :
    (admitInPlace t c kind table n found).1.clear = table.clear := by
  induction found generalizing table n with
  | nil => rfl
  | cons l rest ih =>
    simp only [admitInPlace]
    rcases (c.loadEntries t kind l).result with e | _ | entries
    · rfl
    · exact ih table (n + 1)
    · have hclear := ItemTable.clear_admitEach l.name l table entries
      simp only
      rcases heach : table.admitEach l.name l entries with ⟨table', e | _⟩
      · rwa [heach] at hclear
      · rw [heach] at hclear
        exact (ih table' n).trans hclear

/-- Fills the table of a kind; a fault leaves it as far as it got. -/
def fillInPlace (t : FileTree) (c : Catalog) (kind : PackKind) : Catalog × Except BuildError Unit :=
  match (c.locations t kind).result with
  | .error e => (c, .error e)
  | .ok found =>
    match admitInPlace t c kind (c.table kind) 0 found with
    | (table, .error e) => (c.setTable kind table, .error e)
    | (table, .ok withoutManifest) =>
      ({ c.setTable kind table with
          metrics := c.metrics.recordScan found.length withoutManifest }, .ok ())

theorem clearTables_setTable {table : ItemTable} (h : table.clear = (c.table kind).clear) :
    (c.setTable kind table).clearTables = c.clearTables := by
  cases kind with
  | variants => exact congrArg (fun table => { c.clearTables with variants := table }) h
  | symbols => exact congrArg (fun table => { c.clearTables with symbols := table }) h

/-- Filling in place comes to the same, but for what a fault leaves in the table. -/
theorem fillInPlace_cases (t : FileTree) (c : Catalog) (kind : PackKind) :
    (∃ d events, c.fillInPlace t kind = (d, .ok ()) ∧ c.fill t kind = (d, .ok (), events)) ∨
    ∃ left e events, c.fillInPlace t kind = (left, .error e) ∧
      c.fill t kind = (c, .error e, events) ∧ left.clearTables = c.clearTables := by
  have hsame (found : List Location) :=
    admitPackages_eq_admitInPlace t c kind (c.table kind) 0 found
  cases hfound : (c.locations t kind).result with
  | error e =>
    have hresult : (c.populate t kind).result = .error e := by
      rw [populate, Traced.result_bind, hfound]
      rfl
    refine Or.inr ⟨c, e, (c.populate t kind).events, ?_, ?_, rfl⟩
    · simp only [fillInPlace, hfound]
    · simp only [fill, hresult]
  | ok found =>
    have hclear := clear_admitInPlace t c kind (c.table kind) 0 found
    rcases hplace : admitInPlace t c kind (c.table kind) 0 found with ⟨table, e | n⟩
    · rw [hplace] at hclear
      have hresult : (c.populate t kind).result = .error e := by
        simp only [populate, Traced.result_bind, hfound, ok_bind, hsame, hplace]
        rfl
      refine Or.inr ⟨c.setTable kind table, e, (c.populate t kind).events, ?_, ?_,
        clearTables_setTable hclear⟩
      · simp only [fillInPlace, hfound, hplace]
      · simp only [fill, hresult]
    · have hresult : (c.populate t kind).result = .ok (table, ⟨found.length, n⟩) := by
        simp only [populate, Traced.result_bind, hfound, ok_bind, hsame, hplace]
        rfl
      refine Or.inl ⟨{ c.setTable kind table with
        metrics := c.metrics.recordScan found.length n }, (c.populate t kind).events, ?_, ?_⟩
      · simp only [fillInPlace, hfound, hplace]
      · simp only [fill, hresult]

theorem clear_fillInPlace (t : FileTree) (c : Catalog) (filled kind : PackKind) :
    ((c.fillInPlace t filled).1.table kind).clear = (c.table kind).clear := by
  have hset {table : ItemTable} (hclear : table.clear = (c.table filled).clear) :
      ((c.setTable filled table).table kind).clear = (c.table kind).clear := by
    rw [← table_clearTables, clearTables_setTable hclear, table_clearTables]
  unfold fillInPlace
  split
  · rfl
  · next found _ =>
    have hclear := clear_admitInPlace t c filled (c.table filled) 0 found
    split
    · next hplace =>
      rw [hplace] at hclear
      exact hset hclear
    · next table n hplace =>
      rw [hplace] at hclear
      have htable (m : Metrics) : Catalog.table { c.setTable filled table with metrics := m } kind =
          (c.setTable filled table).table kind := by cases kind <;> rfl
      rw [htable]
      exact hset hclear

/-! ### A whole cycle -/

/-- Fills both tables where they stand, up to the first fault. -/
def buildInPlace (t : FileTree) (c : Catalog) : Catalog × Except BuildError Unit :=
  if c.config.searchPaths = [] then (c, .error .noSearchPaths)
  else
    match c.fillInPlace t .variants with
    | (c, .error e) => (c, .error e)
    | (c, .ok ()) =>
      match c.fillInPlace t .symbols with
      | (c, .error e) => (c, .error e)
      | (c, .ok ()) => (c, c.checkTables)

theorem buildInPlace_cases (t : FileTree) (c : Catalog) :
    (∃ d events, c.buildInPlace t = (d, .ok ()) ∧ c.build t = (d, .ok (), events)) ∨
    ∃ left d e events, c.buildInPlace t = (left, .error e) ∧
      c.build t = (d, .error e, events) ∧ left.clearTables = d.clearTables := by
  by_cases hpaths : c.config.searchPaths = []
  · exact Or.inr ⟨c, c, .noSearchPaths, [], by rw [buildInPlace, if_pos hpaths],
      by rw [build, if_pos hpaths], rfl⟩
  · rw [buildInPlace, if_neg hpaths, build, if_neg hpaths]
    rcases fillInPlace_cases t c .variants with
      ⟨d, events, hplace, hfill⟩ | ⟨left, e, events, hplace, hfill, hclear⟩
    · simp only [hplace, hfill]
      rcases fillInPlace_cases t d .symbols with
        ⟨d', more, hplace', hfill'⟩ | ⟨left, e, more, hplace', hfill', hclear⟩
      · simp only [hplace', hfill']
        cases d'.checkTables with
        | ok => exact Or.inl ⟨d', events ++ more, rfl, rfl⟩
        | error e => exact Or.inr ⟨d', d', e, events ++ more, rfl, rfl, rfl⟩
      · simp only [hplace', hfill']
        exact Or.inr ⟨left, d, e, events ++ more, rfl, rfl, hclear⟩
    · simp only [hplace, hfill]
      exact Or.inr ⟨left, c, e, events, rfl, rfl, hclear⟩

theorem clear_buildInPlace (t : FileTree) (c : Catalog) (kind : PackKind) :
    ((c.buildInPlace t).1.table kind).clear = (c.table kind).clear := by
  have hvariants := clear_fillInPlace t c .variants kind
  unfold buildInPlace
  split
  · rfl
  · split
    · next hfill => rwa [hfill] at hvariants
    · next d hfill =>
      rw [hfill] at hvariants
      have hsymbols := clear_fillInPlace t d .symbols kind
      split <;> next hfill' =>
        rw [hfill'] at hsymbols
        exact hsymbols.trans hvariants

def begun (c : Catalog) : Catalog := { c.clearTables with state := .initializing }

theorem failed_eq_of_clearTables {left d : Catalog} (h : left.clearTables = d.clearTables)
    (e : BuildError) : left.failed e = d.failed e := by
  have hmetrics : left.metrics = d.metrics :=
    show left.clearTables.metrics = d.clearTables.metrics by rw [h]
  rw [failed, failed, h, hmetrics]

/-- A cycle in place ends as `rebuild` does, with the same catalog. -/
theorem rebuild_cases (t : FileTree) (c : Catalog) :
    (∃ d, c.begun.buildInPlace t = (d, .ok ()) ∧
      (c.rebuild t).1 = d.succeeded ∧ (c.rebuild t).2.result = .ok ()) ∨
    ∃ left e, c.begun.buildInPlace t = (left, .error e) ∧
      (c.rebuild t).1 = left.failed e ∧ (c.rebuild t).2.result = .error e := by
  rcases buildInPlace_cases t c.begun with
    ⟨d, events, hplace, hbuild⟩ | ⟨left, d, e, events, hplace, hbuild, hclear⟩
  · rw [begun] at hbuild
    exact Or.inl ⟨d, hplace, by simp only [rebuild, hbuild], by simp only [rebuild, hbuild]⟩
  · rw [begun] at hbuild
    refine Or.inr ⟨left, e, hplace, ?_, by simp only [rebuild, hbuild]⟩
    rw [failed_eq_of_clearTables hclear]
    simp only [rebuild, hbuild]

theorem clear_rebuild (t : FileTree) (c : Catalog) (kind : PackKind) :
    ((c.rebuild t).1.table kind).clear = (c.table kind).clear := by
  have hbegun : (c.begun.table kind).clear = (c.table kind).clear := by cases kind <;> rfl
  have hbuild := clear_buildInPlace t c.begun kind
  rcases rebuild_cases t c with ⟨d, hplace, hrebuild, -⟩ | ⟨left, e, hplace, hrebuild, -⟩
  · rw [hplace] at hbuild
    have hend : d.succeeded.table kind = d.table kind := by cases kind <;> rfl
    rw [hrebuild, hend, hbuild, hbegun]
  · rw [hplace] at hbuild
    have hend : ((left.failed e).table kind).clear = (left.table kind).clear := by
      cases kind <;> rfl
    rw [hrebuild, hend, hbuild, hbegun]

end Catalog

end PackIndex
