import PackIndex.Catalog.Steps
import PackIndex.Proofs.Catalog.InPlace

/-!
# Steps without others

If nobody else takes a step in between, the steps of a cycle fill the tables in place and so come to
what `rebuild` comes to, and the steps of a question to what `ask` does.
-/

namespace PackIndex

namespace Catalog

variable {t : FileTree} {c : Catalog} {kind : PackKind}

/-! ### A cycle -/

@[simp] theorem setTable_table (c : Catalog) (kind : PackKind) :
    c.setTable kind (c.table kind) = c := by
  cases kind <;> rfl

@[simp] theorem setTable_setTable (c : Catalog) (kind : PackKind) (table table' : ItemTable) :
    (c.setTable kind table).setTable kind table' = c.setTable kind table' := by
  cases kind <;> rfl

theorem loadEntries_setTable (t : FileTree) (c : Catalog) (kind : PackKind) (table : ItemTable)
    (l : Location) : (c.setTable kind table).loadEntries t kind l = c.loadEntries t kind l := by
  cases kind <;> rfl

theorem run_admitSteps (packageName : String) (source : Location) (entries : List ManifestEntry)
    (c : Catalog) (table : ItemTable) :
    (admitSteps kind packageName source entries).run (c.setTable kind table) =
      ((table.admitEach packageName source entries).2,
        c.setTable kind (table.admitEach packageName source entries).1) := by
  induction entries generalizing table with
  | nil => rfl
  | cons entry rest ih =>
    rw [admitSteps, Work.run_andThen, Work.run_act, admitInto, table_setTable_self,
      ItemTable.admitEach]
    rcases table.register entry packageName source with ⟨admission, table'⟩
    cases admission with
    | refused e => simp only [setTable_setTable]
    | admitted i =>
      simp only [setTable_setTable]
      exact ih table'
    | skipped i =>
      simp only [setTable_setTable]
      exact ih table'

theorem run_admitPackagesSteps (t : FileTree) (kind : PackKind) (found : List Location) (n : Nat)
    (c : Catalog) (table : ItemTable) :
    (admitPackagesSteps t kind n found).run (c.setTable kind table) =
      ((admitInPlace t c kind table n found).2,
        c.setTable kind (admitInPlace t c kind table n found).1) := by
  induction found generalizing n table with
  | nil => rfl
  | cons l rest ih =>
    rw [admitPackagesSteps, admitInPlace, Work.run_andThen, Work.run_look, loadEntries_setTable]
    rcases (c.loadEntries t kind l).result with e | _ | entries
    · rfl
    · exact ih (n + 1) table
    · simp only [Work.run_andThen, run_admitSteps]
      rcases table.admitEach l.name l entries with ⟨table', e | _⟩
      · rfl
      · exact ih n table'

theorem run_populateSteps (t : FileTree) (kind : PackKind) (c : Catalog) :
    (populateSteps t kind).run c = ((c.fillInPlace t kind).2, (c.fillInPlace t kind).1) := by
  rw [populateSteps, fillInPlace, Work.run_andThen, Work.run_look]
  rcases (c.locations t kind).result with e | found
  · rfl
  · have hadmit := run_admitPackagesSteps t kind found 0 c (c.table kind)
    rw [setTable_table] at hadmit
    simp only [Work.run_andThen, hadmit]
    rcases admitInPlace t c kind (c.table kind) 0 found with ⟨table, e | n⟩
    · rfl
    · cases kind <;> rfl

theorem run_buildSteps (t : FileTree) (c : Catalog) :
    (buildSteps t).run c = ((c.buildInPlace t).2, (c.buildInPlace t).1) := by
  rw [buildSteps, buildInPlace, Work.run_bind, Work.run_look]
  simp only
  split
  · rfl
  · rw [Work.run_andThen, run_populateSteps]
    rcases c.fillInPlace t .variants with ⟨d, e | _⟩
    · rfl
    · simp only [Work.run_andThen, run_populateSteps]
      rcases d.fillInPlace t .symbols with ⟨d', e | _⟩ <;> rfl

/-- The steps of a cycle, taken without others in between, are `rebuild`. -/
theorem run_rebuildSteps (t : FileTree) (c : Catalog) :
    (rebuildSteps t).run c = ((c.rebuild t).2.result, (c.rebuild t).1) := by
  have hbegun : clearSteps.run { c with state := .initializing } = ((), c.begun) := rfl
  rw [rebuildSteps, Work.run_bind, Work.run_change, Work.run_bind, hbegun, Work.run_bind,
    run_buildSteps]
  rcases rebuild_cases t c with ⟨d, hplace, hrebuild, hended⟩ | ⟨left, e, hplace, hrebuild, hended⟩
  · rw [hplace, hrebuild, hended]
    rfl
  · rw [hplace, hrebuild, hended]
    rfl

/-! ### A question -/

theorem run_groupSteps {α : Type} (kind : PackKind) (name : String) (read : VersionGroup → α)
    (c : Catalog) :
    (groupSteps kind name read).run c = (((c.table kind).group? name).map read, c) := by
  simp only [groupSteps, ownerSteps, Work.run_bind, Work.run_look, ItemTable.group?]
  cases hg : (c.table kind).groupNamed? (Text.lower name) with
  | some g =>
    have hagain : (c.table kind).groupNamed? g.name = some g := by
      rw [ItemTable.name_of_groupNamed? hg, hg]
    simp only [Work.run_pure, Work.run_look, hagain]
  | none =>
    simp only [Work.run_look]
    cases (c.table kind).aliasOwner? (Text.lower name) <;> rfl

theorem run_lookupSteps (kind : PackKind) (name : Option String) (selector : Selector)
    (strict : Bool) (c : Catalog) : (lookupSteps kind name selector strict).run c =
      (lookup (c.table kind) name selector strict, c) := by
  cases name with
  | none => rfl
  | some name =>
    simp only [lookupSteps, Work.run_map, run_groupSteps, lookup, Option.bind_some]
    cases (c.table kind).group? name <;> rfl

theorem run_getSteps (kind : Value) (name : Option String) (selector : Selector) (strict : Bool)
    (c : Catalog) : (getSteps kind name selector strict).run c =
      (c.requireReady >>= fun _ => kindOf kind >>= fun kind =>
        .ok (lookup (c.table kind) name selector strict), c) := by
  rw [getSteps, Work.run_andThen, Work.run_look]
  cases c.requireReady with
  | error e => rfl
  | ok =>
    simp only [Work.run_andThen, Work.run_done]
    cases kindOf kind with
    | error e => rfl
    | ok kind => simp only [Work.run_map, run_lookupSteps, ok_bind]

theorem run_versionsSteps (kind : Value) (name : Option String) (c : Catalog) :
    (versionsSteps kind name).run c = (c.versions kind name, c) := by
  unfold versionsSteps versions
  rw [Work.run_andThen, Work.run_look]
  cases c.requireReady with
  | error e => rfl
  | ok =>
    cases name with
    | none => rfl
    | some name =>
      simp only [Work.run_andThen, Work.run_done]
      cases kindOf kind with
      | error e => rfl
      | ok kind =>
        simp only [Work.run_bind, run_groupSteps, versionsOf, ok_bind]
        cases (c.table kind).group? name <;> rfl

theorem run_listSteps (hready : c.requireReady = .ok ()) (kind : PackKind) :
    (listSteps kind).run c = c.latest kind := by
  rw [listSteps, Work.run_act, latest, hready]

theorem run_resolveSteps (found : Option SharedNamespace → Traced ResolutionError Resolution)
    (c : Catalog) : (resolveSteps found).run c =
      ((c.counted (found c.shared)).1.result, (c.counted (found c.shared)).2) := by
  rw [resolveSteps, counted, Work.run_andThen, Work.run_look]
  cases c.requireReady with
  | error e => rfl
  | ok =>
    simp only [Work.run_andThen, Work.run_look]
    cases (found c.shared).result <;> rfl

theorem run_packSteps (name : Option String) (selector : Selector) (preferred : Option String)
    (c : Catalog) : (packSteps name selector preferred).run c =
      match c.requireReady with
      | .error e => (.error e, c)
      | .ok () =>
        match choosePack c.symbols name selector preferred with
        | some item => (.ok item, c)
        | none =>
          match c.latest .symbols with
          | (.error e, c) => (.error e, c)
          | (.ok [], c) => (.error .noSymbolPacks, c)
          | (.ok (item :: _), c) => (.ok item, c) := by
  rw [packSteps, Work.run_andThen, Work.run_look]
  cases hready : c.requireReady with
  | error e => rfl
  | ok =>
    have hfirst : (Work.firstOf [lookupSteps .symbols name selector true,
        lookupSteps .symbols name .newest false,
        lookupSteps .symbols preferred .newest false]).run c =
          (choosePack c.symbols name selector preferred, c) := by
      have hsymbols : c.table .symbols = c.symbols := rfl
      rw [Work.run_firstOf_cons, run_lookupSteps, hsymbols, choosePack]
      cases lookup c.symbols name selector true with
      | some item => rfl
      | none =>
        simp only [Work.run_firstOf_cons, run_lookupSteps, hsymbols, Option.none_or]
        cases lookup c.symbols name .newest false with
        | some item => rfl
        | none =>
          simp only [hsymbols, Option.none_or]
          cases lookup c.symbols preferred .newest false <;> rfl
    simp only [Work.run_bind, hfirst]
    cases choosePack c.symbols name selector preferred with
    | some item => rfl
    | none =>
      simp only [Work.run_andThen, run_listSteps hready]
      rcases c.latest .symbols with ⟨e | _ | ⟨item, items⟩, d⟩ <;> rfl

theorem run_summarySteps (c : Catalog) : summarySteps.run c = (c.summary, c) := by
  rw [summarySteps, summary, Work.run_andThen, Work.run_look]
  cases c.requireReady <;> rfl

section Selected

variable {value : Value} {selector : Selector}

theorem run_getSteps_of_value (h : Selector.ofValue value = .ok selector) (kind : Value)
    (name : Option String) (strict : Bool) (c : Catalog) :
    (getSteps kind name selector strict).run c = (c.get kind name value strict, c) := by
  rw [run_getSteps, get, h]
  rfl

theorem run_packSteps_of_value {version : Value} (h : Selector.ofValue
      (if isNonPositiveNumber version then .sentinel .newest else version) = .ok selector)
    (map : MapStyle) (name : Option String) (c : Catalog) :
    (packSteps name selector map.preferredPack).run c =
      ((c.symbolPack (some map) name version).1.result,
        (c.symbolPack (some map) name version).2) := by
  simp only [run_packSteps, symbolPack, h]
  cases c.requireReady with
  | error e => rfl
  | ok =>
    simp only
    cases choosePack c.symbols name selector map.preferredPack with
    | some item => rfl
    | none => rcases c.latest .symbols with ⟨e | _ | ⟨item, items⟩, d⟩ <;> rfl

end Selected

end Catalog

variable {t : FileTree} {q : Query}

namespace Query

section Selector

variable {α : Type} {value : Value} {f : Selector → α}

theorem selected_eq_ok_iff {a : α} :
    ((Selector.ofValue value).mapError QueryError.selector).map f = .ok a ↔
      ∃ selector, Selector.ofValue value = .ok selector ∧ f selector = a := by
  rw [map_eq_ok_iff]
  exact exists_congr fun _ => and_congr_left fun _ => mapError_eq_ok_iff

theorem selected_eq_error_iff {e : QueryError} :
    ((Selector.ofValue value).mapError QueryError.selector).map f = .error e ↔
      ∃ cause, Selector.ofValue value = .error cause ∧ .selector cause = e := by
  rw [map_eq_error_iff, mapError_eq_error_iff]

end Selector

/-- A question that is refused before it looks at the catalog is refused by every catalog. -/
theorem ask_of_refused {e : QueryError} (h : q.steps t = .error e) (c : Catalog) :
    (c.ask t q).1.result = .error e := by
  cases q with
  | get kind name selector strict =>
    obtain ⟨cause, hvalue, rfl⟩ := selected_eq_error_iff.mp h
    simp only [Catalog.ask, Catalog.get, hvalue]
    rfl
  | hasVersion kind name selector =>
    obtain ⟨cause, hvalue, rfl⟩ := selected_eq_error_iff.mp h
    simp only [Catalog.ask, Catalog.hasVersion, Catalog.get, hvalue]
    rfl
  | symbolPack map name version =>
    cases map with
    | none =>
      obtain rfl := Except.error.inj h
      rfl
    | some map =>
      obtain ⟨cause, hvalue, rfl⟩ := selected_eq_error_iff.mp h
      simp only [Catalog.ask, Catalog.symbolPack, hvalue]
      rfl
  | list | versions | aliases | summary | resolve | resolveInPackage => cases h

theorem run_list {work : Work Catalog (Except QueryError Reply)} {kind : Value}
    (h : (list kind).steps t = .ok work) (c : Catalog) :
    work.run c = ((c.list kind).1.map .items, (c.list kind).2) := by
  obtain rfl := Except.ok.inj h
  simp only [Catalog.list, Work.run_andThen, Work.run_look]
  cases hready : c.requireReady with
  | error e => rfl
  | ok =>
    simp only [Work.run_done]
    cases Catalog.kindOf kind with
    | error e => rfl
    | ok kind => simp only [Work.run_map, Catalog.run_listSteps hready]

theorem run_aliases {work : Work Catalog (Except QueryError Reply)}
    (h : aliases.steps t = .ok work) (c : Catalog) :
    work.run c = (c.aliases.map .aliases, c) := by
  obtain rfl := Except.ok.inj h
  simp only [Catalog.aliases, Work.run_andThen, Work.run_look]
  cases c.requireReady <;> rfl

theorem run_hasVersion {work : Work Catalog (Except QueryError Reply)} {kind selector : Value}
    {name : Option String} (h : (hasVersion kind name selector).steps t = .ok work) (c : Catalog) :
    work.run c = ((c.hasVersion kind name selector).map .truth, c) := by
  obtain ⟨selector, hvalue, rfl⟩ := selected_eq_ok_iff.mp h
  rw [Work.run_map, Catalog.run_getSteps_of_value hvalue, Catalog.hasVersion]
  cases c.get kind name _ true <;> rfl

/-- The steps of a question, taken without others in between, are `ask`. -/
theorem run_steps {work : Work Catalog (Except QueryError Reply)} (h : q.steps t = .ok work)
    (c : Catalog) : work.run c = ((c.ask t q).1.result, (c.ask t q).2) := by
  cases q with
  | list kind =>
    rw [run_list h, Catalog.ask, Traced.result_ofExcept]
  | get kind name selector strict =>
    obtain ⟨selector, hvalue, rfl⟩ := selected_eq_ok_iff.mp h
    rw [Work.run_map, Catalog.run_getSteps_of_value hvalue]
    rfl
  | versions kind name =>
    obtain rfl := Except.ok.inj h
    rw [Work.run_map, Catalog.run_versionsSteps]
    rfl
  | hasVersion kind name selector =>
    rw [run_hasVersion h, Catalog.ask, Traced.result_ofExcept]
  | aliases =>
    rw [run_aliases h, Catalog.ask, Traced.result_ofExcept]
  | summary =>
    obtain rfl := Except.ok.inj h
    rw [Work.run_map, Catalog.run_summarySteps]
    rfl
  | resolve item ref =>
    obtain rfl := Except.ok.inj h
    rw [Work.run_map, Catalog.run_resolveSteps]
    rfl
  | resolveInPackage l ref =>
    obtain rfl := Except.ok.inj h
    rw [Work.run_map, Catalog.run_resolveSteps]
    rfl
  | symbolPack map name version =>
    cases map with
    | none => cases h
    | some map =>
      obtain ⟨selector, hvalue, rfl⟩ := selected_eq_ok_iff.mp h
      rw [Work.run_map, Catalog.run_packSteps_of_value hvalue]
      rfl

end Query

/-- The steps of a call, taken without others in between, are `perform`. -/
theorem Call.run_steps {call : Call} {work : Work Catalog Ended} (h : call.steps t = .ok work)
    (c : Catalog) : work.run c = ((c.perform t call).1.ended, (c.perform t call).2) := by
  cases call with
  | rebuild =>
    obtain rfl := Except.ok.inj h
    rw [Work.run_map, Catalog.run_rebuildSteps]
    rfl
  | ask q =>
    simp only [Call.steps] at h
    split at h
    · cases h
    · next work' hwork =>
      obtain rfl := Except.ok.inj h
      rw [Work.run_map, Query.run_steps hwork]
      rfl

/-- A call that ends before it needs the lock is a question, and any catalog ends it so. -/
theorem Call.perform_of_refused {call : Call} {ended : Ended} (h : call.steps t = .error ended)
    (c : Catalog) : call.access = .read ∧ (c.perform t call).1.ended = ended := by
  cases call with
  | rebuild => cases h
  | ask q =>
    simp only [Call.steps] at h
    split at h
    · next e he =>
      obtain rfl := Except.error.inj h
      exact ⟨rfl, congrArg Ended.answered (Query.ask_of_refused he c)⟩
    · cases h

end PackIndex
