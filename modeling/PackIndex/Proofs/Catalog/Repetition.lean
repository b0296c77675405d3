import PackIndex.Proofs.Catalog.Growth
import PackIndex.Proofs.Catalog.Outcome
import PackIndex.Proofs.Catalog.View
import PackIndex.Proofs.Package.Scanning
import PackIndex.Proofs.Registry.Repetition

/-!
# Archives found twice

The archives of a shared namespace are added to those of the search paths only if they are not among
them, but the scan of the search paths lists an archive as often as it meets it. A search path that
leads to archives which are found anyway changes nothing if these have no entries; otherwise the
cycle fails over an entry that is a duplicate of itself.
-/

namespace PackIndex.Catalog

variable {t : FileTree} {c d : Catalog} {kind : PackKind} {p : FilePath}

/-! ### Locations -/

/-- The locations of a namespace that are added come once, and are not among the others. -/
theorem addLocations_eq (found : List Location) (handles : List ResourceHandle) :
    ∃ more, addLocations found handles = found ++ more ∧ more.Nodup ∧ ∀ l ∈ more, l ∉ found := by
  induction handles generalizing found with
  | nil => exact ⟨[], (List.append_nil found).symm, List.nodup_nil, nofun⟩
  | cons h rest ih =>
    rw [addLocations]
    cases h.location? with
    | none => exact ih found
    | some l =>
      by_cases hl : found.contains l = true
      · simp only [hl, if_true]
        exact ih found
      · obtain ⟨more, hmore, hnodup, hnew⟩ := ih (found ++ [l])
        have hnot : l ∉ found := fun hmem => hl (List.contains_iff_mem.mpr hmem)
        simp only [hl, Bool.false_eq_true, if_false]
        refine ⟨l :: more, by rw [hmore, List.append_assoc, List.singleton_append], ?_, ?_⟩
        · exact List.nodup_cons.mpr
            ⟨fun hmem => hnew l hmem (List.mem_append_right _ (List.mem_singleton_self l)), hnodup⟩
        · refine List.forall_mem_cons.mpr ⟨hnot, fun l' hl' hfound => ?_⟩
          exact hnew l' hl' (List.mem_append_left _ hfound)

def scanned (t : FileTree) (c : Catalog) (kind : PackKind) : Except ScanError (List Location) :=
  Scan.foundOn t (c.suffixes kind) c.config.searchPaths

theorem locations_ok {found : List Location} (h : (c.locations t kind).result = .ok found) :
    ∃ scan more, c.scanned t kind = .ok scan ∧ found = scan ++ more ∧ more.Nodup ∧
      (∀ l ∈ more, l ∉ scan) := by
  simp only [locations, scanPackages, Traced.result_bind, result_mapError] at h
  obtain ⟨scan, hscan, h⟩ := bind_eq_ok_iff.mp h
  obtain ⟨_, hfound, ⟨⟩⟩ := bind_eq_ok_iff.mp (mapError_eq_ok_iff.mp hscan)
  cases hshared : c.shared with
  | none =>
    simp only [hshared] at h
    obtain rfl := Except.ok.inj h
    exact ⟨scan, [], hfound, (List.append_nil scan).symm, List.nodup_nil,
      fun _ hl => absurd hl List.not_mem_nil⟩
  | some ns =>
    simp only [hshared, Traced.result_bind] at h
    obtain ⟨handles, -, h⟩ := bind_eq_ok_iff.mp h
    obtain rfl := Except.ok.inj h
    obtain ⟨more, hmore, hnodup, hnew⟩ := addLocations_eq scan handles
    exact ⟨scan, more, hfound, hmore, hnodup, hnew⟩

def candidates (t : FileTree) (c : Catalog) (kind : PackKind) : List FilePath :=
  c.config.searchPaths.flatMap (Scan.candidatesIn t (c.suffixes kind))

/-- A location comes twice exactly if two candidates in the search paths resolve to it. -/
theorem nodup_locations_iff {found : List Location}
    (h : (c.locations t kind).result = .ok found) :
    found.Nodup ↔ ((c.candidates t kind).map t.resolve).Nodup := by
  obtain ⟨scan, more, hscan, rfl, hnodup, hnew⟩ := locations_ok h
  rw [candidates, ← Scan.nodup_foundOn_iff hscan, List.nodup_append]
  refine ⟨And.left, fun h => ⟨h, hnodup, fun l hl l' hl' he => hnew l' hl' (he ▸ hl)⟩⟩

theorem locations_ok_iff (hshared : c.shared = none) {found : List Location} :
    (c.locations t kind).result = .ok found ↔ c.scanned t kind = .ok found := by
  simp only [locations, scanPackages, Traced.result_bind, result_mapError, hshared, scanned,
    Scan.foundOn]
  cases (Scan.directories t (c.suffixes kind) (c.config.searchPaths.map some)).result with
  | error e =>
    constructor
    · intro h
      cases h
    · intro h
      cases h
  | ok scan =>
    refine ⟨fun h => ?_, fun h => ?_⟩
    · obtain rfl := Except.ok.inj h
      rfl
    · obtain rfl := Except.ok.inj h
      rfl

/-! ### One more search path -/

/-- The other catalog has one more search path, but in it only finds archives that are found
anyway. -/
structure Repeats (t : FileTree) (c d : Catalog) (before : List FilePath) (p : FilePath)
    (after : List FilePath) : Prop where
  loader : d.loader = c.loader
  paths : c.config.searchPaths = before ++ after
  config : d.config = { c.config with searchPaths := before ++ p :: after }
  not_first : before ++ after ≠ []
  finds : ∀ kind here scan, (Scan.directory t (c.suffixes kind) p).result = .ok here →
    c.scanned t kind = .ok scan → here ⊆ scan

variable {before after : List FilePath}

theorem repeats_of_mem (hloader : d.loader = c.loader)
    (hpaths : c.config.searchPaths = before ++ after)
    (hconfig : d.config = { c.config with searchPaths := before ++ p :: after })
    (hp : p ∈ before ++ after) : Repeats t c d before p after where
  loader := hloader
  paths := hpaths
  config := hconfig
  not_first := List.ne_nil_of_mem hp
  finds kind here scan hhere hscan := by
    obtain ⟨here', hhere', hsub⟩ := Scan.directory_subset (hpaths ▸ hp) hscan
    obtain rfl := Except.ok.inj (hhere.symm.trans hhere')
    exact hsub

/-- The search path can be scanned for packages of a kind, and none of those in it has entries. -/
def OffersNothing (t : FileTree) (c : Catalog) (kind : PackKind) (p : FilePath) : Prop :=
  ∃ here, (Scan.directory t (c.suffixes kind) p).result = .ok here ∧
    here.flatMap (c.submissionsOf t kind) = []

namespace Repeats

variable (h : Repeats t c d before p after)
include h

theorem suffixes (kind : PackKind) : d.suffixes kind = c.suffixes kind := by
  cases kind <;> simp only [Catalog.suffixes, h.config]

theorem loadEntries (kind : PackKind) (l : Location) :
    d.loadEntries t kind l = c.loadEntries t kind l := by
  have hname : d.manifestName kind = c.manifestName kind := by
    cases kind <;> simp only [Catalog.manifestName, h.config]
  simp only [Catalog.loadEntries, h.loader, hname]

theorem submissionsOf (kind : PackKind) : d.submissionsOf t kind = c.submissionsOf t kind := by
  funext l
  simp only [Catalog.submissionsOf, h.loadEntries]

theorem requires (kind : PackKind) : d.Requires kind ↔ c.Requires kind := by
  simp only [Requires, h.config]

/-- What the other catalog finds is what this one finds, with what is in the search path put
between. -/
theorem scanned_ok (kind : PackKind) {found : List Location}
    (hfound : d.scanned t kind = .ok found) : ∃ first here second,
      (Scan.directory t (c.suffixes kind) p).result = .ok here ∧
      c.scanned t kind = .ok (first ++ second) ∧ found = first ++ here ++ second := by
  rw [scanned, h.suffixes, h.config] at hfound
  obtain ⟨first, _, hfirst, hrest, rfl⟩ := Scan.foundOn_append_ok_iff.mp hfound
  obtain ⟨here, second, hhere, hsecond, rfl⟩ := Scan.foundOn_cons_ok_iff.mp hrest
  refine ⟨first, here, second, hhere, ?_, (List.append_assoc first here second).symm⟩
  rw [scanned, h.paths]
  exact Scan.foundOn_append_ok_iff.mpr ⟨first, second, hfirst, hsecond, rfl⟩

theorem scanned_of_ok (kind : PackKind) {here scan : List Location}
    (hhere : (Scan.directory t (c.suffixes kind) p).result = .ok here)
    (hscan : c.scanned t kind = .ok scan) : ∃ first second,
      scan = first ++ second ∧ d.scanned t kind = .ok (first ++ here ++ second) := by
  rw [scanned, h.paths] at hscan
  obtain ⟨first, second, hfirst, hsecond, rfl⟩ := Scan.foundOn_append_ok_iff.mp hscan
  refine ⟨first, second, rfl, ?_⟩
  rw [scanned, h.suffixes, h.config, List.append_assoc]
  exact Scan.foundOn_append_ok_iff.mpr ⟨first, _, hfirst,
    Scan.foundOn_cons_ok_iff.mpr ⟨here, second, hhere, hsecond, rfl⟩, rfl⟩

end Repeats

/-! ### Filling a table twice over -/

theorem Furnished.not_isNaN (h : c.Furnished) {s : Submission} (hs : s ∈ c.offered t kind) :
    s.entry.version.isNaN = false :=
  Binary64.isNaN_of_isPositive (h.describes hs).isPositive

theorem offered_of_locations {found : List Location}
    (h : (c.locations t kind).result = .ok found) :
    c.offered t kind = found.flatMap (c.submissionsOf t kind) := by
  rw [offered, h]

theorem eq_nil_of_nodup_append {α : Type} {first here second : List α}
    (h : (first ++ here ++ second).Nodup) (hsub : here ⊆ first ++ second) : here = [] := by
  obtain ⟨hfirst, -, hsecond⟩ := List.nodup_append.mp h
  obtain ⟨-, -, hdisjoint⟩ := List.nodup_append.mp hfirst
  refine List.eq_nil_iff_forall_not_mem.mpr fun x hx => ?_
  rcases List.mem_append.mp (hsub hx) with hmem | hmem
  · exact hdisjoint x hmem x hx rfl
  · exact hsecond x (List.mem_append_right first hx) x hmem rfl

theorem between_subset {α : Type} {first here second : List α} (hsub : here ⊆ first ++ second) :
    first ++ here ++ second ⊆ first ++ second :=
  List.append_subset.mpr ⟨List.append_subset.mpr ⟨List.subset_append_left first second, hsub⟩,
    List.subset_append_right first second⟩

theorem subset_between {α : Type} {first second : List α} (here : List α) :
    first ++ second ⊆ first ++ here ++ second := by
  rw [List.append_assoc]
  exact List.append_subset.mpr ⟨List.subset_append_left first _, fun x hx =>
    List.mem_append_right first (List.mem_append_right here hx)⟩

theorem flatMap_subset {α β : Type} {l m : List α} (f : α → List β) (h : l ⊆ m) :
    l.flatMap f ⊆ m.flatMap f := by
  intro b hb
  obtain ⟨a, ha, hb⟩ := List.mem_flatMap.mp hb
  exact List.mem_flatMap.mpr ⟨a, h ha, hb⟩

/-- Without a shared namespace, a list that is taken to its end repeats nothing. -/
theorem Reached.nodup_of_submitAll (hc : Reached c) (hshared : c.shared = none)
    {found : List Location} {table : ItemTable} (hfound : (c.locations t kind).result = .ok found)
    (hsubmit : (c.table kind).clear.submitAll (found.flatMap (c.submissionsOf t kind)) = .ok table) :
    (found.flatMap (c.submissionsOf t kind)).Nodup := by
  have htol := hc.tolerates_nothing hshared kind
  have hn : ∀ s ∈ found.flatMap (c.submissionsOf t kind), s.entry.version.isNaN = false :=
    fun s hs => hc.furnished.not_isNaN (offered_of_locations hfound ▸ hs)
  rcases ItemTable.submitAll_part_cases htol hsubmit hn (List.Subset.refl _) with
    ⟨-, hnodup⟩ | ⟨-, s, -, herror⟩
  · exact hnodup
  · rw [hsubmit] at herror
    cases herror

namespace Repeats

variable (h : Repeats t c d before p after)
include h

/-- What can be said of one kind once the search path has been scanned: both catalogs find the same
archives, the other one some of them again. -/
theorem locations_pair (hshared : c.shared = none) (hshared' : d.shared = none)
    {here scan : List Location} (hhere : (Scan.directory t (c.suffixes kind) p).result = .ok here)
    (hscan : (c.locations t kind).result = .ok scan) : ∃ first second,
      scan = first ++ second ∧ here ⊆ first ++ second ∧
      (d.locations t kind).result = .ok (first ++ here ++ second) := by
  have hscanned := (locations_ok_iff hshared).mp hscan
  obtain ⟨first, second, rfl, hfound⟩ := h.scanned_of_ok kind hhere hscanned
  exact ⟨first, second, rfl, h.finds kind here _ hhere hscanned,
    (locations_ok_iff hshared').mpr hfound⟩

theorem readable_iff {first here second : List Location} (hsub : here ⊆ first ++ second) :
    d.Readable t kind (first ++ here ++ second) ↔ c.Readable t kind (first ++ second) := by
  simp only [Readable, h.loadEntries]
  exact ⟨fun hread l hl => hread l (subset_between here hl),
    fun hread l hl => hread l (between_subset hsub hl)⟩

section Reached

variable (hc : Reached c) (hd : Reached d) (hshared : c.shared = none) (hshared' : d.shared = none)
include hc hd hshared hshared'

omit h in
theorem clear_table (kind : PackKind) : (d.table kind).clear = (c.table kind).clear := by
  rw [hd.rooted.cleared, hc.rooted.cleared, hshared, hshared']

/-- The other catalog can fill a table exactly if this one can and nothing is offered twice. -/
theorem canFill_iff (kind : PackKind) :
    d.CanFill t kind ↔ c.CanFill t kind ∧ c.OffersNothing t kind p := by
  have hclear := clear_table hc hd hshared hshared' kind
  constructor
  · rintro ⟨found, table, hfound, hread, hsubmit, hsize⟩
    obtain ⟨first, here, second, hhere, hscan, rfl⟩ :=
      h.scanned_ok kind ((locations_ok_iff hshared').mp hfound)
    have hsub := h.finds kind here _ hhere hscan
    have hnodup := hd.nodup_of_submitAll hshared' hfound hsubmit
    simp only [h.submissionsOf, List.flatMap_append] at hnodup hsubmit
    have hnil : here.flatMap (c.submissionsOf t kind) = [] :=
      eq_nil_of_nodup_append hnodup (List.flatMap_append ▸ flatMap_subset _ hsub)
    rw [hnil, List.append_nil, hclear, ← List.flatMap_append] at hsubmit
    exact ⟨⟨first ++ second, table, (locations_ok_iff hshared).mpr hscan,
      (h.readable_iff hsub).mp hread, hsubmit, fun hr => hsize ((h.requires kind).mpr hr)⟩,
      here, hhere, hnil⟩
  · rintro ⟨⟨scan, table, hscan, hread, hsubmit, hsize⟩, here, hhere, hnil⟩
    obtain ⟨first, second, rfl, hsub, hfound⟩ := h.locations_pair hshared hshared' hhere hscan
    refine ⟨first ++ here ++ second, table, hfound, (h.readable_iff hsub).mpr hread, ?_,
      fun hr => hsize ((h.requires kind).mp hr)⟩
    simp only [h.submissionsOf, List.flatMap_append] at hsubmit ⊢
    rw [hnil, List.append_nil, hclear, hsubmit]

theorem populate_error (hfill : c.CanFill t kind) {here : List Location}
    (hhere : (Scan.directory t (c.suffixes kind) p).result = .ok here)
    (hne : here.flatMap (c.submissionsOf t kind) ≠ []) :
    ∃ i, (d.begun.populate t kind).result = .error (.registry (.duplicateVersion kind i i)) := by
  obtain ⟨scan, table, hscan, hread, hsubmit, -⟩ := hfill
  obtain ⟨first, second, rfl, hsub, hfound⟩ := h.locations_pair hshared hshared' hhere hscan
  have htol := hc.tolerates_nothing hshared kind
  have hn : ∀ s ∈ (first ++ second).flatMap (c.submissionsOf t kind),
      s.entry.version.isNaN = false :=
    fun s hs => hc.furnished.not_isNaN (offered_of_locations hscan ▸ hs)
  rcases ItemTable.submitAll_part_cases htol hsubmit hn (flatMap_subset _ (between_subset hsub)) with
    ⟨-, hnodup⟩ | ⟨-, s, -, herror⟩
  · simp only [List.flatMap_append] at hnodup
    exact absurd (eq_nil_of_nodup_append hnodup (List.flatMap_append ▸ flatMap_subset _ hsub)) hne
  · have hplan := samePlan_begun d
    have hread' : d.begun.Readable t kind (first ++ here ++ second) := by
      simp only [Readable, hplan.loadEntries]
      exact (h.readable_iff hsub).mpr hread
    obtain ⟨count, hpopulate⟩ := populate_of_readable ((hplan.locations t kind).symm ▸ hfound) hread'
    rw [table_begun, clear_table hc hd hshared hshared', hplan.submissionsOf, h.submissionsOf,
      herror, hc.furnished.kinds] at hpopulate
    exact ⟨s.item kind, hpopulate⟩

theorem rebuild_ok_iff : (d.rebuild t).2.result = .ok () ↔
    (c.rebuild t).2.result = .ok () ∧ ∀ kind, c.OffersNothing t kind p := by
  have hpaths : d.config.searchPaths ≠ [] := by simp [h.config]
  have hpaths' : c.config.searchPaths ≠ [] := h.paths ▸ h.not_first
  simp only [Catalog.rebuild_ok_iff, h.canFill_iff hc hd hshared hshared', forall_and, and_assoc]
  exact and_congr_left fun _ => iff_of_true hpaths hpaths'

omit hc hd in
/-- Where nothing is offered twice, the other catalog offers the same to its tables. -/
theorem offered_eq (hfill : c.CanFill t kind) (hnothing : c.OffersNothing t kind p) :
    d.offered t kind = c.offered t kind := by
  obtain ⟨scan, -, hscan, -⟩ := hfill
  obtain ⟨here, hhere, hnil⟩ := hnothing
  obtain ⟨first, second, rfl, -, hfound⟩ := h.locations_pair hshared hshared' hhere hscan
  rw [offered_of_locations hscan, offered_of_locations hfound, h.submissionsOf]
  simp only [List.flatMap_append, hnil, List.append_nil]

theorem sameView_rebuild (hok : (d.rebuild t).2.result = .ok ()) :
    SameView (c.rebuild t).1 (d.rebuild t).1 := by
  obtain ⟨hok', hnothing⟩ := (h.rebuild_ok_iff hc hd hshared hshared').mp hok
  obtain ⟨hplan, hbuilt⟩ := rebuild_spec t c
  obtain ⟨hplan', hbuilt'⟩ := rebuild_spec t d
  obtain ⟨hready, hsubmit⟩ := hbuilt hok'
  obtain ⟨hready', hsubmit'⟩ := hbuilt' hok
  obtain ⟨-, hfill⟩ := Catalog.rebuild_ok_iff.mp hok'
  refine ⟨hready'.trans hready.symm, ?_, fun kind => ?_⟩
  · rw [hplan.shared, hplan'.shared, hshared, hshared']
  · have htable := hsubmit' kind
    rw [h.offered_eq hshared hshared' (hfill kind) (hnothing kind),
      clear_table hc hd hshared hshared', hsubmit kind, Except.ok.injEq] at htable
    rw [htable]
    exact ⟨rfl, rfl⟩

theorem rebuild_error (hok : (c.rebuild t).2.result = .ok ())
    (hscan : ∀ kind, ∃ here, (Scan.directory t (c.suffixes kind) p).result = .ok here)
    (hoffers : ¬ ∀ kind, c.OffersNothing t kind p) : ∃ kind i,
      (d.rebuild t).2.result = .error (.registry (.duplicateVersion kind i i)) := by
  have hpaths : d.config.searchPaths ≠ [] := by simp [h.config]
  obtain ⟨-, hfill⟩ := Catalog.rebuild_ok_iff.mp hok
  have hcases (kind : PackKind) : c.OffersNothing t kind p ∨ ∃ i,
      (d.begun.populate t kind).result = .error (.registry (.duplicateVersion kind i i)) := by
    obtain ⟨here, hhere⟩ := hscan kind
    by_cases hnil : here.flatMap (c.submissionsOf t kind) = []
    · exact Or.inl ⟨here, hhere, hnil⟩
    · exact Or.inr (h.populate_error hc hd hshared hshared' (hfill kind) hhere hnil)
  rw [rebuild_result, if_neg hpaths]
  rcases hcases .variants with hvariants | ⟨i, hvariants⟩
  · obtain ⟨filled, hfilled, -⟩ := Catalog.canFill_iff.mp
      ((h.canFill_iff hc hd hshared hshared' .variants).mpr ⟨hfill .variants, hvariants⟩)
    rcases hcases .symbols with hsymbols | ⟨i, hsymbols⟩
    · refine absurd (fun kind => ?_) hoffers
      cases kind with
      | variants => exact hvariants
      | symbols => exact hsymbols
    · exact ⟨.symbols, i, by rw [hfilled, hsymbols, ok_bind, error_bind]⟩
  · exact ⟨.variants, i, by rw [hvariants, error_bind]⟩

end Reached

end Repeats

/-! ### A whole cycle -/

theorem upToDate_of_reached (h : Reached c) (kind : PackKind) : (c.table kind).UpToDate :=
  ⟨(h.sound kind).wellFormed, (h.sound kind).remembers⟩

/-- A catalog finds an archive twice exactly if two candidates in its search paths resolve to it; a
shared namespace adds none twice. Without one, a further search path that only leads to archives which
are found anyway leaves a cycle and its answers as they are if these archives offer nothing, and makes
it fail over a duplicate of itself if they do. -/
theorem rebuild_repeats (hc : Reached c) (hd : Reached d) (hshared : c.shared = none)
    (hshared' : d.shared = none) (h : Repeats t c d before p after) :
    (∀ (any : Catalog) kind found, (any.locations t kind).result = .ok found →
      (found.Nodup ↔ ((any.candidates t kind).map t.resolve).Nodup)) ∧
    ((d.rebuild t).2.result = .ok () ↔
      (c.rebuild t).2.result = .ok () ∧ ∀ kind, c.OffersNothing t kind p) ∧
    ((d.rebuild t).2.result = .ok () →
      ∀ t' q, ((d.rebuild t).1.ask t' q).1 = ((c.rebuild t).1.ask t' q).1) ∧
    ((c.rebuild t).2.result = .ok () →
      (∀ kind, ∃ here, (Scan.directory t (c.suffixes kind) p).result = .ok here) →
      (∀ kind, c.OffersNothing t kind p) ∨ ∃ kind i,
        (d.rebuild t).2.result = .error (.registry (.duplicateVersion kind i i))) := by
  refine ⟨fun any kind found => nodup_locations_iff, h.rebuild_ok_iff hc hd hshared hshared', ?_, ?_⟩
  · intro hok t' q
    exact (h.sameView_rebuild hc hd hshared hshared' hok).ask (upToDate_of_reached (hc.rebuilt t))
      (upToDate_of_reached (hd.rebuilt t)) t' q
  · intro hok hscan
    exact or_iff_not_imp_left.mpr (h.rebuild_error hc hd hshared hshared' hok hscan)

/-- The directory of `southVariant` given twice: its pack is found twice, and the cycle fails. -/
theorem south_found_twice :
    ((catalogOver ["south", "south"]).locations northSouthTree .variants).result.toOption =
      some [southVariant, southVariant] ∧
    ((catalogOver ["south"]).rebuild northSouthTree).2.result.isOk = true ∧
    ((catalogOver ["south", "south"]).rebuild northSouthTree).2.result.isOk = false := by
  decide +kernel

theorem rebuild_repeats_south :
    Repeats northSouthTree (catalogOver ["south"]) (catalogOver ["south", "south"])
      [.ofParts ["south"]] (.ofParts ["south"]) [] ∧ ∃ kind i,
      ((catalogOver ["south", "south"]).rebuild northSouthTree).2.result =
        .error (.registry (.duplicateVersion kind i i)) := by
  have hrepeats : Repeats northSouthTree (catalogOver ["south"]) (catalogOver ["south", "south"])
      [.ofParts ["south"]] (.ofParts ["south"]) [] :=
    repeats_of_mem rfl rfl rfl (List.mem_singleton_self _)
  obtain ⟨hok, hfails⟩ : ((catalogOver ["south"]).rebuild northSouthTree).2.result.isOk = true ∧
      ((catalogOver ["south", "south"]).rebuild northSouthTree).2.result.isOk = false := by
    decide +kernel
  have hok := eq_ok_of_isOk hok
  obtain ⟨-, hiff, -, herror⟩ := rebuild_repeats (reached_catalogOver ["south"])
    (reached_catalogOver ["south", "south"]) rfl rfl hrepeats
  have hscan (kind : PackKind) : ∃ here, (Scan.directory northSouthTree
      ((catalogOver ["south"]).suffixes kind) (.ofParts ["south"])).result = .ok here := by
    obtain ⟨-, hfill⟩ := rebuild_ok_iff.mp hok
    obtain ⟨found, -, hfound, -⟩ := hfill kind
    obtain ⟨here, hhere, -⟩ := Scan.directory_subset (List.mem_singleton_self _)
      ((locations_ok_iff rfl).mp hfound)
    exact ⟨here, hhere⟩
  refine ⟨hrepeats, (herror hok hscan).resolve_left fun hnothing => ?_⟩
  rw [hiff.mpr ⟨hok, hnothing⟩] at hfails
  cases hfails

end PackIndex.Catalog
