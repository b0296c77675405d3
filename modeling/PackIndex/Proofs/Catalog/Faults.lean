import PackIndex.Listing.Command
import PackIndex.Proofs.Catalog.Growth
import PackIndex.Proofs.Catalog.Outcome
import PackIndex.Proofs.Manifest.Loading
import PackIndex.Proofs.Package.Scanning
import PackIndex.Proofs.Resource.Deconfliction

/-!
# Faults that a cycle passes on

Most of what can go wrong in a cycle is an initialization error, which tells of the packs and is
reported as such. Three faults are not made into one: a search path with a zero character, a
candidate that cannot be resolved although it is a file, and a manifest that is encrypted or packed
in a way that is not known.
-/

namespace PackIndex

/-! ### Scanning -/

namespace Scan

variable {t : FileTree} {suffixes : List String} {dirs : List FilePath}

/-- How a scan of these directories can fail. -/
def Fault (t : FileTree) (suffixes : List String) (dirs : List FilePath) : ScanError → Prop
  | .missingEntry => False
  | .nulInPath => ∃ dir ∈ dirs, dir.hasNul = true
  | .unresolved e => ∃ dir ∈ dirs, ∃ names, t.list dir = .ok names ∧
      ∃ p ∈ candidates t suffixes dir names, t.resolve p = .error e

theorem locations_error {paths : List FilePath} {e : ScanError}
    (h : locations t paths = .error e) :
    ∃ p ∈ paths, ∃ r, e = .unresolved r ∧ t.resolve p = .error r := by
  induction paths with
  | nil => cases h
  | cons p rest ih =>
    rw [locations] at h
    cases hp : Location.ofPath t p with
    | error r =>
      rw [hp] at h
      exact ⟨p, List.mem_cons_self, r, (Except.error.inj h).symm, ofPath_eq_error_iff.mp hp⟩
    | ok l =>
      rw [hp] at h
      obtain ⟨q, hq, r, he, hr⟩ := ih (map_eq_error_iff.mp h)
      exact ⟨q, List.mem_cons_of_mem _ hq, r, he, hr⟩

theorem directory_error {dir : FilePath} {e : ScanError}
    (h : (directory t suffixes dir).result = .error e) : Fault t suffixes [dir] e := by
  unfold directory at h
  split at h
  · next hnul =>
    obtain rfl := Except.error.inj h
    exact ⟨dir, List.mem_singleton_self dir, hnul⟩
  · cases hlist : t.list dir with
    | error fault => simp [hlist, Traced.emit] at h
    | ok names =>
      rw [hlist] at h
      obtain ⟨p, hp, r, rfl, hr⟩ := locations_error h
      exact ⟨dir, List.mem_singleton_self dir, names, hlist, p, hp, hr⟩

theorem Fault.mono {more : List FilePath} (hsub : dirs ⊆ more) {e : ScanError}
    (h : Fault t suffixes dirs e) : Fault t suffixes more e := by
  cases e with
  | missingEntry => exact h
  | nulInPath =>
    obtain ⟨dir, hdir, hnul⟩ := h
    exact ⟨dir, hsub hdir, hnul⟩
  | unresolved r =>
    obtain ⟨dir, hdir, hfound⟩ := h
    exact ⟨dir, hsub hdir, hfound⟩

theorem directories_error {e : ScanError}
    (h : (directories t suffixes (dirs.map some)).result = .error e) : Fault t suffixes dirs e := by
  induction dirs with
  | nil => cases h
  | cons dir rest ih =>
    simp only [List.map_cons, directories, Traced.result_bind] at h
    rcases bind_eq_error_iff.mp h with hhere | ⟨here, -, h⟩
    · exact (directory_error hhere).mono (List.cons_subset_cons dir (List.nil_subset rest))
    · rcases bind_eq_error_iff.mp h with hrest | ⟨others, -, ⟨⟩⟩
      exact (ih hrest).mono (List.subset_cons_self dir rest)

end Scan

/-! ### Admitting -/

namespace ItemTable

variable {t u : ItemTable} {subs : List Submission}

theorem WellFormed.submitAll (h : t.WellFormed) (hu : t.submitAll subs = .ok u) :
    u.WellFormed := by
  induction subs generalizing t with
  | nil =>
    obtain rfl := Except.ok.inj hu
    exact h
  | cons s rest ih =>
    obtain ⟨i, v, hv, ⟨hs, -⟩ | ⟨hs, -⟩⟩ := submitAll_cons_cases hu
    all_goals
      have hnext := (h.submit s).1
      rw [hs] at hnext
      exact ih hnext hv

theorem WellFormed.submitAll_error (h : t.WellFormed) {e : RegistryError}
    (he : t.submitAll subs = .error e) : e.isDataError = true := by
  induction subs generalizing t with
  | nil => cases he
  | cons s rest ih =>
    obtain ⟨hnext, hrefused⟩ := h.submit s
    rw [ItemTable.submitAll] at he
    rcases hs : t.submit s with ⟨admission, v⟩
    rw [hs] at he hnext hrefused
    cases admission with
    | refused e' =>
      obtain rfl := Except.error.inj he
      exact hrefused _ rfl
    | admitted i => exact ih hnext he
    | skipped i => exact ih hnext he

end ItemTable

namespace Catalog

variable {t : FileTree} {c : Catalog} {kind : PackKind} {e : BuildError}

/-! ### Filling a table -/

/-- The faults that a cycle passes on as they are. -/
def PassesOn (t : FileTree) (c : Catalog) : BuildError → Prop
  | .scan fault => ∃ kind, Scan.Fault t (c.suffixes kind) c.config.searchPaths fault
  | .archive fault => fault.isDamage = false ∧ ∃ kind l, c.Visits t kind l ∧
      Manifest.FaultyIn t l (c.manifestName kind) fault
  | _ => False

/-- The faults of a cycle: those that it makes into initialization errors, and the others. -/
def CycleFault (t : FileTree) (c : Catalog) (e : BuildError) : Prop :=
  e.isInitError = true ∨ c.PassesOn t e

theorem locations_error (h : (c.locations t kind).result = .error e) : c.CycleFault t e := by
  simp only [locations, Traced.result_bind] at h
  rcases bind_eq_error_iff.mp h with hscan | ⟨found, -, h⟩
  · obtain ⟨fault, hfault, rfl⟩ := mapError_eq_error_iff.mp hscan
    simp only [scanPackages, Traced.result_bind] at hfault
    rcases bind_eq_error_iff.mp hfault with hfault | ⟨-, -, ⟨⟩⟩
    exact Or.inr ⟨kind, Scan.directories_error hfault⟩
  · -- archives of the namespace that cannot be read are passed over
    cases hshared : c.shared with
    | none => simp [hshared] at h
    | some ns =>
      simp only [hshared, Traced.result_bind, SharedNamespace.findResources] at h
      split at h
      · cases h
      · rw [SharedNamespace.findIn_result] at h
        cases h

theorem Furnished.loadEntries_error (hc : c.Furnished) {l : Location} (hl : c.Visits t kind l)
    (h : (c.loadEntries t kind l).result = .error e) : c.CycleFault t e := by
  simp only [loadEntries, hc.loader, result_mapError, load_result] at h
  obtain ⟨fault, hfault, rfl⟩ := mapError_eq_error_iff.mp h
  rcases Manifest.load?_error hfault with ⟨cause, rfl⟩ | ⟨cause, rfl, hdamage, hfaulty⟩
  · exact Or.inl rfl
  · exact Or.inr ⟨hdamage, kind, l, hl, hfaulty⟩

theorem Furnished.admitPackages_error (hc : c.Furnished) {table : ItemTable}
    (htable : table.WellFormed) {n : Nat} {found : List Location}
    (hfound : ∀ l ∈ found, c.Visits t kind l)
    (h : (admitPackages t c kind table n found).result = .error e) : c.CycleFault t e := by
  induction found generalizing table n with
  | nil => cases h
  | cons l rest ih =>
    have hrest : ∀ l ∈ rest, c.Visits t kind l := fun l hl => hfound l (List.mem_cons_of_mem _ hl)
    simp only [admitPackages, Traced.result_bind] at h
    rcases bind_eq_error_iff.mp h with hload | ⟨entries, -, h⟩
    · exact hc.loadEntries_error (hfound l List.mem_cons_self) hload
    · cases entries with
      | none =>
        simp only [Traced.result_bind] at h
        rcases bind_eq_error_iff.mp h with ⟨⟨⟩⟩ | ⟨-, -, h⟩
        exact ih htable hrest h
      | some entries =>
        simp only [Traced.result_bind, ItemTable.admitAll_result] at h
        rcases bind_eq_error_iff.mp h with hrefused | ⟨next, hnext, h⟩
        · obtain ⟨cause, hcause, rfl⟩ := mapError_eq_error_iff.mp hrefused
          exact Or.inl (htable.submitAll_error hcause)
        · exact ih (htable.submitAll (mapError_eq_ok_iff.mp hnext)) hrest h

theorem Furnished.populate_error (hc : c.Furnished) (htable : (c.table kind).WellFormed)
    (h : (c.populate t kind).result = .error e) : c.CycleFault t e := by
  simp only [populate, Traced.result_bind] at h
  rcases bind_eq_error_iff.mp h with hfound | ⟨found, hfound, h⟩
  · exact locations_error hfound
  · rcases bind_eq_error_iff.mp h with hadmit | ⟨filled, -, h⟩
    · exact hc.admitPackages_error htable (fun l hl => ⟨found, hfound, hl⟩) hadmit
    · rcases bind_eq_error_iff.mp h with ⟨⟨⟩⟩ | ⟨-, -, ⟨⟩⟩

/-! ### A whole cycle -/

theorem SamePlan.cycleFault {d : Catalog} (h : SamePlan c d) (hd : d.CycleFault t e) :
    c.CycleFault t e := by
  refine hd.imp_right fun hpass => ?_
  cases e with
  | scan fault => simpa only [PassesOn, h.suffixes, h.config] using hpass
  | archive fault => simpa only [PassesOn, Visits, h.locations, h.manifestName] using hpass
  | _ => exact hpass

theorem isInitError_of_checkTables (h : c.checkTables = .error e) : e.isInitError = true := by
  unfold checkTables at h
  split at h
  · exact Except.error.inj h ▸ rfl
  · split at h
    · exact Except.error.inj h ▸ rfl
    · cases h

theorem Furnished.rebuild_error (hc : c.Furnished) (h : (c.rebuild t).2.result = .error e) :
    c.CycleFault t e := by
  have hplan := samePlan_begun c
  have hpopulate {kind : PackKind} (herror : (c.begun.populate t kind).result = .error e) :
      c.CycleFault t e :=
    hplan.cycleFault
      ((hc.of_samePlan hplan).populate_error (holds_begun c kind).wellFormed herror)
  rw [rebuild_result] at h
  split at h
  · exact Or.inl (Except.error.inj h ▸ rfl)
  · rcases bind_eq_error_iff.mp h with hvariants | ⟨variants, -, h⟩
    · exact hpopulate hvariants
    · rcases bind_eq_error_iff.mp h with hsymbols | ⟨symbols, -, h⟩
      · exact hpopulate hsymbols
      · exact Or.inl (isInitError_of_checkTables h)

/-! ### What becomes of a fault -/

theorem PassesOn.not_initError (h : c.PassesOn t e) : e.isInitError = false := by
  cases e with
  | scan fault => rfl
  | archive fault => rfl
  | _ => exact h.elim

theorem listing_of_error {config : CatalogConfig} (json : Bool)
    (hc : create t config none (fun _ => .manifests) = .ok c)
    (h : (c.rebuild t).2.result = .error e) : Listing.ofConfig t config json =
      if e.isInitError then .ok ⟨1, "ERROR: " ++ e.message ++ "\n"⟩ else .error (.build e) := by
  have hcreated : (create t config none fun _ => .manifests).mapError CommandError.location =
      .ok c := mapError_eq_ok_iff.mpr hc
  simp only [Listing.ofConfig, hcreated, ok_bind, h]
  rfl

/-- A cycle fails with an initialization error, unless it passes on a fault of a search path, of a
candidate that cannot be resolved, or of a manifest that cannot be unpacked. Likewise a manifest
fails to load with an error of its package, unless it cannot be unpacked. The listing command
reports the former, and only those.

This covers the faults of `MemberFault` and of `FileTree.openArchive`. Data that cannot be
decompressed, and archives refused for their version or their names, are outside of it. -/
theorem rebuild_fails_only (hc : Reached c) (t : FileTree) :
    (∀ e, (c.rebuild t).2.result = .error e → (e.isInitError = false ↔ c.PassesOn t e)) ∧
    (∀ kind l manifest e, Manifest.load? kind t l manifest = .error e →
      (∃ fault, e = .manifest ⟨fault, l⟩) ∨
      ∃ fault, e = .archive fault ∧ fault.isDamage = false ∧ Manifest.FaultyIn t l manifest fault) ∧
    ∀ config json fresh e, create t config none (fun _ => .manifests) = .ok fresh →
      (fresh.rebuild t).2.result = .error e →
      Listing.ofConfig t config json = .ok ⟨1, "ERROR: " ++ e.message ++ "\n"⟩ ∨
      fresh.PassesOn t e ∧ Listing.ofConfig t config json = .error (.build e) := by
  refine ⟨fun e he => ⟨fun hinit => ?_, PassesOn.not_initError⟩,
    fun kind l manifest e he => Manifest.load?_error he, ?_⟩
  · refine (hc.furnished.rebuild_error he).resolve_left fun hnot => ?_
    rw [hinit] at hnot
    cases hnot
  · intro config json fresh e hfresh he
    have hlisting := listing_of_error json hfresh he
    rcases (Reached.created hfresh).furnished.rebuild_error he with hinit | hpass
    · rw [if_pos hinit] at hlisting
      exact Or.inl hlisting
    · rw [hpass.not_initError, if_neg Bool.false_ne_true] at hlisting
      exact Or.inr ⟨hpass, hlisting⟩

def encryptedTree : FileTree :=
  ⟨.dir [("NorthVariant.zip",
    .file (.archive ⟨[⟨"variants.json", fjordManifest.toUTF8.toList, some .encrypted⟩]⟩))], []⟩

theorem exists_encrypted : ∃ e, (fjordCatalog.rebuild encryptedTree).2.result = .error e ∧
    e.isInitError = false := by
  have hfails : (fjordCatalog.rebuild encryptedTree).2.result.mapError BuildError.isInitError =
      .error false := by decide +kernel
  exact mapError_eq_error_iff.mp hfails

theorem rebuild_passes_on_encrypted : Reached fjordCatalog ∧
    ∃ e, (fjordCatalog.rebuild encryptedTree).2.result = .error e ∧
      fjordCatalog.PassesOn encryptedTree e := by
  obtain ⟨e, he, hinit⟩ := exists_encrypted
  obtain ⟨hcycle, -, -⟩ := rebuild_fails_only reached_fjordCatalog encryptedTree
  exact ⟨reached_fjordCatalog, e, he, (hcycle e he).mp hinit⟩

/-- The fault of an encrypted manifest is passed on by the loader, by the cycle and by the listing
command. -/
theorem encrypted_manifest_escapes :
    Manifest.load? .variants encryptedTree (.ofParts ["NorthVariant.zip"]) "variants.json" =
      .error (.archive (.member (.faulty "variants.json" .encrypted))) ∧
    ∃ e, (fjordCatalog.rebuild encryptedTree).2.result = .error e ∧ e.isInitError = false ∧
      Listing.ofConfig encryptedTree fjordCatalog.config false = .error (.build e) := by
  obtain ⟨e, he, hinit⟩ := exists_encrypted
  have hcreate : create encryptedTree fjordCatalog.config none (fun _ => .manifests) =
      .ok fjordCatalog := rfl
  have hlisting := listing_of_error false hcreate he
  rw [hinit, if_neg Bool.false_ne_true] at hlisting
  exact ⟨rfl, e, he, hinit, hlisting⟩

end Catalog

end PackIndex
