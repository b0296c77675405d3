import PackIndex.Package.Scan
import PackIndex.Proofs.Resource.Deconfliction

/-!
# What cannot be read is passed over

A directory that cannot be listed has no packages, and an archive that cannot be opened holds no
member. So a scan finds the same locations, and a shared namespace the same resources, wherever such
directories and archives stand among the others.
-/

namespace PackIndex

/-- A list that becomes another one when elements of a kind are put in, anywhere. -/
inductive Inserted {α : Type} (P : α → Prop) : List α → List α → Prop where
  | nil : Inserted P [] []
  | keep (x : α) {l m : List α} : Inserted P l m → Inserted P (x :: l) (x :: m)
  | insert {x : α} {l m : List α} : P x → Inserted P l m → Inserted P l (x :: m)

namespace Inserted

variable {α : Type} {P : α → Prop} {l m : List α}

theorem ne_nil (h : Inserted P l m) (hne : l ≠ []) : m ≠ [] := by
  cases h with
  | nil => exact hne
  | keep x _ => exact List.cons_ne_nil x _
  | insert _ _ => exact List.cons_ne_nil _ _

theorem filter_eq (h : Inserted P l m) {p : α → Bool} (hp : ∀ x, P x → p x = false) :
    m.filter p = l.filter p := by
  induction h with
  | nil => rfl
  | keep x _ ih => rw [List.filter_cons, List.filter_cons, ih]
  | insert hx _ ih => rw [List.filter_cons_of_neg (by simp [hp _ hx]), ih]

end Inserted

variable {t : FileTree}

/-! ### Directories that cannot be listed -/

/-- A directory that is not there, or is none, or cannot be reached. -/
structure FileTree.Unlistable (t : FileTree) (dir : FilePath) : Prop where
  noNul : dir.hasNul = false
  unlisted : ∃ e, t.list dir = .error e

theorem Scan.directory_of_unlistable {suffixes : List String} {dir : FilePath}
    (h : t.Unlistable dir) : (Scan.directory t suffixes dir).result = .ok [] := by
  obtain ⟨hnul, e, he⟩ := h
  simp only [Scan.directory, hnul, he]
  rfl

/-- A scan finds the same with directories among the others that cannot be listed. -/
theorem Scan.directories_inserted {dirs more : List FilePath}
    (h : Inserted t.Unlistable dirs more) (suffixes : List String) :
    (Scan.directories t suffixes (more.map some)).result =
      (Scan.directories t suffixes (dirs.map some)).result := by
  induction h with
  | nil => rfl
  | keep dir _ ih => simp only [List.map_cons, Scan.directories, Traced.result_bind, ih]
  | @insert dir dirs more hdir _ ih =>
    simp only [List.map_cons, Scan.directories, Traced.result_bind, directory_of_unlistable hdir,
      ok_bind, ih]
    cases (Scan.directories t suffixes (dirs.map some)).result <;> rfl

theorem scanPackages_inserted {dirs more : List FilePath} (h : Inserted t.Unlistable dirs more)
    (suffixes : List String) : (scanPackages t (more.map some) suffixes).result =
      (scanPackages t (dirs.map some) suffixes).result := by
  simp only [scanPackages, Traced.result_bind, Scan.directories_inserted h]
  cases (Scan.directories t suffixes (dirs.map some)).result <;> rfl

/-! ### Archives that cannot be opened -/

/-- The location of an archive that is not there, or is none, or cannot be reached. -/
def Location.Unopenable (t : FileTree) (l : Location) : Prop := ∃ e, t.openArchive l.path = .error e

theorem Location.holds_of_unopenable {l : Location} (h : l.Unopenable t) (member : String) :
    l.holds t member = false := by
  obtain ⟨e, he⟩ := h
  unfold Location.holds Location.has PackageContent.has PackageContent.fresh
  cases MemberPath.normalize? member with
  | none => rfl
  | some stored => simp [PackageContent.ensureOpen, he, Except.map, Except.toOption]

/-- Namespaces that differ in archives that cannot be opened, if there are namespaces at all. -/
inductive PaddedNamespace (t : FileTree) : Option SharedNamespace → Option SharedNamespace → Prop
    where
  | none : PaddedNamespace t none none
  | some {ns ns' : SharedNamespace} :
      Inserted (Location.Unopenable t) ns.locations ns'.locations → PaddedNamespace t ns ns'

theorem SharedNamespace.findResources_inserted {ε : Type} {ns ns' : SharedNamespace}
    (h : Inserted (Location.Unopenable t) ns.locations ns'.locations) (path : String) :
    (ns'.findResources t path : Traced ε (List ResourceHandle)).result =
      (ns.findResources t path : Traced ε (List ResourceHandle)).result := by
  unfold SharedNamespace.findResources
  split
  · rfl
  · rw [findIn_result, findIn_result, h.filter_eq fun l hl => Location.holds_of_unopenable hl _]

/-- The path of an archive that cannot be opened, and that can be told where it would be. -/
def FileTree.UnopenablePath (t : FileTree) (p : FilePath) : Prop :=
  ∃ l, Location.ofPath t p = .ok l ∧ l.Unopenable t

theorem SharedNamespace.resolvePaths_inserted {paths more : List FilePath}
    (h : Inserted t.UnopenablePath paths more) {locations : List Location}
    (hlocations : resolvePaths t paths = .ok locations) : ∃ locations',
      resolvePaths t more = .ok locations' ∧
        Inserted (Location.Unopenable t) locations locations' := by
  induction h generalizing locations with
  | nil => exact ⟨[], rfl, (Except.ok.inj hlocations) ▸ .nil⟩
  | keep p _ ih =>
    unfold resolvePaths at hlocations
    cases hp : Location.ofPath t p with
    | error e => simp [hp] at hlocations
    | ok l =>
      simp only [hp] at hlocations
      obtain ⟨others, hothers, rfl⟩ := map_eq_ok_iff.mp hlocations
      obtain ⟨others', hothers', hinserted⟩ := ih hothers
      exact ⟨l :: others', by rw [resolvePaths, hp, hothers']; rfl, .keep l hinserted⟩
  | insert hp _ ih =>
    obtain ⟨l, hl, hunopenable⟩ := hp
    obtain ⟨locations', hlocations', hinserted⟩ := ih hlocations
    exact ⟨l :: locations', by rw [resolvePaths, hl, hlocations']; rfl, .insert hunopenable hinserted⟩

/-! ### Resolving over such a namespace -/

namespace Resolver

variable {ns ns' : Option SharedNamespace}

theorem deconflict_padded (h : PaddedNamespace t ns ns') (ref : String) (accept : String → Bool)
    (report : Bool) : (deconflict t ns' ref accept report).result =
      (deconflict t ns ref accept report).result := by
  cases h with
  | none => rfl
  | some h => simp only [deconflict, Traced.result_bind, SharedNamespace.findResources_inserted h]

theorem resolveWith_padded (h : PaddedNamespace t ns ns') (l : Location) (ref : String)
    (accept : String → Bool) (report : Bool) : (resolveWith t ns' l ref accept report).result =
      (resolveWith t ns l ref accept report).result := by
  simp only [resolveWith, Traced.result_bind, deconflict_padded h]

theorem resolveGiven_padded (h : PaddedNamespace t ns ns') (item : Option Item)
    (ref : Option String) :
    (resolveGiven t ns' item ref).result = (resolveGiven t ns item ref).result := by
  cases item with
  | none => rfl
  | some item =>
    cases ref with
    | none => rfl
    | some ref => simp only [resolveGiven, resolve, result_mapError, resolveWith_padded h]

theorem resolveInGiven_padded (h : PaddedNamespace t ns ns') (l : Option Location)
    (ref : Option String) :
    (resolveInGiven t ns' l ref).result = (resolveInGiven t ns l ref).result := by
  cases l with
  | none => rfl
  | some l =>
    cases ref with
    | none => rfl
    | some ref =>
      simp only [resolveInGiven, resolveInPackage, result_mapError, resolveWith_padded h]

end Resolver

end PackIndex
