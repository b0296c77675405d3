import PackIndex.Manifest.Loader
import PackIndex.Proofs.Result

/-!
# Outcomes of loading a manifest

A manifest is read from one member of one archive. A member that cannot be read is an error of the
package if its checksum is wrong; that it is encrypted, or packed in a way that is not known, is
passed on as a fault of the archive. Nothing else but errors of the package can come of it.
-/

namespace PackIndex

namespace Archive

variable {a : Archive} {name : String}

theorem read_cases (h : a.has name = true) :
    (∃ content, a.read name = .ok content) ∨
      ∃ m fault, a.find? name = some m ∧ m.fault = some fault ∧
        a.read name = .error (.faulty m.name fault) := by
  obtain ⟨m, hm⟩ := Option.isSome_iff_exists.mp h
  cases hfault : m.fault with
  | none => exact Or.inl ⟨m.content, by simp only [read, hm, hfault]⟩
  | some fault => exact Or.inr ⟨m, fault, hm, hfault, by simp only [read, hm, hfault]⟩

end Archive

namespace Manifest

variable {t t' : FileTree} {l : Location} {manifest : String} {kind : PackKind}

theorem bytes?_eq (t : FileTree) (l : Location) (manifest : String) :
    bytes? t l manifest =
      match MemberPath.normalize? manifest with
      | none => .ok none
      | some member => t.openArchive l.path >>= fun a =>
        if a.has member then ((a.read member).mapError .member).map some else .ok none := by
  simp only [bytes?, PackageContent.has, PackageContent.read]
  cases MemberPath.normalize? manifest with
  | none => rfl
  | some member =>
    simp only [PackageContent.ensureOpen, PackageContent.fresh]
    cases t.openArchive l.path with
    | error e => rfl
    | ok a =>
      simp only [Except.map, ok_bind]
      cases a.has member with
      | false => rfl
      | true => rfl

theorem load?_of_readFile (h : t'.readFile l.path = t.readFile l.path) (kind : PackKind)
    (manifest : String) : load? kind t' l manifest = load? kind t l manifest := by
  have hopen : t'.openArchive l.path = t.openArchive l.path := by
    simp only [FileTree.openArchive, h]
  simp only [load?, bytes?_eq, hopen]

/-- The member that is read as the manifest of a package has this fault. -/
def FaultyIn (t : FileTree) (l : Location) (manifest : String) (e : ArchiveError) : Prop :=
  ∃ member a m fault, MemberPath.normalize? manifest = some member ∧
    t.openArchive l.path = .ok a ∧ a.find? member = some m ∧ m.fault = some fault ∧
    e = .member (.faulty m.name fault)

theorem bytes?_error {e : ArchiveError} (h : bytes? t l manifest = .error e) :
    t.openArchive l.path = .error e ∨ FaultyIn t l manifest e := by
  rw [bytes?_eq] at h
  cases hmember : MemberPath.normalize? manifest with
  | none => simp [hmember] at h
  | some member =>
    simp only [hmember] at h
    cases hopen : t.openArchive l.path with
    | error e' =>
      rw [hopen, error_bind, Except.error.injEq] at h
      exact Or.inl (congrArg Except.error h)
    | ok a =>
      rw [hopen, ok_bind] at h
      by_cases hhas : a.has member = true
      · rw [if_pos hhas] at h
        rcases Archive.read_cases hhas with ⟨content, hread⟩ | ⟨m, fault, hm, hfault, hread⟩
        · rw [hread] at h
          cases h
        · rw [hread] at h
          exact Or.inr ⟨member, a, m, fault, hmember, hopen, hm, hfault,
            (Except.error.inj h).symm⟩
      · rw [if_neg hhas] at h
        cases h

theorem isDamage_of_openArchive {p : FilePath} {e : ArchiveError}
    (h : t.openArchive p = .error e) : e.isDamage = true := by
  unfold FileTree.openArchive at h
  split at h
  · cases h
  · obtain rfl := Except.error.inj h
    rfl
  · obtain rfl := Except.error.inj h
    rfl

/-- Loading fails with an error of the package, or passes on that the manifest cannot be
unpacked. -/
theorem load?_error {e : LoadError} (h : load? kind t l manifest = .error e) :
    (∃ fault, e = .manifest ⟨fault, l⟩) ∨
      ∃ fault, e = .archive fault ∧ fault.isDamage = false ∧ FaultyIn t l manifest fault := by
  unfold load? at h
  split at h
  · next fault hbytes =>
    obtain rfl := Except.error.inj h
    rw [loadError]
    by_cases hdamage : fault.isDamage = true
    · rw [if_pos hdamage]
      exact Or.inl ⟨_, rfl⟩
    · rw [if_neg hdamage]
      rcases bytes?_error hbytes with hopen | hfaulty
      · exact absurd (isDamage_of_openArchive hopen) hdamage
      · exact Or.inr ⟨fault, rfl, Bool.eq_false_iff.mpr hdamage, hfaulty⟩
  · cases h
  · split at h
    · obtain rfl := Except.error.inj h
      exact Or.inl ⟨_, rfl⟩
    · split at h
      · obtain rfl := Except.error.inj h
        exact Or.inl ⟨_, rfl⟩
      · cases h

end Manifest

end PackIndex
