import PackIndex.Package.Content
import PackIndex.Proofs.Archive.MemberPath
import PackIndex.Proofs.Result

/-!
# Which member is opened

A name that is stored several times leads to the last member of that name. Asking whether a package
holds a member and reading it look for the same name, so what is there can be read, unless the
member itself is damaged.
-/

namespace PackIndex

namespace Archive

variable {a : Archive} {name : String} {entry : Member}

/-- Whether a member is the last of its name. -/
def IsLast (a : Archive) (name : String) (entry : Member) : Prop :=
  ∃ before after, a.members = before ++ entry :: after ∧ entry.name = name ∧
    ∀ later ∈ after, later.name ≠ name

theorem find?_eq_some_iff : a.find? name = some entry ↔ a.IsLast name entry := by
  rw [find?, List.find?_eq_some_iff_append, decide_eq_true_eq]
  constructor
  · rintro ⟨hname, as, bs, hmembers, has⟩
    refine ⟨bs.reverse, as.reverse, ?_, hname, fun later hlater => ?_⟩
    · simpa using congrArg List.reverse hmembers
    · simpa using has later (List.mem_reverse.mp hlater)
  · rintro ⟨before, after, hmembers, hname, hafter⟩
    refine ⟨hname, after.reverse, before.reverse, by simp [hmembers], fun later hlater => ?_⟩
    simpa using hafter later (List.mem_reverse.mp hlater)

theorem find?_eq_none_iff : a.find? name = none ↔ name ∉ a.names := by
  simp [find?, names, List.find?_eq_none]

theorem has_iff_mem_names : a.has name = true ↔ name ∈ a.names := by
  rw [has, ← not_iff_not, ← find?_eq_none_iff, Option.isSome_iff_ne_none, not_not]

theorem exists_isLast_of_mem_names (h : name ∈ a.names) : ∃ entry, a.IsLast name entry := by
  obtain ⟨entry, hentry⟩ := Option.isSome_iff_exists.mp (has_iff_mem_names.mpr h)
  exact ⟨entry, find?_eq_some_iff.mp hentry⟩

/-- Reading gives the content of the last member of a name, or tells of its fault. -/
theorem read_of_isLast (h : a.IsLast name entry) :
    (entry.fault = none → a.read name = .ok entry.content) ∧
      ∀ fault, entry.fault = some fault → a.read name = .error (.faulty name fault) := by
  have hfind := find?_eq_some_iff.mpr h
  obtain ⟨-, -, -, hname, -⟩ := h
  constructor
  · intro hfault
    simp [read, hfind, hfault]
  · intro fault hfault
    simp [read, hfind, hfault, hname]

end Archive

namespace Location

variable {t : FileTree} {l : Location} {path member : String}

theorem has_eq (h : MemberPath.normalize? path = some member) :
    l.has t path = (t.openArchive l.path).map fun a => a.has member := by
  unfold Location.has PackageContent.has PackageContent.fresh PackageContent.ensureOpen
  simp only [h]
  cases t.openArchive l.path <;> rfl

theorem read_eq (h : MemberPath.normalize? path = some member) :
    l.read t path = t.openArchive l.path >>= fun a => (a.read member).mapError .member := by
  unfold Location.read PackageContent.read PackageContent.fresh PackageContent.ensureOpen
  simp only [h]
  cases t.openArchive l.path <;> rfl

/-- A package holds a member exactly if its archive can be opened and has an entry of the name. -/
theorem has_eq_ok_true_iff (h : MemberPath.normalize? path = some member) :
    l.has t path = .ok true ↔ ∃ a, t.openArchive l.path = .ok a ∧ member ∈ a.names := by
  simp only [has_eq h, map_eq_ok_iff, Archive.has_iff_mem_names]

end Location

end PackIndex
