import PackIndex.Listing.Command
import PackIndex.Proofs.Config.Fields
import PackIndex.Yaml.Reader

/-!
# Options merged into a configuration

The options of the listing command are merged by writing the configuration out as fields, changing
some of them, and checking all of them again, which expands the paths that were there once more.
Where that leaves them as they are, nothing changes but what the options ask for. It does unless a
home directory leads to a home directory in turn.
-/

namespace PackIndex

variable {read : YamlReader} {homes : Homes}

namespace CatalogConfig

variable {c : CatalogConfig} {paths expanded : List FilePath}

namespace Accepted

end Accepted

end CatalogConfig

theorem ConfigFile.accepted_of_load {t : FileTree} {p : FilePath} {c : CatalogConfig}
    (h : load read homes t p = .ok c) : c.Accepted homes := by
  have hentries : ∃ base entries, ofEntries homes base entries = .ok c := by
    unfold load at h
    split at h
    · cases h
    · split at h
      · cases h
      · split at h
        · cases h
        · unfold ofDocument at h
          split at h
          · exact ⟨_, _, mapError_eq_ok_iff.mp h⟩
          · split at h
            · exact ⟨_, _, mapError_eq_ok_iff.mp h⟩
            · cases h
  obtain ⟨base, entries, hentries⟩ := hentries
  simp only [ofEntries, bind_eq_ok_iff] at hentries
  obtain ⟨_, -, fields, -, hfields⟩ := hentries
  exact ⟨fields, _, hfields⟩

namespace Listing

variable {t : FileTree} {file : Option FilePath} {base : CatalogConfig}

/-- Whether options are merged into this configuration: that of a file, or else the default one. -/
def IsBase (read : YamlReader) (homes : Homes) (t : FileTree) (file : Option FilePath)
    (base : CatalogConfig) : Prop :=
  file = none ∧ base = .default ∨
    ∃ p, file = some p ∧ ConfigFile.load read homes t p = .ok base

theorem IsBase.accepted (h : IsBase read homes t file base) : base.Accepted homes := by
  rcases h with ⟨-, rfl⟩ | ⟨p, -, hp⟩
  · exact CatalogConfig.accepted_default
  · exact ConfigFile.accepted_of_load hp

end Listing

end PackIndex
