import PackIndex.Archive.Basic
import PackIndex.Tree.Basic

/-!
# Errors of archive access
-/

namespace PackIndex

inductive ArchiveError where
  | notArchive
  | unopened (e : PathError)
  | member (e : MemberError)

namespace ArchiveError

def message : ArchiveError → String
  | notArchive => "File is not a zip file"
  | unopened e => e.message
  | member e => e.message

/-- Whether the error tells of a damaged or unreachable file, which users of packs put up with. -/
def isDamage : ArchiveError → Bool
  | notArchive => true
  | unopened _ => true
  | member (.faulty _ .badChecksum) => true
  | member _ => false

end ArchiveError

namespace FileTree

def openArchive (t : FileTree) (p : FilePath) : Except ArchiveError Archive :=
  match t.readFile p with
  | .ok (.archive a) => .ok a
  | .ok (.bytes _) => .error .notArchive
  | .error e => .error (.unopened e)

end FileTree

end PackIndex
