import PackIndex.Archive.Error
import PackIndex.Archive.MemberPath
import PackIndex.Package.Location

/-!
# Package contents

Access to the members of one package. The archive is opened when it is first needed and stays
open until it is closed; while it is open, answers are those of the archive as it was opened.
Every operation gives its answer with the content afterwards.
-/

namespace PackIndex

structure PackageContent where
  location : Location
  archive : Option Archive

namespace PackageContent

def fresh (location : Location) : PackageContent := ⟨location, none⟩

def isOpen (c : PackageContent) : Bool := c.archive.isSome

def ensureOpen (t : FileTree) (c : PackageContent) :
    Except ArchiveError Archive × PackageContent :=
  match c.archive with
  | some a => (.ok a, c)
  | none =>
    match t.openArchive c.location.path with
    | .ok a => (.ok a, { c with archive := some a })
    | .error e => (.error e, c)

def has (t : FileTree) (path : String) (c : PackageContent) :
    Except ArchiveError Bool × PackageContent :=
  match MemberPath.normalize? path with
  | none => (.ok false, c)
  | some member =>
    let (opened, c) := c.ensureOpen t
    (opened.map fun a => a.has member, c)

def read (t : FileTree) (path : String) (c : PackageContent) :
    Except ArchiveError (List UInt8) × PackageContent :=
  match MemberPath.normalize? path with
  | none => (.error (.member (.unusablePath path)), c)
  | some member =>
    match c.ensureOpen t with
    | (.error e, c) => (.error e, c)
    | (.ok a, c) => ((a.read member).mapError .member, c)

def names (t : FileTree) (c : PackageContent) : Except ArchiveError (List String) × PackageContent :=
  let (opened, c) := c.ensureOpen t
  (opened.map Archive.names, c)

def close (c : PackageContent) : PackageContent := { c with archive := none }

end PackageContent

namespace Location

def has (t : FileTree) (l : Location) (path : String) : Except ArchiveError Bool :=
  ((PackageContent.fresh l).has t path).1

/-- Reads a member, the archive opened for this alone. -/
def read (t : FileTree) (l : Location) (path : String) : Except ArchiveError (List UInt8) :=
  ((PackageContent.fresh l).read t path).1

end Location

end PackIndex
