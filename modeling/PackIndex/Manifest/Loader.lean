import PackIndex.Json.Reader
import PackIndex.Manifest.Reader
import PackIndex.Package.Content
import PackIndex.Traced

/-!
# Loading manifests

Reads the manifest of a package. Packages that cannot be read, texts that are no JSON and
manifests of the wrong shape are errors of the package.
-/

namespace PackIndex

inductive ManifestFault where
  | unreadable (e : ArchiveError)
  | malformed (manifest : String)
  | invalid (manifest : String) (issues : List Issue)

structure ManifestError where
  fault : ManifestFault
  location : Location

/-- What stands in messages for the report of a JSON reader. -/
def jsonReport : String := "<json error>"

def ManifestFault.message : ManifestFault → String
  | .unreadable e => "Cannot read package archive: " ++ e.message
  | .malformed manifest => "Malformed " ++ manifest ++ ": " ++ jsonReport
  | .invalid manifest issues =>
    "Invalid " ++ manifest ++ ": " ++ Number.natText issues.length ++ " error(s): " ++
      (match issues with | i :: _ => i.text | [] => "")

def ManifestError.message (e : ManifestError) : String :=
  e.fault.message ++ " (package: " ++ e.location.uri ++ ")"

inductive LoadError where
  | manifest (e : ManifestError)
  /-- An archive error that is no damage, passed on as it is. -/
  | archive (e : ArchiveError)

namespace Manifest

def loadError (l : Location) (e : ArchiveError) : LoadError :=
  if e.isDamage then .manifest ⟨.unreadable e, l⟩ else .archive e

/-- The bytes of the manifest, if the package has one. -/
def bytes? (t : FileTree) (l : Location) (manifest : String) :
    Except ArchiveError (Option (List UInt8)) :=
  let (present, content) := (PackageContent.fresh l).has t manifest
  match present with
  | .error e => .error e
  | .ok false => .ok none
  | .ok true => (content.read t manifest).1.map some

def load? (kind : PackKind) (t : FileTree) (l : Location) (manifest : String) :
    Except LoadError (Option (List ManifestEntry)) :=
  match bytes? t l manifest with
  | .error e => .error (loadError l e)
  | .ok none => .ok none
  | .ok (some raw) =>
    match Json.readDocument? raw with
    | none => .error (.manifest ⟨.malformed manifest, l⟩)
    | some data =>
      match entries kind data with
      | .error issues => .error (.manifest ⟨.invalid manifest issues, l⟩)
      | .ok found => .ok (some found)

def load (kind : PackKind) (t : FileTree) (l : Location) (manifest : String) :
    Traced LoadError (Option (List ManifestEntry)) := do
  let found ← Traced.ofExcept (load? kind t l manifest)
  match found with
  | none => return none
  | some entries =>
    Traced.emit (.manifestLoaded l.name manifest entries.length)
    return some entries

end Manifest

end PackIndex
