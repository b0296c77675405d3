import PackIndex.Package.Location
import PackIndex.Traced

/-!
# Scanning for packages

The packages directly inside the search paths: the files whose names end in one of the suffixes,
in the order of the search paths and, within one, of the names. A directory that cannot be listed
is reported and passed over; a directory given twice is scanned twice.
-/

namespace PackIndex

inductive ScanError where
  | missingEntry
  | nulInPath
  | unresolved (e : ResolveError)

def ScanError.message : ScanError → String
  | .missingEntry => "search path entries must not be None"
  | .nulInPath => "embedded null byte"
  | .unresolved e => e.message

namespace Scan

def matchesSuffix (suffixes : List String) (name : String) : Bool :=
  suffixes.any fun suffix => Text.endsWith name suffix

def candidates (t : FileTree) (suffixes : List String) (dir : FilePath) (names : List String) :
    List FilePath :=
  (names.filter fun name => matchesSuffix suffixes name && t.isFile (dir.child name)).map dir.child

def locations (t : FileTree) : List FilePath → Except ScanError (List Location)
  | [] => .ok []
  | p :: rest =>
    match Location.ofPath t p with
    | .error e => .error (.unresolved e)
    | .ok l => (locations t rest).map (l :: ·)

def directory (t : FileTree) (suffixes : List String) (dir : FilePath) :
    Traced ScanError (List Location) :=
  if dir.hasNul then .fail .nulInPath
  else
    match t.list dir with
    | .error e => do
      Traced.emit (.searchPathUnlisted dir.text e.message)
      return []
    | .ok names => .ofExcept (locations t (candidates t suffixes dir names))

def directories (t : FileTree) (suffixes : List String) :
    List (Option FilePath) → Traced ScanError (List Location)
  | [] => pure []
  | none :: _ => .fail .missingEntry
  | some dir :: rest => do
    let here ← directory t suffixes dir
    let others ← directories t suffixes rest
    return here ++ others

end Scan

def scanPackages (t : FileTree) (searchPaths : List (Option FilePath)) (suffixes : List String) :
    Traced ScanError (List Location) := do
  let found ← Scan.directories t suffixes searchPaths
  Traced.emit (.searchPathsScanned searchPaths.length found.length)
  return found

end PackIndex
