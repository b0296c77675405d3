import PackIndex.Text.Percent
import PackIndex.Tree.Resolve

/-!
# Package locations

The address of one pack archive: its absolute path, its name, and the URLs of the archive and of
its members.
-/

namespace PackIndex

@[ext]
structure Location where
  path : FilePath
  absolute : path.isAbsolute = true
  deriving DecidableEq

namespace Location

def ofParts (names : List String) : Location := ⟨.ofParts names, rfl⟩

def ofPath (t : FileTree) (p : FilePath) : Except ResolveError Location :=
  match h : t.resolve p with
  | .error e => .error e
  | .ok q => .ok ⟨q, FileTree.isAbsolute_of_resolve h⟩

def name (l : Location) : String := l.path.name

def uri (l : Location) : String := "file://" ++ Percent.encode l.path.text

def rootUrl (l : Location) : String := "jar:" ++ l.uri ++ "!/"

/-- The URL of a member, whose name is written as it is. -/
def memberUrl (l : Location) (member : String) : String := l.uri ++ "!/" ++ member

end Location

end PackIndex
