import PackIndex.Manifest.Descriptor
import PackIndex.Package.Kind
import PackIndex.Package.Location
import PackIndex.Text.Lower
import PackIndex.Version.Text

/-!
# Registered items
-/

namespace PackIndex

/-- A manifest entry as it stands in a table. `name` is the lower-case key of its group. -/
structure Item where
  name : String
  displayName : String
  version : Version
  kind : PackKind
  source : Location
  packageName : String
  payload : Option Descriptor

namespace Item

def ofEntry (kind : PackKind) (entry : ManifestEntry) (packageName : String) (source : Location) :
    Item :=
  ⟨Text.lower entry.name, entry.name, entry.version, kind, source, packageName, entry.payload⟩

def describe (i : Item) : String :=
  "name=" ++ i.displayName ++ "; version=" ++ Version.text i.version ++ "; package=" ++
    i.packageName ++ "; url=" ++ i.source.uri

end Item

end PackIndex
