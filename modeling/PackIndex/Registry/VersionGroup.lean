import PackIndex.Registry.Item
import PackIndex.Version.Selection

/-!
# Version groups

All versions of one name, in the order in which they were added. A version that is equal to one
already there is not added.
-/

namespace PackIndex

structure VersionGroup where
  name : String
  items : List Item

namespace VersionGroup

def empty (name : String) : VersionGroup := ⟨name, []⟩

def find? (g : VersionGroup) (v : Version) : Option Item := Selection.find? Item.version v g.items

def add? (g : VersionGroup) (item : Item) : Option VersionGroup :=
  match g.find? item.version with
  | some _ => none
  | none => some { g with items := g.items ++ [item] }

def pick? (g : VersionGroup) (strict : Bool) (selector : Selector) : Option Item :=
  Selection.pick? Item.version strict g.items selector

def select (g : VersionGroup) (strict : Bool) (selector : Value) :
    Except SelectorError (Option Item) :=
  Selection.select Item.version strict g.items selector

def newest? (g : VersionGroup) : Option Item := Selection.newest? Item.version g.items

def oldest? (g : VersionGroup) : Option Item := Selection.oldest? Item.version g.items

def versions (g : VersionGroup) : List Version := g.items.map Item.version

def text (g : VersionGroup) : String :=
  "VersionGroup(" ++ Text.quoted g.name ++ ", versions=" ++
    (Value.list (g.versions.map .float)).quotedText ++ ")"

end VersionGroup

end PackIndex
