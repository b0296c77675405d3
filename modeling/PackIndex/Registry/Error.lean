import PackIndex.Registry.Item

/-!
# Registry errors

Why an item cannot join a table.
-/

namespace PackIndex

inductive RegistryError where
  | nameIsAlias (item : Item) (other : String)
  | duplicateVersion (kind : PackKind) (item existing : Item)
  | aliasTaken (kind : PackKind) (key : String) (item owner : Item)
  | emptyGroup (name : String)
  /-- A version was refused although no item has it. -/
  | refusedVersion (version : Version) (name : String)

namespace RegistryError

def message : RegistryError → String
  | nameIsAlias item other =>
    "Name '" ++ item.displayName ++ "' is already used as an alias of '" ++ other ++ "'.\nItem: " ++
      item.describe
  | duplicateVersion kind item existing =>
    "Two " ++ kind.word ++ " with identical version numbers have been found.\n" ++
      "Conflicting version: " ++ Version.text item.version ++ "\n1: " ++ item.describe ++ "\n2: " ++
      existing.describe
  | aliasTaken kind key item owner =>
    "Two " ++ kind.word ++ " have a conflicting (non-unique) alias '" ++ key ++ "'.\n1: " ++
      item.describe ++ "\n2: " ++ owner.describe ++ " (check all versions with this name)"
  | emptyGroup name => "Version group " ++ Text.quoted name ++ " is empty"
  | refusedVersion version name =>
    "Version " ++ Binary64.text .plain version ++ " rejected but not found in group " ++ Text.quoted name

/-- Whether the data of the packs is to blame. -/
def isDataError : RegistryError → Bool
  | emptyGroup _ => false
  | refusedVersion _ _ => false
  | _ => true

end RegistryError

end PackIndex
