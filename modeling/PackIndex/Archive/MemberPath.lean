import PackIndex.Path.Basic

/-!
# Member paths

The name under which an archive holds a resource. Backslashes count as slashes; leading slashes,
empty components and `.` are dropped. A path that is empty or climbs with `..` names no member.
A path that starts with exactly two slashes keeps them as a first component.
-/

namespace PackIndex.MemberPath

def components (s : String) : List String :=
  let p := FilePath.ofString (String.ofList (s.toList.map fun c => if c = '\\' then '/' else c))
  if p.root = .doubleSlash then "//" :: p.parts else p.parts

/-- The member a pack-relative path names. -/
def normalize? (s : String) : Option String :=
  let parts := components s
  if parts = [] ∨ ".." ∈ parts then none else some ("/".intercalate parts)

end PackIndex.MemberPath
