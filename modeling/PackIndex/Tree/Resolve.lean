import PackIndex.Tree.Basic

/-!
# Resolving paths

`FileTree.resolve` makes a path absolute: links are replaced by their targets and `..` goes back
one component; components that do not exist are kept as they are. Where a link leads back to
itself, the rest of the path is kept unresolved, and the whole path is refused if it still leads
into a loop.
-/

namespace PackIndex

/-- A path under resolution: its components so far, and whether they start at the root. -/
structure Trail where
  absolute : Bool
  names : List String
  deriving DecidableEq

namespace Trail

def enter (t : Trail) (name : String) : Trail := ⟨t.absolute, t.names ++ [name]⟩

/-- One component back. A relative trail that has nothing left to drop records the `..`. -/
def back (t : Trail) : Trail :=
  if t.absolute then ⟨true, t.names.dropLast⟩
  else if t.names = [] ∨ t.names.getLast? = some ".." then ⟨false, t.names ++ [".."]⟩
  else ⟨false, t.names.dropLast⟩

/-- The trail with components left unresolved. Of components that start with an empty one, as they
do behind a doubled slash, the rest starts at the root. -/
def leave (t : Trail) (rest : List String) : Trail :=
  let names := rest.filter fun part => part ≠ "" ∧ part ≠ "."
  match rest with
  | "" :: _ :: _ => ⟨true, names⟩
  | _ => ⟨t.absolute, t.names ++ names⟩

/-- Absolute names in their shortest form: `..` drops the name before it. -/
def settle (names : List String) : List String :=
  names.foldl (fun acc name => if name = ".." then acc.dropLast else acc ++ [name]) []

/-- The settled names from the root, a relative trail starting in `current`. -/
def fromRoot (current : List String) (t : Trail) : List String :=
  settle (if t.absolute then t.names else current ++ t.names)

end Trail

namespace FileTree

def linkAt? (t : FileTree) (trail : Trail) : Option String :=
  match t.locate false (.ofNames (if trail.absolute then .slash else .none) trail.names) with
  | .ok names =>
    match t.root.at? names with
    | some (.link target) => some target
    | _ => none
  | .error _ => none

/-- Links met so far: with the trail they lead to, or `none` while that is being worked out. -/
abbrev Seen := List (Trail × Option Trail)

/-- The components of a link's target, empty ones included but for a leading one. -/
def stepsOf (target : String) : List String :=
  Text.split '/' (if Text.startsWith target "/" then String.ofList (target.toList.drop 1) else target)

/-- Follows components from a trail. `expand` resolves the target of a link. The result tells
whether everything could be resolved. -/
def resolveWith (t : FileTree) (expand : Trail → Seen → List String → Trail × Bool × Seen) :
    Trail → Seen → List String → Trail × Bool × Seen
  | trail, seen, [] => (trail, true, seen)
  | trail, seen, name :: rest =>
    if name = "" ∨ name = "." then resolveWith t expand trail seen rest
    else if name = ".." then resolveWith t expand trail.back seen rest
    else
      let next := trail.enter name
      match t.linkAt? next with
      | none => resolveWith t expand next seen rest
      | some target =>
        match seen.lookup next with
        | some (some found) => resolveWith t expand found seen rest
        | some none => (next.leave rest, false, seen)
        | none =>
          let start : Trail := if Text.startsWith target "/" then ⟨true, []⟩ else trail
          match expand start ((next, none) :: seen) (stepsOf target) with
          | (found, false, seen) => (found.leave rest, false, seen)
          | (found, true, seen) => resolveWith t expand found ((next, some found) :: seen) rest

/-- Resolution through links nested at most `depth` deep. -/
def resolveWithin (t : FileTree) : Nat → Trail → Seen → List String → Trail × Bool × Seen
  | 0 => t.resolveWith fun trail seen rest => (trail.leave rest, false, seen)
  | depth + 1 => t.resolveWith (t.resolveWithin depth)

mutual

def linkCount : Node → Nat
  | .file _ => 0
  | .link _ => 1
  | .dir entries => linkCountEntries entries

def linkCountEntries : List (String × Node) → Nat
  | [] => 0
  | (_, node) :: rest => linkCount node + linkCountEntries rest

end

end FileTree

inductive ResolveError where
  | loop (path : String)
  | nulInPath
  deriving DecidableEq

def ResolveError.message : ResolveError → String
  | .loop path => "Symlink loop from " ++ Text.quoted path
  | .nulInPath => "embedded null byte"

def FilePath.hasNul (p : FilePath) : Bool := p.parts.any fun part => part.toList.contains '\x00'

namespace FileTree

def resolve (t : FileTree) (p : FilePath) : Except ResolveError FilePath :=
  if p.hasNul then .error .nulInPath
  else
    let depth := 4 * (linkCount t.root + 1) + p.parts.length
    let (trail, _, _) := t.resolveWithin depth ⟨p.isAbsolute, []⟩ [] p.parts
    let found := FilePath.ofParts (trail.fromRoot t.current)
    match t.node found with
    | .error .tooManyLinks => .error (.loop found.text)
    | _ => .ok found

theorem isAbsolute_of_resolve {t : FileTree} {p q : FilePath} (h : t.resolve p = .ok q) :
    q.isAbsolute = true := by
  unfold resolve at h
  split at h
  · cases h
  · simp only at h
    split at h
    · cases h
    · obtain rfl := Except.ok.inj h
      rfl

end FileTree

end PackIndex
