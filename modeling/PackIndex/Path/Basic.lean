import PackIndex.Text.Pieces

/-!
# File paths

A path is a root with a list of components. Reading a path drops empty components and `.`, and
keeps `..`; two leading slashes are a root of their own, any other number of leading slashes is
the plain root. `FilePath.text` writes a path back in this canonical form.
-/

namespace PackIndex

inductive PathRoot where
  | none
  | slash
  | doubleSlash
  deriving DecidableEq

/-- Whether a text can be one component of a path. -/
structure FilePath.IsPart (part : String) : Prop where
  nonempty : part ≠ ""
  notDot : part ≠ "."
  noSlash : '/' ∉ part.toList

instance (part : String) : Decidable (FilePath.IsPart part) :=
  decidable_of_iff (part ≠ "" ∧ part ≠ "." ∧ '/' ∉ part.toList)
    ⟨fun ⟨hnonempty, hdot, hslash⟩ => ⟨hnonempty, hdot, hslash⟩,
      fun h => ⟨h.nonempty, h.notDot, h.noSlash⟩⟩

@[ext]
structure FilePath where
  root : PathRoot
  parts : List String
  isPart : ∀ part ∈ parts, FilePath.IsPart part
  deriving DecidableEq

/-- The home directories that a system tells: that of the user at work, as `HOME` holds it, and
those of users by their names. -/
structure Homes where
  own : String
  ofUser? : String → Option String

/-- Of a `HOME` alone no other user is known. -/
instance : Coe String Homes := ⟨fun home => ⟨home, fun _ => none⟩⟩

namespace FilePath

/-- The components of a slash-separated text: what is neither empty nor `.`. -/
def components (s : String) : List String :=
  (Text.split '/' s).filter fun part => part ≠ "" ∧ part ≠ "."

theorem isPart_of_mem_components {s part : String} (h : part ∈ components s) : IsPart part := by
  simp only [components, List.mem_filter, Text.split, List.mem_map, decide_eq_true_eq] at h
  obtain ⟨⟨piece, hpiece, rfl⟩, hempty, hdot⟩ := h
  refine ⟨hempty, hdot, ?_⟩
  rw [String.toList_ofList]
  exact Text.notMem_of_mem_splitChars hpiece

def rootOf : List Char → PathRoot
  | '/' :: '/' :: '/' :: _ => .slash
  | '/' :: '/' :: _ => .doubleSlash
  | '/' :: _ => .slash
  | _ => .none

def ofString (s : String) : FilePath :=
  ⟨rootOf s.toList, components s, fun _ => isPart_of_mem_components⟩

/-- The path of those names that can be components. -/
def ofNames (root : PathRoot) (names : List String) : FilePath :=
  ⟨root, names.filter fun name => IsPart name, fun _ h => of_decide_eq_true (List.mem_filter.mp h).2⟩

def ofParts (names : List String) : FilePath := ofNames .slash names

def rootText : PathRoot → String
  | .none => ""
  | .slash => "/"
  | .doubleSlash => "//"

/-- The canonical text of a path; the empty relative path is `.`. -/
def text (p : FilePath) : String :=
  if p.root = .none ∧ p.parts = [] then "." else rootText p.root ++ "/".intercalate p.parts

def isAbsolute (p : FilePath) : Bool := p.root != .none

def name (p : FilePath) : String := p.parts.getLast?.getD ""

def parent (p : FilePath) : FilePath :=
  ⟨p.root, p.parts.dropLast, fun part h => p.isPart part (List.dropLast_subset _ h)⟩

def append (p : FilePath) (more : List String) (h : ∀ part ∈ more, IsPart part) : FilePath :=
  ⟨p.root, p.parts ++ more, List.forall_mem_append.mpr ⟨p.isPart, h⟩⟩

section Append

variable {p : FilePath} {more : List String} {h : ∀ part ∈ more, IsPart part}

@[simp]
theorem append_root : (p.append more h).root = p.root := rfl

@[simp]
theorem append_parts : (p.append more h).parts = p.parts ++ more := rfl

end Append

/-- `q` seen from the directory `p`. -/
def join (p q : FilePath) : FilePath :=
  if q.isAbsolute then q else p.append q.parts q.isPart

def child (p : FilePath) (entry : String) : FilePath := p.join (ofString entry)

def homeOf? (homes : Homes) (first : String) : Option String :=
  let user := String.ofList (first.toList.drop 1)
  (if user = "" then some homes.own else homes.ofUser? user).bind fun home =>
    let trimmed := String.ofList ((home.toList.reverse.dropWhile (· == '/')).reverse)
    let dir := if trimmed = "" then "/" else trimmed
    if Text.startsWith dir "~" then Option.none else some dir

/-- Replaces a leading `~` component by the home directory; `none` if that is unknown. -/
def expandHome? (homes : Homes) (p : FilePath) : Option FilePath :=
  match p with
  | ⟨.none, first :: rest, h⟩ =>
    if Text.startsWith first "~" then
      (homeOf? homes first).map fun dir => (ofString dir).append rest (List.forall_mem_cons.mp h).2
    else some p
  | _ => some p

end FilePath

end PackIndex
