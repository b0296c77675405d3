import PackIndex.Archive.Basic
import PackIndex.Path.Basic

/-!
# File trees

A file tree is a directory of files, directories and symbolic links. `walk` follows a path the way
an operating system does: links are followed, `..` goes to the parent of the directory reached so
far, and at most `linkBudget` links are followed in all.
-/

namespace PackIndex

inductive FileContent where
  | bytes (content : List UInt8)
  | archive (a : Archive)
  deriving DecidableEq

inductive Node where
  | file (content : FileContent)
  | dir (entries : List (String × Node))
  | link (target : String)

inductive PathFault where
  | missing
  | notDirectory
  | isDirectory
  | nameTooLong
  | tooManyLinks
  deriving DecidableEq, Repr

structure PathError where
  fault : PathFault
  path : String
  deriving DecidableEq

def PathFault.number : PathFault → Nat
  | .missing => 2
  | .notDirectory => 20
  | .isDirectory => 21
  | .nameTooLong => 36
  | .tooManyLinks => 40

def PathFault.reason : PathFault → String
  | .missing => "No such file or directory"
  | .notDirectory => "Not a directory"
  | .isDirectory => "Is a directory"
  | .nameTooLong => "File name too long"
  | .tooManyLinks => "Too many levels of symbolic links"

def PathError.message (e : PathError) : String :=
  "[Errno " ++ toString e.fault.number ++ "] " ++ e.fault.reason ++ ": " ++ Text.quoted e.path

namespace Node

def entry? (name : String) : List (String × Node) → Option Node
  | [] => none
  | (n, node) :: rest => if n = name then some node else entry? name rest

def child? (name : String) : Node → Option Node
  | dir entries => entry? name entries
  | _ => none

/-- The node at the end of these names, no link followed. -/
def at? : List String → Node → Option Node
  | [], node => some node
  | name :: rest, node => (node.child? name).bind (at? rest)

def alterEntry (name : String) (f : Option Node → Option Node) :
    List (String × Node) → List (String × Node)
  | [] => ((f none).map fun node => (name, node)).toList
  | (n, node) :: rest =>
    if n = name then ((f (some node)).map fun node => (name, node)).toList ++ rest
    else (n, node) :: alterEntry name f rest

def alter (f : Option Node → Option Node) : List String → Node → Node
  | [], node => (f (some node)).getD node
  | [name], dir entries => dir (alterEntry name f entries)
  | name :: rest, dir entries => dir (alterEntry name (fun n => n.map (alter f rest)) entries)
  | _, node => node

end Node

/-- A file tree with the directory that relative paths start from. -/
structure FileTree where
  root : Node
  current : List String

namespace FileTree

def maxNameBytes : Nat := 255

def maxPathBytes : Nat := 4095

/-- How many links one look-up follows. -/
def linkBudget : Nat := 40

/-- The components of a path text as the system sees them; `.` stands for the empty ones. -/
def rawComponents (s : String) : List String :=
  (Text.split '/' s).map fun part => if part = "" then "." else part

/-- Follows components from a directory, without the links at their end if `follow` is false.
`expand` continues at the target of a link with one link less. -/
def walkWith (root : Node) (follow : Bool)
    (expand : List String → List String → Except PathFault (List String)) :
    List String → List String → Except PathFault (List String)
  | here, [] => .ok here
  | here, name :: rest =>
    match root.at? here with
    | some (.dir entries) =>
      if name = "." then walkWith root follow expand here rest
      else if name = ".." then walkWith root follow expand here.dropLast rest
      else if maxNameBytes < name.utf8ByteSize then .error .nameTooLong
      else
        match Node.entry? name entries with
        | none => .error .missing
        | some (.link target) =>
          if rest = [] ∧ follow = false then .ok (here ++ [name])
          else
            let start := if Text.startsWith target "/" then [] else here
            expand start (rawComponents target ++ rest)
        | some _ => walkWith root follow expand (here ++ [name]) rest
    | _ => .error .notDirectory

/-- Follows components from a directory through at most `links` links. -/
def walk (root : Node) (follow : Bool) :
    Nat → List String → List String → Except PathFault (List String)
  | 0 => walkWith root follow fun _ _ => .error .tooManyLinks
  | links + 1 => walkWith root follow (walk root follow links)

/-- The names under which a path is found, from the root down and free of links. -/
def locate (t : FileTree) (follow : Bool) (p : FilePath) : Except PathFault (List String) :=
  if maxPathBytes < p.text.utf8ByteSize then .error .nameTooLong
  else walk t.root follow linkBudget (if p.isAbsolute then [] else t.current) p.parts

/-- The node a path leads to, links followed. -/
def node (t : FileTree) (p : FilePath) : Except PathFault Node :=
  match t.locate true p with
  | .error fault => .error fault
  | .ok names =>
    match t.root.at? names with
    | some node => .ok node
    | none => .error .missing

def isFile (t : FileTree) (p : FilePath) : Bool :=
  match t.node p with
  | .ok (.file _) => true
  | _ => false

def readFile (t : FileTree) (p : FilePath) : Except PathError FileContent :=
  match t.node p with
  | .ok (.file content) => .ok content
  | .ok _ => .error ⟨.isDirectory, p.text⟩
  | .error fault => .error ⟨fault, p.text⟩

def list (t : FileTree) (p : FilePath) : Except PathError (List String) :=
  match t.node p with
  | .ok (.dir entries) => .ok ((entries.map (·.1)).mergeSort Text.atMost)
  | .ok _ => .error ⟨.notDirectory, p.text⟩
  | .error fault => .error ⟨fault, p.text⟩

end FileTree

end PackIndex
