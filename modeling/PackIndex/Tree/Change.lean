import PackIndex.Tree.Basic

/-!
# Changing a file tree

Making directories, writing files, linking and removing. Missing parents are made on the way, and
links on the way are followed.
-/

namespace PackIndex.FileTree

/-- The directory a path leads to, missing directories made on the way; `none` if something else
is in the way. -/
def ensureWith (expand : Node → List String → List String → Option (Node × List String)) :
    Node → List String → List String → Option (Node × List String)
  | root, here, [] => some (root, here)
  | root, here, name :: rest =>
    if name = "." then ensureWith expand root here rest
    else if name = ".." then ensureWith expand root here.dropLast rest
    else
      match root.at? (here ++ [name]) with
      | some (.dir _) => ensureWith expand root (here ++ [name]) rest
      | some (.link target) =>
        let start := if Text.startsWith target "/" then [] else here
        expand root start (rawComponents target ++ rest)
      | some (.file _) => none
      | none =>
        let root := root.alter (fun _ => some (.dir [])) (here ++ [name])
        ensureWith expand root (here ++ [name]) rest

def ensure : Nat → Node → List String → List String → Option (Node × List String)
  | 0 => ensureWith fun _ _ _ => none
  | links + 1 => ensureWith (ensure links)

def ensureDir (t : FileTree) (p : FilePath) : Option (FileTree × List String) :=
  (ensure linkBudget t.root (if p.isAbsolute then [] else t.current) p.parts).map
    fun (root, names) => ({ t with root }, names)

def makeDir (t : FileTree) (p : FilePath) : FileTree :=
  match t.ensureDir p with
  | some (t, _) => t
  | none => t

def setNode (t : FileTree) (names : List String) (node : Node) : FileTree :=
  { t with root := t.root.alter (fun _ => some node) names }

def writeFile (t : FileTree) (p : FilePath) (content : FileContent) : FileTree :=
  match t.ensureDir p.parent with
  | none => t
  | some (t, dir) =>
    let place := dir ++ [p.name]
    match t.locate true (FilePath.ofParts place) with
    | .ok names => t.setNode names (.file content)
    | .error _ =>
      match t.root.at? place with
      | some (.link target) =>
        let goal := (FilePath.ofParts dir).join (FilePath.ofString target)
        match t.locate true goal.parent with
        | .ok dir => t.setNode (dir ++ [goal.name]) (.file content)
        | .error _ => t
      | some _ => t
      | none => t.setNode place (.file content)

def makeLink (t : FileTree) (p : FilePath) (target : String) : FileTree :=
  match t.ensureDir p.parent with
  | none => t
  | some (t, dir) =>
    match t.root.at? (dir ++ [p.name]) with
    | some _ => t
    | none => t.setNode (dir ++ [p.name]) (.link target)

def remove (t : FileTree) (p : FilePath) : FileTree :=
  match t.locate false p with
  | .ok names => { t with root := t.root.alter (fun _ => none) names }
  | .error _ => t

end PackIndex.FileTree
