import PackIndex.Version.Selector

/-!
# Selecting by version

Picks one of several versioned things. Asking for an exact version that is not there gives the
newest thing, or nothing if the request is strict.
-/

namespace PackIndex.Selection

variable {α : Type}

/-- The first of the things with the greatest version: a later one replaces it only if its version
is greater. -/
def newest? (version : α → Version) : List α → Option α
  | [] => none
  | x :: rest =>
    some (rest.foldl (fun best y => if (version best).lt (version y) then y else best) x)

def oldest? (version : α → Version) : List α → Option α
  | [] => none
  | x :: rest =>
    some (rest.foldl (fun best y => if (version y).lt (version best) then y else best) x)

def find? (version : α → Version) (v : Version) (things : List α) : Option α :=
  things.find? fun x => (version x).same v

def pick? (version : α → Version) (strict : Bool) (things : List α) : Selector → Option α
  | .sentinel .newest => newest? version things
  | .sentinel .oldest => oldest? version things
  | .exactly v =>
    match find? version v things with
    | some x => some x
    | none => if strict then none else newest? version things

def select (version : α → Version) (strict : Bool) (things : List α) (selector : Value) :
    Except SelectorError (Option α) :=
  (Selector.ofValue selector).map (pick? version strict things)

/-- Inserts a version into a descending list, before the first version that is not greater. -/
def insertDescending (v : Version) : List Version → List Version
  | [] => [v]
  | w :: rest => if v.lt w then w :: insertDescending v rest else v :: w :: rest

/-- Versions in ascending order; equal ones keep their order. -/
def ascending (versions : List Version) : List Version :=
  (versions.foldl (fun sorted v => insertDescending v sorted) []).reverse

end PackIndex.Selection
