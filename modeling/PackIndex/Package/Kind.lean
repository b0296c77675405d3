/-!
# Kinds of packs
-/

namespace PackIndex

/-- What a pack provides: game variants, or symbols to draw their maps with. -/
inductive PackKind where
  | variants
  | symbols
  deriving DecidableEq, Repr

namespace PackKind

def word : PackKind → String
  | variants => "variants"
  | symbols => "symbols"

def ofWord? (s : String) : Option PackKind :=
  if s = "variants" then some variants else if s = "symbols" then some symbols else none

theorem ofWord?_word (kind : PackKind) : ofWord? kind.word = some kind := by
  cases kind <;> decide

end PackKind

end PackIndex
