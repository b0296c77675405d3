import PackIndex.Path.Basic

/-!
# Shortening the home directory

In logged texts every occurrence of the home directory is written `~`, whether or not a path
starts or ends there. Without a home directory, or with the root as home, texts stay as they are.
-/

namespace PackIndex.Home

/-- The text of the home directory that `HOME` gives. -/
def directory? (home : String) : Option String :=
  ((FilePath.ofString "~").expandHome? home).map FilePath.text

def marker? (home : String) : Option String :=
  (directory? home).filter (· ≠ "/")

/-- Writes `~` for every occurrence of the home directory. -/
def shorten (home text : String) : String :=
  match marker? home with
  | some dir => Text.replace dir "~" text
  | none => text

end PackIndex.Home
