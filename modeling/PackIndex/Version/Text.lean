import PackIndex.Number.Text
import PackIndex.Text.Blank
import PackIndex.Version.Selector

/-!
# Version texts

A version is written with six places, of which final zeros are dropped except for one right after
the point.
-/

namespace PackIndex.Version

/-- Drops final zeros, and puts one back after a final point. -/
def trimPlaces (cs : List Char) : List Char :=
  let kept := Text.dropEndWhile (· == '0') cs
  if kept.getLast? = some '.' then kept ++ ['0'] else kept

def text (v : Version) : String := String.ofList (trimPlaces (v.fixedText 6).toList)

end PackIndex.Version
