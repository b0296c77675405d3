import PackIndex.Text.Lower
import PackIndex.Value.Text

/-!
# Version selectors

A selector asks for the newest item, the oldest one, or an item of exactly one version, which is a
positive number. `Selector.ofValue` accepts the words of the sentinels in any case, positive
numbers, and the numbers `-1000` and `-2000` that stand for the sentinels in older saved games.
-/

namespace PackIndex

abbrev Version := Binary64

inductive Selector where
  | sentinel (s : Sentinel)
  | exactly (v : Version)
  deriving DecidableEq

abbrev Selector.newest : Selector := .sentinel .newest
abbrev Selector.oldest : Selector := .sentinel .oldest

inductive SelectorError where
  | invalid (given : Value)
  | tooLarge

def SelectorError.message : SelectorError → String
  | .invalid given => "invalid version or version constant: " ++ given.quotedText
  | .tooLarge => "int too large to convert to float"

namespace Selector

def newestNumber : Binary64 := .ofInt (-1000)
def oldestNumber : Binary64 := .ofInt (-2000)

def sentinelOfWord? (s : String) : Option Sentinel :=
  if s = "newest" then some .newest else if s = "oldest" then some .oldest else none

/-- The selector of a number; `given` is the value it was read from. -/
def ofNumber (given : Value) (x : Binary64) : Except SelectorError Selector :=
  if x.same newestNumber then .ok newest
  else if x.same oldestNumber then .ok oldest
  else if x.isPositive then .ok (.exactly x)
  else .error (.invalid given)

/-- The selector of a whole number, by the double it is rounded to if that is finite. -/
def ofWhole (n : Int) : Option Binary64 → Except SelectorError Selector
  | some x => ofNumber (.int n) x
  | none => .error .tooLarge

/-- Checks a value that is to select a version. -/
def ofValue : Value → Except SelectorError Selector
  | .sentinel s => .ok (.sentinel s)
  | .str s =>
    match sentinelOfWord? (Text.lower s) with
    | some s => .ok (.sentinel s)
    | none => .error (.invalid (.str s))
  | .int n => ofWhole n (Binary64.ofInt? n)
  | .float x => ofNumber (.float x) x
  | given => .error (.invalid given)

def toValue : Selector → Value
  | sentinel s => .sentinel s
  | exactly v => .float v

end Selector

end PackIndex
