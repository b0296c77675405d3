import PackIndex.Number.Binary64
import PackIndex.Path.Basic

/-!
# Dynamic values

What a selector, a configuration field, a manifest or a log field may hold before it is checked.
Mappings keep the order of their keys.
-/

namespace PackIndex

/-- The two open-ended ways of asking for a version. -/
inductive Sentinel where
  | newest
  | oldest
  deriving DecidableEq, Repr

inductive Value where
  | null
  | bool (b : Bool)
  | int (n : Int)
  | float (x : Binary64)
  | str (s : String)
  | list (items : List Value)
  | tuple (items : List Value)
  | dict (fields : List (String × Value))
  | path (p : FilePath)
  | sentinel (s : Sentinel)
  /-- A value from outside, known by its type name, its text, its quoted text, and whether it can
  be gone through, which gives pairs of names and values. -/
  | foreign (typeName text quotedText : String) (hasMembers : Bool)

abbrev Fields := List (String × Value)

namespace Fields

def get? (key : String) : Fields → Option Value
  | [] => none
  | (k, v) :: rest => if k = key then some v else get? key rest

/-- Sets a key: an old key keeps its place, a new one comes last. -/
def set (key : String) (value : Value) : Fields → Fields
  | [] => [(key, value)]
  | (k, v) :: rest => if k = key then (k, value) :: rest else (k, v) :: set key value rest

def update (fields new : Fields) : Fields :=
  new.foldl (fun acc (k, v) => set k v acc) fields

theorem get?_set_self (key : String) (value : Value) (fields : Fields) :
    get? key (set key value fields) = some value := by
  induction fields with
  | nil => simp [set, get?]
  | cons f rest ih =>
    obtain ⟨k, v⟩ := f
    by_cases h : k = key <;> simp [set, get?, h, ih]

theorem get?_set_of_ne {key other : String} (h : other ≠ key) (value : Value) (fields : Fields) :
    get? other (set key value fields) = get? other fields := by
  induction fields with
  | nil => simp [set, get?, h.symm]
  | cons f rest ih =>
    obtain ⟨k, v⟩ := f
    by_cases hk : k = key
    · subst hk; simp [set, get?, h.symm]
    · simp only [set, if_neg hk, get?, ih]

end Fields

namespace Value

instance : Inhabited Value := ⟨null⟩

def typeName : Value → String
  | null => "NoneType"
  | bool _ => "bool"
  | int _ => "int"
  | float _ => "float"
  | str _ => "str"
  | list _ => "list"
  | tuple _ => "tuple"
  | dict _ => "dict"
  | path _ => "PosixPath"
  | sentinel _ => "Selector"
  | foreign name _ _ _ => name

/-- Whether a value counts as present where an empty one stands for nothing. -/
def isTruthy : Value → Bool
  | null => false
  | bool b => b
  | int n => n != 0
  | float x => !x.same Binary64.zero
  | str s => s != ""
  | list items | tuple items => !items.isEmpty
  | dict fields => !fields.isEmpty
  | _ => true

end Value

end PackIndex
