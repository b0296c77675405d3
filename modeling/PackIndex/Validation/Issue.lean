import PackIndex.Number.Text
import PackIndex.Value

/-!
# Validation issues

What is wrong with a value, and where: the place is a list of field names and list positions from
the outside in. Checks collect all issues of a value, so `Checked.apply` keeps those of both sides.
-/

namespace PackIndex

inductive Place where
  | field (name : String)
  | index (n : Nat)
  deriving DecidableEq

inductive IssueKind where
  | missing
  | notModel (model : String)
  | notString
  | emptyString
  | notNumber
  | unreadableNumber
  | notPositive
  | notBool
  | unreadableBool
  | notTuple
  | notSet
  | unknownField
  | badKey
  | rejected (reason : String)
  deriving DecidableEq

namespace IssueKind

def code : IssueKind → String
  | missing => "missing"
  | notModel _ => "model_type"
  | notString => "string_type"
  | emptyString => "string_too_short"
  | notNumber => "float_type"
  | unreadableNumber => "float_parsing"
  | notPositive => "greater_than"
  | notBool => "bool_type"
  | unreadableBool => "bool_parsing"
  | notTuple => "tuple_type"
  | notSet => "frozen_set_type"
  | unknownField => "extra_forbidden"
  | badKey => "invalid_key"
  | rejected _ => "value_error"

def message : IssueKind → String
  | missing => "Field required"
  | notModel model => "Input should be a valid dictionary or instance of " ++ model
  | notString => "Input should be a valid string"
  | emptyString => "String should have at least 1 character"
  | notNumber => "Input should be a valid number"
  | unreadableNumber => "Input should be a valid number, unable to parse string as a number"
  | notPositive => "Input should be greater than 0"
  | notBool => "Input should be a valid boolean"
  | unreadableBool => "Input should be a valid boolean, unable to interpret input"
  | notTuple => "Input should be a valid tuple"
  | notSet => "Input should be a valid frozenset"
  | unknownField => "Extra inputs are not permitted"
  | badKey => "Keys should be strings"
  | rejected reason => "Value error, " ++ reason

end IssueKind

structure Issue where
  place : List Place
  kind : IssueKind
  deriving DecidableEq

namespace Issue

def here (kind : IssueKind) : Issue := ⟨[], kind⟩

/-- The issue seen from one level further out. -/
def within (p : Place) (i : Issue) : Issue := ⟨p :: i.place, i.kind⟩

def placeText : Place → String
  | .field name => name
  | .index n => Number.natText n

def text (i : Issue) : String :=
  let place := ".".intercalate (i.place.map placeText)
  (if place = "" then "<root>" else place) ++ ": " ++ i.kind.message

end Issue

abbrev Checked (α : Type) := Except (List Issue) α

namespace Checked

variable {α β : Type}

def fail (kind : IssueKind) : Checked α := .error [.here kind]

/-- Applies a checked function to a checked value, with the issues of both. -/
def apply (f : Checked (α → β)) (x : Checked α) : Checked β :=
  match f, x with
  | .ok f, .ok a => .ok (f a)
  | .ok _, .error e => .error e
  | .error e, .ok _ => .error e
  | .error e, .error e' => .error (e ++ e')

def within (p : Place) (x : Checked α) : Checked α := x.mapError (List.map (Issue.within p))

/-- Checks the items of a list, from position `n` on. -/
def items (check : Value → Checked α) : Nat → List Value → Checked (List α)
  | _, [] => .ok []
  | n, v :: rest =>
    apply (apply (.ok List.cons) (within (.index n) (check v))) (items check (n + 1) rest)

def required (fields : Fields) (name : String) (check : Value → Checked α) : Checked α :=
  within (.field name) (match fields.get? name with | some v => check v | none => fail .missing)

def optional (fields : Fields) (name : String) (default : α) (check : Value → Checked α) :
    Checked α :=
  match fields.get? name with
  | some v => within (.field name) (check v)
  | none => .ok default

end Checked

end PackIndex
