import PackIndex.Json.Writer
import PackIndex.Log.Record
import PackIndex.Log.Summary
import PackIndex.Log.Template
import PackIndex.Log.Timestamp

/-!
# Formatting log records

A record becomes one JSON object, whose base fields an extra field of the same name replaces in
place, or a line to read.
-/

namespace PackIndex

inductive LogStyle where
  | json
  | simple
  deriving DecidableEq, Repr

inductive LogError where
  | template (e : TemplateError)
  | timestamp (e : TimestampError)
  | unwritable (fault : Json.Fault)
  | badLevelName (given : Value)
  | badLevelNumber (typeName : String)

namespace LogError

/-- Whether a value is a number, truth values included. -/
def isNumeric : Value → Bool
  | .int _ | .float _ | .bool _ => true
  | _ => false

def message : LogError → String
  | template e => e.message
  | timestamp e => e.message
  | unwritable fault => fault.message
  | badLevelName given =>
    if isNumeric given then given.unknownLayout "s" else given.noLayout
  | badLevelNumber typeName =>
    "'>=' not supported between instances of " ++ Text.quoted typeName ++ " and 'int'"

end LogError

namespace LogRecord

def messageText (r : LogRecord) : Except LogError String :=
  let template := r.message.plainText
  if r.args.isTruthy then
    (Template.render template r.args).mapError .template
  else .ok template

/-- Whether a record tells where it was made. -/
def isGrave (r : LogRecord) : Except LogError Bool :=
  if LogError.isNumeric r.levelNumber then .ok (r.isAtLeast LogLevel.warning)
  else .error (.badLevelNumber r.levelNumber.typeName)

def jsonFields (home : String) (r : LogRecord) : Except LogError Fields := do
  let time ← (Timestamp.ofValue r.created).mapError .timestamp
  let message ← r.messageText
  let base : Fields :=
    [("ts", .str time), ("level", r.levelName), ("logger", r.logger),
      ("msg", .str (Home.shorten home message))]
  let grave ← r.isGrave
  let place : Fields := if grave then [("file", r.file), ("line", r.line)] else []
  let exception : Fields :=
    match r.exception with
    | some e => [("exc", .str (Home.shorten home e.line))]
    | none => []
  return (base ++ place ++ exception).update (LogFields.filter home r.extra)

def jsonLine (home : String) (r : LogRecord) : Except LogError String := do
  let fields ← r.jsonFields home
  match Json.fault? Json.maxNesting (.dict fields) with
  | some fault => .error (.unwritable fault)
  | none => return Json.compact (.dict fields)

def levelColumn (r : LogRecord) : Except LogError String :=
  match r.levelName with
  | .str _ | .sentinel _ =>
    let name := r.levelName.plainText
    .ok (name ++ String.ofList (List.replicate (8 - name.length) ' '))
  | v => .error (.badLevelName v)

def simpleLine (home : String) (r : LogRecord) : Except LogError String := do
  let level ← r.levelColumn
  let message ← r.messageText
  let base := level ++ " " ++ r.logger.plainText ++ ": " ++ Home.shorten home message
  let fields := (LogFields.filter home r.extra).map fun (key, v) => key ++ "=" ++ v.plainText
  let base := if fields = [] then base else base ++ " | " ++ " ".intercalate fields
  return match r.exception with
    | some e => base ++ "\n" ++ Home.shorten home e.line
    | none => base

def format (style : LogStyle) (home : String) (r : LogRecord) : Except LogError String :=
  match style with
  | .json => r.jsonLine home
  | .simple => r.simpleLine home

end LogRecord

end PackIndex
