import PackIndex.Text.Pieces
import PackIndex.Value.Text

/-!
# Log records

A record has standard attributes and extra fields. An extra field with the name of a standard
attribute replaces that attribute and is no extra field.
-/

namespace PackIndex

structure ExceptionNote where
  kind : String
  text : String
  deriving DecidableEq, Repr

namespace ExceptionNote

/-- The module that the catalog's own exception classes are named after. -/
def errorModule : String := "packcatalog.errors"

def ownKinds : List String :=
  ["CatalogError", "CatalogInitError", "CatalogNotInitializedError", "NoSearchPathsError",
    "NoPacksFoundError", "ManifestParseError", "RegistryError", "DuplicateVersionError",
    "AliasConflictError"]

def line (e : ExceptionNote) : String :=
  let name := if ownKinds.contains e.kind then errorModule ++ "." ++ e.kind else e.kind
  let text := if e.kind = "KeyError" then Text.quoted e.text else e.text
  if text = "" then name else name ++ ": " ++ text

end ExceptionNote

namespace LogLevel

def debug : Int := 10
def info : Int := 20
def warning : Int := 30
def error : Int := 40
def critical : Int := 50

def name (level : Int) : String :=
  if level = critical then "CRITICAL"
  else if level = error then "ERROR"
  else if level = warning then "WARNING"
  else if level = info then "INFO"
  else if level = debug then "DEBUG"
  else if level = 0 then "NOTSET"
  else "Level " ++ Number.intText level

def ofName? (s : String) : Option Int :=
  [("CRITICAL", critical), ("FATAL", critical), ("ERROR", error), ("WARN", warning),
    ("WARNING", warning), ("INFO", info), ("DEBUG", debug), ("NOTSET", 0)].lookup s

end LogLevel

structure LogRecord where
  logger : Value
  levelNumber : Value
  levelName : Value
  message : Value
  args : Value
  created : Value
  file : Value
  line : Value
  exception : Option ExceptionNote
  extra : Fields

namespace LogRecord

def attributeNames : List String :=
  ["name", "msg", "args", "created", "filename", "funcName", "levelname", "levelno", "lineno",
    "module", "msecs", "pathname", "process", "processName", "relativeCreated", "stack_info",
    "exc_info", "exc_text", "thread", "threadName", "message", "taskName"]

def baseName (path : String) : String := ((Text.split '/' path).getLast?).getD ""

def packArgs : List Value → Value
  | [.dict fields] => if fields.isEmpty then .tuple [.dict fields] else .dict fields
  | args => .tuple args

def set (r : LogRecord) (key : String) (value : Value) : LogRecord :=
  match key with
  | "name" => { r with logger := value }
  | "msg" => { r with message := value }
  | "args" => { r with args := value }
  | "created" => { r with created := value }
  | "filename" => { r with file := value }
  | "levelname" => { r with levelName := value }
  | "levelno" => { r with levelNumber := value }
  | "lineno" => { r with line := value }
  | "exc_info" => if value.isTruthy then r else { r with exception := none }
  | key =>
    if attributeNames.contains key then r else { r with extra := r.extra.set key value }

def withFields (r : LogRecord) (fields : Fields) : LogRecord :=
  fields.foldl (fun r (key, value) => r.set key value) r

def ofParts (logger : String) (level : Int) (message : String) (args : List Value)
    (path : String) (line : Int) (created : Value) (exception : Option ExceptionNote) :
    LogRecord :=
  { logger := .str logger
    levelNumber := .int level
    levelName := .str (LogLevel.name level)
    message := .str message
    args := packArgs args
    created := created
    file := .str (baseName path)
    line := .int line
    exception := exception
    extra := [] }

def isAtLeast (r : LogRecord) (level : Int) : Bool :=
  match r.levelNumber with
  | .int n => level ≤ n
  | .bool b => level ≤ if b then 1 else 0
  | .float x => !x.lt (.ofInt level) && !x.isNaN
  | _ => false

end LogRecord

end PackIndex
