import PackIndex.Log.Format

/-!
# Log output

Setting logging up replaces whatever handled records before: from then on, records of at least
the given level are written in the given style to a new stream. A level that is refused changes
nothing.
-/

namespace PackIndex

inductive LevelError where
  | unknown (name : String)
  | notLevel (given : Value)

def LevelError.message : LevelError → String
  | .unknown name => "Unknown level: " ++ Text.quoted name
  | .notLevel given => "Level not an integer or a valid string: " ++ given.quotedText

namespace LogLevel

def ofValue (v : Value) : Except LevelError Int :=
  match v with
  | .int n => .ok n
  | .bool b => .ok (if b then 1 else 0)
  | .str s =>
    match ofName? s with
    | some level => .ok level
    | none => .error (.unknown s)
  | v => .error (.notLevel v)

end LogLevel

structure LogOutput where
  level : Int
  target : Option (LogStyle × Nat)
  streams : List String

namespace LogOutput

def initial : LogOutput := ⟨LogLevel.warning, none, []⟩

def setUp (o : LogOutput) (level : Value) (style : LogStyle) : Except LevelError Unit × LogOutput :=
  let o := { o with streams := o.streams ++ [""] }
  match LogLevel.ofValue level with
  | .error e => (.error e, o)
  | .ok level => (.ok (), { o with level, target := some (style, o.streams.length - 1) })

/-- Writes a record that is of the level; one that cannot be formatted is dropped. -/
def write (o : LogOutput) (home : String) (r : LogRecord) : LogOutput :=
  match o.target with
  | none => o
  | some (style, stream) =>
    if r.isAtLeast o.level then
      match r.format style home with
      | .ok line => { o with streams := o.streams.modify stream (· ++ line ++ "\n") }
      | .error _ => o
    else o

end LogOutput

end PackIndex
