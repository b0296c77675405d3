import PackIndex.Text.Pieces

/-!
# Options of the listing command

Long options may be cut short and may carry their argument behind an equals sign; short ones may
be run together. Words that belong to no option, and everything behind a bare `--`, are refused.
-/

namespace PackIndex

structure ListingOptions where
  searchPaths : List String
  config : Option String
  allowNoSymbols : Bool
  json : Bool
  verbose : Bool
  deriving DecidableEq, Repr

def ListingOptions.plain : ListingOptions := ⟨[], none, false, false, false⟩

inductive OptionName where
  | help
  | searchPath
  | config
  | allowNoSymbols
  | json
  | verbose
  deriving DecidableEq, Repr

namespace OptionName

def spellings : List (String × OptionName) :=
  [("-h", help), ("--help", help), ("--search-path", searchPath), ("--config", config),
    ("--allow-no-symbols", allowNoSymbols), ("--json", json), ("--verbose", verbose),
    ("-v", verbose)]

def takesArgument : OptionName → Bool
  | searchPath | config => true
  | _ => false

end OptionName

inductive OptionWord where
  | plain (text : String)
  /-- The mark behind which nothing is an option. -/
  | separator
  /-- An option with what was attached to it: whether by an equals sign, and the text. `short`
  tells that it was written with one dash. -/
  | option (name : OptionName) (short : Bool) (attached : Option (Bool × String))
  | unknown
  | ambiguous

namespace OptionWord

def isNegativeNumber (s : String) : Bool :=
  match s.toList with
  | '-' :: cs =>
    let places := (cs.dropWhile Char.isDigit).drop 1
    (cs ≠ [] && cs.all Char.isDigit) ||
      ((cs.dropWhile Char.isDigit).head? = some '.' && places ≠ [] && places.all Char.isDigit)
  | _ => false

/-- A word that starts with a dash but spells no option. -/
def ofOther (s : String) : OptionWord :=
  if isNegativeNumber s ∨ Text.contains s " " then plain s else unknown

def cutEquals (s : String) : String × Option String :=
  match Text.cut? '=' s.toList with
  | some (before, after) => (String.ofList before, some (String.ofList after))
  | none => (s, none)

/-- A word that starts with two dashes: the start of an option. -/
def ofLong (s : String) : OptionWord :=
  let (start, attached) := cutEquals s
  match OptionName.spellings.filter fun (spelling, _) => Text.startsWith spelling start with
  | [(_, name)] => option name false (attached.map fun text => (true, text))
  | [] => ofOther s
  | _ => ambiguous

def ofShort (s : String) : OptionWord :=
  match OptionName.spellings.lookup (String.ofList (s.toList.take 2)) with
  | some name => option name true (some (false, String.ofList (s.toList.drop 2)))
  | none => ofOther s

def ofString (s : String) : OptionWord :=
  if s = "--" then separator
  else if Text.startsWith s "-" = false ∨ s = "-" then plain s
  else
    let isShort (spelling : String) : Bool := !Text.startsWith spelling "--"
    match OptionName.spellings.lookup s with
    | some name => option name (isShort s) none
    | none =>
      match cutEquals s with
      | (spelling, some text) =>
        match OptionName.spellings.lookup spelling with
        | some name => option name (isShort spelling) (some (true, text))
        | none => if isShort s then ofShort s else ofLong s
      | (_, none) => if isShort s then ofShort s else ofLong s

def ofStrings : List String → List OptionWord
  | [] => []
  | s :: rest =>
    match ofString s with
    | separator => separator :: rest.map plain
    | word => word :: ofStrings rest

end OptionWord

inductive OptionsOutcome where
  | run (options : ListingOptions)
  | help
  | refused

namespace ListingOptions

/-- Takes an option that has no argument; `none` asks for help. -/
def flag (o : ListingOptions) : OptionName → Option ListingOptions
  | .help => none
  | .allowNoSymbols => some { o with allowNoSymbols := true }
  | .json => some { o with json := true }
  | .verbose => some { o with verbose := true }
  | _ => some o

def argument (o : ListingOptions) (name : OptionName) (text : String) : ListingOptions :=
  match name with
  | .searchPath => { o with searchPaths := o.searchPaths ++ [text] }
  | .config => { o with config := some text }
  | _ => o

/-- The short options that are run together behind a first one: those known, and whether all
were; `none` if the rest cannot be read. -/
def shortRun : List Char → Option (List OptionName × Bool)
  | [] => some ([], true)
  | c :: rest =>
    if c = '-' then none
    else
      match OptionName.spellings.lookup (String.ofList ['-', c]) with
      | none => some ([], false)
      | some name =>
        if rest.head? = some '=' then none
        else (shortRun rest).map fun (names, known) => (name :: names, known)

def flags : ListingOptions → List OptionName → Option ListingOptions
  | o, [] => some o
  | o, name :: rest => (o.flag name).bind fun o => flags o rest

/-- Takes the words in order; `clean` tells that none was left over. -/
def takeWords : ListingOptions → Bool → List OptionWord → OptionsOutcome
  | o, clean, [] => if clean then .run o else .refused
  | _, _, .ambiguous :: _ => .refused
  | o, _, .plain _ :: rest => takeWords o false rest
  | o, _, .separator :: rest => takeWords o false rest
  | o, _, .unknown :: rest => takeWords o false rest
  | o, clean, .option name _ none :: rest =>
    if name.takesArgument then
      match rest with
      | .plain text :: rest => takeWords (o.argument name text) clean rest
      | _ => .refused
    else
      match o.flag name with
      | some o => takeWords o clean rest
      | none => .help
  | o, clean, .option name short (some (equals, text)) :: rest =>
    if name.takesArgument then takeWords (o.argument name text) clean rest
    else if short = false ∨ text = "" ∨ equals then .refused
    else
      match shortRun text.toList with
      | none => .refused
      | some (names, known) =>
        match o.flags (name :: names) with
        | some o => takeWords o (clean && known) rest
        | none => .help

def isAmbiguous : OptionWord → Bool
  | .ambiguous => true
  | _ => false

def ofStrings (words : List String) : OptionsOutcome :=
  let words := OptionWord.ofStrings words
  if words.any isAmbiguous then .refused else takeWords plain true words

end ListingOptions

end PackIndex
