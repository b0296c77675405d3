import PackIndex.Package.Content
import PackIndex.Url.Basic
import PackIndex.Url.Data

/-!
# Resource handles

A resource that was found: its URL and, if it is a member of an archive, where. Reading opens the
archive again, or follows the URL; only `file:` and `data:` URLs can be followed.
-/

namespace PackIndex

structure ResourceHandle where
  url : String
  /-- The archive and the member in it. -/
  member : Option (Location × String)
  deriving DecidableEq

inductive ReadError where
  | archive (e : ArchiveError)
  | url (e : Url.Error)
  | file (e : PathError)
  | nulInPath
  | data (e : Url.DataError)
  | unknownScheme (scheme : String)
  | noScheme (text : String)
  /-- The file of a URL that only reads as a `file:` URL once blanks around it are dropped. -/
  | localFile (e : PathError)
  | foreignHost

def ReadError.message : ReadError → String
  | .archive e => e.message
  | .url e => e.message
  | .file e => e.message
  | .nulInPath => "embedded null byte"
  | .data e => e.message
  | .unknownScheme scheme => "<urlopen error unknown url type: " ++ scheme ++ ">"
  | .noScheme text => "unknown url type: " ++ Text.quoted text
  | .localFile e => "<urlopen error " ++ e.message ++ ">"
  | .foreignHost => "<urlopen error file not on local host>"

namespace Url

/-- A URL without blanks, angle brackets and the word `URL:` around it. -/
def unwrap (url : String) : List Char :=
  let cs := Text.trimChars Text.isBlank url.toList
  let cs :=
    if cs.head? = some '<' ∧ cs.getLast? = some '>' then
      Text.trimChars Text.isBlank (cs.drop 1).dropLast
    else cs
  let start := "URL:".toList
  if start.isPrefixOf cs then Text.trimChars Text.isBlank (cs.drop start.length) else cs

def cutFragment (cs : List Char) : List Char × List Char :=
  match Text.cut? '#' cs.reverse with
  | some (after, before) => (before.reverse, after.reverse)
  | none => (cs, [])

/-- The word before the first colon, if it is not empty and holds no slash, and what follows. -/
def cutType? (cs : List Char) : Option (List Char × List Char) :=
  match Text.cut? ':' cs with
  | some (before, after) => if before = [] ∨ '/' ∈ before then none else some (before, after)
  | none => none

end Url

/-- The bytes of a file; those of an archive are not kept apart from its members. -/
def FileContent.toBytes : FileContent → List UInt8
  | .bytes content => content
  | .archive _ => []

def readFileUrl (t : FileTree) (path : String) : Except ReadError (List UInt8) :=
  let p := FilePath.ofString (Percent.decode path)
  if p.hasNul then .error .nulInPath
  else (t.readFile p).mapError .file |>.map FileContent.toBytes

/-- Reads the local file behind the word `file:`, the host if there is one being this one. -/
def readLocalFile (t : FileTree) (rest : List Char) : Except ReadError (List UInt8) :=
  let (host, path) := Url.cutHost rest
  let path := Percent.decode (String.ofList
    (if host ≠ [] ∧ path ≠ [] ∧ path.head? ≠ some '/' then '/' :: path else path))
  let p := FilePath.ofString path
  if p.hasNul then .error .nulInPath
  else if path = "" then .error (.localFile ⟨.missing, path⟩)
  else
    match t.node p with
    | .error fault => .error (.localFile ⟨fault, path⟩)
    | .ok node =>
      if host ≠ [] ∧ host ≠ "localhost".toList then .error .foreignHost
      else
        match node with
        | .file content => .ok content.toBytes
        | _ => .error (.localFile ⟨.isDirectory, path⟩)

/-- Reads what a URL that does not split as a `file:` URL leads to; an empty fragment is
dropped. -/
def readOtherUrl (t : FileTree) (url : String) : Except ReadError (List UInt8) :=
  let (base, fragment) := Url.cutFragment (Url.unwrap url)
  let plain := if fragment = [] then base else base ++ '#' :: fragment
  match Url.cutType? base with
  | none => .error (.noScheme (String.ofList plain))
  | some (word, rest) =>
    let scheme := Text.lower (String.ofList word)
    if scheme = "file" then readLocalFile t rest
    else if scheme = "data" then (Url.dataBytes (plain.drop (word.length + 1))).mapError .data
    else .error (.unknownScheme scheme)

def readUrl (t : FileTree) (url : String) : Except ReadError (List UInt8) :=
  match Url.split url with
  | .error e => .error (.url e)
  | .ok parts => if parts.scheme = "file" then readFileUrl t parts.path else readOtherUrl t url

namespace ResourceHandle

def ofUrl (url : String) : ResourceHandle := ⟨url, none⟩

def ofMember (l : Location) (member : String) : ResourceHandle :=
  ⟨l.memberUrl member, some (l, member)⟩

def location? (h : ResourceHandle) : Option Location := h.member.map (·.1)

def read (t : FileTree) (h : ResourceHandle) : Except ReadError (List UInt8) :=
  match h.member with
  | some (l, member) => (l.read t member).mapError .archive
  | none => readUrl t h.url

end ResourceHandle

end PackIndex
