import PackIndex.Json.Reader
import PackIndex.Tree.Basic

/-!
# Snapshots

A snapshot describes a file tree as a JSON document. A text is a file with this content. An object
with one member is a directory, whose entries stand by name in `directory`; a link to the target in
`link`; or an archive, whose members stand in `archive` as a list of names with contents. The
document has the root's entries in `root` and the path of the current directory in `current`.
-/

namespace PackIndex.Snapshot

def member? : Value → Option Member
  | .list [.str name, .str text] => some ⟨name, Utf8.encode text, none⟩
  | _ => none

mutual

def node? : Value → Option Node
  | .str text => some (.file (.bytes (Utf8.encode text)))
  | .dict [(kind, .dict entries)] =>
    if kind = "directory" then (entries? entries).map .dir else none
  | .dict [(kind, .str target)] => if kind = "link" then some (.link target) else none
  | .dict [(kind, .list members)] =>
    if kind = "archive" then
      (members.mapM member?).map fun members => .file (.archive ⟨members⟩)
    else none
  | _ => none

def entries? : List (String × Value) → Option (List (String × Node))
  | [] => some []
  | (name, v) :: rest =>
    match node? v, entries? rest with
    | some node, some entries => some ((name, node) :: entries)
    | _, _ => none

end

def ofValue? (v : Value) : Option FileTree :=
  match v with
  | .dict fields =>
    match Fields.get? "root" fields, Fields.get? "current" fields with
    | some (.dict entries), some (.str current) =>
      (entries? entries).map fun entries =>
        ⟨.dir entries, (FilePath.ofString current).parts⟩
    | _, _ => none
  | _ => none

def read? (s : String) : Option FileTree := (Json.read? .generous s).bind ofValue?

end PackIndex.Snapshot
