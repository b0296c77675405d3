import PackIndex.Listing.Command
import PackIndex.Tree.Snapshot
import PackIndex.Yaml.Reader

/-!
# The listing program

Runs the listing command on the file tree whose snapshot stands on the first line of standard
input. What stops the command without an answer is told on standard error.
-/

namespace PackIndex

def runListing (args : List String) : IO UInt32 := do
  let line ← (← IO.getStdin).getLine
  let home := (← IO.getEnv "HOME").getD "/"
  match Snapshot.read? line with
  | none =>
    IO.eprintln "packs: no snapshot of a file tree on standard input"
    return 2
  | some t =>
    match Listing.run Yaml.read? home t args with
    | .ok r =>
      IO.print r.output
      return r.status.toUInt32
    | .error e =>
      IO.eprintln ("packs: " ++ e.message)
      return 1

end PackIndex

def main (args : List String) : IO UInt32 := PackIndex.runListing args
