import PackIndex.Resource.Handle
import PackIndex.Traced

/-!
# Shared namespaces

An ordered list of archives searched as one. An archive that cannot be opened is reported and
passed over.
-/

namespace PackIndex

structure SharedNamespace where
  locations : List Location

namespace SharedNamespace

def resolvePaths (t : FileTree) : List FilePath → Except ResolveError (List Location)
  | [] => .ok []
  | p :: rest =>
    match Location.ofPath t p with
    | .error e => .error e
    | .ok l => (resolvePaths t rest).map (l :: ·)

def ofPaths (t : FileTree) (paths : List FilePath) : Except ResolveError SharedNamespace :=
  (resolvePaths t paths).map SharedNamespace.mk

variable {ε : Type}

def findIn (t : FileTree) (member : String) : List Location → Traced ε (List ResourceHandle)
  | [] => pure []
  | l :: rest => do
    match l.has t member with
    | .error e =>
      Traced.emit (.namespaceArchiveUnread l.name e.message)
      findIn t member rest
    | .ok false => findIn t member rest
    | .ok true => do
      let others ← findIn t member rest
      return ResourceHandle.ofMember l member :: others

def findResources (t : FileTree) (ns : SharedNamespace) (path : String) :
    Traced ε (List ResourceHandle) :=
  match MemberPath.normalize? path with
  | none => pure []
  | some member => findIn t member ns.locations

end SharedNamespace

end PackIndex
