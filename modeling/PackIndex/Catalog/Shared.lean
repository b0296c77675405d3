import PackIndex.Catalog.Steps

/-!
# A catalog shared by threads

Any number of threads call one catalog. A thread that has got the lock works step by step, while
others may come, look again whether they may enter, work, or leave; any order that the lock allows
is possible. Calls over different trees see the packs as they are at different times.
-/

namespace PackIndex

/-- A call that has not ended, with the work that is left. -/
structure Worker where
  tree : FileTree
  call : Call
  work : Work Catalog Ended

structure FinishedCall where
  tree : FileTree
  call : Call
  ended : Ended

structure SharedCatalog where
  catalog : Catalog
  lock : LockState
  workers : String → Option Worker
  finished : List FinishedCall

inductive SharedStep where
  | call (thread : String) (tree : FileTree) (call : Call)
  | recheck (thread : String)
  /-- A thread inside does the next step of its work. -/
  | work (thread : String)
  /-- A thread inside whose work is done gives the lock back. -/
  | leave (thread : String)

namespace SharedCatalog

/-- A catalog that nobody has called yet. -/
def unused (c : Catalog) : SharedCatalog := ⟨c, .initial, fun _ => none, []⟩

def setWorker (s : SharedCatalog) (thread : String) (worker : Option Worker) : SharedCatalog :=
  { s with workers := fun name => if name = thread then worker else s.workers name }

def step? (s : SharedCatalog) : SharedStep → Option SharedCatalog
  | .call thread tree call =>
    match s.workers thread, call.steps tree with
    | some _, _ => none
    | none, .error ended => some { s with finished := s.finished ++ [⟨tree, call, ended⟩] }
    | none, .ok work =>
      (s.lock.step? (.arrive thread call.access)).map fun lock =>
        { s.setWorker thread (some ⟨tree, call, work⟩) with lock }
  | .recheck thread => (s.lock.step? (.recheck thread)).map fun lock => { s with lock }
  | .work thread =>
    match s.lock.stage? thread, s.workers thread with
    | some (.inside _), some ⟨tree, call, .step change next⟩ =>
      some { s.setWorker thread (some ⟨tree, call, next s.catalog⟩) with
        catalog := change s.catalog }
    | _, _ => none
  | .leave thread =>
    match s.workers thread with
    | some ⟨tree, call, .done ended⟩ =>
      (s.lock.step? (.leave thread)).map fun lock =>
        { s.setWorker thread none with lock, finished := s.finished ++ [⟨tree, call, ended⟩] }
    | _ => none

end SharedCatalog

end PackIndex
