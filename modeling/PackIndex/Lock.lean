/-!
# A readers/writer lock

Many readers may be inside at once, a writer only alone; waiting writers keep new readers out.
A thread that has to wait falls asleep. Whoever leaves last wakes all sleepers, and a woken thread
looks again whether it may enter. Every step below is done under the lock's mutex, so any
interleaving of threads is a sequence of such steps.
-/

namespace PackIndex

inductive Access where
  | read
  | write
  deriving DecidableEq, Repr

namespace Access

def word : Access → String
  | read => "read"
  | write => "write"

end Access

structure LockCounters where
  readers : Nat
  writer : Bool
  writersWaiting : Nat
  deriving DecidableEq, Repr

namespace LockCounters

def free : LockCounters := ⟨0, false, 0⟩

def blocks (c : LockCounters) : Access → Bool
  | .read => c.writer || decide (0 < c.writersWaiting)
  | .write => c.writer || decide (0 < c.readers)

/-- A writer joins those who wait; readers are not counted. -/
def queue (c : LockCounters) : Access → LockCounters
  | .read => c
  | .write => { c with writersWaiting := c.writersWaiting + 1 }

/-- A thread that need not wait goes in; a writer no longer counts as waiting. -/
def enter (c : LockCounters) : Access → LockCounters
  | .read => { c with readers := c.readers + 1 }
  | .write => { c with writersWaiting := c.writersWaiting - 1, writer := true }

def leave (c : LockCounters) : Access → LockCounters
  | .read => { c with readers := c.readers - 1 }
  | .write => { c with writer := false }

def wakes (c : LockCounters) : Access → Bool
  | .read => c.readers == 0
  | .write => true

end LockCounters

inductive Stage where
  | asleep (access : Access) (notified : Bool)
  | inside (access : Access)
  deriving DecidableEq, Repr

namespace Stage

def notify : Stage → Stage
  | asleep access _ => asleep access true
  | inside access => inside access

def held? : Stage → Option Access
  | inside access => some access
  | asleep _ _ => none

def isWaiting (s : Stage) : Bool := s.held?.isNone

end Stage

structure LockState where
  counters : LockCounters
  threads : List (String × Stage)
  deriving DecidableEq, Repr

inductive LockStep where
  | arrive (thread : String) (access : Access)
  | recheck (thread : String)
  | leave (thread : String)
  deriving DecidableEq, Repr

namespace LockState

def initial : LockState := ⟨.free, []⟩

def stage? (s : LockState) (thread : String) : Option Stage := s.threads.lookup thread

def setStage (thread : String) (stage : Stage) (threads : List (String × Stage)) :
    List (String × Stage) :=
  threads.map fun (name, old) => if name = thread then (name, stage) else (name, old)

def dropThread (thread : String) (threads : List (String × Stage)) : List (String × Stage) :=
  threads.filter fun (name, _) => name ≠ thread

def notifyAll (threads : List (String × Stage)) : List (String × Stage) :=
  threads.map fun (name, stage) => (name, stage.notify)

/-- Counters and stage of a thread after it looked whether it may enter. -/
def tryEnter (c : LockCounters) (access : Access) : LockCounters × Stage :=
  if c.blocks access then (c, .asleep access false) else (c.enter access, .inside access)

def step? (s : LockState) : LockStep → Option LockState
  | .arrive thread access =>
    match s.stage? thread with
    | some _ => none
    | none =>
      let (counters, stage) := tryEnter (s.counters.queue access) access
      some ⟨counters, s.threads ++ [(thread, stage)]⟩
  | .recheck thread =>
    match s.stage? thread with
    | some (.asleep access true) =>
      let (counters, stage) := tryEnter s.counters access
      some ⟨counters, setStage thread stage s.threads⟩
    | _ => none
  | .leave thread =>
    match s.stage? thread with
    | some (.inside access) =>
      let counters := s.counters.leave access
      let others := dropThread thread s.threads
      some ⟨counters, if counters.wakes access then notifyAll others else others⟩
    | _ => none

/-- The state after a step, unchanged if the step is impossible. -/
def advance (s : LockState) (step : LockStep) : LockState := (s.step? step).getD s

/-- Lets every woken thread look again, in the order in which they came. -/
def settle (s : LockState) : LockState :=
  s.threads.foldl (fun s (thread, _) => s.advance (.recheck thread)) s

def run (s : LockState) (step : LockStep) : LockState := (s.advance step).settle

def holding (s : LockState) : List (String × Access) :=
  s.threads.filterMap fun (name, stage) => stage.held?.map fun access => (name, access)

def waiting (s : LockState) : List String :=
  (s.threads.filter fun (_, stage) => stage.isWaiting).map (·.1)

end LockState

end PackIndex
