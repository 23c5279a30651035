import GossipNode.Identity
/-!
# Supervised tasks

The tasks that run, with their names and when they were started.  Once shut down, a supervisor ends all
of them and takes no more.  `TimedTasks` are tasks that end by themselves after a time.
-/
namespace GossipNode

/-- A running task as reported: its name and how long it has run. -/
structure TaskInfo where
  name : String
  runningFor : Nat
deriving DecidableEq, Repr

namespace TaskInfo

/-- Longest running first, equal ages by name. -/
def precedes (a b : TaskInfo) : Bool :=
  b.runningFor < a.runningFor || (a.runningFor == b.runningFor && !(b.name < a.name))

def sort (ts : List TaskInfo) : List TaskInfo := ts.mergeSort precedes

end TaskInfo

/-- A task that ends by itself at a time, or never. -/
structure TimedTask where
  name : String
  started : Nat
  ends : Option Nat
deriving DecidableEq, Repr

/-- Supervised tasks and the time. -/
structure TimedTasks where
  now : Nat
  live : List TimedTask
  down : Bool
deriving DecidableEq, Repr

namespace TimedTasks

def new : TimedTasks := ⟨0, [], false⟩

/-- End the tasks whose time has come. -/
def settle (s : TimedTasks) : TimedTasks :=
  { s with live := s.live.filter (fun t => t.ends.all (s.now < ·)) }

/-- Start a task that ends after `lasting`; refused once shut down. -/
def spawn (s : TimedTasks) (name : String) (lasting : Option Nat) : Bool × TimedTasks :=
  if s.down then (false, s)
  else (true, settle { s with live := s.live ++ [⟨name, s.now, lasting.map (s.now + ·)⟩] })

def sleep (s : TimedTasks) (time : Nat) : TimedTasks := settle { s with now := s.now + time }

def shutdown (s : TimedTasks) : TimedTasks := { s with live := [], down := true }

def outstanding (s : TimedTasks) : List TaskInfo :=
  TaskInfo.sort (s.live.map (fun t => ⟨t.name, s.now - t.started⟩))

end TimedTasks

end GossipNode
