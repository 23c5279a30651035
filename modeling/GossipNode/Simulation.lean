import GossipNode.Hub
import GossipNode.Supervisor
import GossipNode.Node.Start
/-!
# Nodes in simulated time

Several nodes run on one clock that moves only when it is told to.  Tasks take turns: those that are
ready stand in a queue, and the first goes on until it has to wait, or has taken as many locks, messages and
ticks as it may in one turn; then its turn is cut short.  Tasks that are started or told what they wait for go
to the end of the queue; when the clock reaches the ends of waits, these tasks do, in the order of the ends
and, of equal ends, in the order in which the waits began.  After so many turns, and whenever the queue is
empty, there is a break; in it tasks whose turns were cut short go to the end of the queue, the one cut last
first, and a caller who waits for room in an inbox gets on.

Of the steps by which an action may be taken, the first is.
-/
namespace GossipNode

/-- How many locks, messages and ticks an action takes. -/
def Node.cost (n : Node) : Action → Nat
  | .handle .. | .passOn .. | .propose .. | .drive .. => 0
  | .accept _ r => (n.isProved r).toNat
  -- The store is looked at for a vector clock, which proposals have only when rounds are strict.
  | .startProposal .. | .confirm .. => n.config.strictRounds.toNat
  | .feed b => b.ballot.isSome.toNat
  | .collect _ _ c => (!c.isComplete).toNat
  | .applyRoute | .publish | .awaitPush _ | .awaitHeartbeat _ => 2
  | _ => 1

structure Task where
  home : Nat
  name : String
  /-- The node knows the task, and ends it when it shuts down. -/
  supervised : Bool
  started : Nat
  script : List Action
  /-- The call whose result the task waits for after its script. -/
  call : Option Nat
  /-- The task waits for what its first action waits for. -/
  waiting : Bool
  /-- The end of the wait, and the number of the wait. -/
  timer : Option (Nat × Nat)
  /-- How many locks, messages and ticks the task has taken in its turn. -/
  spent : Nat

/-- A packet handed to the network, with its datagram. -/
structure Sent where
  time : Nat
  sender : Nat
  receiver : PeerAddress
  packet : Packet
  datagram : Bytes

/-- By time, then by receiver, then by datagram. -/
def Sent.precedes (a b : Sent) : Bool :=
  let order := (compare a.time b.time).then
    ((compare a.receiver b.receiver).then (compare a.datagram b.datagram))
  order != .gt

structure Simulation where
  now : Nat
  nodes : List Node
  tasks : SortedMap Nat Task
  nextTask : Nat
  /-- Tasks that are ready, the next one first. -/
  ready : List Nat
  /-- Tasks whose turns have been cut short since the last break, the last one first. -/
  cut : List Nat
  /-- How many turns have ended since the last break. -/
  turns : Nat
  nextTimer : Nat
  /-- Nodes by address. -/
  hub : Hub Nat
  /-- What has been handed to the network, the latest first. -/
  sent : List Sent

namespace Simulation

def empty : Simulation := ⟨0, [], ∅, 0, [], [], 0, 0, .new, []⟩

def setNode (s : Simulation) (home : Nat) (n : Node) : Simulation :=
  { s with nodes := s.nodes.set home n }

/-- Start a task; it goes to the end of the queue. -/
def spawn (s : Simulation) (home : Nat) (name : String) (script : List Action) (call : Option Nat) : Simulation :=
  { s with
    tasks := s.tasks.insert s.nextTask ⟨home, name, call.isNone, s.now, script, call, false, none, 0⟩
    nextTask := s.nextTask + 1
    ready := s.ready ++ [s.nextTask] }

/-- Tell the tasks of a node that wait and are concerned. -/
def tell (s : Simulation) (home : Nat) (concerned : Task → Bool) : Simulation :=
  let told := s.tasks.filter (fun _ t => t.waiting && t.home == home && concerned t)
  { s with
    tasks := told.entries.foldl (fun ts e => ts.insert e.1 { e.2 with waiting := false }) s.tasks
    ready := s.ready ++ told.keys }

def signal (s : Simulation) (home : Nat) (what : Signal) : Simulation :=
  s.tell home (fun t => (t.script.head?.bind Action.signal?) == some what)

/-- Tell the callers of a node that have their results. -/
def tellCallers (s : Simulation) (home : Nat) : Simulation :=
  match s.nodes[home]? with
  | some n => s.tell home (fun t => t.script.isEmpty && t.call.any (fun c => !n.callers.contains c))
  | none => s

def deliver (s : Simulation) (home : Nat) (room : Nat) (sender : PeerAddress) (p : Packet) :
    Option Simulation := do
  let n ← s.nodes[home]?
  let n ← n.arrive room sender p
  return (s.setNode home n).signal home .packet

/-- Hand a packet to the network.  One that does not fit a datagram is dropped. -/
def send (s : Simulation) (home : Nat) (receiver : PeerAddress) (p : Packet) : Simulation :=
  match s.nodes[home]?, Wire.encode p with
  | some n, .ok datagram =>
    let s := { s with sent := ⟨s.now, home, receiver, p, datagram⟩ :: s.sent }
    match s.hub.route? n.address receiver with
    | some there => (s.deliver there Hub.room n.address p).getD s
    | none => s
  | _, _ => s

def apply (s : Simulation) (home : Nat) : Effect → Simulation
  | .send receiver p => s.send home receiver p
  | .spawn name script =>
    if s.nodes[home]?.any (fun n => !n.down) then s.spawn home name script none else s
  | .signal what => s.signal home what

/-- What a step of a node does to all. -/
def commit (s : Simulation) (home : Nat) (step : Step) : Simulation :=
  let answered := s.nodes[home]?.any (fun n => step.node.callers.length < n.callers.length)
  let s := step.effects.foldl (fun s e => s.apply home e) (s.setNode home step.node)
  if answered then s.tellCallers home else s

/-! ## Turns -/

/-- How many locks, messages and ticks a task may take in one turn. -/
def turnLength : Nat := 128

/-- How many turns there are from break to break. -/
def breakInterval : Nat := 61

def endTurn (s : Simulation) : Simulation := { s with turns := s.turns + 1 }

/-- Let a task wait.  A wait that goes on keeps its place. -/
def park (s : Simulation) (id : Nat) (t : Task) (a : Action) : Simulation :=
  match a.deadline?, t.timer with
  | some d, none =>
    { s with
      tasks := s.tasks.insert id { t with waiting := true, spent := 0, timer := some (d, s.nextTimer) }
      nextTimer := s.nextTimer + 1 }
  | _, _ => { s with tasks := s.tasks.insert id { t with waiting := true, spent := 0 } }

/-- One action of the task that is first in the queue, if its turn is not over. -/
def act (s : Simulation) (id : Nat) (others : List Nat) : Simulation :=
  let leave := { s with ready := others }.endTurn
  match s.tasks.get? id with
  | none => leave
  | some t =>
    match t.script, s.nodes[t.home]? with
    | a :: script, some n =>
      let spent := t.spent + n.cost a
      if turnLength < spent then
        { leave with tasks := s.tasks.insert id { t with spent := 0 }, cut := id :: s.cut }
      else
        match n.perform s.now a with
        | [] => leave.park id t a
        | step :: _ =>
          { s with tasks := s.tasks.insert id { t with script := step.next ++ script, timer := none, spent } }.commit
            t.home step
    | [], some n =>
      if t.call.any n.callers.contains then { leave with tasks := s.tasks.insert id { t with waiting := true, spent := 0 } }
      else { leave with tasks := s.tasks.erase id }
    | _, none => { leave with tasks := s.tasks.erase id }

def takeBreak (s : Simulation) : Simulation := { s with ready := s.ready ++ s.cut, cut := [], turns := 0 }

/-- Let tasks take turns until the next break, for at most `fuel` actions. -/
def runToBreak : Nat → Simulation → Simulation
  | 0, s => s.takeBreak
  | fuel + 1, s =>
    match s.ready with
    | [] => s.takeBreak
    | id :: others => if s.turns < breakInterval then runToBreak fuel (s.act id others) else s.takeBreak

/-- More actions than nodes take before they all wait, unless they never do. -/
def actionLimit : Nat := 1000000

/-- Let tasks take turns until all of them wait, with at most `fuel` breaks. -/
def run : Nat → Simulation → Simulation
  | 0, s => s
  | fuel + 1, s => if s.ready.isEmpty then s else run fuel (runToBreak actionLimit s)

def settle (s : Simulation) : Simulation := run actionLimit s

/-- Put packets into the inbox of a node, one after another, and wait for room in between.  The flag tells whether all of
them got in. -/
def deliverAll : Nat → Simulation → Nat → Nat → List (PeerAddress × Packet) → Bool × Simulation
  | _, s, _, _, [] => (true, s)
  | 0, s, _, _, _ :: _ => (false, s)
  | fuel + 1, s, home, room, (sender, p) :: more =>
    match s.deliver home room sender p with
    | some s => deliverAll fuel s home room more
    | none =>
      if s.nodes[home]?.any (fun n => n.inboxOpen && !n.down) then
        deliverAll fuel (runToBreak actionLimit s) home room ((sender, p) :: more)
      else (false, s)

/-! ## Time -/

/-- The waits that have an end: end, number and task. -/
def timers (s : Simulation) : List (Nat × Nat × Nat) :=
  s.tasks.entries.filterMap (fun e =>
    if e.2.waiting then e.2.timer.map (fun t => (t.1, t.2, e.1)) else none)

def earlier (a b : Nat × Nat × Nat) : Bool := a.1 < b.1 || (a.1 == b.1 && a.2.1 ≤ b.2.1)

/-- Move the clock, and wake the tasks whose waits end. -/
def moveTo (s : Simulation) (time : Nat) : Simulation :=
  let due := ((s.timers.filter (fun t => t.1 ≤ time)).mergeSort earlier).map (fun t => t.2.2)
  { s with
    now := time
    tasks := due.foldl (fun ts id =>
      match ts.get? id with
      | some t => ts.insert id { t with waiting := false }
      | none => ts) s.tasks
    ready := s.ready ++ due }

/-- Let time pass until `time`, stopping wherever waits end, at most `fuel` times. -/
def sleepUntil : Nat → Nat → Simulation → Simulation
  | 0, _, s => s
  | fuel + 1, time, s =>
    match (s.timers.map Prod.fst).min? with
    | some d =>
      if d ≤ time then sleepUntil fuel time (s.moveTo d).settle else { s with now := time }
    | none => { s with now := time }

def sleep (s : Simulation) (duration : Nat) : Simulation :=
  sleepUntil actionLimit (s.now + duration) s.settle

/-! ## Nodes -/

def addNode (s : Simulation) (n : Node) : Simulation :=
  (Node.tasks n.config s.now).foldl (fun s' t => s'.spawn s.nodes.length t.1 t.2 none)
    { s with nodes := s.nodes ++ [n] }

def closeInbox (s : Simulation) (home : Nat) : Simulation :=
  { s with nodes := s.nodes.modify home (fun n => { n with inboxOpen := false }) }.signal home .packet

/-- Give a node its address on the hub.  Whoever had the address is cut off. -/
def connect (s : Simulation) (home : Nat) : Simulation :=
  match s.nodes[home]? with
  | none => s
  | some n =>
    let s := match s.hub.endpoints.get? n.address with
      | some other => s.closeInbox other
      | none => s
    { s with hub := s.hub.attach n.address home }

/-- Take actions one after another, at once, as a caller of a node does. -/
def callScript : Nat → Simulation → Nat → List Action → Simulation
  | 0, s, _, _ => s
  | _ + 1, s, _, [] => s
  | fuel + 1, s, home, a :: script =>
    match s.nodes[home]? with
    | none => s
    | some n =>
      match n.perform s.now a with
      | [] => s
      | step :: _ => callScript fuel (s.commit home step) home (step.next ++ script)

def call {α : Type} (s : Simulation) (home : Nat) (f : Node → α × Step) : Option (α × Simulation) :=
  s.nodes[home]?.map fun n =>
    let (a, step) := f n
    (a, callScript actionLimit (s.commit home step) home step.next)

/-- Call a node to propose; the call is a task of its own.  Its number. -/
def propose (s : Simulation) (home : Nat) (tx : Transaction) : Option (Nat × Simulation) :=
  s.nodes[home]?.map fun n =>
    let (number, n) := n.openCall
    (number, (s.setNode home n).spawn home "call" [.propose number tx] number)

def shutdown (s : Simulation) (home : Nat) : Simulation :=
  let tasks := s.tasks.filter (fun _ t => !(t.supervised && t.home == home))
  { s with
    nodes := s.nodes.modify home Node.shutdown
    tasks
    ready := s.ready.filter tasks.contains }.tellCallers home

/-- The supervised tasks of a node, as reported. -/
def outstanding (s : Simulation) (home : Nat) : List TaskInfo :=
  TaskInfo.sort ((s.tasks.values.filter (fun t => t.supervised && t.home == home)).map
    (fun t => ⟨t.name, s.now - t.started⟩))

/-- What has been sent since there were `before` packets, in order. -/
def sentSince (s : Simulation) (before : Nat) : List Sent :=
  (s.sent.take (s.sent.length - before)).mergeSort Sent.precedes

end Simulation

end GossipNode
