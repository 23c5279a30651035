import Mathlib.Logic.Function.Basic
import GossipNode.Proofs.Node.Core
/-!
# Machines and networks

A machine is a node with the scripts of its tasks.  Nothing is said about who goes first: any task may take its next
action, at any time of the clock, and between two actions of a task anything else may happen.  A network is a family of
machines and the packets that they have sent.  A packet that has been sent may arrive at any machine, as if from any
peer, any number of times, late, in any order, or never; so it may take any route.

Only what the program does is fixed, and that acknowledgments are not handed in from outside.
-/
namespace GossipNode

inductive Request where
  | postRumor (text : String)
  | sendPrivate (destination : Origin) (text : String)
  | sendRouted (packet : Packet)
  | propose (transaction : Transaction)
  | giveUpCall (call : Nat)
  | submitBallot (topic : String) (ballot : Ballot)
  | addPeer (peer : PeerAddress)

def Node.answer (n : Node) : Request → Step
  | .postRumor text => (n.postRumor text).2
  | .sendPrivate destination text => (n.sendPrivate destination text).2
  | .sendRouted p => (n.originate p).2
  | .propose tx => n.openCall.2.proceed [.propose n.openCall.1 tx]
  | .giveUpCall call => (n.giveUpCall call).rest
  | .submitBallot t b => (n.submitBallot t b).2
  | .addPeer p => (n.learnPeer p).rest

/-- **What a request may do to the frame**: put a record of the own name, which confirms nothing, into the store. -/
theorem Node.frame_answer (n : Node) (q : Request) : (n.answer q).node.frame = n.frame ∨
    ∃ r, r.origin = n.name ∧ r.id = n.store.nextId r.origin ∧ (∀ m, r ≠ .proposal m) ∧
      (n.answer q).node.frame = { n.frame with core := { n.core with store := n.store.push r } } := by
  cases q with
  | postRumor text => exact .inr ⟨.rumor ⟨n.name, n.store.nextId n.name, text⟩, rfl, rfl, (fun _ h => nomatch h), rfl⟩
  | sendPrivate d text => exact .inl (n.frame_originate _)
  | sendRouted p => exact .inl (n.frame_originate p)
  | submitBallot t b => exact .inl (n.frame_submitBallot t b)
  | addPeer p => exact .inl (n.frame_learnPeer p)
  | propose tx => exact .inl rfl
  | giveUpCall call => exact .inl rfl

namespace Effect

def packet? : Effect → Option Packet
  | send _ p => some p
  | _ => none

def script? : Effect → Option (List Action)
  | spawn _ script => some script
  | _ => none

end Effect

namespace Step

def sent (s : Step) : List Packet := s.effects.filterMap Effect.packet?

/-- The scripts of the tasks that a step starts; a node that is down starts none. -/
def started (s : Step) : List (List Action) :=
  if s.node.down then [] else s.effects.filterMap Effect.script?

end Step

/-- A node and what its tasks still have to do. -/
structure Machine where
  node : Node
  tasks : List (List Action)

namespace Machine

inductive Event where
  /-- A task takes an action, at a time of the clock. -/
  | act (now : Nat)
  | call (request : Request)
  | arrive (sender : PeerAddress) (packet : Packet)
  | closeInbox
  /-- The node is shut down; of its tasks some are left. -/
  | shutdown

/-- **One turn of a machine**: what happens, the packets that this sends, and the machine after it. -/
inductive Turn : Machine → Event → List Packet → Machine → Prop where
  | act {n : Node} {before after : List (List Action)} {a : Action} {script : List Action} {now : Nat} {step : Step}
      (h : step ∈ n.perform now a) :
      Turn ⟨n, before ++ (a :: script) :: after⟩ (.act now) step.sent
        ⟨step.node, before ++ (step.next ++ script) :: after ++ step.started⟩
  | call {n : Node} {tasks : List (List Action)} (request : Request) :
      Turn ⟨n, tasks⟩ (.call request) (n.answer request).sent
        ⟨(n.answer request).node, tasks ++ (n.answer request).next :: (n.answer request).started⟩
  | arrive {n n' : Node} {tasks : List (List Action)} {room : Nat} {sender : PeerAddress} {p : Packet}
      (h : n.arrive room sender p = some n') : Turn ⟨n, tasks⟩ (.arrive sender p) [] ⟨n', tasks⟩
  | closeInbox {n : Node} {tasks : List (List Action)} :
      Turn ⟨n, tasks⟩ .closeInbox [] ⟨{ n with inboxOpen := false }, tasks⟩
  | shutdown {n : Node} {tasks left : List (List Action)} (h : left.Sublist tasks) :
      Turn ⟨n, tasks⟩ .shutdown [] ⟨n.shutdown, left⟩

/-- A machine that has just been started under a configuration. -/
def Fresh (m : Machine) (c : Config) : Prop :=
  ∃ address random auth now, Node.new c address random auth = .ok m.node ∧
    m.tasks = (Node.tasks c now).map Prod.snd

/-- **The states of a run of one machine**, all of whose turns are allowed; whatever arrives, arrives.  The number after a
log is a checked sum of 32-bit words: where it would overflow there is no next state. -/
inductive Run (allowed : Machine → Event → Machine → Prop) (c : Config) : Machine → Prop where
  | start {m : Machine} (fresh : m.Fresh c) : Run allowed c m
  | turn {m m' : Machine} {e : Event} {out : List Packet} : Run allowed c m → m.Turn e out m' → allowed m e m' →
      m'.node.store.Fits → Run allowed c m'

end Machine

/-- The machines of a network, and the packets that have been sent. -/
structure Network (ι : Type) where
  machines : ι → Machine
  sent : List Packet

namespace Network

variable {ι : Type} [DecidableEq ι]

def stores (net : Network ι) (i : ι) : Store := (net.machines i).node.store

/-- What may happen to a machine of the network: only packets that have been sent arrive, and acknowledgments are not
handed in from outside. -/
def Allows (net : Network ι) : Machine.Event → Prop
  | .arrive _ p => p ∈ net.sent
  | .call (.sendRouted p) => ∀ a, p ≠ .ack a
  | _ => True

/-- **A step of a network** is a turn of one of its machines. -/
inductive Step : Network ι → Network ι → Prop where
  | turn {net : Network ι} {i : ι} {e : Machine.Event} {out : List Packet} {m : Machine}
      (h : (net.machines i).Turn e out m) (allowed : net.Allows e) :
      Step net ⟨Function.update net.machines i m, out ++ net.sent⟩

/-- **The states of a run** of nodes started under their configurations.  The number after a log is a checked sum of
32-bit words: where it would overflow there is no next state. -/
inductive Reachable (configs : ι → Config) : Network ι → Prop where
  | start {net : Network ι} (fresh : ∀ i, (net.machines i).Fresh (configs i)) (sent : net.sent = []) :
      Reachable configs net
  | step {net net' : Network ι} : Reachable configs net → Step net net' → (∀ i, (net'.stores i).Fits) →
      Reachable configs net'

end Network
end GossipNode
