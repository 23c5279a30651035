import GossipNode.Proofs.Consensus.Provenance
import GossipNode.Proofs.Network.Logs
import GossipNode.Proofs.Node.Core
import GossipNode.Proofs.Store.Rounds
/-!
# What acknowledgments and confirmations rest on

Everything that passes from hand to hand on the way to a confirmation rests on what stores hold: an acknowledgment of a
proposal on the proposal in the store of whoever acknowledges, an open collection on such acknowledgments, a majority on
enough of them, a confirmation on a majority.  A `Scene` is what stores hold, as far as it matters; stores only grow, so
what is grounded in a scene stays grounded (the lemmas named `mono`).
-/
namespace GossipNode

open AckCollector (Quorum)

/-! ## Proposals in stores -/

namespace Store

/-- The store holds an unconfirmed proposal of the origin under that number. -/
def HoldsProposal (s : Store) (o : Origin) (id : SequenceId) : Prop :=
  ∃ m : Proposal, s.get? o id = some (.proposal m) ∧ m.confirmed = none

theorem HoldsProposal.mono {s s' : Store} {o : Origin} {id : SequenceId} (h : s.HoldsProposal o id)
    (grown : s.log o <+: s'.log o) : s'.HoldsProposal o id := by
  obtain ⟨m, hm, hc⟩ := h
  exact ⟨m, get?_mono grown hm, hc⟩

/-- **Only unconfirmed proposals have a round.** -/
theorem holdsProposal_of_proposalRound {s : Store} {o : Origin} {id : SequenceId} {round : UInt32}
    (h : s.proposalRound o id = some round) : s.HoldsProposal o id := by
  obtain ⟨r, hr, hu, -⟩ := exists_of_proposalRound h
  cases r with
  | rumor m => cases hu
  | block m => cases hu
  | proposal m => exact ⟨m, hr, Option.isNone_iff_eq_none.1 hu⟩

end Store

/-! ## Scenes -/

/-- What the nodes of a network are called, how many origins are a majority for each, and what they hold. -/
structure Scene (ι : Type) where
  names : ι → Origin
  quorum : ι → Nat
  stores : ι → Store

namespace Scene

variable {ι : Type}

def Held (w : Scene ι) (r : Record) : Prop := LogNetwork.Held w.stores r

/-- A node of that name holds the proposal. -/
def Acks (w : Scene ι) (o : Origin) (id : SequenceId) (name : Origin) : Prop :=
  ∃ j, w.names j = name ∧ (w.stores j).HoldsProposal o id

/-- Enough nodes hold the node's proposal. -/
def Backed (w : Scene ι) (i : ι) (id : SequenceId) : Prop :=
  ∃ ws, Quorum (w.names i) (w.quorum i) (w.Acks (w.names i) id) ws

/-- The record is a proposal of the node for a transaction, and the node holds it. -/
def Own (w : Scene ι) (i : ι) (r : Record) (tx : Transaction) : Prop :=
  ∃ m : Proposal, r = .proposal m ∧ m.confirmed = none ∧ m.transaction = tx ∧
    (w.stores i).get? (w.names i) m.id = some r

/-- The node has proposed the transaction under that number, and enough nodes hold the proposal. -/
def Decided (w : Scene ι) (i : ι) (id : SequenceId) (tx : Transaction) : Prop :=
  ∃ r, w.Own i r tx ∧ r.id = id ∧ w.Backed i id

/-- The same nodes later: they hold what they held. -/
structure Grows (w w' : Scene ι) : Prop where
  names : w'.names = w.names
  quorum : w'.quorum = w.quorum
  log : ∀ i o, (w.stores i).log o <+: (w'.stores i).log o

variable {w w' : Scene ι} {i : ι}

theorem Held.mono {r : Record} (h : w.Held r) (g : w.Grows w') : w'.Held r := LogNetwork.Held.mono g.log h

theorem Acks.mono {o : Origin} {id : SequenceId} {name : Origin} (h : w.Acks o id name) (g : w.Grows w') :
    w'.Acks o id name := by
  obtain ⟨j, hj, hp⟩ := h
  exact ⟨j, by rw [g.names, hj], hp.mono (g.log j o)⟩

theorem Backed.mono {id : SequenceId} (h : w.Backed i id) (g : w.Grows w') : w'.Backed i id := by
  obtain ⟨ws, hws⟩ := h
  refine ⟨ws, ?_⟩
  rw [g.names, g.quorum]
  exact hws.imp (fun name hn => hn.mono g)

theorem Own.mono {r : Record} {tx : Transaction} (h : w.Own i r tx) (g : w.Grows w') : w'.Own i r tx := by
  obtain ⟨m, hr, hc, htx, hget⟩ := h
  exact ⟨m, hr, hc, htx, by rw [g.names]; exact Store.get?_mono (g.log i _) hget⟩

theorem Decided.mono {id : SequenceId} {tx : Transaction} (h : w.Decided i id tx) (g : w.Grows w') :
    w'.Decided i id tx := by
  obtain ⟨r, hown, hid, hb⟩ := h
  exact ⟨r, hown.mono g, hid, hb.mono g⟩

theorem held_of_get? {o : Origin} {id : SequenceId} {r : Record} (h : (w.stores i).get? o id = some r) : w.Held r :=
  ⟨i, o, Store.mem_log_of_get? h⟩

theorem Own.held {r : Record} {tx : Transaction} (h : w.Own i r tx) : w.Held r := by
  obtain ⟨m, -, -, -, hget⟩ := h
  exact held_of_get? hget

/-- **The proposer is a witness of its own proposal.** -/
theorem Own.acks {r : Record} {tx : Transaction} (h : w.Own i r tx) : w.Acks (w.names i) r.id (w.names i) := by
  obtain ⟨m, rfl, hc, -, hget⟩ := h
  exact ⟨i, rfl, m, hget, hc⟩

end Scene

/-! ## What is grounded -/

section Grounded

variable {ι : Type} (w : Scene ι) (i : ι)

/-- A packet with a record that is held, or an acknowledgment of a proposal that is held. -/
def Packet.Grounded : Packet → Prop
  | .ack a => w.Acks a.destination a.id a.origin
  | p => ∀ r, Record.ofPacket? p = some r → w.Held r

def StatusAnswer.Grounded : StatusAnswer → Prop
  | .push r => w.Held r
  | _ => True

def RoundPurpose.Grounded : RoundPurpose → Prop
  | .collect _ r tx => w.Own i r tx
  | _ => True

/-- What an action that a node is about to take rests on. -/
def Action.Grounded : Action → Prop
  | .handle _ p | .forward _ p => p.Grounded w
  | .accept _ r | .passOn _ r _ | .chooseTarget r _ | .sendRecord r _ | .awaitNotice r _ _ _ | .giveUp r _ _ => w.Held r
  | .settle _ _ _ answer => answer.Grounded w
  | .findRound _ _ purpose => purpose.Grounded w i
  | .stampRound o id _ purpose => (w.stores i).HoldsProposal o id ∧ purpose.Grounded w i
  | .offerGate o id _ _ | .acknowledge o id _ => (w.stores i).HoldsProposal o id
  | .countAck a => a.destination = w.names i ∧ w.Acks a.destination a.id a.origin
  | .startCollection _ r _ tx | .awaitMajority r _ tx _ | .checkRound r _ tx _ => w.Own i r tx
  | .drive r _ tx decided => w.Own i r tx ∧ (decided = true → w.Backed i r.id)
  | .confirm id _ tx | .storeConfirmation id _ tx _ => w.Decided i id tx
  | _ => True

def Effect.Grounded : Effect → Prop
  | .send _ p => p.Grounded w
  | .spawn _ script => ∀ a ∈ script, a.Grounded w i
  | .signal _ => True

structure Node.Core.Grounded (c : Node.Core) : Prop where
  name : c.name = w.names i
  own : c.broadcast.acks.own = w.names i
  quorum : c.broadcast.acks.threshold = w.quorum i
  collecting : c.broadcast.acks.Witnessed (w.Acks (w.names i))
  gate : c.broadcast.gate.HoldsOnly (fun p => (w.stores i).HoldsProposal p.1 p.2)
  majorities : ∀ id, SortedMap.contains c.majorities id = true → w.Backed i id
  inbox : ∀ e ∈ c.inbox, e.2.Grounded w

structure Step.Leads (s : Step) : Prop where
  next : ∀ a ∈ s.next, a.Grounded w i
  effects : ∀ e ∈ s.effects, e.Grounded w i

/-- A step that does not leave the ground. -/
structure Step.Grounded (s : Step) : Prop extends s.Leads w i where
  node : s.node.core.Grounded w i

end Grounded

section Mono

variable {ι : Type} {w w' : Scene ι} {i : ι}

theorem Packet.Grounded.mono {p : Packet} (h : p.Grounded w) (g : w.Grows w') : p.Grounded w' := by
  cases p with
  | ack a => exact Scene.Acks.mono h g
  | _ => exact fun r hr => (h r hr).mono g

theorem RoundPurpose.Grounded.mono {p : RoundPurpose} (h : p.Grounded w i) (g : w.Grows w') : p.Grounded w' i := by
  cases p with
  | collect call r tx => exact Scene.Own.mono h g
  | _ => trivial

theorem Action.Grounded.mono {a : Action} (h : a.Grounded w i) (g : w.Grows w') : a.Grounded w' i := by
  cases a with
  | handle | forward => exact Packet.Grounded.mono h g
  | accept | passOn | chooseTarget | sendRecord | awaitNotice | giveUp => exact Scene.Held.mono h g
  | settle _ _ _ answer =>
    cases answer with
    | push r => exact Scene.Held.mono h g
    | _ => trivial
  | findRound => exact RoundPurpose.Grounded.mono h g
  | stampRound => exact ⟨h.1.mono (g.log i _), h.2.mono g⟩
  | offerGate | acknowledge => exact Store.HoldsProposal.mono h (g.log i _)
  | countAck => exact ⟨by rw [g.names]; exact h.1, h.2.mono g⟩
  | startCollection | awaitMajority | checkRound => exact Scene.Own.mono h g
  | drive => exact ⟨h.1.mono g, fun hd => (h.2 hd).mono g⟩
  | confirm | storeConfirmation => exact Scene.Decided.mono h g
  | _ => trivial

theorem Node.Core.Grounded.mono {c : Node.Core} (h : c.Grounded w i) (g : w.Grows w') : c.Grounded w' i where
  name := by rw [g.names]; exact h.name
  own := by rw [g.names]; exact h.own
  quorum := by rw [g.quorum]; exact h.quorum
  collecting := by rw [g.names]; exact h.collecting.imp (fun id name hn => hn.mono g)
  gate := h.gate.imp (fun p hp => hp.mono (g.log i p.1))
  majorities id hid := (h.majorities id hid).mono g
  inbox e he := (h.inbox e he).mono g

/-- What the core rests on is said of the scene, not of its own store. -/
theorem Node.Core.Grounded.of_store {c : Node.Core} (h : c.Grounded w i) (s : Store) :
    ({ c with store := s } : Node.Core).Grounded w i :=
  ⟨h.name, h.own, h.quorum, h.collecting, h.gate, h.majorities, h.inbox⟩

end Mono
end GossipNode
