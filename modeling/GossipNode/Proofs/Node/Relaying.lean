import GossipNode.Proofs.Node.Changes
import GossipNode.Proofs.Wire.Readings
/-!
# What a node does with a routed packet

A routed packet that arrives is delivered, or goes on with one hop less, or is dropped (`Node.handle_cases`); one that is
to be sent leaves for the next hop, or is dropped (`Node.forward_cases`, and for acknowledgments of proposals
`Node.acknowledge_cases`).  Each of these steps shows at most one fate of the packet, in what observers are told and in the
counters, and none changes the way to the destination.
-/
namespace GossipNode

namespace Packet

variable {p : Packet} {d : Origin} {h : UInt32}

theorem destination?_of_route (routed : p.route? = some (d, h)) : p.destination? = some d := by
  rw [destination?, routed]; rfl

theorem hopLimit?_of_route (routed : p.route? = some (d, h)) : p.hopLimit? = some h := by
  rw [hopLimit?, routed]; rfl

theorem route?_withHopLimit (routed : p.route? = some (d, h)) (g : UInt32) :
    (p.withHopLimit g).route? = some (d, g) := by
  cases p with
  | private_ | dataRequest | dataReply | searchReply | ack =>
    obtain ⟨rfl, rfl⟩ := Prod.mk.inj (Option.some.inj routed)
    rfl
  | _ => cases routed

theorem withHopLimit_of_route (routed : p.route? = some (d, h)) : p.withHopLimit h = p := by
  cases p with
  | private_ | dataRequest | dataReply | searchReply | ack =>
    obtain ⟨rfl, rfl⟩ := Prod.mk.inj (Option.some.inj routed)
    rfl
  | _ => cases routed

theorem withHopLimit_withHopLimit (p : Packet) (g g' : UInt32) :
    (p.withHopLimit g).withHopLimit g' = p.withHopLimit g' := by
  cases p <;> rfl

/-- What observers are told of a packet that is delivered. -/
def told : Packet → List NodeEvent
  | private_ m => [.privateReceived m.origin m.text]
  | ack _ => []
  | p => [.contentPacket p]

/-- What is to be done once it is delivered. -/
def owed : Packet → List Action
  | ack a => [.countAck a]
  | _ => []

end Packet

theorem Wire.Sendable.withHopLimit {p : Packet} {d : Origin} {g h : UInt32} (fits : Sendable p)
    (routed : p.route? = some (d, h)) (le : g ≤ h) : Sendable (p.withHopLimit g) :=
  sendable_iff.2 (Nat.le_trans
    (Nat.succ_le_succ (Format.length_write_withHopLimit (Packet.hopLimit?_of_route routed) le)) (sendable_iff.1 fits))

/-! ## Fates -/

inductive Fate where
  | delivered
  | hopLimitDrop
  | routingMiss
deriving DecidableEq, Repr

namespace Step

/-- Observers are told something, or an acknowledgment goes on to be counted. -/
def delivers (s : Step) (n : Node) : Bool :=
  n.events.length < s.node.events.length || s.next.any (fun a => a matches .countAck _)

/-- What the packet has to say is handed over: observers are told of it, and its acknowledgment goes on to be counted. -/
def HandsOver (s : Step) (n : Node) (p : Packet) : Prop :=
  s.node.events = n.events ++ p.told ∧ s.next = p.owed

/-- The fates that a step from this state of the node shows: a delivery, and what the counters have gone up by. -/
def fates (s : Step) (n : Node) : List Fate :=
  (if s.delivers n then [.delivered] else []) ++
    List.replicate (s.node.metrics.hopLimitDrops - n.metrics.hopLimitDrops) .hopLimitDrop ++
    List.replicate (s.node.metrics.routingMisses - n.metrics.routingMisses) .routingMiss

theorem fates_of_same {s : Step} {n : Node} (events : s.node.events = n.events) (metrics : s.node.metrics = n.metrics)
    (next : s.next.any (fun a => a matches .countAck _) = false) : s.fates n = [] := by
  simp [fates, delivers, events, metrics, next]

end Step

namespace Node

variable {n : Node} {p : Packet} {d : Origin} {h : UInt32}

def dropSpent (n : Node) : Node := { n with metrics := { n.metrics with hopLimitDrops := n.metrics.hopLimitDrops + 1 } }

def dropUnrouted (n : Node) : Node :=
  { n with metrics := { n.metrics with routingMisses := n.metrics.routingMisses + 1 } }

theorem fates_dropSpent (n : Node) : n.dropSpent.rest.fates n = [.hopLimitDrop] := by
  simp [Step.fates, Step.delivers, rest, dropSpent]

theorem fates_dropUnrouted (n : Node) : n.dropUnrouted.rest.fates n = [.routingMiss] := by
  simp [Step.fates, Step.delivers, rest, dropUnrouted]

/-! ## Delivery -/

/-- **What a node hands over when it delivers a packet.** -/
theorem handsOver_deliverHere (n : Node) (p : Packet) : (n.deliverHere p).HandsOver n p := by
  cases p with
  | ack a => exact ⟨(List.append_nil _).symm, rfl⟩
  | _ => exact ⟨rfl, rfl⟩

theorem deliverHere_cases (routed : p.route? = some (d, h)) :
    (∃ a, p = .ack a ∧ n.deliverHere p = n.proceed [.countAck a]) ∨
    ((∀ a, p ≠ .ack a) ∧ ∃ e, n.deliverHere p = (n.emit e).rest) := by
  cases p with
  | ack a => exact .inl ⟨a, rfl, rfl⟩
  | private_ | dataRequest | dataReply | searchReply => exact .inr ⟨(fun _ h => by cases h), _, rfl⟩
  | _ => cases routed

theorem fates_deliverHere (routed : p.route? = some (d, h)) : (n.deliverHere p).fates n = [.delivered] := by
  rcases n.deliverHere_cases routed with ⟨a, -, hstep⟩ | ⟨-, e, hstep⟩
  · simp [hstep, Step.fates, Step.delivers, proceed]
  · simp [hstep, Step.fates, Step.delivers, rest, emit]

/-- Counting an acknowledgment is all that is done with it. -/
theorem countAck_quiet (n : Node) (a : Ack) :
    (n.countAck a).fates n = [] ∧ (n.countAck a).next = [] ∧ ∀ e ∈ (n.countAck a).effects, ∃ s, e = .signal s := by
  rcases n.countAck_cases a with hstep | ⟨ws, -, -, hstep⟩
  · rw [hstep]
    exact ⟨Step.fates_of_same rfl rfl rfl, rfl, fun _ he => nomatch he⟩
  · rw [hstep]
    exact ⟨Step.fates_of_same rfl rfl rfl, rfl, fun _ he => ⟨_, List.mem_singleton.1 he⟩⟩

/-! ## Passing on -/

theorem handle_of_route (sender : PeerAddress) (routed : p.route? = some (d, h)) :
    n.handle sender p = n.relay d p := by
  cases p with
  | private_ | dataRequest | dataReply | searchReply | ack =>
    obtain ⟨rfl, rfl⟩ := Prod.mk.inj (Option.some.inj routed)
    rfl
  | _ => cases routed

/-- **What a node does with a routed packet that arrives**: it delivers a packet for itself whatever the hop limit is, and
of any other it spends a hop first. -/
theorem handle_cases (sender : PeerAddress) (routed : p.route? = some (d, h)) :
    (n.name = d ∧ n.handle sender p = n.deliverHere p) ∨
    (n.name ≠ d ∧ 1 < h ∧ n.handle sender p = n.proceed [.forward d (p.withHopLimit (h - 1))]) ∨
    (n.name ≠ d ∧ h ≤ 1 ∧ n.handle sender p = n.dropSpent.rest) := by
  rw [handle_of_route sender routed]
  by_cases home : n.name = d
  · exact .inl ⟨home, if_pos home.symm⟩
  have away : n.relay d p = _ := if_neg (Ne.symm home)
  have spent : p.spendHop = (Decidable.decide (1 < h), p.withHopLimit (if h = 0 then 0 else h - 1)) := by
    rw [Packet.spendHop, Packet.hopLimit?_of_route routed]
  rw [away, spent]
  by_cases left : 1 < h
  · have positive : h ≠ 0 := by
      rintro rfl
      exact absurd left (by decide)
    refine .inr (.inl ⟨home, left, ?_⟩)
    rw [decide_eq_true left, if_neg positive]
  · refine .inr (.inr ⟨home, UInt32.not_lt.1 left, ?_⟩)
    rw [decide_eq_false left]
    rfl

/-- **What becomes of a packet that is to be sent**: it leaves for the next hop, or is dropped, and that is counted. -/
def Forwards (n : Node) (d : Origin) (p : Packet) (s : Step) : Prop :=
  (∃ hop, n.routes.nextHop d = .ok hop ∧ s = ⟨n, [], [.send hop p]⟩) ∨
  ((∀ hop, n.routes.nextHop d ≠ .ok hop) ∧ s = n.dropUnrouted.rest)

theorem forward_cases (n : Node) (d : Origin) (p : Packet) : n.Forwards d p (n.forward d p) := by
  unfold forward
  cases h : n.routes.nextHop d with
  | ok hop => exact .inl ⟨hop, h, rfl⟩
  | error e =>
    refine .inr ⟨?_, rfl⟩
    rw [h]
    exact fun _ h' => nomatch h'

/-- The first hop of an acknowledgment: the next hop of the proposer, or else the peer that the proposal came from. -/
def AckHop (n : Node) (o : Origin) (via : Option PeerAddress) (hop : PeerAddress) : Prop :=
  n.routes.nextHop o = .ok hop ∨ (∀ hop', n.routes.nextHop o ≠ .ok hop') ∧ via = some hop

/-- **What becomes of an acknowledgment that is to be sent**: it leaves for its first hop, and that is counted; or there
is no such hop, and that is counted. -/
def SendsAck (n : Node) (o : Origin) (id : SequenceId) (via : Option PeerAddress) (s : Step) : Prop :=
  (∃ hop, n.AckHop o via hop ∧
    s = ⟨{ n with metrics := { n.metrics with tlcAcksSent := n.metrics.tlcAcksSent + 1 } }, [],
      [.send hop (.ack ⟨n.name, id, o, n.config.hopLimit⟩)]⟩) ∨
  ((∀ hop, ¬ n.AckHop o via hop) ∧ s = n.dropUnrouted.rest)

theorem acknowledge_cases (n : Node) (o : Origin) (id : SequenceId) (via : Option PeerAddress) :
    n.SendsAck o id via (n.acknowledge o id via) := by
  unfold acknowledge
  cases known : n.routes.nextHop o with
  | ok hop => exact .inl ⟨hop, .inl known, rfl⟩
  | error e =>
    have unknown : ∀ hop, n.routes.nextHop o ≠ .ok hop := by
      intro hop
      rw [known]
      exact fun h => nomatch h
    cases via with
    | some hop => exact .inl ⟨hop, .inr ⟨unknown, rfl⟩, rfl⟩
    | none =>
      refine .inr ⟨?_, rfl⟩
      rintro hop (known | ⟨-, came⟩)
      · exact unknown hop known
      · cases came

/-- No hop is spent where the packet starts. -/
theorem originate_of_route (routed : p.route? = some (d, h)) (away : n.name ≠ d) :
    (n.originate p).2 = n.forward d p := by
  rw [originate, Packet.destination?_of_route routed]
  exact congrArg Prod.snd (if_neg (Ne.symm away))

/-! ## The way -/

/-- The same node as far as packets for this destination are concerned. -/
structure SameWay (d : Origin) (n n' : Node) : Prop where
  name : n'.name = n.name
  address : n'.address = n.address
  hop : n'.routes.nextHop d = n.routes.nextHop d
  up : n'.down = n.down

theorem SameWay.refl (d : Origin) (n : Node) : n.SameWay d n := ⟨rfl, rfl, rfl, rfl⟩

theorem SameWay.trans {n' n'' : Node} (h : n.SameWay d n') (h' : n'.SameWay d n'') : n.SameWay d n'' :=
  ⟨h'.name.trans h.name, h'.address.trans h.address, h'.hop.trans h.hop, h'.up.trans h.up⟩

theorem sameWay_of_frame {n' : Node} (frame : n'.frame = n.frame) (backdrop : n'.backdrop = n.backdrop) : n.SameWay d n' where
  name := congrArg (fun f => f.core.name) frame
  address := congrArg Frame.address frame
  hop := congrArg (fun f => f.routes.nextHop d) frame
  up := congrArg (fun b => b.desk.down) backdrop

theorem sameWay_handle (n : Node) (sender : PeerAddress) (p : Packet) : n.SameWay d (n.handle sender p).node :=
  sameWay_of_frame (n.frame_handle sender p) (n.backdrop_handle sender p)

theorem sameWay_forward (n : Node) (d' : Origin) (p : Packet) : n.SameWay d (n.forward d' p).node :=
  sameWay_of_frame (n.frame_forward d' p) (n.backdrop_forward d' p)

theorem sameWay_countAck (n : Node) (a : Ack) : n.SameWay d (n.countAck a).node := by
  rcases n.countAck_cases a with hstep | ⟨ws, -, -, hstep⟩ <;> rw [hstep] <;> exact ⟨rfl, rfl, rfl, rfl⟩

end Node
end GossipNode
