import GossipNode.Node.Start
import GossipNode.Proofs.Store.Logs
/-!
# What actions do to the core of a node

The core is what proposals and rounds depend on: the name, the configuration, the store, the shared state of proposals,
the majorities that tasks have not noticed yet, and the inbox.  Learning peers and routes, spreading records, reports,
queues and ledgers leave it as it is (`core_of_quiet`).  The store changes in two ways only: a
record is taken that is offered, or a record is made under the own name with the next number (`storeChange_of_perform`).

The frame is the core with the address, the routes and the routes that wait to be applied; most functions leave all of it
as it is.
-/
namespace GossipNode

/-- The part of a node that proposals and rounds depend on. -/
structure Node.Core where
  name : Origin
  config : Config
  store : Store
  broadcast : Broadcast
  majorities : SortedSet SequenceId
  inbox : List (PeerAddress × Packet)

def Node.core (n : Node) : Node.Core := ⟨n.name, n.config, n.store, n.broadcast, n.majorities, n.inbox⟩

structure Node.Frame where
  core : Node.Core
  address : PeerAddress
  routes : RoutingTable
  routeQueue : List RouteUpdate

def Node.frame (n : Node) : Node.Frame := ⟨n.core, n.address, n.routes, n.routeQueue⟩

theorem Node.core_of_frame {n n' : Node} (h : n'.frame = n.frame) : n'.core = n.core := congrArg Frame.core h

/-- Actions that take no packet, make or take no record and leave the shared state of proposals as it is. -/
def Action.Quiet : Action → Bool
  | .receive | .accept .. | .awaitHeartbeat _ | .storeProposal .. | .stampRound .. | .offerGate .. | .countAck _
  | .startCollection .. | .awaitMajority .. | .abandon _ | .storeConfirmation .. | .countConfirmation .. | .publish =>
    false
  | _ => true

namespace Node

/-! ## Gossip and routes -/

theorem frame_learnPeer (n : Node) (p : PeerAddress) : (n.learnPeer p).frame = n.frame := by
  unfold learnPeer
  split <;> rfl

theorem frame_reply (n : Node) (call : Nat) (r : Except NodeError SequenceId) : (n.reply call r).frame = n.frame := by
  unfold reply
  split <;> rfl

theorem frame_deliverHere (n : Node) (p : Packet) : (n.deliverHere p).node.frame = n.frame := by
  cases p <;> rfl

theorem frame_relay (n : Node) (d : Origin) (p : Packet) : (n.relay d p).node.frame = n.frame := by
  unfold relay
  split
  · exact n.frame_deliverHere p
  · split <;> rfl

theorem frame_forward (n : Node) (d : Origin) (p : Packet) : (n.forward d p).node.frame = n.frame := by
  unfold forward
  split <;> rfl

theorem frame_handle (n : Node) (sender : PeerAddress) (p : Packet) : (n.handle sender p).node.frame = n.frame := by
  unfold handle
  split
  · rfl
  · split <;> rfl
  · split
    · exact n.frame_relay _ p
    · rfl
    · rfl

theorem frame_announce (n : Node) (r : Record) : (n.announce r).frame = n.frame := by
  unfold announce
  split
  · split <;> rfl
  · split <;> rfl
  · rfl

/-- **An offer** leaves the frame as it is; or it puts a record with the next number into the store, and a route to its
origin into the queue. -/
theorem frame_accept (n : Node) (sender : PeerAddress) (r : Record) :
    (n.accept sender r).node.frame = n.frame ∨
      (r.id = n.store.nextId r.origin ∧ (n.accept sender r).node.frame =
        { n.frame with
          core := { n.core with store := n.store.push r }
          routeQueue := n.routeQueue ++ [⟨r.origin, sender, r.isHeartbeat⟩] }) := by
  unfold accept
  split
  · exact .inl rfl
  · split
    · rename_i store hs
      have hid : r.id = n.store.nextId r.origin := Store.accept_new_iff.1 (by rw [hs])
      obtain rfl : n.store.push r = store := by rw [Store.accept_of_eq hid] at hs; exact (Prod.mk.inj hs).2
      exact .inr ⟨hid, frame_announce _ r⟩
    · exact .inl rfl

theorem core_accept (n : Node) (sender : PeerAddress) (r : Record) :
    (n.accept sender r).node.core = n.core ∨
      (r.id = n.store.nextId r.origin ∧ (n.accept sender r).node.core = { n.core with store := n.store.push r }) := by
  rcases n.frame_accept sender r with he | ⟨hid, he⟩
  · exact .inl (core_of_frame he)
  · exact .inr ⟨hid, congrArg Frame.core he⟩

theorem frame_chooseTarget (n : Node) (r : Record) (excluded : List PeerAddress) :
    (n.chooseTarget r excluded).node.frame = n.frame := by
  simp only [chooseTarget]
  split <;> rfl

theorem frame_flipToGoOn (n : Node) (r : Record) (last : PeerAddress) : (n.flipToGoOn r last).node.frame = n.frame := by
  simp only [flipToGoOn]
  split <;> rfl

theorem frame_awaitNotice {n : Node} {now : Nat} {r : Record} {p : PeerAddress} {ticket deadline : Nat} {step : Step}
    (h : step ∈ n.awaitNotice now r p ticket deadline) : step.node.frame = n.frame := by
  simp only [awaitNotice, List.mem_append, Option.mem_toList, Option.map_eq_some_iff] at h
  rcases h with ⟨notice, -, rfl⟩ | h
  · split
    · exact frame_flipToGoOn _ r p
    · rfl
  · split at h
    · obtain rfl := Option.some.inj h; rfl
    · cases h

/-- **The updater** applies the route that has waited longest. -/
theorem frame_applyRoute {n : Node} {step : Step} (h : step ∈ n.applyRoute) :
    ∃ u queue, n.routeQueue = u :: queue ∧
      step.node.frame = { n.frame with routes := n.routes.apply u, routeQueue := queue } := by
  unfold applyRoute at h
  split at h
  · cases h
  · rename_i u queue hq
    rw [List.mem_singleton.1 h]
    exact ⟨u, queue, hq, rfl⟩

theorem frame_awaitPush {n : Node} {now tick : Nat} {step : Step} (h : step ∈ n.awaitPush now tick) :
    step.node.frame = n.frame := by
  simp only [awaitPush] at h
  split at h
  · rw [List.mem_singleton.1 h]; rfl
  · cases h

/-! ## Proposals -/

theorem frame_propose (n : Node) (call : Nat) (tx : Transaction) : (n.propose call tx).node.frame = n.frame := by
  unfold propose
  split
  · rfl
  · split
    · exact n.frame_reply call _
    · rfl

theorem frame_takeProposal {n : Node} {step : Step} (h : step ∈ n.takeProposal) : step.node.frame = n.frame := by
  unfold takeProposal at h
  split at h
  · cases h
  · rw [List.mem_singleton.1 h]; rfl

theorem frame_awaitRound (n : Node) (call : Nat) (tx : Transaction) : (n.awaitRound call tx).node.frame = n.frame := by
  unfold awaitRound
  split <;> rfl

theorem frame_awaitRoundChange {n : Node} {seen call : Nat} {tx : Transaction} {step : Step}
    (h : step ∈ n.awaitRoundChange seen call tx) : step.node.frame = n.frame := by
  unfold awaitRoundChange at h
  split at h
  · cases h
  · rw [List.mem_singleton.1 h]; rfl

theorem frame_checkRound (n : Node) (r : Record) (round : UInt32) (tx : Transaction) (tick : Nat) :
    (n.checkRound r round tx tick).node.frame = n.frame := by
  unfold checkRound
  split <;> rfl

theorem frame_startCollection (n : Node) (call : Nat) (r : Record) (round : UInt32) (tx : Transaction) :
    ∃ acks waiting, (n.startCollection call r round tx).node.frame =
      { n.frame with core := { n.core with broadcast := { n.broadcast with acks, waiting } } } := by
  unfold startCollection
  split
  · exact ⟨n.broadcast.acks, n.broadcast.waiting, frame_reply _ _ _⟩
  · exact ⟨_, _, frame_reply _ _ _⟩

/-- **What an acknowledgment does**: it is counted, and if it makes a majority for a proposal that a task waits for, the
task is told. -/
theorem countAck_cases (n : Node) (ack : Ack) :
    (n.countAck ack =
      { n with broadcast := { n.broadcast with
        acks := (n.broadcast.acks.recordAck ack.id ack.origin).2 } : Node }.rest) ∨
    ∃ ws, (n.broadcast.acks.recordAck ack.id ack.origin).1 = .majority ws ∧
      n.broadcast.waiting.contains ack.id = true ∧
      n.countAck ack =
        ⟨{ n with
            broadcast := { n.broadcast with
              acks := (n.broadcast.acks.recordAck ack.id ack.origin).2
              waiting := n.broadcast.waiting.erase ack.id }
            majorities := SortedSet.add n.majorities ack.id }, [], [.signal (.majority ack.id)]⟩ := by
  unfold countAck
  generalize n.broadcast.acks.recordAck ack.id ack.origin = counted
  obtain ⟨progress, acks⟩ := counted
  cases progress with
  | ignored => exact .inl rfl
  | pending count => exact .inl rfl
  | majority ws =>
    by_cases hw : n.broadcast.waiting.contains ack.id = true
    · exact .inr ⟨ws, rfl, hw, by simp [hw]⟩
    · exact .inl (by simp [hw])

theorem frame_foldl_emit (l : List RoundClosed) (e : RoundClosed → NodeEvent) (n : Node) :
    (l.foldl (fun n c => n.emit (e c)) n).frame = n.frame := by
  induction l generalizing n with
  | nil => rfl
  | cons c l ih => exact ih (n.emit (e c))

theorem frame_countConfirmation (n : Node) (o : Origin) (round : UInt32) :
    ∃ tracker gate, (n.countConfirmation o round).node.frame =
      { n.frame with core := { n.core with broadcast := { n.broadcast with tracker, gate } } } := by
  unfold countConfirmation
  split
  · exact ⟨_, n.broadcast.gate, rfl⟩
  · exact ⟨_, _, frame_foldl_emit _ _ _⟩

theorem frame_findRound (n : Node) (o : Origin) (id : SequenceId) (purpose : RoundPurpose) :
    (n.findRound o id purpose).node.frame = n.frame := by
  unfold findRound
  split
  · rfl
  · exact n.frame_reply _ _
  · rfl

theorem frame_acknowledge (n : Node) (o : Origin) (id : SequenceId) (via : Option PeerAddress) :
    (n.acknowledge o id via).node.frame = n.frame := by
  unfold acknowledge
  split <;> rfl

/-! ## Ledgers -/

theorem frame_openTopic (n : Node) (t : String) : (n.openTopic t).node.frame = n.frame := by
  unfold openTopic
  split <;> rfl

theorem frame_feedBlock (n : Node) (b : Block) : (n.feedBlock b).node.frame = n.frame := by
  simp only [feedBlock]
  split <;> rfl

theorem frame_seekBallot (now : Nat) (n : Node) (t : String) (round : UInt32) (stash : RoundStash) :
    (n.seekBallot now t round stash).node.frame = n.frame := by
  simp only [seekBallot]
  split <;> rfl

theorem frame_pause {n : Node} {now : Nat} {t : String} {round : UInt32} {stash : RoundStash} {deadline : Nat}
    {step : Step} (h : step ∈ n.pause now t round stash deadline) : step.node.frame = n.frame := by
  unfold pause at h
  split at h
  · rw [List.mem_singleton.1 h]; rfl
  · cases h

theorem frame_collect {n : Node} {t : String} {stash : RoundStash} {c : RoundCollector} {step : Step}
    (h : step ∈ n.collect t stash c) : step.node.frame = n.frame := by
  simp only [collect] at h
  split at h
  · rw [List.mem_singleton.1 h]; rfl
  · split at h
    · cases h
    · split at h
      · rw [List.mem_singleton.1 h]; rfl
      · split at h <;> · rw [List.mem_singleton.1 h]; rfl

theorem frame_decide (n : Node) (t : String) (stash : RoundStash) (c : RoundCollector) :
    (n.decide t stash c).node.frame = n.frame := by
  simp only [decide]
  split <;> rfl

/-! ## Requests, arrivals, start and stop -/

theorem frame_originate (n : Node) (p : Packet) : (n.originate p).2.node.frame = n.frame := by
  unfold originate
  split
  · rfl
  · split
    · exact n.frame_deliverHere p
    · exact n.frame_forward _ p

theorem frame_submitBallot (n : Node) (t : String) (b : Ballot) : (n.submitBallot t b).2.node.frame = n.frame :=
  n.frame_openTopic t

theorem frame_arrive {n n' : Node} {room : Nat} {sender : PeerAddress} {p : Packet}
    (h : n.arrive room sender p = some n') :
    n'.frame = { n.frame with core := { n.core with inbox := n.inbox ++ [(sender, p)] } } := by
  unfold arrive at h
  split at h
  · rw [← Option.some.inj h]; rfl
  · cases h

theorem frame_foldl_reply (l : List Nat) (e : Except NodeError SequenceId) (n : Node) :
    (l.foldl (fun n call => n.reply call e) n).frame = n.frame := by
  induction l generalizing n with
  | nil => rfl
  | cons c l ih => exact (ih _).trans (n.frame_reply c e)

theorem frame_shutdown (n : Node) : n.shutdown.frame = n.frame := by
  simp only [shutdown]
  split
  · exact frame_foldl_reply _ _ _
  · rfl

theorem majority_of_threshold? {peers : UInt64} {k : Nat} (h : threshold? peers = .ok k) :
    k = majority peers.toNat := by
  unfold threshold? wordMajority? at h
  split at h
  · cases h
  · split at h
    · exact (Except.ok.inj h).symm
    · cases h

/-- A node is only made if its configuration passes its checks and its peers have a majority. -/
theorem checks_of_new {c : Config} {address : PeerAddress} {random : RandomSource} {auth : Authenticator} {n : Node}
    (h : Node.new c address random auth = .ok n) :
    c.validate = .ok () ∧ threshold? c.peerCount = .ok (majority c.peerCount.toNat) := by
  unfold Node.new at h
  cases hv : c.validate with
  | error e => rw [hv] at h; cases h
  | ok u =>
    rw [hv] at h
    cases ht : threshold? c.peerCount with
    | error e => rw [ht] at h; cases h
    | ok k =>
      obtain rfl := majority_of_threshold? ht
      exact ⟨rfl, rfl⟩

/-- **A node that has not seen anything.** -/
theorem frame_new {c : Config} {address : PeerAddress} {random : RandomSource} {auth : Authenticator} {n : Node}
    (h : Node.new c address random auth = .ok n) :
    n.frame = ⟨⟨c.origin, c, .empty,
      ⟨.new c.origin (majority c.peerCount.toNat), .empty, .new, .new (majority c.peerCount.toNat), ∅⟩, ∅, []⟩,
      address, .empty, []⟩ := by
  obtain ⟨hv, ht⟩ := checks_of_new h
  unfold Node.new at h
  rw [hv, ht] at h
  rw [← Except.ok.inj h]
  rfl

theorem core_new {c : Config} {address : PeerAddress} {random : RandomSource} {auth : Authenticator} {n : Node}
    (h : Node.new c address random auth = .ok n) :
    n.core = ⟨c.origin, c, .empty,
      ⟨.new c.origin (majority c.peerCount.toNat), .empty, .new, .new (majority c.peerCount.toNat), ∅⟩, ∅, []⟩ :=
  congrArg Frame.core (frame_new h)

/-! ## All actions -/

/-- A quiet action leaves the frame as it is, unless it applies a route. -/
theorem frame_of_quiet {now : Nat} {n : Node} {a : Action} {step : Step} (quiet : a.Quiet = true)
    (ha : a ≠ .applyRoute) (h : step ∈ n.perform now a) : step.node.frame = n.frame := by
  cases a with
  | receive | accept | awaitHeartbeat | storeProposal | stampRound | offerGate | countAck | startCollection
  | awaitMajority | abandon | storeConfirmation | countConfirmation | publish => cases quiet
  | handle sender p => rw [List.mem_singleton.1 h]; exact n.frame_handle sender p
  | learn peer => rw [List.mem_singleton.1 h]; exact n.frame_learnPeer peer
  | passOn | compareStatus | settle | sendRecord | pushStatus | startProposal | drive | confirm =>
    rw [List.mem_singleton.1 h]; rfl
  | applyRoute => exact absurd rfl ha
  | forward d p => rw [List.mem_singleton.1 h]; exact n.frame_forward d p
  | chooseTarget r excluded => rw [List.mem_singleton.1 h]; exact n.frame_chooseTarget r excluded
  | awaitNotice => exact frame_awaitNotice h
  | giveUp r peer ticket => rw [List.mem_singleton.1 h]; exact frame_flipToGoOn _ r peer
  | awaitPush => exact frame_awaitPush h
  | propose call tx => rw [List.mem_singleton.1 h]; exact n.frame_propose call tx
  | takeProposal => exact frame_takeProposal h
  | awaitRound call tx => rw [List.mem_singleton.1 h]; exact n.frame_awaitRound call tx
  | awaitRoundChange => exact frame_awaitRoundChange h
  | findRound o id purpose => rw [List.mem_singleton.1 h]; exact n.frame_findRound o id purpose
  | acknowledge o id via => rw [List.mem_singleton.1 h]; exact n.frame_acknowledge o id via
  | checkRound r round tx tick => rw [List.mem_singleton.1 h]; exact n.frame_checkRound r round tx tick
  | openTopic t => rw [List.mem_singleton.1 h]; exact n.frame_openTopic t
  | feed b => rw [List.mem_singleton.1 h]; exact n.frame_feedBlock b
  | seekBallot t round stash => rw [List.mem_singleton.1 h]; exact frame_seekBallot now n t round stash
  | pause => exact frame_pause h
  | collect => exact frame_collect h
  | decide t stash c => rw [List.mem_singleton.1 h]; exact n.frame_decide t stash c

/-- **A quiet action leaves the core as it is.** -/
theorem core_of_quiet {now : Nat} {n : Node} {a : Action} {step : Step} (quiet : a.Quiet = true)
    (h : step ∈ n.perform now a) : step.node.core = n.core := by
  by_cases ha : a = .applyRoute
  · subst ha
    obtain ⟨u, queue, -, he⟩ := frame_applyRoute h
    exact congrArg Frame.core he
  · exact core_of_frame (frame_of_quiet quiet ha h)

/-- A loud action leaves all but the core as it is, unless a record is offered; and only one of them counts
confirmations. -/
theorem frame_of_loud {now : Nat} {n : Node} {a : Action} {step : Step} (loud : a.Quiet = false)
    (offers : ∀ sender r, a ≠ .accept sender r) (h : step ∈ n.perform now a) :
    ∃ core, core.name = n.name ∧
      ((∀ o round, a ≠ .countConfirmation o round) → core.broadcast.tracker = n.broadcast.tracker) ∧
      step.node.frame = { n.frame with core } := by
  cases a with
  | accept sender r => exact absurd rfl (offers sender r)
  | receive =>
    simp only [perform, receive] at h
    split at h
    · split at h
      · cases h
      · rw [List.mem_singleton.1 h]; exact ⟨n.core, rfl, fun _ => rfl, rfl⟩
    · rw [List.mem_singleton.1 h]; exact ⟨_, rfl, fun _ => rfl, rfl⟩
  | awaitHeartbeat tick =>
    simp only [perform, awaitHeartbeat] at h
    split at h
    · rw [List.mem_singleton.1 h]; exact ⟨_, rfl, fun _ => rfl, rfl⟩
    · cases h
  | publish =>
    simp only [perform, publish] at h
    split at h
    · cases h
    · rw [List.mem_singleton.1 h]; exact ⟨_, rfl, fun _ => rfl, rfl⟩
  | countAck ack =>
    rcases n.countAck_cases ack with he | ⟨ws, -, -, he⟩ <;>
    · rw [List.mem_singleton.1 h, he]; exact ⟨_, rfl, fun _ => rfl, rfl⟩
  | startCollection call r round tx =>
    obtain ⟨acks, waiting, he⟩ := n.frame_startCollection call r round tx
    rw [List.mem_singleton.1 h]
    exact ⟨_, rfl, fun _ => rfl, he⟩
  | awaitMajority r round tx tick =>
    simp only [perform, awaitMajority, List.mem_append] at h
    rcases h with h | h
    · split at h
      · rw [List.mem_singleton.1 h]; exact ⟨_, rfl, fun _ => rfl, rfl⟩
      · cases h
    · split at h
      · rw [List.mem_singleton.1 h]
        split <;> exact ⟨n.core, rfl, fun _ => rfl, rfl⟩
      · cases h
  | countConfirmation o round =>
    obtain ⟨tracker, gate, he⟩ := n.frame_countConfirmation o round
    rw [List.mem_singleton.1 h]
    exact ⟨_, rfl, fun other => absurd rfl (other o round), he⟩
  | storeProposal | stampRound | offerGate | abandon | storeConfirmation =>
    rw [List.mem_singleton.1 h]; exact ⟨_, rfl, fun _ => rfl, rfl⟩
  | _ => cases loud

/-- **A node keeps its name**, and what it has counted changes by counting only. -/
theorem tracker_of_perform {now : Nat} {n : Node} {a : Action} {step : Step} (h : step ∈ n.perform now a) :
    step.node.name = n.name ∧
      ((∀ o round, a ≠ .countConfirmation o round) → step.node.broadcast.tracker = n.broadcast.tracker) := by
  by_cases quiet : a.Quiet = true
  · have core := core_of_quiet quiet h
    exact ⟨congrArg Core.name core, fun _ => congrArg (fun c => c.broadcast.tracker) core⟩
  by_cases offers : ∃ sender r, a = .accept sender r
  · obtain ⟨sender, r, rfl⟩ := offers
    rw [List.mem_singleton.1 h]
    rcases n.core_accept sender r with core | ⟨-, core⟩ <;>
      exact ⟨congrArg Core.name core, fun _ => congrArg (fun c => c.broadcast.tracker) core⟩
  · have silent : ∀ sender r, a ≠ .accept sender r := fun sender r ha => offers ⟨sender, r, ha⟩
    obtain ⟨core, name, tracker, he⟩ := frame_of_loud (Bool.not_eq_true _ ▸ quiet) silent h
    have hcore : step.node.core = core := congrArg Frame.core he
    refine ⟨(congrArg Core.name hcore).trans name, fun other => ?_⟩
    exact (congrArg (fun c => c.broadcast.tracker) hcore).trans (tracker other)

/-! ## The store -/

/-- **What an action may do to the store of its node**: nothing, or put in a record with the next number, which is one
that it was offered or one of its own name.  Only one action makes confirmations. -/
inductive StoreChange (n : Node) : Action → Store → Prop where
  | same (a : Action) : StoreChange n a n.store
  | accepted (sender : PeerAddress) (r : Record) (id : r.id = n.store.nextId r.origin) :
    StoreChange n (.accept sender r) (n.store.push r)
  | made (a : Action) (r : Record) (origin : r.origin = n.name) (id : r.id = n.store.nextId r.origin)
      (confirms : ∀ m p, r = .proposal m → m.confirmed = some p →
        ∃ round clock, a = .storeConfirmation p round m.transaction clock) : StoreChange n a (n.store.push r)

/-- **An action changes the store in these ways only.** -/
theorem storeChange_of_perform {now : Nat} {n : Node} {a : Action} {step : Step} (h : step ∈ n.perform now a) :
    n.StoreChange a step.node.store := by
  have same : step.node.core.store = n.store → n.StoreChange a step.node.store := fun he => by
    rw [show step.node.store = n.store from he]; exact .same a
  by_cases quiet : a.Quiet = true
  · exact same (by rw [core_of_quiet quiet h]; rfl)
  cases a with
  | receive =>
    simp only [perform, receive] at h
    split at h
    · split at h
      · cases h
      · rw [List.mem_singleton.1 h]; exact .same _
    · rw [List.mem_singleton.1 h]; exact .same _
  | accept sender r =>
    rw [List.mem_singleton.1 h]
    rcases n.core_accept sender r with he | ⟨hid, he⟩
    · rw [show (n.accept sender r).node.store = n.store from congrArg Core.store he]; exact .same _
    · rw [show (n.accept sender r).node.store = n.store.push r from congrArg Core.store he]
      exact .accepted sender r hid
  | awaitHeartbeat tick =>
    simp only [perform, awaitHeartbeat] at h
    split at h
    · rw [List.mem_singleton.1 h]
      exact .made _ (.rumor ⟨n.name, n.store.nextId n.name, ""⟩) rfl rfl (fun _ _ hr => nomatch hr)
    · cases h
  | storeProposal call tx clock =>
    rw [List.mem_singleton.1 h]
    refine .made _ (.proposal ⟨n.name, n.store.nextId n.name, none, Word256.zero, tx, clock⟩) rfl rfl ?_
    intro m p hr hp
    obtain rfl := Record.proposal.inj hr
    cases hp
  | storeConfirmation id round tx clock =>
    rw [List.mem_singleton.1 h]
    refine .made _ (.proposal ⟨n.name, n.store.nextId n.name, some id, Word256.zero, tx, clock⟩) rfl rfl ?_
    intro m p hr hp
    obtain rfl := Record.proposal.inj hr
    obtain rfl := Option.some.inj hp
    exact ⟨round, clock, rfl⟩
  | publish =>
    simp only [perform, publish] at h
    split at h
    · cases h
    · rename_i b candidates _
      rw [List.mem_singleton.1 h]
      exact .made _ (.block ⟨n.name, n.store.nextId n.name, b, n.auth.prove n.nonce⟩) rfl rfl
        (fun _ _ hr => nomatch hr)
  | stampRound o id round purpose => rw [List.mem_singleton.1 h]; exact .same _
  | offerGate o id round via => rw [List.mem_singleton.1 h]; exact .same _
  | countAck ack =>
    rcases n.countAck_cases ack with he | ⟨ws, -, -, he⟩ <;>
    · refine same ?_
      rw [List.mem_singleton.1 h, he]; rfl
  | startCollection call r round tx =>
    obtain ⟨acks, waiting, he⟩ := n.frame_startCollection call r round tx
    exact same (by rw [List.mem_singleton.1 h]; exact congrArg (fun f => f.core.store) he)
  | awaitMajority r round tx tick =>
    refine same ?_
    simp only [perform, awaitMajority, List.mem_append] at h
    rcases h with h | h
    · split at h
      · rw [List.mem_singleton.1 h]; rfl
      · cases h
    · split at h
      · rw [List.mem_singleton.1 h]; split <;> rfl
      · cases h
  | abandon id => rw [List.mem_singleton.1 h]; exact .same _
  | countConfirmation o round =>
    obtain ⟨tracker, gate, he⟩ := n.frame_countConfirmation o round
    exact same (by rw [List.mem_singleton.1 h]; exact congrArg (fun f => f.core.store) he)
  | _ => exact absurd rfl quiet

end Node
end GossipNode
