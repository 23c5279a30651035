import GossipNode.Proofs.Network.Machines
/-!
# What each action changes

`Node.CoreChange` says once, for every action, what the core of a node is after it: all invariants of proposals and
rounds are read off this list (`coreChange_of_perform`).

The backdrop lies outside the core: on the desk, the queue of proposals and whether the node is down; on the shelf, the
topics and the blocks that wait to be announced.  Only calls to propose and the sender of proposals touch the queue
(`desk_of_perform`), and only what has to do with topics and blocks touches the shelf (`shelf_of_perform`).
-/
namespace GossipNode

/-- Actions that have to do with topics or with the blocks that wait to be announced. -/
def Action.Shelves : Action → Bool
  | .openTopic _ | .feed _ | .publish | .seekBallot .. | .collect .. | .decide .. => true
  | _ => false

namespace Node

/-- The record of a proposal made here for a transaction. -/
def proposalOf (n : Node) (tx : Transaction) (clock : Option StatusReport) : Record :=
  .proposal ⟨n.name, n.store.nextId n.name, none, Word256.zero, tx, clock⟩

/-- The record that confirms an own proposal. -/
def confirmationOf (n : Node) (id : SequenceId) (tx : Transaction) (clock : Option StatusReport) : Record :=
  .proposal ⟨n.name, n.store.nextId n.name, some id, Word256.zero, tx, clock⟩

/-- **What an action makes of the core of its node.** -/
inductive CoreChange (n : Node) : Action → Core → Prop where
  | same (a : Action) : CoreChange n a n.core
  | received (inbox : List (PeerAddress × Packet)) : CoreChange n .receive { n.core with inbox }
  | accepted {sender : PeerAddress} {r : Record} (id : r.id = n.store.nextId r.origin) :
    CoreChange n (.accept sender r) { n.core with store := n.store.push r }
  | made (a : Action) {r : Record} (origin : r.origin = n.name) (id : r.id = n.store.nextId r.origin)
      (other : ∀ m, r ≠ .proposal m) : CoreChange n a { n.core with store := n.store.push r }
  | proposed {call : Nat} {tx : Transaction} {clock : Option StatusReport} :
    CoreChange n (.storeProposal call tx clock) { n.core with store := n.store.push (n.proposalOf tx clock) }
  | confirmed {id : SequenceId} {round : UInt32} {tx : Transaction} {clock : Option StatusReport} :
    CoreChange n (.storeConfirmation id round tx clock)
      { n.core with store := n.store.push (n.confirmationOf id tx clock) }
  | stamped {o : Origin} {id : SequenceId} {round : UInt32} {purpose : RoundPurpose} :
    CoreChange n (.stampRound o id round purpose)
      { n.core with broadcast := { n.broadcast with clock := n.broadcast.clock.record o id round } }
  | offered {o : Origin} {id : SequenceId} {round : UInt32} {via : PeerAddress} :
    CoreChange n (.offerGate o id round via)
      { n.core with broadcast := { n.broadcast with gate := (n.broadcast.gate.offer round (o, id)).2 } }
  | counted {ack : Ack}
      (few : ∀ ws, (n.broadcast.acks.recordAck ack.id ack.origin).1 = .majority ws →
        n.broadcast.waiting.contains ack.id = false) :
    CoreChange n (.countAck ack)
      { n.core with broadcast := { n.broadcast with acks := (n.broadcast.acks.recordAck ack.id ack.origin).2 } }
  | elected {ack : Ack} {ws : List Origin} (enough : (n.broadcast.acks.recordAck ack.id ack.origin).1 = .majority ws)
      (awaited : n.broadcast.waiting.contains ack.id = true) :
    CoreChange n (.countAck ack)
      { n.core with
        broadcast := { n.broadcast with
          acks := (n.broadcast.acks.recordAck ack.id ack.origin).2
          waiting := n.broadcast.waiting.erase ack.id }
        majorities := SortedSet.add n.majorities ack.id }
  | opened {call : Nat} {r : Record} {round : UInt32} {tx : Transaction} {progress : AckProgress} {acks : AckCollector}
      (h : n.broadcast.acks.start r.id = .ok (progress, acks)) (few : ∀ ws, progress ≠ .majority ws) :
    CoreChange n (.startCollection call r round tx)
      { n.core with broadcast := { n.broadcast with acks, waiting := SortedSet.add n.broadcast.waiting r.id } }
  | decided {call : Nat} {r : Record} {round : UInt32} {tx : Transaction} {ws : List Origin} {acks : AckCollector}
      (h : n.broadcast.acks.start r.id = .ok (.majority ws, acks)) :
    CoreChange n (.startCollection call r round tx) { n.core with broadcast := { n.broadcast with acks } }
  | noticed {r : Record} {round : UInt32} {tx : Transaction} {tick : Nat} (h : n.majorities.contains r.id = true) :
    CoreChange n (.awaitMajority r round tx tick) { n.core with majorities := n.majorities.erase r.id }
  | abandoned {id : SequenceId} :
    CoreChange n (.abandon id)
      { n.core with broadcast := { n.broadcast with
        acks := (n.broadcast.acks.abandon id).2
        waiting := n.broadcast.waiting.erase id } }
  | closed {o : Origin} {round : UInt32} :
    CoreChange n (.countConfirmation o round)
      { n.core with broadcast := { n.broadcast with
        tracker := (n.broadcast.tracker.recordConfirmation o round).2
        gate := if (n.broadcast.tracker.recordConfirmation o round).1 = [] then n.broadcast.gate
          else (n.broadcast.gate.advanceTo (n.broadcast.tracker.recordConfirmation o round).2.current).2 } }

variable {n : Node}

theorem coreChange_countAck (n : Node) (ack : Ack) : n.CoreChange (.countAck ack) (n.countAck ack).node.core := by
  have counted := @CoreChange.counted n ack
  have elected := @CoreChange.elected n ack
  unfold countAck
  generalize n.broadcast.acks.recordAck ack.id ack.origin = recorded at counted elected ⊢
  obtain ⟨progress, acks⟩ := recorded
  cases progress with
  | ignored => exact counted (fun _ h => nomatch h)
  | pending count => exact counted (fun _ h => nomatch h)
  | majority ws =>
    by_cases awaited : n.broadcast.waiting.contains ack.id = true
    · simp only [awaited, Bool.and_self, if_true]
      exact elected rfl awaited
    · have few := Bool.not_eq_true _ ▸ awaited
      simp only [few, Bool.and_false, Bool.false_eq_true, if_false]
      exact counted (fun _ _ => few)

theorem coreChange_startCollection (n : Node) (call : Nat) (r : Record) (round : UInt32) (tx : Transaction) :
    n.CoreChange (.startCollection call r round tx) (n.startCollection call r round tx).node.core := by
  unfold startCollection
  split
  · rw [show ((n.reply call _).rest).node.core = n.core from core_of_frame (n.frame_reply _ _)]
    exact .same _
  · rename_i progress acks h
    rw [core_of_frame (frame_reply _ _ _)]
    cases progress with
    | majority ws => exact .decided h
    | ignored => exact .opened h (fun _ h => nomatch h)
    | pending count => exact .opened h (fun _ h => nomatch h)

theorem core_countConfirmation (n : Node) (o : Origin) (round : UInt32) :
    (n.countConfirmation o round).node.core =
      { n.core with broadcast := { n.broadcast with
        tracker := (n.broadcast.tracker.recordConfirmation o round).2
        gate := if (n.broadcast.tracker.recordConfirmation o round).1 = [] then n.broadcast.gate
          else (n.broadcast.gate.advanceTo (n.broadcast.tracker.recordConfirmation o round).2.current).2 } } := by
  unfold countConfirmation
  generalize n.broadcast.tracker.recordConfirmation o round = recorded
  obtain ⟨rounds, tracker⟩ := recorded
  cases rounds with
  | nil => rfl
  | cons c rounds => exact core_of_frame (frame_foldl_emit _ _ _)

theorem gate_countConfirmation (n : Node) (o : Origin) (round : UInt32) :
    (n.countConfirmation o round).node.broadcast.gate =
      if (n.broadcast.tracker.recordConfirmation o round).1 = [] then n.broadcast.gate
      else (n.broadcast.gate.advanceTo (n.broadcast.tracker.recordConfirmation o round).2.current).2 :=
  congrArg (fun c => c.broadcast.gate) (n.core_countConfirmation o round)

theorem round_countConfirmation (n : Node) (o : Origin) (round : UInt32) :
    (n.countConfirmation o round).node.round = (n.broadcast.tracker.recordConfirmation o round).2.current :=
  congrArg (fun c => c.broadcast.tracker.current) (n.core_countConfirmation o round)

theorem store_countConfirmation (n : Node) (o : Origin) (round : UInt32) :
    (n.countConfirmation o round).node.store = n.store :=
  congrArg Core.store (n.core_countConfirmation o round)

/-- **An action changes the core in these ways only.** -/
theorem coreChange_of_perform {now : Nat} {a : Action} {step : Step} (h : step ∈ n.perform now a) :
    n.CoreChange a step.node.core := by
  by_cases quiet : a.Quiet = true
  · rw [core_of_quiet quiet h]
    exact .same a
  cases a with
  | receive =>
    simp only [perform, receive] at h
    split at h
    · split at h
      · cases h
      · rw [List.mem_singleton.1 h]; exact .same _
    · rw [List.mem_singleton.1 h]; exact .received _
  | accept sender r =>
    rw [List.mem_singleton.1 h]
    rcases n.core_accept sender r with he | ⟨hid, he⟩
    · rw [he]; exact .same _
    · rw [he]; exact .accepted hid
  | awaitHeartbeat tick =>
    simp only [perform, awaitHeartbeat] at h
    split at h
    · rw [List.mem_singleton.1 h]
      exact .made _ (r := .rumor ⟨n.name, n.store.nextId n.name, ""⟩) rfl rfl (fun _ he => by cases he)
    · cases h
  | publish =>
    simp only [perform, publish] at h
    split at h
    · cases h
    · rename_i b candidates _
      rw [List.mem_singleton.1 h]
      exact .made _ (r := .block ⟨n.name, n.store.nextId n.name, b, n.auth.prove n.nonce⟩) rfl rfl
        (fun _ he => by cases he)
  | storeProposal => rw [List.mem_singleton.1 h]; exact .proposed
  | storeConfirmation => rw [List.mem_singleton.1 h]; exact .confirmed
  | stampRound => rw [List.mem_singleton.1 h]; exact .stamped
  | offerGate => rw [List.mem_singleton.1 h]; exact .offered
  | abandon => rw [List.mem_singleton.1 h]; exact .abandoned
  | countAck ack => rw [List.mem_singleton.1 h]; exact n.coreChange_countAck ack
  | startCollection call r round tx => rw [List.mem_singleton.1 h]; exact n.coreChange_startCollection call r round tx
  | countConfirmation o round => rw [List.mem_singleton.1 h, n.core_countConfirmation]; exact .closed
  | awaitMajority r round tx tick =>
    simp only [perform, awaitMajority, List.mem_append] at h
    rcases h with h | h
    · split at h
      · rename_i hm
        rw [List.mem_singleton.1 h]; exact .noticed hm
      · cases h
    · split at h
      · rw [List.mem_singleton.1 h]
        split <;> exact .same _
      · cases h
  | _ => exact absurd rfl quiet

/-- **A node keeps its name and its configuration.** -/
theorem kept_of_perform {now : Nat} {a : Action} {step : Step} (h : step ∈ n.perform now a) :
    step.node.name = n.name ∧ step.node.config = n.config := by
  have change := coreChange_of_perform h
  have kept : ∀ core, n.CoreChange a core → core.name = n.name ∧ core.config = n.config := by
    intro core change
    cases change <;> exact ⟨rfl, rfl⟩
  exact kept _ change

/-! ## What most actions leave alone -/

/-- Proposals that wait for their round, and whether tasks may be started. -/
structure Desk where
  queue : List (Nat × Transaction)
  down : Bool

def desk (n : Node) : Desk := ⟨n.proposalQueue, n.down⟩

/-- The topics and the blocks that wait to be announced, with the name that these carry. -/
structure Shelf where
  name : Origin
  topics : SortedMap String Topic
  candidates : List Block

def shelf (n : Node) : Shelf := ⟨n.name, n.topics, n.candidates⟩

structure Backdrop where
  desk : Desk
  shelf : Shelf

def backdrop (n : Node) : Backdrop := ⟨n.desk, n.shelf⟩

theorem backdrop_learnPeer (n : Node) (p : PeerAddress) : (n.learnPeer p).backdrop = n.backdrop := by
  unfold learnPeer
  split <;> rfl

theorem backdrop_reply (n : Node) (call : Nat) (r : Except NodeError SequenceId) : (n.reply call r).backdrop = n.backdrop := by
  unfold reply
  split <;> rfl

theorem backdrop_deliverHere (n : Node) (p : Packet) : (n.deliverHere p).node.backdrop = n.backdrop := by
  cases p <;> rfl

theorem backdrop_forward (n : Node) (d : Origin) (p : Packet) : (n.forward d p).node.backdrop = n.backdrop := by
  unfold forward
  split <;> rfl

theorem backdrop_originate (n : Node) (p : Packet) : (n.originate p).2.node.backdrop = n.backdrop := by
  unfold originate
  split
  · rfl
  · split
    · exact n.backdrop_deliverHere p
    · exact n.backdrop_forward _ p

theorem backdrop_relay (n : Node) (d : Origin) (p : Packet) : (n.relay d p).node.backdrop = n.backdrop := by
  unfold relay
  split
  · exact n.backdrop_deliverHere p
  · split <;> rfl

theorem backdrop_handle (n : Node) (sender : PeerAddress) (p : Packet) : (n.handle sender p).node.backdrop = n.backdrop := by
  unfold handle
  split
  · rfl
  · split <;> rfl
  · split
    · exact n.backdrop_relay _ p
    · rfl
    · rfl

theorem backdrop_announce (n : Node) (r : Record) : (n.announce r).backdrop = n.backdrop := by
  unfold announce
  split
  · split <;> rfl
  · split <;> rfl
  · rfl

theorem backdrop_accept (n : Node) (sender : PeerAddress) (r : Record) : (n.accept sender r).node.backdrop = n.backdrop := by
  unfold accept
  split
  · rfl
  · split
    · exact backdrop_announce _ r
    · rfl

theorem backdrop_flipToGoOn (n : Node) (r : Record) (last : PeerAddress) : (n.flipToGoOn r last).node.backdrop = n.backdrop := by
  simp only [flipToGoOn]
  split <;> rfl

theorem backdrop_awaitNotice {now : Nat} {r : Record} {p : PeerAddress} {ticket deadline : Nat} {step : Step}
    (h : step ∈ n.awaitNotice now r p ticket deadline) : step.node.backdrop = n.backdrop := by
  simp only [awaitNotice, List.mem_append, Option.mem_toList, Option.map_eq_some_iff] at h
  rcases h with ⟨notice, -, rfl⟩ | h
  · split
    · exact backdrop_flipToGoOn _ r p
    · rfl
  · split at h
    · obtain rfl := Option.some.inj h; rfl
    · cases h

theorem backdrop_startCollection (n : Node) (call : Nat) (r : Record) (round : UInt32) (tx : Transaction) :
    (n.startCollection call r round tx).node.backdrop = n.backdrop := by
  unfold startCollection
  split
  · exact n.backdrop_reply _ _
  · exact backdrop_reply _ _ _

theorem backdrop_awaitMajority {now : Nat} {r : Record} {round : UInt32} {tx : Transaction} {tick : Nat} {step : Step}
    (h : step ∈ n.awaitMajority now r round tx tick) : step.node.backdrop = n.backdrop := by
  simp only [awaitMajority, List.mem_append] at h
  rcases h with h | h
  · split at h
    · rw [List.mem_singleton.1 h]; rfl
    · cases h
  · split at h
    · rw [List.mem_singleton.1 h]
      split <;> rfl
    · cases h

theorem backdrop_foldl_emit (l : List RoundClosed) (e : RoundClosed → NodeEvent) (n : Node) :
    (l.foldl (fun n c => n.emit (e c)) n).backdrop = n.backdrop := by
  induction l generalizing n with
  | nil => rfl
  | cons c l ih => exact ih (n.emit (e c))

theorem backdrop_countConfirmation (n : Node) (o : Origin) (round : UInt32) :
    (n.countConfirmation o round).node.backdrop = n.backdrop := by
  unfold countConfirmation
  split
  · rfl
  · exact backdrop_foldl_emit _ _ _

/-- **Only proposing touches the desk, and only topics and blocks the shelf.** -/
theorem backdrop_of_perform {now : Nat} {a : Action} {step : Step} (h : step ∈ n.perform now a)
    (calls : ∀ call tx, a ≠ .propose call tx) (takes : a ≠ .takeProposal) (other : a.Shelves = false) :
    step.node.backdrop = n.backdrop := by
  cases a with
  | openTopic | feed | publish | seekBallot | collect | decide => cases other
  | receive =>
    simp only [perform, receive] at h
    split at h
    · split at h
      · cases h
      · rw [List.mem_singleton.1 h]; rfl
    · rw [List.mem_singleton.1 h]; rfl
  | handle sender p => rw [List.mem_singleton.1 h]; exact n.backdrop_handle sender p
  | learn peer => rw [List.mem_singleton.1 h]; exact n.backdrop_learnPeer peer
  | accept sender r => rw [List.mem_singleton.1 h]; exact n.backdrop_accept sender r
  | passOn | compareStatus | settle | sendRecord | pushStatus | startProposal | storeProposal | stampRound | offerGate
  | drive | abandon | confirm | storeConfirmation => rw [List.mem_singleton.1 h]; rfl
  | applyRoute =>
    simp only [perform, applyRoute] at h
    split at h
    · cases h
    · rw [List.mem_singleton.1 h]; rfl
  | forward d p => rw [List.mem_singleton.1 h]; exact n.backdrop_forward d p
  | chooseTarget r excluded =>
    rw [List.mem_singleton.1 h]
    simp only [chooseTarget]
    split <;> rfl
  | awaitNotice => exact backdrop_awaitNotice h
  | giveUp r peer ticket => rw [List.mem_singleton.1 h]; exact backdrop_flipToGoOn _ r peer
  | awaitPush tick =>
    simp only [perform, awaitPush] at h
    split at h
    · rw [List.mem_singleton.1 h]; rfl
    · cases h
  | awaitHeartbeat tick =>
    simp only [perform, awaitHeartbeat] at h
    split at h
    · rw [List.mem_singleton.1 h]; rfl
    · cases h
  | propose call tx => exact absurd rfl (calls call tx)
  | takeProposal => exact absurd rfl takes
  | awaitRound call tx =>
    rw [List.mem_singleton.1 h]
    unfold awaitRound
    split <;> rfl
  | awaitRoundChange seen call tx =>
    simp only [perform, awaitRoundChange] at h
    split at h
    · cases h
    · rw [List.mem_singleton.1 h]; rfl
  | findRound o id purpose =>
    rw [List.mem_singleton.1 h]
    unfold findRound
    split
    · rfl
    · exact n.backdrop_reply _ _
    · rfl
  | acknowledge o id via =>
    rw [List.mem_singleton.1 h]
    unfold acknowledge
    split <;> rfl
  | countAck ack => rcases n.countAck_cases ack with he | ⟨ws, -, -, he⟩ <;> · rw [List.mem_singleton.1 h, he]; rfl
  | startCollection call r round tx => rw [List.mem_singleton.1 h]; exact n.backdrop_startCollection call r round tx
  | awaitMajority => exact backdrop_awaitMajority h
  | checkRound r round tx tick =>
    rw [List.mem_singleton.1 h]
    unfold checkRound
    split <;> rfl
  | countConfirmation o round => rw [List.mem_singleton.1 h]; exact n.backdrop_countConfirmation o round
  | pause t round stash deadline =>
    simp only [perform, pause] at h
    split at h
    · rw [List.mem_singleton.1 h]; rfl
    · cases h

theorem desk_openTopic (n : Node) (t : String) : (n.openTopic t).node.desk = n.desk := by
  unfold openTopic
  split <;> rfl

theorem desk_collect {t : String} {stash : RoundStash} {c : RoundCollector} {step : Step}
    (h : step ∈ n.collect t stash c) : step.node.desk = n.desk := by
  simp only [collect] at h
  split at h
  · rw [List.mem_singleton.1 h]; rfl
  · split at h
    · cases h
    · split at h
      · rw [List.mem_singleton.1 h]; rfl
      · split at h <;> · rw [List.mem_singleton.1 h]; rfl

/-- **Only calls to propose and the sender of proposals touch the queue.** -/
theorem desk_of_perform {now : Nat} {a : Action} {step : Step} (h : step ∈ n.perform now a)
    (calls : ∀ call tx, a ≠ .propose call tx) (takes : a ≠ .takeProposal) : step.node.desk = n.desk := by
  by_cases other : a.Shelves = false
  · exact congrArg Backdrop.desk (backdrop_of_perform h calls takes other)
  cases a with
  | openTopic t => rw [List.mem_singleton.1 h]; exact n.desk_openTopic t
  | feed b =>
    rw [List.mem_singleton.1 h]
    simp only [feedBlock]
    split <;> rfl
  | publish =>
    simp only [perform, publish] at h
    split at h
    · cases h
    · rw [List.mem_singleton.1 h]; rfl
  | seekBallot t round stash =>
    rw [List.mem_singleton.1 h]
    simp only [seekBallot]
    split <;> rfl
  | collect => exact desk_collect h
  | decide t stash c =>
    rw [List.mem_singleton.1 h]
    simp only [decide]
    split <;> rfl
  | _ => exact absurd rfl other

/-- **Only topics, and the blocks that wait, touch the shelf.** -/
theorem shelf_of_perform {now : Nat} {a : Action} {step : Step} (h : step ∈ n.perform now a)
    (other : a.Shelves = false) : step.node.shelf = n.shelf := by
  by_cases takes : a = .takeProposal
  · subst a
    simp only [perform, takeProposal] at h
    split at h
    · cases h
    · rw [List.mem_singleton.1 h]; rfl
  by_cases calls : ∃ call tx, a = .propose call tx
  · obtain ⟨call, tx, rfl⟩ := calls
    rw [List.mem_singleton.1 h]
    unfold propose
    split
    · rfl
    · split
      · exact congrArg Backdrop.shelf (n.backdrop_reply call _)
      · rfl
  · exact congrArg Backdrop.shelf (backdrop_of_perform h (fun call tx he => calls ⟨call, tx, he⟩) takes other)

/-! ## Without an action -/

theorem desk_answer (n : Node) (q : Request) : (n.answer q).node.desk = n.desk := by
  cases q with
  | postRumor text => rfl
  | sendPrivate d text => exact congrArg Backdrop.desk (n.backdrop_originate _)
  | sendRouted p => exact congrArg Backdrop.desk (n.backdrop_originate p)
  | propose tx => rfl
  | giveUpCall call => rfl
  | addPeer p => exact congrArg Backdrop.desk (n.backdrop_learnPeer p)
  | submitBallot t b =>
    show (n.openTopic t).node.desk = n.desk
    exact n.desk_openTopic t

theorem backdrop_arrive {n' : Node} {room : Nat} {sender : PeerAddress} {p : Packet}
    (h : n.arrive room sender p = some n') : n'.backdrop = n.backdrop := by
  unfold arrive at h
  split at h
  · rw [← Option.some.inj h]; rfl
  · cases h

theorem backdrop_shutdown (n : Node) : n.shutdown.backdrop = ⟨{ n.desk with down := true }, n.shelf⟩ := by
  have replies : ∀ (l : List Nat) (e : Except NodeError SequenceId) (n : Node),
      (l.foldl (fun n call => n.reply call e) n).backdrop = n.backdrop := by
    intro l e
    induction l with
    | nil => exact fun _ => rfl
    | cons c l ih => exact fun n => (ih _).trans (n.backdrop_reply c e)
  simp only [shutdown]
  split
  · exact replies _ _ _
  · rfl

theorem desk_new {c : Config} {address : PeerAddress} {random : RandomSource} {auth : Authenticator} {n : Node}
    (h : Node.new c address random auth = .ok n) : n.desk = ⟨[], false⟩ := by
  obtain ⟨hv, ht⟩ := checks_of_new h
  unfold Node.new at h
  rw [hv, ht] at h
  rw [← Except.ok.inj h]
  rfl

end Node
end GossipNode
