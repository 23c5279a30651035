import GossipNode.Proofs.Network.Machines
/-!
# What follows an action

A task goes on with what an action leaves to it, and an action may start tasks.  `Node.Follows` lists which actions an
action may leave to be done, each with what the node has looked up for it.  What holds of all that tasks are about to do
is read off this list.
-/
namespace GossipNode

/-- What a step leaves to be done, by the task itself and by the tasks that it starts. -/
def Step.todo (s : Step) : List Action := s.next ++ (s.effects.filterMap Effect.script?).flatten

theorem Step.mem_todo_of_started {s : Step} {script : List Action} {a : Action} (hs : script ∈ s.started)
    (ha : a ∈ script) : a ∈ s.todo := by
  unfold Step.started at hs
  split at hs
  · cases hs
  · exact List.mem_append_right _ (List.mem_flatten.2 ⟨script, hs, ha⟩)

namespace Node

/-- **What may follow an action**, from one section of the program to the next: packets, records, reports; spreading
records; proposals and their rounds; confirmations; ledgers. -/
inductive Follows (n : Node) : Action → Action → Prop where
  | receive : Follows n .receive .receive
  | dispatch {sender : PeerAddress} {p : Packet} (h : (sender, p) ∈ n.inbox) : Follows n .receive (.handle sender p)
  | learn {sender : PeerAddress} {p : Packet} : Follows n (.handle sender p) (.learn sender)
  | compare {sender : PeerAddress} {s : StatusReport} :
    Follows n (.handle sender (.status s)) (.compareStatus sender s.toVector)
  | countAck {sender : PeerAddress} {a : Ack} (h : a.destination = n.name) :
    Follows n (.handle sender (.ack a)) (.countAck a)
  | forward {sender : PeerAddress} {p : Packet} {d : Origin} (h : p.destination? = some d) (other : d ≠ n.name) :
    Follows n (.handle sender p) (.forward d p.spendHop.2)
  | offer {sender : PeerAddress} {p : Packet} {r : Record} (h : Record.ofPacket? p = some r) :
    Follows n (.handle sender p) (.accept sender r)
  | findProposal {sender : PeerAddress} {m : Proposal} (new : m.id = n.store.nextId m.origin) (h : m.confirmed = none) :
    Follows n (.accept sender (.proposal m)) (.findRound m.origin m.id (.acknowledge sender))
  | findConfirmed {sender : PeerAddress} {m : Proposal} {id : SequenceId} (new : m.id = n.store.nextId m.origin)
      (h : m.confirmed = some id) : Follows n (.accept sender (.proposal m)) (.findRound m.origin id .confirm)
  | openTopic {sender : PeerAddress} {b : BlockAnnouncement} (new : b.id = n.store.nextId b.origin) :
    Follows n (.accept sender (.block b)) (.openTopic b.block.topic)
  | feed {sender : PeerAddress} {b : BlockAnnouncement} (new : b.id = n.store.nextId b.origin) :
    Follows n (.accept sender (.block b)) (.feed b.block)
  | passOn {sender : PeerAddress} {r : Record} (new : r.id = n.store.nextId r.origin) (report : StatusReport) :
    Follows n (.accept sender r) (.passOn sender r report)
  | spread {sender : PeerAddress} {r : Record} {report : StatusReport} :
    Follows n (.passOn sender r report) (.chooseTarget r [sender])
  | settle {sender : PeerAddress} {v : StatusVector} :
    Follows n (.compareStatus sender v) (.settle sender v (n.store.reconcile v).isInSync (statusAnswer n.store v))
  | push {sender : PeerAddress} {v : StatusVector} {inSync : Bool} {r : Record} :
    Follows n (.settle sender v inSync (.push r)) (.sendRecord r sender)
  | applyRoute : Follows n .applyRoute .applyRoute
  | sendRecord {r : Record} {excluded : List PeerAddress} (p : PeerAddress) :
    Follows n (.chooseTarget r excluded) (.sendRecord r p)
  | awaitNotice {r : Record} {p : PeerAddress} (ticket deadline : Nat) :
    Follows n (.sendRecord r p) (.awaitNotice r p ticket deadline)
  | goOn {r : Record} {p : PeerAddress} {ticket deadline : Nat} :
    Follows n (.awaitNotice r p ticket deadline) (.chooseTarget r [p])
  | giveUp {r : Record} {p : PeerAddress} {ticket deadline : Nat} :
    Follows n (.awaitNotice r p ticket deadline) (.giveUp r p ticket)
  | goOnWithout {r : Record} {p : PeerAddress} {ticket : Nat} : Follows n (.giveUp r p ticket) (.chooseTarget r [p])
  | pushStatus {tick : Nat} (p : PeerAddress) : Follows n (.awaitPush tick) (.pushStatus p)
  | awaitPush {tick : Nat} (tick' : Nat) : Follows n (.awaitPush tick) (.awaitPush tick')
  | awaitHeartbeat {tick : Nat} (tick' : Nat) : Follows n (.awaitHeartbeat tick) (.awaitHeartbeat tick')
  | heartbeat {tick : Nat} :
    Follows n (.awaitHeartbeat tick) (.chooseTarget (.rumor ⟨n.name, n.store.nextId n.name, ""⟩) [])
  | startNow {call : Nat} {tx : Transaction} (h : n.config.strictRounds = false) :
    Follows n (.propose call tx) (.startProposal call tx)
  | takeProposal : Follows n .takeProposal .takeProposal
  | awaitRound {call : Nat} {tx : Transaction} (h : (call, tx) ∈ n.proposalQueue) :
    Follows n .takeProposal (.awaitRound call tx)
  | startInRound {call : Nat} {tx : Transaction} (h : n.broadcast.clock.nextRound n.name ≤ n.round) :
    Follows n (.awaitRound call tx) (.startProposal call tx)
  | awaitRoundChange {call : Nat} {tx : Transaction} (h : ¬ n.broadcast.clock.nextRound n.name ≤ n.round) :
    Follows n (.awaitRound call tx) (.awaitRoundChange n.roundChanges call tx)
  | roundChanged {seen call : Nat} {tx : Transaction} : Follows n (.awaitRoundChange seen call tx) (.awaitRound call tx)
  | storeProposal {call : Nat} {tx : Transaction} :
    Follows n (.startProposal call tx) (.storeProposal call tx n.vectorClock)
  | findOwn {call : Nat} {tx : Transaction} {clock : Option StatusReport} :
    Follows n (.storeProposal call tx clock) (.findRound n.name (n.store.nextId n.name)
      (.collect call (.proposal ⟨n.name, n.store.nextId n.name, none, Word256.zero, tx, clock⟩) tx))
  | found {o : Origin} {id : SequenceId} {purpose : RoundPurpose} {round : UInt32}
      (h : n.store.proposalRound o id = some round) : Follows n (.findRound o id purpose) (.stampRound o id round purpose)
  | stamped {o : Origin} {id : SequenceId} {round : UInt32} {purpose : RoundPurpose} :
    Follows n (.stampRound o id round purpose) (afterStamp n.config o id round purpose)
  | letThrough {o : Origin} {id : SequenceId} {round : UInt32} {via : PeerAddress}
      (h : round ≤ n.broadcast.gate.current) : Follows n (.offerGate o id round via) (.acknowledge o id (some via))
  | drive {call : Nat} {r : Record} {round : UInt32} {tx : Transaction} (decided : Bool) :
    Follows n (.startCollection call r round tx) (.drive r round tx decided)
  | confirmNow {r : Record} {round : UInt32} {tx : Transaction} :
    Follows n (.drive r round tx true) (.confirm r.id round tx)
  | awaitMajority {r : Record} {round : UInt32} {tx : Transaction} (tick : Nat) :
    Follows n (.drive r round tx false) (.awaitMajority r round tx tick)
  | spreadProposal {r : Record} {round : UInt32} {tx : Transaction} {decided : Bool} :
    Follows n (.drive r round tx decided) (.chooseTarget r [])
  | confirm {r : Record} {round : UInt32} {tx : Transaction} {tick : Nat} (h : n.majorities.contains r.id = true) :
    Follows n (.awaitMajority r round tx tick) (.confirm r.id round tx)
  | checkRound {r : Record} {round : UInt32} {tx : Transaction} {tick : Nat} :
    Follows n (.awaitMajority r round tx tick) (.checkRound r round tx tick)
  | insist {r : Record} {round : UInt32} {tx : Transaction} {tick : Nat} (tick' : Nat) :
    Follows n (.awaitMajority r round tx tick) (.awaitMajority r round tx tick')
  | spreadAgain {r : Record} {round : UInt32} {tx : Transaction} {tick : Nat} :
    Follows n (.awaitMajority r round tx tick) (.chooseTarget r [])
  | abandon {r : Record} {round : UInt32} {tx : Transaction} {tick : Nat} (h : round < n.round) :
    Follows n (.checkRound r round tx tick) (.abandon r.id)
  | insistInRound {r : Record} {round : UInt32} {tx : Transaction} {tick : Nat} (tick' : Nat) :
    Follows n (.checkRound r round tx tick) (.awaitMajority r round tx tick')
  | spreadInRound {r : Record} {round : UInt32} {tx : Transaction} {tick : Nat} :
    Follows n (.checkRound r round tx tick) (.chooseTarget r [])
  | storeConfirmation {id : SequenceId} {round : UInt32} {tx : Transaction} :
    Follows n (.confirm id round tx) (.storeConfirmation id round tx n.vectorClock)
  | countOwn {id : SequenceId} {round : UInt32} {tx : Transaction} {clock : Option StatusReport} :
    Follows n (.storeConfirmation id round tx clock) (.countConfirmation n.name round)
  | spreadConfirmation {id : SequenceId} {round : UInt32} {tx : Transaction} {clock : Option StatusReport} :
    Follows n (.storeConfirmation id round tx clock)
      (.chooseTarget (.proposal ⟨n.name, n.store.nextId n.name, some id, Word256.zero, tx, clock⟩) [])
  | release {o : Origin} {round : UInt32} (o' : Origin) (id : SequenceId) :
    Follows n (.countConfirmation o round) (.acknowledge o' id none)
  | startDriver {t : String} : Follows n (.openTopic t) (.seekBallot t 1 .empty)
  | publish : Follows n .publish .publish
  | spreadBlock (r : Record) : Follows n .publish (.chooseTarget r [])
  | collect {t : String} {round : UInt32} {stash : RoundStash} (stash' : RoundStash) (c : RoundCollector) :
    Follows n (.seekBallot t round stash) (.collect t stash' c)
  | pause {t : String} {round : UInt32} {stash : RoundStash} (stash' : RoundStash) (deadline : Nat) :
    Follows n (.seekBallot t round stash) (.pause t round stash' deadline)
  | resume {t : String} {round : UInt32} {stash : RoundStash} {deadline : Nat} :
    Follows n (.pause t round stash deadline) (.seekBallot t round stash)
  | collectOn {t : String} {stash : RoundStash} {c : RoundCollector} (stash' : RoundStash) (c' : RoundCollector) :
    Follows n (.collect t stash c) (.collect t stash' c')
  | decide {t : String} {stash : RoundStash} {c : RoundCollector} (h : c.isComplete = true) :
    Follows n (.collect t stash c) (.decide t stash c)
  | nextRound {t : String} {stash : RoundStash} {c : RoundCollector} :
    Follows n (.decide t stash c) (.seekBallot t (c.round + 1) stash)

variable {n : Node} {a : Action}

/-! ## Packets and records -/

theorem follows_receive {step : Step} (h : step ∈ n.receive) (ha : a ∈ step.todo) : n.Follows .receive a := by
  unfold receive at h
  split at h
  · split at h
    · cases h
    · rw [List.mem_singleton.1 h] at ha
      cases ha
  · rename_i sender p inbox hin
    rw [List.mem_singleton.1 h] at ha
    rcases List.mem_cons.1 ha with rfl | ha
    · exact .receive
    · obtain rfl := List.mem_singleton.1 ha
      exact .dispatch (by rw [hin]; exact List.mem_cons_self)

theorem follows_relay {sender : PeerAddress} {d : Origin} {p : Packet} (hd : p.destination? = some d)
    (ha : a ∈ (n.relay d p).todo) : n.Follows (.handle sender p) a := by
  unfold relay at ha
  split at ha
  · rename_i here
    cases p with
    | ack m =>
      obtain rfl := List.mem_singleton.1 ha
      exact .countAck ((Option.some.inj hd).trans here)
    | _ => cases ha
  · rename_i other
    split at ha
    · rename_i p' hp
      obtain rfl := List.mem_singleton.1 ha
      have spent : p' = p.spendHop.2 := by rw [hp]
      rw [spent]
      exact .forward hd other
    · cases ha

theorem follows_handle {sender : PeerAddress} {p : Packet} (ha : a ∈ (n.handle sender p).todo) :
    n.Follows (.handle sender p) a := by
  unfold handle at ha
  split at ha
  · rcases List.mem_cons.1 ha with rfl | ha
    · exact .learn
    · obtain rfl := List.mem_singleton.1 ha
      exact .compare
  · split at ha <;> cases ha
  · split at ha
    · rename_i hd
      exact follows_relay hd ha
    · rename_i hr
      rcases List.mem_cons.1 ha with rfl | ha
      · exact .learn
      · obtain rfl := List.mem_singleton.1 ha
        exact .offer hr
    · cases ha

theorem follows_accept {sender : PeerAddress} {r : Record} (ha : a ∈ (n.accept sender r).todo) :
    n.Follows (.accept sender r) a := by
  unfold accept at ha
  split at ha
  · cases ha
  · split at ha
    · rename_i store hs
      have new : r.id = n.store.nextId r.origin := Store.accept_new_iff.1 (by rw [hs])
      have duty : a ∈ duties sender r ++ [.passOn sender r store.statusReport] := by
        rcases List.mem_append.1 ha with ha | ha
        · exact ha
        · cases ha
      rcases List.mem_append.1 duty with ha | ha
      · cases r with
        | rumor m => cases ha
        | proposal m =>
          dsimp only [duties] at ha
          split at ha
          · rename_i h
            obtain rfl := List.mem_singleton.1 ha
            exact .findProposal new h
          · rename_i id h
            obtain rfl := List.mem_singleton.1 ha
            exact .findConfirmed new h
        | block b =>
          rcases List.mem_cons.1 ha with rfl | ha
          · exact .openTopic new
          · obtain rfl := List.mem_singleton.1 ha
            exact .feed new
      · obtain rfl := List.mem_singleton.1 ha
        exact .passOn new _
    · cases ha

/-! ## Reports and spreading -/

theorem follows_settle {sender : PeerAddress} {v : StatusVector} {inSync : Bool} {answer : StatusAnswer}
    (ha : a ∈ (n.settle sender v inSync answer).todo) : n.Follows (.settle sender v inSync answer) a := by
  simp only [settle, Step.todo, List.nil_append, List.filterMap_append, List.flatten_append, List.mem_append] at ha
  rcases ha with ha | ha
  · simp [Effect.script?] at ha
  · cases answer with
    | push r =>
      obtain rfl := List.mem_singleton.1 ha
      exact .push
    | ask own => cases ha
    | nothing => cases ha

theorem follows_forward {d : Origin} {p : Packet} (ha : a ∈ (n.forward d p).todo) : n.Follows (.forward d p) a := by
  unfold forward at ha
  split at ha <;> cases ha

theorem follows_applyRoute {step : Step} (h : step ∈ n.applyRoute) (ha : a ∈ step.todo) :
    n.Follows .applyRoute a := by
  unfold applyRoute at h
  split at h
  · cases h
  · rw [List.mem_singleton.1 h] at ha
    obtain rfl := List.mem_singleton.1 ha
    exact .applyRoute

theorem follows_chooseTarget {r : Record} {excluded : List PeerAddress} (ha : a ∈ (n.chooseTarget r excluded).todo) :
    n.Follows (.chooseTarget r excluded) a := by
  simp only [chooseTarget] at ha
  split at ha
  · obtain rfl := List.mem_singleton.1 ha
    exact .sendRecord _
  · cases ha

theorem todo_flipToGoOn {r : Record} {last : PeerAddress} (ha : a ∈ (n.flipToGoOn r last).todo) :
    a = .chooseTarget r [last] := by
  simp only [flipToGoOn] at ha
  split at ha
  · exact List.mem_singleton.1 ha
  · cases ha

theorem follows_awaitNotice {now : Nat} {r : Record} {p : PeerAddress} {ticket deadline : Nat} {step : Step}
    (h : step ∈ n.awaitNotice now r p ticket deadline) (ha : a ∈ step.todo) :
    n.Follows (.awaitNotice r p ticket deadline) a := by
  simp only [awaitNotice, List.mem_append, Option.mem_toList, Option.map_eq_some_iff] at h
  rcases h with ⟨notice, -, rfl⟩ | h
  · split at ha
    · obtain rfl := todo_flipToGoOn ha
      exact .goOn
    · cases ha
  · split at h
    · obtain rfl := Option.some.inj h
      obtain rfl := List.mem_singleton.1 ha
      exact .giveUp
    · cases h

theorem follows_awaitPush {now tick : Nat} {step : Step} (h : step ∈ n.awaitPush now tick) (ha : a ∈ step.todo) :
    n.Follows (.awaitPush tick) a := by
  simp only [awaitPush] at h
  split at h
  · rw [List.mem_singleton.1 h] at ha
    simp only [Step.todo, proceed, List.filterMap_nil, List.flatten_nil, List.append_nil, List.mem_append] at ha
    rcases ha with ha | ha
    · obtain ⟨p, -, rfl⟩ := Option.map_eq_some_iff.1 (Option.mem_toList.1 ha)
      exact .pushStatus p
    · obtain rfl := List.mem_singleton.1 ha
      exact .awaitPush _
  · cases h

theorem follows_awaitHeartbeat {now tick : Nat} {step : Step} (h : step ∈ n.awaitHeartbeat now tick)
    (ha : a ∈ step.todo) : n.Follows (.awaitHeartbeat tick) a := by
  simp only [awaitHeartbeat] at h
  split at h
  · rw [List.mem_singleton.1 h] at ha
    rcases List.mem_cons.1 ha with rfl | ha
    · exact .awaitHeartbeat _
    · obtain rfl := List.mem_singleton.1 ha
      exact .heartbeat
  · cases h

/-! ## Proposals -/

theorem follows_propose {call : Nat} {tx : Transaction} (ha : a ∈ (n.propose call tx).todo) :
    n.Follows (.propose call tx) a := by
  unfold propose at ha
  split at ha
  · rename_i strict
    obtain rfl := List.mem_singleton.1 ha
    exact .startNow (by simpa using strict)
  · split at ha <;> cases ha

theorem follows_takeProposal {step : Step} (h : step ∈ n.takeProposal) (ha : a ∈ step.todo) :
    n.Follows .takeProposal a := by
  unfold takeProposal at h
  split at h
  · cases h
  · rename_i call tx queue hq
    rw [List.mem_singleton.1 h] at ha
    rcases List.mem_cons.1 ha with rfl | ha
    · exact .awaitRound (by rw [hq]; exact List.mem_cons_self)
    · obtain rfl := List.mem_singleton.1 ha
      exact .takeProposal

theorem follows_awaitRound {call : Nat} {tx : Transaction} (ha : a ∈ (n.awaitRound call tx).todo) :
    n.Follows (.awaitRound call tx) a := by
  unfold awaitRound at ha
  split at ha
  · rename_i open_
    obtain rfl := List.mem_singleton.1 ha
    exact .startInRound open_
  · rename_i closed
    obtain rfl := List.mem_singleton.1 ha
    exact .awaitRoundChange closed

theorem follows_awaitRoundChange {seen call : Nat} {tx : Transaction} {step : Step}
    (h : step ∈ n.awaitRoundChange seen call tx) (ha : a ∈ step.todo) : n.Follows (.awaitRoundChange seen call tx) a := by
  unfold awaitRoundChange at h
  split at h
  · cases h
  · rw [List.mem_singleton.1 h] at ha
    obtain rfl := List.mem_singleton.1 ha
    exact .roundChanged

/-- **A round that is looked up** is the one that the store says. -/
theorem follows_findRound {o : Origin} {id : SequenceId} {purpose : RoundPurpose}
    (ha : a ∈ (n.findRound o id purpose).todo) : n.Follows (.findRound o id purpose) a := by
  unfold findRound at ha
  split at ha
  · rename_i round hround
    obtain rfl := List.mem_singleton.1 ha
    exact .found hround
  · cases ha
  · cases ha

theorem follows_offerGate {o : Origin} {id : SequenceId} {round : UInt32} {via : PeerAddress}
    (ha : a ∈ (n.offerGate o id round via).todo) : n.Follows (.offerGate o id round via) a := by
  simp only [offerGate, RoundGate.offer] at ha
  split at ha
  · rename_i hopen
    obtain rfl := List.mem_singleton.1 ha
    exact .letThrough hopen
  · cases ha

theorem follows_acknowledge {o : Origin} {id : SequenceId} {via : Option PeerAddress}
    (ha : a ∈ (n.acknowledge o id via).todo) : n.Follows (.acknowledge o id via) a := by
  unfold acknowledge at ha
  split at ha <;> cases ha

theorem follows_countAck {ack : Ack} (ha : a ∈ (n.countAck ack).todo) : n.Follows (.countAck ack) a := by
  rcases n.countAck_cases ack with he | ⟨ws, -, -, he⟩ <;>
  · rw [he] at ha
    cases ha

theorem follows_startCollection {call : Nat} {r : Record} {round : UInt32} {tx : Transaction}
    (ha : a ∈ (n.startCollection call r round tx).todo) : n.Follows (.startCollection call r round tx) a := by
  unfold startCollection at ha
  split at ha
  · cases ha
  · obtain rfl := List.mem_singleton.1 ha
    exact .drive _

theorem follows_drive {now : Nat} {r : Record} {round : UInt32} {tx : Transaction} {decided : Bool}
    (ha : a ∈ (n.drive now r round tx decided).todo) : n.Follows (.drive r round tx decided) a := by
  rcases List.mem_cons.1 ha with rfl | ha
  · cases decided with
    | true => exact .confirmNow
    | false => exact .awaitMajority _
  · obtain rfl := List.mem_singleton.1 ha
    exact .spreadProposal

theorem follows_awaitMajority {now : Nat} {r : Record} {round : UInt32} {tx : Transaction} {tick : Nat} {step : Step}
    (h : step ∈ n.awaitMajority now r round tx tick) (ha : a ∈ step.todo) :
    n.Follows (.awaitMajority r round tx tick) a := by
  simp only [awaitMajority, List.mem_append] at h
  rcases h with h | h
  · split at h
    · rename_i hm
      rw [List.mem_singleton.1 h] at ha
      obtain rfl := List.mem_singleton.1 ha
      exact .confirm hm
    · cases h
  · split at h
    · rw [List.mem_singleton.1 h] at ha
      split at ha
      · obtain rfl := List.mem_singleton.1 ha
        exact .checkRound
      · rcases List.mem_cons.1 ha with rfl | ha
        · exact .insist _
        · obtain rfl := List.mem_singleton.1 ha
          exact .spreadAgain
    · cases h

theorem follows_checkRound {r : Record} {round : UInt32} {tx : Transaction} {tick : Nat}
    (ha : a ∈ (n.checkRound r round tx tick).todo) : n.Follows (.checkRound r round tx tick) a := by
  unfold checkRound at ha
  split at ha
  · rename_i late
    obtain rfl := List.mem_singleton.1 ha
    exact .abandon late
  · rcases List.mem_cons.1 ha with rfl | ha
    · exact .insistInRound _
    · obtain rfl := List.mem_singleton.1 ha
      exact .spreadInRound

theorem follows_storeConfirmation {id : SequenceId} {round : UInt32} {tx : Transaction} {clock : Option StatusReport}
    (ha : a ∈ (n.storeConfirmation id round tx clock).todo) : n.Follows (.storeConfirmation id round tx clock) a := by
  rcases List.mem_cons.1 ha with rfl | ha
  · exact .countOwn
  · obtain rfl := List.mem_singleton.1 ha
    exact .spreadConfirmation

theorem follows_countConfirmation {o : Origin} {round : UInt32} (ha : a ∈ (n.countConfirmation o round).todo) :
    n.Follows (.countConfirmation o round) a := by
  unfold countConfirmation at ha
  split at ha
  · cases ha
  · simp only [Step.todo, List.mem_append] at ha
    rcases ha with ha | ha
    · obtain ⟨p, -, rfl⟩ := List.mem_map.1 ha
      exact .release p.1 p.2
    · cases ha

/-! ## Ledgers -/

theorem follows_openTopic {t : String} (ha : a ∈ (n.openTopic t).todo) : n.Follows (.openTopic t) a := by
  unfold openTopic at ha
  split at ha
  · cases ha
  · obtain rfl := List.mem_singleton.1 ha
    exact .startDriver

theorem follows_publish {step : Step} (h : step ∈ n.publish) (ha : a ∈ step.todo) : n.Follows .publish a := by
  simp only [publish] at h
  split at h
  · cases h
  · rw [List.mem_singleton.1 h] at ha
    rcases List.mem_cons.1 ha with rfl | ha
    · exact .publish
    · obtain rfl := List.mem_singleton.1 ha
      exact .spreadBlock _

theorem follows_seekBallot {now : Nat} {t : String} {round : UInt32} {stash : RoundStash}
    (ha : a ∈ (n.seekBallot now t round stash).todo) : n.Follows (.seekBallot t round stash) a := by
  simp only [seekBallot] at ha
  split at ha
  · obtain rfl := List.mem_singleton.1 ha
    exact .collect _ _
  · obtain rfl := List.mem_singleton.1 ha
    exact .pause _ _

theorem follows_pause {now : Nat} {t : String} {round : UInt32} {stash : RoundStash} {deadline : Nat} {step : Step}
    (h : step ∈ n.pause now t round stash deadline) (ha : a ∈ step.todo) :
    n.Follows (.pause t round stash deadline) a := by
  unfold pause at h
  split at h
  · rw [List.mem_singleton.1 h] at ha
    obtain rfl := List.mem_singleton.1 ha
    exact .resume
  · cases h

theorem follows_collect {t : String} {stash : RoundStash} {c : RoundCollector} {step : Step}
    (h : step ∈ n.collect t stash c) (ha : a ∈ step.todo) : n.Follows (.collect t stash c) a := by
  simp only [collect] at h
  split at h
  · rename_i complete
    rw [List.mem_singleton.1 h] at ha
    obtain rfl := List.mem_singleton.1 ha
    exact .decide complete
  · split at h
    · cases h
    · split at h
      · rw [List.mem_singleton.1 h] at ha
        obtain rfl := List.mem_singleton.1 ha
        exact .collectOn _ _
      · split at h <;>
        · rw [List.mem_singleton.1 h] at ha
          obtain rfl := List.mem_singleton.1 ha
          exact .collectOn _ _

/-! ## All actions -/

/-- **Nothing else follows an action.** -/
theorem follows_of_perform {now : Nat} {a a' : Action} {step : Step} (h : step ∈ n.perform now a)
    (ha : a' ∈ step.todo) : n.Follows a a' := by
  cases a with
  | receive => exact follows_receive h ha
  | handle => rw [List.mem_singleton.1 h] at ha; exact follows_handle ha
  | learn => rw [List.mem_singleton.1 h] at ha; cases ha
  | accept => rw [List.mem_singleton.1 h] at ha; exact follows_accept ha
  | passOn => rw [List.mem_singleton.1 h] at ha; obtain rfl := List.mem_singleton.1 ha; exact .spread
  | compareStatus => rw [List.mem_singleton.1 h] at ha; obtain rfl := List.mem_singleton.1 ha; exact .settle
  | settle => rw [List.mem_singleton.1 h] at ha; exact follows_settle ha
  | applyRoute => exact follows_applyRoute h ha
  | forward => rw [List.mem_singleton.1 h] at ha; exact follows_forward ha
  | chooseTarget => rw [List.mem_singleton.1 h] at ha; exact follows_chooseTarget ha
  | sendRecord => rw [List.mem_singleton.1 h] at ha; obtain rfl := List.mem_singleton.1 ha; exact .awaitNotice _ _
  | awaitNotice => exact follows_awaitNotice h ha
  | giveUp => rw [List.mem_singleton.1 h] at ha; obtain rfl := todo_flipToGoOn ha; exact .goOnWithout
  | awaitPush => exact follows_awaitPush h ha
  | pushStatus => rw [List.mem_singleton.1 h] at ha; cases ha
  | awaitHeartbeat => exact follows_awaitHeartbeat h ha
  | propose => rw [List.mem_singleton.1 h] at ha; exact follows_propose ha
  | takeProposal => exact follows_takeProposal h ha
  | awaitRound => rw [List.mem_singleton.1 h] at ha; exact follows_awaitRound ha
  | awaitRoundChange => exact follows_awaitRoundChange h ha
  | startProposal => rw [List.mem_singleton.1 h] at ha; obtain rfl := List.mem_singleton.1 ha; exact .storeProposal
  | storeProposal => rw [List.mem_singleton.1 h] at ha; obtain rfl := List.mem_singleton.1 ha; exact .findOwn
  | findRound => rw [List.mem_singleton.1 h] at ha; exact follows_findRound ha
  | stampRound => rw [List.mem_singleton.1 h] at ha; obtain rfl := List.mem_singleton.1 ha; exact .stamped
  | offerGate => rw [List.mem_singleton.1 h] at ha; exact follows_offerGate ha
  | acknowledge => rw [List.mem_singleton.1 h] at ha; exact follows_acknowledge ha
  | countAck => rw [List.mem_singleton.1 h] at ha; exact follows_countAck ha
  | startCollection => rw [List.mem_singleton.1 h] at ha; exact follows_startCollection ha
  | drive => rw [List.mem_singleton.1 h] at ha; exact follows_drive ha
  | awaitMajority => exact follows_awaitMajority h ha
  | checkRound => rw [List.mem_singleton.1 h] at ha; exact follows_checkRound ha
  | abandon => rw [List.mem_singleton.1 h] at ha; cases ha
  | confirm => rw [List.mem_singleton.1 h] at ha; obtain rfl := List.mem_singleton.1 ha; exact .storeConfirmation
  | storeConfirmation => rw [List.mem_singleton.1 h] at ha; exact follows_storeConfirmation ha
  | countConfirmation => rw [List.mem_singleton.1 h] at ha; exact follows_countConfirmation ha
  | openTopic => rw [List.mem_singleton.1 h] at ha; exact follows_openTopic ha
  | feed => rw [List.mem_singleton.1 h] at ha; cases ha
  | publish => exact follows_publish h ha
  | seekBallot => rw [List.mem_singleton.1 h] at ha; exact follows_seekBallot ha
  | pause => exact follows_pause h ha
  | collect => exact follows_collect h ha
  | decide => rw [List.mem_singleton.1 h] at ha; obtain rfl := List.mem_singleton.1 ha; exact .nextRound

/-! ## Requests -/

/-- **What a request may leave to be done.** -/
inductive Begins (n : Node) : Request → Action → Prop where
  | spread (text : String) :
    Begins n (.postRumor text) (.chooseTarget (.rumor ⟨n.name, n.store.nextId n.name, text⟩) [])
  | countAck {a : Ack} (h : a.destination = n.name) : Begins n (.sendRouted (.ack a)) (.countAck a)
  | propose (tx : Transaction) : Begins n (.propose tx) (.propose n.callCount tx)
  | startDriver {t : String} {b : Ballot} : Begins n (.submitBallot t b) (.seekBallot t 1 .empty)

theorem todo_originate {p : Packet} (ha : a ∈ (n.originate p).2.todo) :
    ∃ ack, p = .ack ack ∧ ack.destination = n.name ∧ a = .countAck ack := by
  unfold originate at ha
  split at ha
  · cases ha
  · rename_i d hd
    split at ha
    · rename_i here
      cases p with
      | ack m => exact ⟨m, rfl, (Option.some.inj hd).trans here, List.mem_singleton.1 ha⟩
      | _ => cases ha
    · dsimp only [forward] at ha
      split at ha <;> cases ha

theorem begins_of_answer {q : Request} (ha : a ∈ (n.answer q).todo) : n.Begins q a := by
  cases q with
  | postRumor text =>
    obtain rfl := List.mem_singleton.1 ha
    exact .spread text
  | sendPrivate d text =>
    obtain ⟨ack, hp, -⟩ := todo_originate ha
    cases hp
  | sendRouted p =>
    obtain ⟨ack, rfl, here, rfl⟩ := todo_originate ha
    exact .countAck here
  | propose tx =>
    obtain rfl := List.mem_singleton.1 ha
    exact .propose tx
  | giveUpCall call => cases ha
  | addPeer p => cases ha
  | submitBallot t b =>
    have driver : a ∈ (n.openTopic t).todo := ha
    unfold openTopic at driver
    split at driver
    · cases driver
    · obtain rfl := List.mem_singleton.1 driver
      exact .startDriver

end Node
end GossipNode
