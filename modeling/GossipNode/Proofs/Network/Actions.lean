import GossipNode.Proofs.Network.Grounds
/-!
# Actions stay on the ground

If a node and the action that it takes are grounded, then so are the node after it, the actions that follow and what is
sent (`Node.grounded_of_perform`).  There is one lemma for each function of the node; those named `leads` are about
actions that leave the core of the node as it is.
-/
namespace GossipNode

open AckCollector (Quorum)

variable {ι : Type} {w : Scene ι} {i : ι}

/-! ## Packets and effects -/

theorem Record.grounded_toPacket {r : Record} (h : w.Held r) : r.toPacket.Grounded w := by
  have held : ∀ r', Record.ofPacket? r.toPacket = some r' → w.Held r' := by
    intro r' hr'
    rw [ofPacket?_toPacket] at hr'
    obtain rfl := Option.some.inj hr'
    exact h
  cases r <;> exact held

theorem Packet.grounded_status (s : StatusReport) : (Packet.status s).Grounded w := fun _ hr => nomatch hr

/-- A packet may spend hops on the way. -/
theorem Packet.Grounded.spendHop {p : Packet} (h : p.Grounded w) : p.spendHop.2.Grounded w := by
  cases p <;> exact h

/-- A record that arrives is held. -/
theorem Packet.Grounded.held {p : Packet} (h : p.Grounded w) {r : Record} (hr : Record.ofPacket? p = some r) :
    w.Held r := by
  cases p with
  | ack a => cases hr
  | _ => exact h r hr

theorem Effect.grounded_spread {r : Record} (h : w.Held r) (excluded : List PeerAddress) :
    (Effect.spread r excluded).Grounded w i := by
  intro a ha
  rw [List.mem_singleton.1 ha]
  exact h

theorem Effect.grounded_push {r : Record} (h : w.Held r) (p : PeerAddress) : (Effect.push r p).Grounded w i := by
  intro a ha
  rw [List.mem_singleton.1 ha]
  exact h

namespace Node

variable {n : Node}

theorem leads_rest (n : Node) : n.rest.Leads w i := ⟨fun _ h => (nomatch h), fun _ h => nomatch h⟩

theorem leads_proceed (n : Node) {next : List Action} (h : ∀ a ∈ next, a.Grounded w i) : (n.proceed next).Leads w i :=
  ⟨h, fun _ he => nomatch he⟩

theorem leads_proceed_one (n : Node) {a : Action} (h : a.Grounded w i) : (n.proceed [a]).Leads w i :=
  n.leads_proceed (by intro a' ha'; rw [List.mem_singleton.1 ha']; exact h)

/-! ## Gossip and routes -/

theorem leads_relay (hn : n.name = w.names i) {d : Origin} {p : Packet} (hp : p.Grounded w)
    (hd : p.destination? = some d) : (n.relay d p).Leads w i := by
  unfold relay
  split
  · rename_i hdn
    unfold deliverHere
    split
    · exact leads_rest _
    · rename_i a
      refine n.leads_proceed_one ⟨?_, hp⟩
      rw [← hn, ← hdn]
      exact Option.some.inj hd
    · exact leads_rest _
  · have := hp.spendHop
    split
    · rename_i hs
      rw [hs] at this
      exact n.leads_proceed_one this
    · exact leads_rest _

theorem leads_handle (hn : n.name = w.names i) (sender : PeerAddress) {p : Packet} (hp : p.Grounded w) :
    (n.handle sender p).Leads w i := by
  unfold handle
  split
  · exact n.leads_proceed (by simp [Action.Grounded])
  · split <;> exact leads_rest _
  · split
    · rename_i hd
      exact leads_relay hn hp hd
    · rename_i r _ hr
      exact n.leads_proceed (by simpa [Action.Grounded] using hp.held hr)
    · exact leads_rest _

theorem leads_passOn {r : Record} (hr : w.Held r) (sender : PeerAddress) (report : StatusReport) :
    (n.passOn sender r report).Leads w i := by
  refine ⟨fun _ h => (nomatch h), fun e he => ?_⟩
  rcases List.mem_cons.1 he with rfl | he
  · exact Effect.grounded_spread hr _
  · rw [List.mem_singleton.1 he]
    exact Packet.grounded_status report

/-- **What is pushed to a peer is in the store.** -/
theorem grounded_statusAnswer (s : Store) (hs : s = w.stores i) (v : StatusVector) :
    (statusAnswer s v).Grounded w := by
  unfold statusAnswer
  split
  · split
    · rename_i o ho _ r hr
      unfold Store.missingFor at hr
      rw [ho] at hr
      rw [hs] at hr
      exact Scene.held_of_get? hr
    · trivial
  · trivial
  · trivial

theorem leads_settle (sender : PeerAddress) (v : StatusVector) (inSync : Bool) {answer : StatusAnswer}
    (ha : answer.Grounded w) : (n.settle sender v inSync answer).Leads w i := by
  refine ⟨fun _ h => (nomatch h), fun e he => ?_⟩
  rcases List.mem_append.1 he with he | he
  · obtain ⟨x, -, rfl⟩ := List.mem_map.1 he
    trivial
  · cases answer with
    | push r => rw [List.mem_singleton.1 he]; exact Effect.grounded_push ha sender
    | ask own => rw [List.mem_singleton.1 he]; exact Packet.grounded_status own
    | nothing => cases he

theorem leads_forward {p : Packet} (hp : p.Grounded w) (d : Origin) : (n.forward d p).Leads w i := by
  unfold forward
  split
  · refine ⟨fun _ h => (nomatch h), fun e he => ?_⟩
    rw [List.mem_singleton.1 he]
    exact hp
  · exact leads_rest _

theorem leads_applyRoute {step : Step} (h : step ∈ n.applyRoute) : step.Leads w i := by
  unfold applyRoute at h
  split at h
  · cases h
  · rw [List.mem_singleton.1 h]
    exact leads_proceed_one _ trivial

theorem leads_chooseTarget {r : Record} (hr : w.Held r) (excluded : List PeerAddress) :
    (n.chooseTarget r excluded).Leads w i := by
  simp only [chooseTarget]
  split
  · exact leads_proceed_one _ hr
  · exact leads_rest _

theorem leads_sendRecord {r : Record} (hr : w.Held r) (now : Nat) (p : PeerAddress) :
    (n.sendRecord now r p).Leads w i := by
  refine ⟨fun a ha => ?_, fun e he => ?_⟩
  · rw [List.mem_singleton.1 ha]; exact hr
  · rw [List.mem_singleton.1 he]; exact Record.grounded_toPacket hr

theorem leads_flipToGoOn {r : Record} (hr : w.Held r) (last : PeerAddress) : (n.flipToGoOn r last).Leads w i := by
  simp only [flipToGoOn]
  split
  · exact leads_proceed_one _ hr
  · exact leads_rest _

theorem leads_awaitNotice {r : Record} (hr : w.Held r) {now : Nat} {p : PeerAddress} {ticket deadline : Nat}
    {step : Step} (h : step ∈ n.awaitNotice now r p ticket deadline) : step.Leads w i := by
  simp only [awaitNotice, List.mem_append, Option.mem_toList, Option.map_eq_some_iff] at h
  rcases h with ⟨notice, -, rfl⟩ | h
  · split
    · exact leads_flipToGoOn hr p
    · exact leads_rest _
  · split at h
    · obtain rfl := Option.some.inj h
      exact leads_proceed_one _ hr
    · cases h

theorem leads_awaitPush {now tick : Nat} {step : Step} (h : step ∈ n.awaitPush now tick) : step.Leads w i := by
  simp only [awaitPush] at h
  split at h
  · rw [List.mem_singleton.1 h]
    refine leads_proceed _ (fun a ha => ?_)
    rcases List.mem_append.1 ha with ha | ha
    · obtain ⟨p, -, rfl⟩ := Option.map_eq_some_iff.1 (Option.mem_toList.1 ha)
      trivial
    · rw [List.mem_singleton.1 ha]; trivial
  · cases h

/-! ## Proposals and rounds -/

theorem leads_propose (call : Nat) (tx : Transaction) : (n.propose call tx).Leads w i := by
  unfold propose
  split
  · exact leads_proceed_one _ trivial
  · split
    · exact leads_rest _
    · refine ⟨fun _ h => (nomatch h), fun e he => ?_⟩
      rw [List.mem_singleton.1 he]; trivial

theorem leads_takeProposal {step : Step} (h : step ∈ n.takeProposal) : step.Leads w i := by
  unfold takeProposal at h
  split at h
  · cases h
  · rw [List.mem_singleton.1 h]
    exact leads_proceed _ (by simp [Action.Grounded])

theorem leads_awaitRound (call : Nat) (tx : Transaction) : (n.awaitRound call tx).Leads w i := by
  unfold awaitRound
  split <;> exact leads_proceed_one _ trivial

theorem leads_awaitRoundChange {seen call : Nat} {tx : Transaction} {step : Step}
    (h : step ∈ n.awaitRoundChange seen call tx) : step.Leads w i := by
  unfold awaitRoundChange at h
  split at h
  · cases h
  · rw [List.mem_singleton.1 h]
    exact leads_proceed_one _ trivial

/-- **A round that is found is the round of a proposal in the store.** -/
theorem leads_findRound (hs : n.store = w.stores i) (o : Origin) (id : SequenceId) {purpose : RoundPurpose}
    (hp : purpose.Grounded w i) : (n.findRound o id purpose).Leads w i := by
  unfold findRound
  split
  · rename_i round hround
    rw [hs] at hround
    exact n.leads_proceed_one ⟨Store.holdsProposal_of_proposalRound hround, hp⟩
  · exact leads_rest _
  · exact leads_rest _

/-- **An acknowledgment is of a proposal in the store.** -/
theorem leads_acknowledge (hn : n.name = w.names i) {o : Origin} {id : SequenceId}
    (hp : (w.stores i).HoldsProposal o id) (via : Option PeerAddress) : (n.acknowledge o id via).Leads w i := by
  unfold acknowledge
  split
  · refine ⟨fun _ h => (nomatch h), fun e he => ?_⟩
    rw [List.mem_singleton.1 he]
    exact ⟨i, hn.symm, hp⟩
  · exact leads_rest _

theorem leads_drive (now : Nat) {r : Record} (round : UInt32) {tx : Transaction} (hr : w.Own i r tx) {decided : Bool}
    (hd : decided = true → w.Backed i r.id) : (n.drive now r round tx decided).Leads w i := by
  refine ⟨fun a ha => ?_, fun e he => ?_⟩
  · rw [List.mem_singleton.1 ha]
    split
    · rename_i h
      exact ⟨r, hr, rfl, hd h⟩
    · exact hr
  · rw [List.mem_singleton.1 he]
    exact Effect.grounded_spread hr.held _

theorem leads_insist {r : Record} {round : UInt32} {tx : Transaction} (hr : w.Own i r tx) (tick : Nat) :
    (n.insist r round tx tick).Leads w i := by
  refine ⟨fun a ha => ?_, fun e he => ?_⟩
  · rw [List.mem_singleton.1 ha]; exact hr
  · rw [List.mem_singleton.1 he]; exact Effect.grounded_spread hr.held _

theorem leads_checkRound {r : Record} {round : UInt32} {tx : Transaction} (hr : w.Own i r tx) (tick : Nat) :
    (n.checkRound r round tx tick).Leads w i := by
  unfold checkRound
  split
  · exact leads_proceed_one _ trivial
  · exact leads_insist hr tick

/-! ## Ledgers -/

theorem leads_openTopic (t : String) : (n.openTopic t).Leads w i := by
  unfold openTopic
  split
  · exact leads_rest _
  · refine ⟨fun _ h => (nomatch h), fun e he => ?_⟩
    rw [List.mem_singleton.1 he]
    intro a ha
    rw [List.mem_singleton.1 ha]; trivial

theorem leads_seekBallot (now : Nat) (t : String) (round : UInt32) (stash : RoundStash) :
    (n.seekBallot now t round stash).Leads w i := by
  simp only [seekBallot]
  split
  · refine ⟨fun a ha => ?_, fun e he => ?_⟩
    · rw [List.mem_singleton.1 ha]; trivial
    · rw [List.mem_singleton.1 he]; trivial
  · exact leads_proceed_one _ trivial

theorem leads_pause {now : Nat} {t : String} {round : UInt32} {stash : RoundStash} {deadline : Nat} {step : Step}
    (h : step ∈ n.pause now t round stash deadline) : step.Leads w i := by
  unfold pause at h
  split at h
  · rw [List.mem_singleton.1 h]; exact leads_proceed_one _ trivial
  · cases h

theorem leads_collect {t : String} {stash : RoundStash} {c : RoundCollector} {step : Step}
    (h : step ∈ n.collect t stash c) : step.Leads w i := by
  simp only [collect] at h
  split at h
  · rw [List.mem_singleton.1 h]; exact leads_proceed_one _ trivial
  · split at h
    · cases h
    · split at h
      · rw [List.mem_singleton.1 h]; exact leads_proceed_one _ trivial
      · split at h <;> · rw [List.mem_singleton.1 h]; exact leads_proceed_one _ trivial

/-! ## Quiet actions -/

/-- **A quiet action stays on the ground.** -/
theorem grounded_of_quiet {now : Nat} {a : Action} {step : Step} (quiet : a.Quiet = true)
    (h : step ∈ n.perform now a) (hs : n.store = w.stores i) (core : n.core.Grounded w i) (ha : a.Grounded w i) :
    step.Grounded w i := by
  refine ⟨?_, by rw [core_of_quiet quiet h]; exact core⟩
  have hn : n.name = w.names i := core.name
  cases a with
  | receive | accept | awaitHeartbeat | storeProposal | stampRound | offerGate | countAck | startCollection
  | awaitMajority | abandon | storeConfirmation | countConfirmation | publish => cases quiet
  | handle sender p => rw [List.mem_singleton.1 h]; exact leads_handle hn sender ha
  | learn peer => rw [List.mem_singleton.1 h]; exact leads_rest _
  | passOn sender r report => rw [List.mem_singleton.1 h]; exact leads_passOn ha sender report
  | compareStatus sender v =>
    rw [List.mem_singleton.1 h]
    exact leads_proceed_one _ (grounded_statusAnswer n.store hs v)
  | settle sender v inSync answer => rw [List.mem_singleton.1 h]; exact leads_settle sender v inSync ha
  | applyRoute => exact leads_applyRoute h
  | forward d p => rw [List.mem_singleton.1 h]; exact leads_forward ha d
  | chooseTarget r excluded => rw [List.mem_singleton.1 h]; exact leads_chooseTarget ha excluded
  | sendRecord r p => rw [List.mem_singleton.1 h]; exact leads_sendRecord ha now p
  | awaitNotice r p ticket deadline => exact leads_awaitNotice ha h
  | giveUp r p ticket => rw [List.mem_singleton.1 h]; exact leads_flipToGoOn ha p
  | awaitPush tick => exact leads_awaitPush h
  | pushStatus p =>
    rw [List.mem_singleton.1 h]
    refine ⟨fun _ h => (nomatch h), fun e he => ?_⟩
    rw [List.mem_singleton.1 he]
    exact Packet.grounded_status _
  | propose call tx => rw [List.mem_singleton.1 h]; exact leads_propose call tx
  | takeProposal => exact leads_takeProposal h
  | awaitRound call tx => rw [List.mem_singleton.1 h]; exact leads_awaitRound call tx
  | awaitRoundChange seen call tx => exact leads_awaitRoundChange h
  | startProposal call tx => rw [List.mem_singleton.1 h]; exact leads_proceed_one _ trivial
  | findRound o id purpose => rw [List.mem_singleton.1 h]; exact leads_findRound hs o id ha
  | acknowledge o id via => rw [List.mem_singleton.1 h]; exact leads_acknowledge hn ha via
  | drive r round tx decided => rw [List.mem_singleton.1 h]; exact leads_drive now round ha.1 ha.2
  | checkRound r round tx tick => rw [List.mem_singleton.1 h]; exact leads_checkRound ha tick
  | confirm id round tx => rw [List.mem_singleton.1 h]; exact leads_proceed_one _ ha
  | openTopic t => rw [List.mem_singleton.1 h]; exact leads_openTopic t
  | feed b =>
    rw [List.mem_singleton.1 h]
    refine ⟨fun _ h => (nomatch h), fun e he => ?_⟩
    rw [List.mem_singleton.1 he]; trivial
  | seekBallot t round stash => rw [List.mem_singleton.1 h]; exact leads_seekBallot now t round stash
  | pause => exact leads_pause h
  | collect => exact leads_collect h
  | decide => rw [List.mem_singleton.1 h]; exact leads_proceed_one _ trivial

/-! ## Records made and taken -/

/-- A record made here is held once it is stored. -/
theorem held_of_push {s : Store} {r : Record} (h : s.push r = w.stores i) : w.Held r :=
  ⟨i, r.origin, by rw [← h]; exact s.mem_log_push r⟩

theorem grounded_accept {sender : PeerAddress} {r : Record} (core : n.core.Grounded w i) (hr : w.Held r) :
    (n.accept sender r).Grounded w i := by
  refine ⟨⟨fun a ha => ?_, fun e he => ?_⟩, ?_⟩
  · unfold accept at ha
    split at ha
    · cases ha
    · split at ha
      · rcases List.mem_append.1 ha with ha | ha
        · unfold duties at ha
          split at ha
          · cases ha
          · split at ha <;> · rw [List.mem_singleton.1 ha]; trivial
          · rcases List.mem_cons.1 ha with rfl | ha
            · trivial
            · rw [List.mem_singleton.1 ha]; trivial
        · rw [List.mem_singleton.1 ha]; exact hr
      · cases ha
  · unfold accept at he
    split at he
    · cases he
    · split at he
      · rw [List.mem_singleton.1 he]; trivial
      · rw [List.mem_singleton.1 he]; exact Packet.grounded_status _
  · rcases n.core_accept sender r with h | ⟨-, h⟩
    · rw [h]; exact core
    · rw [h]; exact core.of_store _

theorem grounded_postRumor {text : String} (core : n.core.Grounded w i)
    (hs : (n.postRumor text).2.node.store = w.stores i) : (n.postRumor text).2.Grounded w i := by
  refine ⟨⟨fun _ h => (nomatch h), fun e he => ?_⟩, core.of_store _⟩
  rw [List.mem_singleton.1 he]
  exact Effect.grounded_spread (held_of_push hs) _

/-- **A proposal that has just been stored is the node's own.** -/
theorem grounded_storeProposal {call : Nat} {tx : Transaction} {clock : Option StatusReport}
    (core : n.core.Grounded w i) (hs : (n.storeProposal call tx clock).node.store = w.stores i)
    (sound : (w.stores i).Sound) : (n.storeProposal call tx clock).Grounded w i := by
  refine ⟨leads_proceed_one _ ?_, core.of_store _⟩
  refine ⟨_, rfl, rfl, rfl, ?_⟩
  rw [sound.get?_eq_some_iff, ← hs, ← core.name]
  exact ⟨n.store.mem_log_push (.proposal ⟨n.name, n.store.nextId n.name, none, Word256.zero, tx, clock⟩), rfl⟩

theorem grounded_storeConfirmation {id : SequenceId} {round : UInt32} {tx : Transaction} {clock : Option StatusReport}
    (core : n.core.Grounded w i) (hs : (n.storeConfirmation id round tx clock).node.store = w.stores i) :
    (n.storeConfirmation id round tx clock).Grounded w i := by
  refine ⟨⟨fun a ha => ?_, fun e he => ?_⟩, core.of_store _⟩
  · rw [List.mem_singleton.1 ha]; trivial
  · rw [List.mem_singleton.1 he]
    exact Effect.grounded_spread (held_of_push hs) _

theorem grounded_publish {step : Step} (h : step ∈ n.publish) (core : n.core.Grounded w i)
    (hs : step.node.store = w.stores i) : step.Grounded w i := by
  simp only [publish] at h
  split at h
  · cases h
  · rw [List.mem_singleton.1 h] at hs ⊢
    refine ⟨⟨fun a ha => ?_, fun e he => ?_⟩, core.of_store _⟩
    · rw [List.mem_singleton.1 ha]; trivial
    · rw [List.mem_singleton.1 he]
      exact Effect.grounded_spread (held_of_push hs) _

theorem grounded_receive {step : Step} (h : step ∈ n.receive) (core : n.core.Grounded w i) : step.Grounded w i := by
  unfold receive at h
  split at h
  · split at h
    · cases h
    · rw [List.mem_singleton.1 h]
      exact ⟨leads_rest _, core⟩
  · rename_i sender p inbox hin
    have packets : ∀ e ∈ (sender, p) :: inbox, e.2.Grounded w := by rw [← hin]; exact core.inbox
    rw [List.mem_singleton.1 h]
    refine ⟨⟨fun a ha => ?_, fun e he => ?_⟩,
      { core with inbox := fun e he => packets e (List.mem_cons_of_mem _ he) }⟩
    · rw [List.mem_singleton.1 ha]; trivial
    · rw [List.mem_singleton.1 he]
      intro a ha
      rw [List.mem_singleton.1 ha]
      exact packets _ List.mem_cons_self

/-! ## Collections and gates -/

theorem grounded_stampRound {o : Origin} {id : SequenceId} {round : UInt32} {purpose : RoundPurpose}
    (core : n.core.Grounded w i) (hp : (w.stores i).HoldsProposal o id) (purposed : purpose.Grounded w i) :
    (n.stampRound o id round purpose).Grounded w i := by
  refine ⟨leads_proceed_one _ ?_, { core with }⟩
  cases purpose with
  | acknowledge via =>
    dsimp only [afterStamp]
    split <;> exact hp
  | confirm => trivial
  | collect call r tx => exact purposed

theorem grounded_offerGate {o : Origin} {id : SequenceId} {round : UInt32} {via : PeerAddress}
    (core : n.core.Grounded w i) (hp : (w.stores i).HoldsProposal o id) :
    (n.offerGate o id round via).Grounded w i := by
  obtain ⟨gate, released⟩ := core.gate.offer round (show (w.stores i).HoldsProposal (o, id).1 (o, id).2 from hp)
  refine ⟨leads_proceed _ (fun a ha => ?_), { core with gate }⟩
  obtain ⟨x, hx, rfl⟩ := List.mem_map.1 ha
  exact released x (Option.mem_toList.1 hx)

theorem grounded_countConfirmation {o : Origin} {round : UInt32} (core : n.core.Grounded w i) :
    (n.countConfirmation o round).Grounded w i := by
  unfold countConfirmation
  split
  · exact ⟨leads_rest _, { core with }⟩
  · rename_i closed tracker _ _
    obtain ⟨gate, released⟩ := core.gate.advanceTo tracker.current
    refine ⟨⟨fun a ha => ?_, fun e he => ?_⟩, ?_⟩
    · obtain ⟨x, hx, rfl⟩ := List.mem_map.1 ha
      exact released x hx
    · rw [List.mem_singleton.1 he]; trivial
    · rw [core_of_frame (frame_foldl_emit _ _ _)]
      exact { core with gate }

/-- **A majority stands on the stores of those who acknowledged.** -/
theorem backed_of_quorum {c : AckCollector} (own : c.own = w.names i) (quorum : c.threshold = w.quorum i)
    {id : SequenceId} {ws : List Origin} (h : Quorum c.own c.threshold (w.Acks (w.names i) id) ws) : w.Backed i id := by
  rw [own, quorum] at h
  exact ⟨ws, h⟩

theorem grounded_countAck {a : Ack} (core : n.core.Grounded w i) (hd : a.destination = w.names i)
    (ha : w.Acks a.destination a.id a.origin) : (n.countAck a).Grounded w i := by
  rw [hd] at ha
  obtain ⟨collecting, own, threshold, enough⟩ := core.collecting.recordAck ha
  rcases n.countAck_cases a with he | ⟨ws, hws, -, he⟩
  · rw [he]
    exact ⟨leads_rest _, { core with collecting, own := own.trans core.own, quorum := threshold.trans core.quorum }⟩
  · rw [he]
    refine ⟨⟨fun _ h => (nomatch h), fun e he => ?_⟩,
      { core with
        collecting, own := own.trans core.own, quorum := threshold.trans core.quorum
        majorities := fun id hid => ?_ }⟩
    · rw [List.mem_singleton.1 he]; trivial
    · rcases (SortedSet.contains_add _ _ _).1 hid with rfl | hid
      · exact backed_of_quorum core.own core.quorum (enough ws hws)
      · exact core.majorities id hid

theorem grounded_startCollection {call : Nat} {r : Record} {round : UInt32} {tx : Transaction}
    (core : n.core.Grounded w i) (hr : w.Own i r tx) : (n.startCollection call r round tx).Grounded w i := by
  unfold startCollection
  split
  · refine ⟨leads_rest _, ?_⟩
    rw [rest, core_of_frame (frame_reply _ _ _)]
    exact core
  · rename_i progress acks hstart
    have own : n.broadcast.acks.own = w.names i := core.own
    have mine : w.Acks (w.names i) r.id n.broadcast.acks.own := by rw [own]; exact hr.acks
    obtain ⟨collecting, same, threshold, enough⟩ := core.collecting.start mine hstart
    refine ⟨⟨fun _ h => (nomatch h), fun e he => ?_⟩, ?_⟩
    · rw [List.mem_singleton.1 he]
      intro a ha
      rw [List.mem_singleton.1 ha]
      refine ⟨hr, fun hd => ?_⟩
      cases progress with
      | ignored => cases hd
      | pending count => cases hd
      | majority ws => exact backed_of_quorum own core.quorum (enough ws rfl)
    · rw [core_of_frame (frame_reply _ _ _)]
      exact { core with collecting, own := same.trans own, quorum := threshold.trans core.quorum }

theorem grounded_awaitMajority {now : Nat} {r : Record} {round : UInt32} {tx : Transaction} {tick : Nat} {step : Step}
    (h : step ∈ n.awaitMajority now r round tx tick) (core : n.core.Grounded w i) (hr : w.Own i r tx) :
    step.Grounded w i := by
  simp only [awaitMajority, List.mem_append] at h
  rcases h with h | h
  · split at h
    · rename_i hm
      rw [List.mem_singleton.1 h]
      refine ⟨leads_proceed_one _ ⟨r, hr, rfl, core.majorities _ hm⟩, { core with majorities := fun id hid => ?_ }⟩
      exact core.majorities id (SortedMap.contains_of_erase hid)
    · cases h
  · split at h
    · rw [List.mem_singleton.1 h]
      split
      · exact ⟨leads_proceed_one _ hr, core⟩
      · exact ⟨leads_insist hr tick, core⟩
    · cases h

/-! ## All actions -/

/-- **No action leaves the ground.**  The scene is the one after the step. -/
theorem grounded_of_perform {now : Nat} {a : Action} {step : Step} (h : step ∈ n.perform now a)
    (hs : step.node.store = w.stores i) (sound : (w.stores i).Sound) (core : n.core.Grounded w i)
    (ha : a.Grounded w i) : step.Grounded w i := by
  by_cases quiet : a.Quiet = true
  · refine grounded_of_quiet quiet h ?_ core ha
    rw [← hs]
    exact (congrArg Core.store (core_of_quiet quiet h)).symm
  cases a with
  | receive => exact grounded_receive h core
  | accept sender r => rw [List.mem_singleton.1 h]; exact grounded_accept core ha
  | awaitHeartbeat tick =>
    simp only [perform, awaitHeartbeat] at h
    split at h
    · rw [List.mem_singleton.1 h] at hs ⊢
      have := grounded_postRumor core hs
      exact ⟨⟨fun a ha => by rw [List.mem_singleton.1 ha]; trivial, this.effects⟩, this.node⟩
    · cases h
  | storeProposal call tx clock =>
    rw [List.mem_singleton.1 h] at hs ⊢
    exact grounded_storeProposal core hs sound
  | stampRound o id round purpose => rw [List.mem_singleton.1 h]; exact grounded_stampRound core ha.1 ha.2
  | offerGate o id round via => rw [List.mem_singleton.1 h]; exact grounded_offerGate core ha
  | countAck ack => rw [List.mem_singleton.1 h]; exact grounded_countAck core ha.1 ha.2
  | startCollection call r round tx => rw [List.mem_singleton.1 h]; exact grounded_startCollection core ha
  | awaitMajority r round tx tick => exact grounded_awaitMajority h core ha
  | abandon id =>
    rw [List.mem_singleton.1 h]
    exact ⟨leads_rest _, { core with collecting := core.collecting.erase id }⟩
  | storeConfirmation id round tx clock =>
    rw [List.mem_singleton.1 h] at hs ⊢
    exact grounded_storeConfirmation core hs
  | countConfirmation o round => rw [List.mem_singleton.1 h]; exact grounded_countConfirmation core
  | publish => exact grounded_publish h core hs
  | _ => exact absurd rfl quiet

end Node
end GossipNode
