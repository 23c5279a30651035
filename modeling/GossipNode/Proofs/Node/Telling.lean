import GossipNode.Proofs.Network.Machines
/-!
# Which rumors observers are told of

Of all that a node does, one thing tells its observers of a rumor: an offered record is taken (`Node.taken?`), and it is
a rumor with a text (`Record.told?`).  So an action adds at most that one rumor to those that have been told
(`rumors_of_perform`), and what happens without an action adds none.
-/
namespace GossipNode

def NodeEvent.rumor? : NodeEvent → Option Rumor
  | .rumorReceived o id text => some ⟨o, id, text⟩
  | _ => none

/-- The rumor that is told when a record is taken; a heartbeat has nothing to tell. -/
def Record.told? : Record → Option Rumor
  | .rumor m => if m.text = "" then none else some m
  | _ => none

theorem Record.told?_rumor (x : Rumor) : (Record.rumor x).told? = if x.text = "" then none else some x := rfl

theorem Record.origin_of_told? {r : Record} {m : Rumor} (h : r.told? = some m) : m.origin = r.origin ∧ m.id = r.id := by
  cases r with
  | rumor x =>
    rw [told?_rumor] at h
    split at h
    · cases h
    · obtain rfl := Option.some.inj h
      exact ⟨rfl, rfl⟩
  | proposal | block => cases h

namespace Node

/-- The rumors that observers have been told of, the first one first. -/
def rumors (n : Node) : List Rumor := n.events.filterMap NodeEvent.rumor?

/-- The record that an action takes from a peer: it is offered, proved if it has to be, and new. -/
def taken? (n : Node) : Action → Option Record
  | .accept _ r => if n.isProved r && (n.store.accept r).1 == .new then some r else none
  | _ => none

variable {n : Node}

theorem taken?_accept (n : Node) (sender : PeerAddress) (r : Record) : n.taken? (.accept sender r) =
    if n.isProved r && (n.store.accept r).1 == .new then some r else none := rfl

theorem taken?_of_other {a : Action} (other : ∀ sender r, a ≠ .accept sender r) : n.taken? a = none := by
  unfold taken?
  split
  · exact absurd rfl (other _ _)
  · rfl

theorem rumors_emit (n : Node) (e : NodeEvent) : (n.emit e).rumors = n.rumors ++ e.rumor?.toList := by
  unfold rumors emit
  rw [List.filterMap_append]
  cases h : e.rumor? <;> simp [h]

theorem rumors_emit_other (n : Node) {e : NodeEvent} (h : e.rumor? = none) : (n.emit e).rumors = n.rumors := by
  rw [rumors_emit, h]
  exact List.append_nil _

/-! ## Records -/

theorem rumors_learnPeer (n : Node) (p : PeerAddress) : (n.learnPeer p).rumors = n.rumors := by
  unfold learnPeer
  split <;> rfl

/-- **Taking a record tells of it**, if it is a rumor with a text. -/
theorem rumors_announce (n : Node) (r : Record) : (n.announce r).rumors = n.rumors ++ r.told?.toList := by
  cases r with
  | rumor m =>
    rw [announce, Record.told?_rumor]
    split
    · exact (List.append_nil _).symm
    · exact n.rumors_emit _
  | proposal m =>
    refine .trans ?_ (List.append_nil _).symm
    simp only [announce]
    split
    · rfl
    · exact rumors_emit_other _ rfl
  | block b => exact (List.append_nil _).symm

theorem rumors_accept (n : Node) (sender : PeerAddress) (r : Record) :
    (n.accept sender r).node.rumors = n.rumors ++ ((n.taken? (.accept sender r)).bind Record.told?).toList := by
  by_cases ok : (n.isProved r && (n.store.accept r).1 == .new) = true
  · rw [taken?_accept, if_pos ok]
    simp only [Bool.and_eq_true, beq_iff_eq] at ok
    rw [accept, ok.1, Store.accept_of_eq (Store.accept_new_iff.1 ok.2)]
    exact rumors_announce _ r
  · rw [taken?_accept, if_neg ok]
    refine .trans ?_ (List.append_nil _).symm
    unfold accept
    split
    · rfl
    · split
      · rename_i proved _ _ new
        exact absurd (by simpa [new] using proved) ok
      · rfl

/-! ## Packets for others, and spreading -/

theorem rumors_deliverHere (n : Node) (p : Packet) : (n.deliverHere p).node.rumors = n.rumors := by
  cases p with
  | ack => rfl
  | _ => exact n.rumors_emit_other rfl

theorem rumors_forward (n : Node) (d : Origin) (p : Packet) : (n.forward d p).node.rumors = n.rumors := by
  unfold forward
  split <;> rfl

theorem rumors_originate (n : Node) (p : Packet) : (n.originate p).2.node.rumors = n.rumors := by
  unfold originate
  split
  · rfl
  · split
    · exact n.rumors_deliverHere p
    · exact n.rumors_forward _ p

theorem rumors_relay (n : Node) (d : Origin) (p : Packet) : (n.relay d p).node.rumors = n.rumors := by
  unfold relay
  split
  · exact n.rumors_deliverHere p
  · split <;> rfl

theorem rumors_handle (n : Node) (sender : PeerAddress) (p : Packet) : (n.handle sender p).node.rumors = n.rumors := by
  unfold handle
  split
  · rfl
  · split
    · rfl
    · exact n.rumors_emit_other rfl
  · split
    · exact n.rumors_relay _ p
    · rfl
    · rfl

theorem rumors_flipToGoOn (n : Node) (r : Record) (last : PeerAddress) : (n.flipToGoOn r last).node.rumors = n.rumors := by
  simp only [flipToGoOn]
  split <;> rfl

theorem rumors_awaitNotice {now : Nat} {r : Record} {p : PeerAddress} {ticket deadline : Nat} {step : Step}
    (h : step ∈ n.awaitNotice now r p ticket deadline) : step.node.rumors = n.rumors := by
  simp only [awaitNotice, List.mem_append, Option.mem_toList, Option.map_eq_some_iff] at h
  rcases h with ⟨notice, -, rfl⟩ | h
  · split
    · exact rumors_flipToGoOn _ r p
    · rfl
  · split at h
    · obtain rfl := Option.some.inj h; rfl
    · cases h

/-! ## Proposals and rounds -/

theorem rumors_reply (n : Node) (call : Nat) (r : Except NodeError SequenceId) : (n.reply call r).rumors = n.rumors := by
  unfold reply
  split <;> rfl

theorem rumors_foldl_reply (l : List Nat) (e : Except NodeError SequenceId) (n : Node) :
    (l.foldl (fun n call => n.reply call e) n).rumors = n.rumors := by
  induction l generalizing n with
  | nil => rfl
  | cons c l ih => exact (ih _).trans (n.rumors_reply c e)

theorem rumors_propose (n : Node) (call : Nat) (tx : Transaction) : (n.propose call tx).node.rumors = n.rumors := by
  unfold propose
  split
  · rfl
  · split
    · exact n.rumors_reply call _
    · rfl

theorem rumors_findRound (n : Node) (o : Origin) (id : SequenceId) (purpose : RoundPurpose) :
    (n.findRound o id purpose).node.rumors = n.rumors := by
  unfold findRound
  split
  · rfl
  · exact n.rumors_reply _ _
  · rfl

theorem rumors_startCollection (n : Node) (call : Nat) (r : Record) (round : UInt32) (tx : Transaction) :
    (n.startCollection call r round tx).node.rumors = n.rumors := by
  unfold startCollection
  split
  · exact n.rumors_reply _ _
  · exact rumors_reply _ _ _

theorem rumors_awaitMajority {now : Nat} {r : Record} {round : UInt32} {tx : Transaction} {tick : Nat} {step : Step}
    (h : step ∈ n.awaitMajority now r round tx tick) : step.node.rumors = n.rumors := by
  simp only [awaitMajority, List.mem_append] at h
  rcases h with h | h
  · split at h
    · rw [List.mem_singleton.1 h]; rfl
    · cases h
  · split at h
    · rw [List.mem_singleton.1 h]
      split <;> rfl
    · cases h

theorem rumors_foldl_emit (l : List RoundClosed) (n : Node) :
    (l.foldl (fun n c => n.emit (.roundAdvanced (c.round + 1) c.witnesses)) n).rumors = n.rumors := by
  induction l generalizing n with
  | nil => rfl
  | cons c l ih => exact (ih _).trans (n.rumors_emit_other rfl)

theorem rumors_countConfirmation (n : Node) (o : Origin) (round : UInt32) :
    (n.countConfirmation o round).node.rumors = n.rumors := by
  unfold countConfirmation
  split
  · rfl
  · exact rumors_foldl_emit _ _

/-! ## Ledgers -/

theorem rumors_openTopic (n : Node) (t : String) : (n.openTopic t).node.rumors = n.rumors := by
  unfold openTopic
  split <;> rfl

theorem rumors_feedBlock (n : Node) (b : Block) : (n.feedBlock b).node.rumors = n.rumors := by
  simp only [feedBlock]
  split <;> rfl

theorem rumors_seekBallot (now : Nat) (n : Node) (t : String) (round : UInt32) (stash : RoundStash) :
    (n.seekBallot now t round stash).node.rumors = n.rumors := by
  simp only [seekBallot]
  split <;> rfl

theorem rumors_collect {t : String} {stash : RoundStash} {c : RoundCollector} {step : Step}
    (h : step ∈ n.collect t stash c) : step.node.rumors = n.rumors := by
  simp only [collect] at h
  split at h
  · rw [List.mem_singleton.1 h]; rfl
  · split at h
    · cases h
    · split at h
      · rw [List.mem_singleton.1 h]; rfl
      · split at h <;> · rw [List.mem_singleton.1 h]; rfl

theorem rumors_decide (n : Node) (t : String) (stash : RoundStash) (c : RoundCollector) :
    (n.decide t stash c).node.rumors = n.rumors := by
  simp only [decide]
  split
  · exact rumors_emit_other _ rfl
  · rfl

/-! ## All actions -/

/-- **An action that is no offer tells of no rumor.** -/
theorem rumors_of_other {now : Nat} {a : Action} {step : Step} (h : step ∈ n.perform now a)
    (other : ∀ sender r, a ≠ .accept sender r) : step.node.rumors = n.rumors := by
  cases a with
  | accept sender r => exact absurd rfl (other sender r)
  | receive =>
    simp only [perform, receive] at h
    split at h
    · split at h
      · cases h
      · rw [List.mem_singleton.1 h]; rfl
    · rw [List.mem_singleton.1 h]; rfl
  | handle sender p => rw [List.mem_singleton.1 h]; exact n.rumors_handle sender p
  | learn peer => rw [List.mem_singleton.1 h]; exact n.rumors_learnPeer peer
  | passOn | compareStatus | settle | sendRecord | pushStatus | startProposal | storeProposal | stampRound | offerGate
  | drive | abandon | confirm => rw [List.mem_singleton.1 h]; rfl
  | applyRoute =>
    simp only [perform, applyRoute] at h
    split at h
    · cases h
    · rw [List.mem_singleton.1 h]; rfl
  | forward d p => rw [List.mem_singleton.1 h]; exact n.rumors_forward d p
  | chooseTarget r excluded =>
    rw [List.mem_singleton.1 h]
    simp only [chooseTarget]
    split <;> rfl
  | awaitNotice => exact rumors_awaitNotice h
  | giveUp r peer ticket => rw [List.mem_singleton.1 h]; exact rumors_flipToGoOn _ r peer
  | awaitPush tick =>
    simp only [perform, awaitPush] at h
    split at h
    · rw [List.mem_singleton.1 h]; rfl
    · cases h
  | awaitHeartbeat tick =>
    simp only [perform, awaitHeartbeat] at h
    split at h
    · rw [List.mem_singleton.1 h]; rfl
    · cases h
  | propose call tx => rw [List.mem_singleton.1 h]; exact n.rumors_propose call tx
  | takeProposal =>
    simp only [perform, takeProposal] at h
    split at h
    · cases h
    · rw [List.mem_singleton.1 h]; rfl
  | awaitRound call tx =>
    rw [List.mem_singleton.1 h]
    unfold awaitRound
    split <;> rfl
  | awaitRoundChange seen call tx =>
    simp only [perform, awaitRoundChange] at h
    split at h
    · cases h
    · rw [List.mem_singleton.1 h]; rfl
  | findRound o id purpose => rw [List.mem_singleton.1 h]; exact n.rumors_findRound o id purpose
  | acknowledge o id via =>
    rw [List.mem_singleton.1 h]
    unfold acknowledge
    split <;> rfl
  | countAck ack => rcases n.countAck_cases ack with he | ⟨ws, -, -, he⟩ <;> · rw [List.mem_singleton.1 h, he]; rfl
  | startCollection call r round tx => rw [List.mem_singleton.1 h]; exact n.rumors_startCollection call r round tx
  | awaitMajority => exact rumors_awaitMajority h
  | checkRound r round tx tick =>
    rw [List.mem_singleton.1 h]
    unfold checkRound
    split <;> rfl
  | storeConfirmation => rw [List.mem_singleton.1 h]; exact rumors_emit_other _ rfl
  | countConfirmation o round => rw [List.mem_singleton.1 h]; exact n.rumors_countConfirmation o round
  | openTopic t => rw [List.mem_singleton.1 h]; exact n.rumors_openTopic t
  | feed b => rw [List.mem_singleton.1 h]; exact n.rumors_feedBlock b
  | publish =>
    simp only [perform, publish] at h
    split at h
    · cases h
    · rw [List.mem_singleton.1 h]; rfl
  | seekBallot t round stash => rw [List.mem_singleton.1 h]; exact rumors_seekBallot now n t round stash
  | pause t round stash deadline =>
    simp only [perform, pause] at h
    split at h
    · rw [List.mem_singleton.1 h]; rfl
    · cases h
  | collect => exact rumors_collect h
  | decide t stash c => rw [List.mem_singleton.1 h]; exact n.rumors_decide t stash c

/-- **An action tells of the record that it takes**, and of nothing else. -/
theorem rumors_of_perform {now : Nat} {a : Action} {step : Step} (h : step ∈ n.perform now a) :
    step.node.rumors = n.rumors ++ ((n.taken? a).bind Record.told?).toList := by
  by_cases offer : ∃ sender r, a = .accept sender r
  · obtain ⟨sender, r, rfl⟩ := offer
    rw [List.mem_singleton.1 h]
    exact n.rumors_accept sender r
  · have other : ∀ sender r, a ≠ .accept sender r := fun sender r ha => offer ⟨sender, r, ha⟩
    rw [rumors_of_other h other, taken?_of_other other]
    exact (List.append_nil _).symm

/-- A record that is taken is the next one of its origin, and goes into the store. -/
theorem store_of_taken {now : Nat} {a : Action} {step : Step} {r : Record} (h : step ∈ n.perform now a)
    (taken : n.taken? a = some r) : r.id = n.store.nextId r.origin ∧ step.node.store = n.store.push r := by
  by_cases offer : ∃ sender x, a = .accept sender x
  · obtain ⟨sender, x, rfl⟩ := offer
    rw [taken?_accept] at taken
    split at taken
    · rename_i ok
      obtain rfl := Option.some.inj taken
      simp only [Bool.and_eq_true, beq_iff_eq] at ok
      have hid := Store.accept_new_iff.1 ok.2
      refine ⟨hid, ?_⟩
      rw [List.mem_singleton.1 h, accept, ok.1, Store.accept_of_eq hid]
      exact congrArg (fun f => f.core.store) (frame_announce _ x)
    · cases taken
  · rw [taken?_of_other fun sender x ha => offer ⟨sender, x, ha⟩] at taken
    cases taken

/-- A record that is offered and not taken leaves the store as it is. -/
theorem store_of_refused {sender : PeerAddress} {r : Record} (none : n.taken? (.accept sender r) = none) :
    (n.accept sender r).node.store = n.store := by
  rw [taken?_accept] at none
  have refused : ¬ (n.isProved r && (n.store.accept r).1 == .new) = true := fun ok => by
    rw [if_pos ok] at none
    cases none
  rw [accept]
  split
  · rfl
  · split
    · rename_i proved _ _ new
      exact absurd (by simpa [new] using proved) refused
    · rfl

/-- **A record that comes into the store otherwise** is of the own name. -/
theorem store_of_not_taken {now : Nat} {a : Action} {step : Step} (h : step ∈ n.perform now a)
    (none : n.taken? a = none) : step.node.store = n.store ∨
      ∃ r, r.origin = n.name ∧ r.id = n.store.nextId r.origin ∧ step.node.store = n.store.push r := by
  by_cases offer : ∃ sender x, a = .accept sender x
  · obtain ⟨sender, x, rfl⟩ := offer
    rw [List.mem_singleton.1 h]
    exact .inl (store_of_refused none)
  · have change := storeChange_of_perform h
    generalize step.node.store = s at change ⊢
    cases change with
    | same => exact .inl rfl
    | accepted sender r => exact absurd ⟨sender, r, rfl⟩ offer
    | made _ r origin id => exact .inr ⟨r, origin, id, rfl⟩

/-! ## Without an action -/

theorem rumors_answer (n : Node) (q : Request) : (n.answer q).node.rumors = n.rumors := by
  cases q with
  | postRumor text => rfl
  | sendPrivate d text => exact n.rumors_originate _
  | sendRouted p => exact n.rumors_originate p
  | propose tx => rfl
  | giveUpCall call => rfl
  | addPeer p => exact n.rumors_learnPeer p
  | submitBallot t b => exact n.rumors_openTopic t

theorem rumors_arrive {n' : Node} {room : Nat} {sender : PeerAddress} {p : Packet}
    (h : n.arrive room sender p = some n') : n'.rumors = n.rumors := by
  unfold arrive at h
  split at h
  · rw [← Option.some.inj h]; rfl
  · cases h

theorem rumors_shutdown (n : Node) : n.shutdown.rumors = n.rumors := by
  simp only [shutdown]
  split
  · exact rumors_foldl_reply _ _ _
  · rfl

theorem rumors_new {c : Config} {address : PeerAddress} {random : RandomSource} {auth : Authenticator}
    (h : Node.new c address random auth = .ok n) : n.rumors = [] := by
  obtain ⟨hv, ht⟩ := checks_of_new h
  unfold Node.new at h
  rw [hv, ht] at h
  rw [← Except.ok.inj h]
  rfl

end Node
end GossipNode
