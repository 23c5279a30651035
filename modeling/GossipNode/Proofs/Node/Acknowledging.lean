import GossipNode.Proofs.Consensus.Holding
import GossipNode.Proofs.Node.Changes
import GossipNode.Proofs.Node.Counting
/-!
# On the way to an acknowledgment

A proposal that is accepted from a peer is looked up, stamped, offered to the gate and, now or once its round opens,
acknowledged.  Two things are said of this way when rounds are strict.  No one on it is early: an acknowledgment is only
about to be sent when the round of its proposal is open (`Timely`), and what the gate holds is of rounds that are not
(`Gated`).  And no one gets lost or doubled: what an action takes from the way it puts back, and only acceptance adds to
it (`balanced_of_perform`).
-/
namespace GossipNode

namespace Action

/-- The action is on the way from an accepted proposal to its acknowledgment. -/
def Acknowledges (o : Origin) (id : SequenceId) : Action → Bool
  | .findRound o' id' (.acknowledge _) | .stampRound o' id' _ (.acknowledge _) | .offerGate o' id' _ _
  | .acknowledge o' id' _ => o' == o && id' == id
  | _ => false

/-- The action is on the way to the acknowledgment of some proposal. -/
def Owes : Action → Bool
  | .findRound _ _ (.acknowledge _) | .stampRound _ _ _ (.acknowledge _) | .offerGate .. | .acknowledge .. => true
  | _ => false

/-- The action is the end of that way, the attempt to send the acknowledgment. -/
def Attempts (o : Origin) (id : SequenceId) : Action → Bool
  | .acknowledge o' id' _ => o' == o && id' == id
  | _ => false

/-- An action that is on that way or may put something on it. -/
def MayAcknowledge : Action → Bool
  | .accept .. | .findRound _ _ (.acknowledge _) | .stampRound _ _ _ (.acknowledge _) | .offerGate .. | .acknowledge ..
  | .countConfirmation .. => true
  | _ => false

/-- What an action on that way carries is what the store says, and at its end the round is open. -/
def Timely (s : Store) (current : UInt32) : Action → Prop
  | .findRound o id (.acknowledge _) => ∃ round, s.proposalRound o id = some round
  | .stampRound o id round (.acknowledge _) | .offerGate o id round _ => s.proposalRound o id = some round
  | .acknowledge o id _ => ∃ round, s.proposalRound o id = some round ∧ round ≤ current
  | _ => True

variable {s s' : Store} {current current' : UInt32} {a : Action}

theorem Acknowledges.owes {o : Origin} {id : SequenceId} (h : a.Acknowledges o id = true) : a.Owes = true := by
  unfold Acknowledges at h
  split at h
  · rfl
  · rfl
  · rfl
  · rfl
  · cases h

theorem Timely.mono (grown : ∀ o, s.log o <+: s'.log o) (le : current ≤ current') (h : a.Timely s current) :
    a.Timely s' current' := by
  cases a with
  | findRound o id purpose =>
    cases purpose with
    | acknowledge via =>
      obtain ⟨round, hround⟩ := h
      exact ⟨round, Store.proposalRound_mono (grown o) hround⟩
    | _ => trivial
  | stampRound o id round purpose =>
    cases purpose with
    | acknowledge via => exact Store.proposalRound_mono (grown o) h
    | _ => trivial
  | offerGate o id round via => exact Store.proposalRound_mono (grown o) h
  | acknowledge o id via =>
    obtain ⟨round, hround, hle⟩ := h
    exact ⟨round, Store.proposalRound_mono (grown o) hround, UInt32.le_trans hle le⟩
  | _ => trivial

end Action

namespace Node

variable {n : Node} {a a' : Action} {now : Nat} {step : Step} {o : Origin} {id : SequenceId} {round : UInt32}

/-- How often the gate holds a proposal. -/
def heldFor (n : Node) (o : Origin) (id : SequenceId) : Nat :=
  n.broadcast.gate.items.countP (fun p => p.1 == o && p.2 == id)

/-- **The gate is in step with the rounds**, and holds proposals of rounds that are not open. -/
structure Gated (n : Node) : Prop where
  current : n.broadcast.gate.current = n.round
  held : ∀ round o id, n.broadcast.gate.HoldsUntil round (o, id) →
    n.round < round ∧ n.store.proposalRound o id = some round

/-! ## What stays -/

theorem CoreChange.gate_eq {core : Core} (h : n.CoreChange a core) (offers : ∀ o id round via, a ≠ .offerGate o id round via)
    (counts : ∀ o round, a ≠ .countConfirmation o round) : core.broadcast.gate = n.broadcast.gate := by
  cases h with
  | offered => exact absurd rfl (offers _ _ _ _)
  | closed => exact absurd rfl (counts _ _)
  | _ => rfl

theorem CoreChange.tracker_eq {core : Core} (h : n.CoreChange a core) (counts : ∀ o round, a ≠ .countConfirmation o round) :
    core.broadcast.tracker = n.broadcast.tracker := by
  cases h with
  | closed => exact absurd rfl (counts _ _)
  | _ => rfl

/-- **Records of others are accepted**, never made. -/
theorem CoreChange.log_eq {core : Core} (h : n.CoreChange a core) (accepts : ∀ sender r, a ≠ .accept sender r)
    (other : o ≠ n.name) : core.store.log o = n.store.log o := by
  cases h with
  | accepted => exact absurd rfl (accepts _ _)
  | made _ origin => exact (Store.log_push _ _ _).trans (if_neg (by rw [origin]; exact other))
  | proposed | confirmed => exact (Store.log_push _ _ _).trans (if_neg other)
  | _ => rfl

/-! ## The gate -/

/-- **When rounds close, the gate opens with them.** -/
theorem Gated.countConfirmation (gated : n.Gated)
    (advances : (n.broadcast.tracker.recordConfirmation o round).2.current.toNat =
      n.round.toNat + (n.broadcast.tracker.recordConfirmation o round).1.length) :
    (n.countConfirmation o round).node.Gated := by
  have gate := n.gate_countConfirmation o round
  have current := n.round_countConfirmation o round
  have store := n.store_countConfirmation o round
  by_cases none : (n.broadcast.tracker.recordConfirmation o round).1 = []
  · rw [if_pos none] at gate
    rw [none, List.length_nil, Nat.add_zero, UInt32.toNat_inj] at advances
    refine ⟨by rw [gate, current, advances]; exact gated.current, fun round' o' id' hheld => ?_⟩
    rw [gate] at hheld
    rw [current, advances, store]
    exact gated.held round' o' id' hheld
  · rw [if_neg none] at gate
    have later : n.broadcast.gate.current < (n.broadcast.tracker.recordConfirmation o round).2.current := by
      have := List.length_pos_of_ne_nil none
      rw [gated.current, UInt32.lt_iff_toNat_lt]
      omega
    refine ⟨by rw [gate, current, RoundGate.current_advanceTo later], fun round' o' id' hheld => ?_⟩
    rw [gate] at hheld
    obtain ⟨before, still⟩ := RoundGate.holdsUntil_of_advanceTo hheld
    rw [current, store]
    exact ⟨still later, (gated.held round' o' id' before).2⟩

theorem gated_of_perform (h : step ∈ n.perform now a) (ha : a.Timely n.store n.round) (advances : n.Advances a)
    (gated : n.Gated) : step.node.Gated := by
  have grown := log_prefix_of_perform h
  have change := coreChange_of_perform h
  by_cases offers : ∃ o id round via, a = .offerGate o id round via
  · obtain ⟨o, id, round, via, rfl⟩ := offers
    rw [List.mem_singleton.1 h]
    refine ⟨(RoundGate.current_offer _ _ _).trans gated.current, fun round' o' id' hheld => ?_⟩
    rcases RoundGate.holdsUntil_of_offer hheld with hheld | ⟨later, rfl, he⟩
    · exact gated.held round' o' id' hheld
    · obtain ⟨rfl, rfl⟩ := Prod.mk.inj he
      rw [gated.current] at later
      exact ⟨later, ha⟩
  by_cases counts : ∃ o round, a = .countConfirmation o round
  · obtain ⟨o, round, rfl⟩ := counts
    rw [List.mem_singleton.1 h]
    exact gated.countConfirmation (advances o round rfl)
  · have counts : ∀ o round, a ≠ .countConfirmation o round := fun o round he => counts ⟨o, round, he⟩
    have gate : step.node.broadcast.gate = n.broadcast.gate :=
      change.gate_eq (fun o id round via he => offers ⟨o, id, round, via, he⟩) counts
    have round : step.node.round = n.round := congrArg RoundTracker.current (change.tracker_eq counts)
    refine ⟨by rw [gate, round]; exact gated.current, fun round' o' id' hheld => ?_⟩
    rw [gate] at hheld
    obtain ⟨later, hround⟩ := gated.held round' o' id' hheld
    exact ⟨by rw [round]; exact later, Store.proposalRound_mono (grown o') hround⟩

/-! ## Timely -/

/-- **What rounds release when they close.** -/
theorem next_countConfirmation (n : Node) (o : Origin) (round : UInt32) :
    (n.countConfirmation o round).next = (if (n.broadcast.tracker.recordConfirmation o round).1 = [] then []
      else (n.broadcast.gate.advanceTo (n.broadcast.tracker.recordConfirmation o round).2.current).1).map
        (fun p => .acknowledge p.1 p.2 none) ∧
    (n.countConfirmation o round).effects.filterMap Effect.script? = [] := by
  unfold countConfirmation
  generalize n.broadcast.tracker.recordConfirmation o round = recorded
  obtain ⟨rounds, tracker⟩ := recorded
  cases rounds <;> exact ⟨rfl, rfl⟩

theorem afterStamp_acknowledge {c : Config} (strict : c.strictRounds = true) (selective : c.ackAll = false) (o : Origin)
    (id : SequenceId) (round : UInt32) (via : PeerAddress) :
    afterStamp c o id round (.acknowledge via) = .offerGate o id round via := by
  simp [afterStamp, strict, selective]

/-- A proposal that is accepted has a round. -/
theorem proposalRound_push {s : Store} {m : Proposal} (sound : s.Sound) (fits : s.Fits) (new : m.id = s.nextId m.origin)
    (hm : m.confirmed = none) : ∃ round, (s.push (.proposal m)).proposalRound m.origin m.id = some round := by
  have held : (s.push (.proposal m)).get? m.origin m.id = some (.proposal m) :=
    (sound.push (r := .proposal m) fits new).get?_eq_some_iff.2 ⟨s.mem_log_push (.proposal m), rfl⟩
  exact ⟨_, Store.proposalRound_eq held (by rw [Record.isUnconfirmedProposal, hm]; rfl)⟩

/-- **No one on the way to an acknowledgment is early.** -/
theorem timely_of_perform (h : step ∈ n.perform now a) (sound : n.store.Sound) (fits : n.store.Fits)
    (strict : n.config.strictRounds = true) (selective : n.config.ackAll = false) (ha : a.Timely n.store n.round)
    (gated : n.Gated) (hmem : a' ∈ step.todo) : a'.Timely step.node.store step.node.round := by
  cases follows_of_perform h hmem with
  | findProposal new hm =>
    rw [List.mem_singleton.1 h, Action.Timely, (accept_proposal new).1]
    exact proposalRound_push sound fits new hm
  | @found o id purpose round hround =>
    have later := Store.proposalRound_mono (log_prefix_of_perform h o) hround
    cases purpose with
    | acknowledge => exact later
    | _ => trivial
  | @stamped o id round purpose =>
    cases purpose with
    | acknowledge via =>
      rw [afterStamp_acknowledge strict selective]
      exact Store.proposalRound_mono (log_prefix_of_perform h o) ha
    | _ => trivial
  | letThrough hopen =>
    rw [List.mem_singleton.1 h]
    rw [gated.current] at hopen
    exact ⟨_, ha, hopen⟩
  | @release o round o' id =>
    rw [List.mem_singleton.1 h] at hmem ⊢
    obtain ⟨next, started⟩ := n.next_countConfirmation o round
    rw [Step.todo, next, started, List.flatten_nil, List.append_nil] at hmem
    obtain ⟨p, hp, he⟩ := List.mem_map.1 hmem
    obtain ⟨rfl, rfl, -⟩ := Action.acknowledge.inj he
    split at hp
    · cases hp
    · obtain ⟨r, hle, hheld⟩ := RoundGate.holdsUntil_of_released hp
      refine ⟨r, ?_, by rw [n.round_countConfirmation]; exact hle⟩
      rw [n.store_countConfirmation]
      exact (gated.held r p.1 p.2 hheld).2
  | _ => trivial

/-! ## Nothing gets lost -/

/-- How many proposals of that number the store has of an origin: at most one, in a sound store. -/
def proposedAs (n : Node) (o : Origin) (id : SequenceId) : Nat := (n.store.proposals o).countP (fun r => r.id == id)

/-- What a step leaves to be done on the way to an acknowledgment, by its task and by the tasks that it starts. -/
def owed (step : Step) (o : Origin) (id : SequenceId) : Nat :=
  (step.next ++ step.started.flatten).countP (fun a => a.Acknowledges o id)

theorem owed_eq_zero (h : ∀ a' ∈ step.todo, a'.Acknowledges o id = false) : owed step o id = 0 := by
  refine List.countP_eq_zero.2 (fun a' ha' => ?_)
  rw [h a']
  · exact Bool.false_ne_true
  · rcases List.mem_append.1 ha' with ha' | ha'
    · exact List.mem_append_left _ ha'
    · obtain ⟨script, hs, ha'⟩ := List.mem_flatten.1 ha'
      exact Step.mem_todo_of_started hs ha'

/-- Without new tasks, what is owed is what the task goes on with. -/
theorem owed_of_scripts (h : step.effects.filterMap Effect.script? = []) :
    owed step o id = step.next.countP (fun a => a.Acknowledges o id) := by
  have started : step.started = [] := by
    rw [Step.started, h, ite_self]
  rw [owed, started, List.flatten_nil, List.append_nil]

/-- **What a step puts on the way is what it takes from the way**, and the proposals that it accepts. -/
def Balanced (n : Node) (a : Action) (step : Step) (o : Origin) (id : SequenceId) : Prop :=
  (if a.Attempts o id then 1 else 0) + step.node.heldFor o id + owed step o id + n.proposedAs o id =
    (if a.Acknowledges o id then 1 else 0) + n.heldFor o id + step.node.proposedAs o id

/-- Most actions are not on the way and put nothing on it. -/
theorem balanced_of_idle (h : step ∈ n.perform now a) (other : o ≠ n.name) (idle : a.MayAcknowledge = false) :
    Balanced n a step o id := by
  have change := coreChange_of_perform h
  have gate : step.node.broadcast.gate = n.broadcast.gate :=
    change.gate_eq (fun _ _ _ _ he => by rw [he] at idle; cases idle) (fun _ _ he => by rw [he] at idle; cases idle)
  have log : step.node.store.log o = n.store.log o :=
    change.log_eq (fun _ _ he => by rw [he] at idle; cases idle) other
  have leads : ∀ a', n.Follows a a' → a'.Acknowledges o id = false := by
    intro a' follows
    cases follows with
    | @found _ _ purpose => cases purpose <;> first | rfl | cases idle
    | @stamped _ _ _ purpose => cases purpose <;> first | rfl | cases idle
    | findProposal | letThrough | release => cases idle
    | _ => rfl
  have out : a.Acknowledges o id = false ∧ a.Attempts o id = false := by
    cases a with
    | findRound _ _ purpose => cases purpose <;> first | exact ⟨rfl, rfl⟩ | cases idle
    | stampRound _ _ _ purpose => cases purpose <;> first | exact ⟨rfl, rfl⟩ | cases idle
    | offerGate | acknowledge => cases idle
    | _ => exact ⟨rfl, rfl⟩
  unfold Balanced
  rw [out.1, out.2, owed_eq_zero (fun a' ha' => leads a' (follows_of_perform h ha')), heldFor, gate, proposedAs,
    proposedAs, Store.proposals, Store.proposals, log]
  rfl

/-- An action may leave its place on the way to another. -/
theorem balanced_of_next (gate : step.node.broadcast.gate = n.broadcast.gate) (store : step.node.store = n.store)
    (scripts : step.effects.filterMap Effect.script? = []) (next : step.next = [a'])
    (same : a'.Acknowledges o id = a.Acknowledges o id) (passes : a.Attempts o id = false) : Balanced n a step o id := by
  have held : step.node.heldFor o id = n.heldFor o id := by rw [heldFor, gate, heldFor]
  have proposed : step.node.proposedAs o id = n.proposedAs o id := by rw [proposedAs, store, proposedAs]
  unfold Balanced
  rw [owed_of_scripts scripts, next, List.countP_singleton, same, passes, held, proposed, if_neg Bool.false_ne_true]
  omega

theorem countP_duties (sender : PeerAddress) (r : Record) :
    (duties sender r).countP (fun a => a.Acknowledges o id) =
      if r.isUnconfirmedProposal && (r.origin == o && r.id == id) then 1 else 0 := by
  cases r with
  | rumor m => rfl
  | block b => rfl
  | proposal m =>
    cases hm : m.confirmed with
    | none =>
      rw [duties, hm, Record.isUnconfirmedProposal, hm]
      exact List.countP_singleton
    | some p => simp [duties, Record.isUnconfirmedProposal, hm, Action.Acknowledges]

/-- **Acceptance puts an unconfirmed proposal on the way**, and nothing else. -/
theorem balanced_accept (sender : PeerAddress) (r : Record) :
    Balanced n (.accept sender r) (n.accept sender r) o id := by
  unfold accept
  split
  · unfold Balanced
    rw [owed_of_scripts rfl]
    rfl
  · rcases n.store.accept_cases r with ⟨hne, hs⟩ | ⟨-, hs⟩
    · split
      · rename_i hnew
        rw [hnew] at hne
        exact absurd rfl hne
      · unfold Balanced
        rw [owed_of_scripts rfl]
        rfl
    · rw [hs]
      have announced : ∀ m : Node, m.broadcast = n.broadcast → m.store = n.store.push r →
          (m.announce r).heldFor o id = n.heldFor o id ∧ (m.announce r).proposedAs o id = n.proposedAs o id +
            if r.isUnconfirmedProposal && (r.origin == o && r.id == id) then 1 else 0 := by
        intro m broadcast store
        have core := core_of_frame (m.frame_announce r)
        have gate : (m.announce r).broadcast = n.broadcast := (congrArg Core.broadcast core).trans broadcast
        have pushed : (m.announce r).store = n.store.push r := (congrArg Core.store core).trans store
        exact ⟨by rw [heldFor, gate, heldFor], by rw [proposedAs, pushed, Store.countP_proposals_push, proposedAs]⟩
      obtain ⟨held, proposed⟩ := announced { n with
        store := n.store.push r
        routeQueue := n.routeQueue ++ [⟨r.origin, sender, r.isHeartbeat⟩]
        metrics := { n.metrics with recordsAccepted := n.metrics.recordsAccepted + 1 } } rfl rfl
      unfold Balanced
      rw [owed_of_scripts rfl, List.countP_append, countP_duties]
      dsimp only
      rw [held, proposed]
      show 0 + _ + (_ + 0) + _ = 0 + _ + _
      omega

theorem balanced_offerGate (o' : Origin) (id' : SequenceId) (round : UInt32) (via : PeerAddress) :
    Balanced n (.offerGate o' id' round via) (n.offerGate o' id' round via) o id := by
  have kept := (n.broadcast.gate.perm_items_offer round (o', id')).countP_eq (fun p => p.1 == o && p.2 == id)
  rw [List.countP_append, List.countP_cons] at kept
  dsimp only at kept
  have next : (n.offerGate o' id' round via).next.countP (fun a => a.Acknowledges o id) =
      (n.broadcast.gate.offer round (o', id')).1.toList.countP (fun p => p.1 == o && p.2 == id) :=
    List.countP_map
  unfold Balanced
  rw [owed_of_scripts rfl, next]
  show 0 + (n.broadcast.gate.offer round (o', id')).2.items.countP _ + _ + n.proposedAs o id =
    (if o' == o && id' == id then 1 else 0) + n.broadcast.gate.items.countP _ + n.proposedAs o id
  omega

theorem balanced_countConfirmation (o' : Origin) (round : UInt32) :
    Balanced n (.countConfirmation o' round) (n.countConfirmation o' round) o id := by
  obtain ⟨next, scripts⟩ := n.next_countConfirmation o' round
  unfold Balanced
  rw [owed_of_scripts scripts, next, List.countP_map, heldFor, n.gate_countConfirmation, proposedAs, proposedAs,
    n.store_countConfirmation]
  by_cases none : (n.broadcast.tracker.recordConfirmation o' round).1 = []
  · rw [if_pos none, if_pos none]
    rfl
  · rw [if_neg none, if_neg none]
    have kept := (n.broadcast.gate.perm_items_advanceTo
      (n.broadcast.tracker.recordConfirmation o' round).2.current).countP_eq (fun p => p.1 == o && p.2 == id)
    rw [List.countP_append] at kept
    show 0 + _ + List.countP (fun p : Origin × SequenceId => p.1 == o && p.2 == id) _ + _ =
      0 + n.broadcast.gate.items.countP _ + _
    omega

/-- **Nothing gets lost or doubled on the way to an acknowledgment.** -/
theorem balanced_of_perform (h : step ∈ n.perform now a) (strict : n.config.strictRounds = true)
    (selective : n.config.ackAll = false) (ha : a.Timely n.store n.round) (other : o ≠ n.name) :
    Balanced n a step o id := by
  cases a with
  | accept sender r => rw [List.mem_singleton.1 h]; exact balanced_accept sender r
  | findRound o' id' purpose =>
    cases purpose with
    | acknowledge via =>
      obtain ⟨round, hround⟩ := ha
      have next : n.findRound o' id' (.acknowledge via) = n.proceed [.stampRound o' id' round (.acknowledge via)] := by
        unfold findRound
        rw [hround]
      rw [List.mem_singleton.1 h, next]
      exact balanced_of_next rfl rfl rfl rfl rfl rfl
    | _ => exact balanced_of_idle h other rfl
  | stampRound o' id' round purpose =>
    cases purpose with
    | acknowledge via =>
      rw [List.mem_singleton.1 h]
      exact balanced_of_next rfl rfl rfl rfl (by rw [afterStamp_acknowledge strict selective]; rfl) rfl
    | _ => exact balanced_of_idle h other rfl
  | offerGate o' id' round via => rw [List.mem_singleton.1 h]; exact balanced_offerGate o' id' round via
  | acknowledge o' id' via =>
    rw [List.mem_singleton.1 h]
    unfold acknowledge
    split <;>
    · unfold Balanced
      rw [owed_of_scripts rfl]
      rfl
  | countConfirmation o' round => rw [List.mem_singleton.1 h]; exact balanced_countConfirmation o' round
  | _ => exact balanced_of_idle h other rfl

end Node
end GossipNode
