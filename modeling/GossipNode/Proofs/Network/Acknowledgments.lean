import GossipNode.Proofs.Network.Histories
import GossipNode.Proofs.Node.Acknowledging
import GossipNode.Proofs.Node.Relaying
/-!
# Acknowledgments wait for their round

When rounds are strict and not everything is acknowledged, a node acknowledges a proposal of a peer once, and not before
its round is open (`acknowledgments_wait`).  The decision is spread over the store, the gate and the tracker, and rounds
may close in between; what makes up for it is that the gate is in step with the tracker whenever an action has been
taken, and that a proposal is at any time in one place: still on its way, in the gate, or done with.
-/
namespace GossipNode
namespace Machine

variable {m m' : Machine} {e : Event} {c : Config} {deeds more : List Deed} {d : Deed} {a : Action} {o : Origin}
  {id : SequenceId} {round : UInt32} {allowed : Machine → Event → Machine → Prop}

/-- How often the acknowledgment of a proposal has been attempted. -/
def attempts (deeds : List Deed) (o : Origin) (id : SequenceId) : Nat := deeds.countP (fun d => d.action.Attempts o id)

/-- A shutdown ends no task that still has to acknowledge something. -/
def KeepsOwing (m : Machine) (e : Event) (m' : Machine) : Prop :=
  match e with
  | .shutdown => ∀ script ∈ m.tasks, (∃ a ∈ script, a.Owes = true) → script ∈ m'.tasks
  | _ => True

instance (m : Machine) (e : Event) (m' : Machine) : Decidable (m.KeepsOwing e m') :=
  match e with
  | .shutdown => inferInstanceAs (Decidable (∀ script ∈ m.tasks, (∃ a ∈ script, a.Owes = true) → script ∈ m'.tasks))
  | .act _ | .call _ | .arrive .. | .closeInbox => isTrue trivial

/-! ## In time -/

/-- **No one is early**: the gate is in step, and whoever is or was on the way to an acknowledgment is or was in time. -/
structure Orderly (deeds : List Deed) (m : Machine) : Prop where
  gated : m.node.Gated
  timely : ∀ a, m.Todo a → a.Timely m.node.store m.node.round
  then_ : ∀ d ∈ deeds, d.action.Timely d.node.store d.node.round
  since : ∀ d ∈ deeds, d.action.Timely m.node.store m.node.round

theorem Orderly.start (fresh : m.Fresh c) : Orderly [] m := by
  have timely : ∀ a, m.Todo a → a.Timely m.node.store m.node.round := by
    intro a ha
    have standing := fresh.standing ha
    cases a with
    | findRound | stampRound | offerGate | acknowledge => cases standing
    | _ => trivial
  obtain ⟨_, _, _, _, hnew, -⟩ := fresh
  have core := Node.core_new hnew
  have broadcast : m.node.broadcast = _ := congrArg Node.Core.broadcast core
  refine ⟨⟨?_, fun round o id hheld => ?_⟩, timely, fun d hd => (by cases hd), fun d hd => (by cases hd)⟩
  · unfold Node.round
    rw [broadcast]
    rfl
  · rw [broadcast] at hheld
    obtain ⟨items, hitems, -⟩ := hheld
    cases hitems

theorem Orderly.idle (h : Orderly deeds m) (move : m.Move e [] m') : Orderly deeds m' := by
  have grown : ∀ o, m.node.store.log o <+: m'.node.store.log o := move.idle.log_prefix
  have broadcast : m'.node.broadcast = m.node.broadcast := move.idle.broadcast_eq
  have round : m'.node.round = m.node.round := congrArg (fun b => b.tracker.current) broadcast
  have later : ∀ a : Action, a.Timely m.node.store m.node.round → a.Timely m'.node.store m'.node.round :=
    fun a ha => ha.mono grown (UInt32.le_of_eq round.symm)
  refine ⟨⟨by rw [broadcast, round]; exact h.gated.current, fun r o id hheld => ?_⟩, fun a ha => ?_, h.then_,
    fun d hd => later _ (h.since d hd)⟩
  · rw [broadcast] at hheld
    obtain ⟨hlt, hround⟩ := h.gated.held r o id hheld
    exact ⟨by rw [round]; exact hlt, Store.proposalRound_mono (grown o) hround⟩
  · rcases move.todo_of_idle ha with ha | ⟨q, ha⟩
    · exact later a (h.timely a ha)
    · cases Node.begins_of_answer ha <;> trivial

theorem orderly_of_history (h : History allowed c deeds m) (strict : c.strictRounds = true)
    (selective : c.ackAll = false) : Orderly deeds m := by
  refine h.induct (fun _ => .start) ?_
  intro deeds more m m' e before ih move _ _
  cases more with
  | nil =>
    rw [List.append_nil]
    exact ih.idle move
  | cons d more =>
    obtain @⟨now, a, step, script, others, _, perform, taken, node, left⟩ := move
    have run := before.run
    have config := run.kept.2
    have todo := todo_of_taken taken
    have advances := run.advances todo
    have timely := ih.timely a todo
    have grown := Node.log_prefix_of_perform perform
    have later : ∀ a : Action, a.Timely m.node.store m.node.round → a.Timely step.node.store step.node.round :=
      fun a ha => ha.mono grown (Node.round_le_of_perform perform advances)
    rw [← node] at later
    refine ⟨by rw [node]; exact Node.gated_of_perform perform timely advances ih.gated, fun a' ha' => ?_,
      fun d hd => ?_, fun d hd => ?_⟩
    · rcases todo_of_left taken left ha' with ha' | ha'
      · exact later a' (ih.timely a' ha')
      · rw [node]
        exact Node.timely_of_perform perform run.sound run.fits (by rw [config]; exact strict)
          (by rw [config]; exact selective) timely ih.gated ha'
    · rcases List.mem_append.1 hd with hd | hd
      · exact ih.then_ d hd
      · rw [List.mem_singleton.1 hd]
        exact timely
    · rcases List.mem_append.1 hd with hd | hd
      · exact later _ (ih.since d hd)
      · rw [List.mem_singleton.1 hd]
        exact later _ timely

/-! ## Once -/

/-- No request is about an acknowledgment that this node owes. -/
theorem acknowledges_of_answer (q : Request) {a : Action} (ha : a ∈ (m.node.answer q).todo) :
    a.Acknowledges o id = false := by
  cases Node.begins_of_answer ha <;> rfl

/-- A shutdown that ends no task that owes an acknowledgment leaves the one that owes this. -/
theorem countP_of_keepsOwing (keeps : m.KeepsOwing .shutdown m') (sub : m'.tasks.Sublist m.tasks)
    (once : m.actions.countP (fun a => a.Acknowledges o id) ≤ 1) :
    m'.actions.countP (fun a => a.Acknowledges o id) = m.actions.countP (fun a => a.Acknowledges o id) := by
  have le : m'.actions.countP (fun a => a.Acknowledges o id) ≤ m.actions.countP (fun a => a.Acknowledges o id) :=
    sub.flatten.countP_le
  by_cases none : m.actions.countP (fun a => a.Acknowledges o id) = 0
  · omega
  · obtain ⟨a, ha, hack⟩ := List.countP_pos_iff.1 (Nat.pos_of_ne_zero none)
    obtain ⟨script, hs, ha⟩ := mem_actions.1 ha
    have left : m'.Todo a := ⟨script, keeps script hs ⟨a, ha, Action.Acknowledges.owes hack⟩, ha⟩
    have pos : 0 < m'.actions.countP (fun a => a.Acknowledges o id) :=
      List.countP_pos_iff.2 ⟨a, mem_actions.2 left, hack⟩
    omega

/-- **A proposal of a peer is in one place**: acknowledged, held by the gate or on its way. -/
theorem attempts_add_held (h : History allowed c deeds m) (strict : c.strictRounds = true)
    (selective : c.ackAll = false) (keeps : ∀ m e m', allowed m e m' → m.KeepsOwing e m') (other : o ≠ c.origin)
    (id : SequenceId) :
    attempts deeds o id + m.node.heldFor o id + m.actions.countP (fun a => a.Acknowledges o id) =
      m.node.proposedAs o id := by
  refine h.induct (P := fun deeds m => attempts deeds o id + m.node.heldFor o id +
    m.actions.countP (fun a => a.Acknowledges o id) = m.node.proposedAs o id) (fun m fresh => ?_) ?_
  · have none : m.actions.countP (fun a => a.Acknowledges o id) = 0 := by
      refine List.countP_eq_zero.2 (fun a ha => ?_)
      have standing := fresh.standing (mem_actions.1 ha)
      cases a with
      | findRound | stampRound | offerGate | acknowledge => cases standing
      | _ => exact Bool.false_ne_true
    obtain ⟨_, _, _, _, hnew, -⟩ := fresh
    have core := Node.core_new hnew
    rw [none, Node.heldFor, show m.node.broadcast = _ from congrArg Node.Core.broadcast core, Node.proposedAs,
      show m.node.store = _ from congrArg Node.Core.store core]
    rfl
  intro deeds more m m' e before ih move ok _
  have run := before.run
  have once : m.node.proposedAs o id ≤ 1 := run.sound.countP_proposals_le o id
  cases more with
  | nil =>
    have held : m'.node.heldFor o id = m.node.heldFor o id := by
      rw [Node.heldFor, show m'.node.broadcast = m.node.broadcast from move.idle.broadcast_eq, Node.heldFor]
    have proposed : m'.node.proposedAs o id = m.node.proposedAs o id := by
      rw [Node.proposedAs, show m'.node.store.proposals o = m.node.store.proposals o from move.idle.proposals_eq o,
        Node.proposedAs]
    rw [List.append_nil, held, proposed, ← ih]
    rcases move.countP_of_idle (p := fun a => a.Acknowledges o id) (fun q a => acknowledges_of_answer q) with
      same | ⟨rfl, sub⟩
    · rw [same]
    · rw [countP_of_keepsOwing (keeps m .shutdown m' ok) sub (by omega)]
  | cons d more =>
    obtain @⟨now, a, step, script, others, _, perform, taken, node, left⟩ := move
    obtain ⟨name, config⟩ := run.kept
    have timely := (orderly_of_history before strict selective).timely a (todo_of_taken taken)
    have balanced : Node.Balanced m.node a step o id :=
      Node.balanced_of_perform perform (by rw [config]; exact strict) (by rw [config]; exact selective) timely
        (by rw [name]; exact other)
    have counted := countP_acted taken left (fun a => a.Acknowledges o id)
    unfold Node.Balanced Node.owed at balanced
    rw [attempts, List.countP_append, List.countP_singleton, node]
    change _ + (if a.Attempts o id then 1 else 0) + _ + _ = _
    unfold attempts at ih
    omega

/-! ## The theorem -/

/-- **Acknowledgments wait for their round.**  When rounds are strict and not everything is acknowledged, whatever is
accepted and confirmed, in whatever order: an acknowledgment is only attempted when the round of its proposal is open, and
then it is sent unless no hop is known for it; the gate is in step with the tracker; and when nothing is on its way, every
proposal of a peer has been acknowledged exactly once if its round is open, and else not at all, and the gate holds it
exactly once. -/
theorem acknowledgments_wait (h : History allowed c deeds m) (strict : c.strictRounds = true)
    (selective : c.ackAll = false) :
    (∀ d ∈ deeds, ∀ o id via, d.action = .acknowledge o id via →
      (∃ round, d.node.store.proposalRound o id = some round ∧ round ≤ d.node.round) ∧
        d.node.SendsAck o id via d.step) ∧
    m.node.broadcast.gate.current = m.node.round ∧
    ((∀ m e m', allowed m e m' → m.KeepsOwing e m') → (∀ a, m.Todo a → a.Owes = false) →
      ∀ o id round, o ≠ c.origin → m.node.store.proposalRound o id = some round →
        if round ≤ m.node.round then attempts deeds o id = 1 ∧ m.node.heldFor o id = 0
        else attempts deeds o id = 0 ∧ m.node.heldFor o id = 1) := by
  have orderly := orderly_of_history h strict selective
  refine ⟨fun d hd o id via he => ?_, orderly.gated.current, fun keeps idle o id round other hround => ?_⟩
  · have timely := orderly.then_ d hd
    obtain ⟨now, perform⟩ := h.performed hd
    rw [he] at timely perform
    rw [List.mem_singleton.1 perform]
    exact ⟨timely, d.node.acknowledge_cases o id via⟩
  have place := attempts_add_held h strict selective keeps other id
  have none : m.actions.countP (fun a => a.Acknowledges o id) = 0 := by
    refine List.countP_eq_zero.2 (fun a ha hack => ?_)
    have owes := Action.Acknowledges.owes hack
    rw [idle a (mem_actions.1 ha)] at owes
    cases owes
  have proposed : m.node.proposedAs o id = 1 := h.run.sound.countP_proposals hround
  rw [none, proposed, Nat.add_zero] at place
  split
  · rename_i isOpen
    -- what the gate holds is of rounds that are not open
    have held : m.node.heldFor o id = 0 := by
      refine List.countP_eq_zero.2 (fun p hp hsame => ?_)
      obtain ⟨o', id'⟩ := p
      simp only [Bool.and_eq_true, beq_iff_eq] at hsame
      obtain ⟨rfl, rfl⟩ := hsame
      obtain ⟨r, hheld⟩ := RoundGate.mem_items.1 hp
      obtain ⟨later, hr⟩ := orderly.gated.held r o' id' hheld
      rw [hround] at hr
      obtain rfl := Option.some.inj hr
      exact absurd isOpen (UInt32.not_le.2 later)
    exact ⟨by omega, held⟩
  · rename_i closed
    have attempted : attempts deeds o id = 0 := by
      refine List.countP_eq_zero.2 (fun d hd hsame => ?_)
      have timely := orderly.since d hd
      unfold Action.Attempts at hsame
      split at hsame
      · rename_i o' id' via he
        simp only [Bool.and_eq_true, beq_iff_eq] at hsame
        obtain ⟨rfl, rfl⟩ := hsame
        rw [he] at timely
        obtain ⟨r, hr, hle⟩ := timely
        rw [hround] at hr
        obtain rfl := Option.some.inj hr
        exact absurd hle closed
      · cases hsame
    exact ⟨attempted, by omega⟩

/-- Of three proposals of a peer, one is of a round that is open from the start, one of a round that two confirmations
open, and one of a round that stays closed.  The second is acknowledged along the route that the first has shown. -/
theorem acknowledgments_wait_two_rounds :
    let config : Config := { name := "a", peers := [], antiEntropyPeriod := 0, peerCount := 3, strictRounds := true }
    ∃ deeds m, History KeepsOwing config deeds m ∧ config.strictRounds = true ∧ config.ackAll = false ∧
      (∀ a, m.Todo a → a.Owes = false) ∧ m.node.broadcast.gate.current = 1 ∧ m.node.round = 1 ∧
      (∀ d ∈ deeds, ∀ o id via, d.action = .acknowledge o id via →
        (∃ round, d.node.store.proposalRound o id = some round ∧ round ≤ d.node.round) ∧
          d.node.SendsAck o id via d.step) ∧
      m.node.store.proposalRound ⟨"b"⟩ 2 = some 1 ∧ attempts deeds ⟨"b"⟩ 2 = 1 ∧
      (∃ d ∈ deeds, d.action = .acknowledge ⟨"b"⟩ 2 none ∧
        d.step.effects = [.send ⟨"B"⟩ (.ack ⟨⟨"a"⟩, 2, ⟨"b"⟩, config.hopLimit⟩)]) ∧
      m.node.store.proposalRound ⟨"b"⟩ 4 = some 2 ∧ attempts deeds ⟨"b"⟩ 4 = 0 ∧ m.node.heldFor ⟨"b"⟩ 4 = 1 := by
  intro config
  let message (o : String) (id : SequenceId) (confirmed : Option SequenceId) : Packet :=
    .proposal ⟨⟨o⟩, id, confirmed, Word256.zero, ⟨"t", 0, []⟩, none⟩
  let arrives (task turns : Nat) (p : Packet) : List (Nat × Event) :=
    [(0, .arrive ⟨"B"⟩ p), (1, .act 0)] ++ List.replicate turns (task, .act 0)
  let moves : List (Nat × Event) :=
    arrives 4 7 (message "b" 1 none) ++ [(0, .act 0)] ++ arrives 5 6 (message "b" 2 none) ++
    arrives 6 7 (message "c" 1 none) ++ arrives 7 6 (message "b" 3 (some 1)) ++ arrives 8 7 (message "c" 2 (some 1)) ++
    arrives 9 6 (message "b" 4 none)
  have played : ((start? config ⟨"A"⟩ .acceptAll).bind (fun m => playDeeds? KeepsOwing moves ([], m))).map
      (fun x => (x.2.actions.all (fun a => !a.Owes), x.1.any (fun d => d.action == .acknowledge ⟨"b"⟩ 2 none &&
          d.step.effects == [.send ⟨"B"⟩ (.ack ⟨⟨"a"⟩, 2, ⟨"b"⟩, config.hopLimit⟩)]),
        x.2.node.round, x.2.node.store.proposalRound ⟨"b"⟩ 2, x.2.node.store.proposalRound ⟨"b"⟩ 4)) =
      some (true, true, 1, some 1, some 2) := by decide +kernel
  obtain ⟨deeds, m, history, hstate⟩ := history_of_start? played
  simp only [Prod.mk.injEq] at hstate
  obtain ⟨hidle, hsent, hround, hopen, hclosed⟩ := hstate
  simp only [List.any_eq_true, Bool.and_eq_true, beq_iff_eq] at hsent
  have idle : ∀ a, m.Todo a → a.Owes = false := by
    intro a ha
    simpa using List.all_eq_true.1 hidle a (mem_actions.2 ha)
  obtain ⟨early, current, once⟩ := acknowledgments_wait history rfl rfl
  have second := once (fun _ _ _ h => h) idle ⟨"b"⟩ 2 1 (by decide) hopen
  have third := once (fun _ _ _ h => h) idle ⟨"b"⟩ 4 2 (by decide) hclosed
  rw [hround] at second third
  rw [if_pos (by decide)] at second
  rw [if_neg (by decide)] at third
  exact ⟨deeds, m, history, rfl, rfl, idle, current.trans hround, hround, early, hopen, second.1, hsent, hclosed,
    third.1, third.2⟩

end Machine
end GossipNode
