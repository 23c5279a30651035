import GossipNode.Proofs.Network.Histories
import GossipNode.Proofs.Node.Sending
/-!
# One own proposal a round

When rounds are strict, a node stores its proposals one after the other, each of them when its round is open and in the
order in which they were asked for (`proposals_wait`).  All of it is the work of one task, the sender; the invariant of a
run is that there is at most one and that it is at some stage of its work (`Paced`).  The one thing that could upset it are
records of the own name that come in from elsewhere.
-/
namespace GossipNode
namespace Machine

variable {m m' : Machine} {e : Event} {c : Config} {deeds more : List Deed} {d : Deed} {a : Action}
  {allowed : Machine → Event → Machine → Prop}

/-- The transactions that have been queued, with the calls that queued them, in order. -/
def queuedBy (deeds : List Deed) : List (Nat × Transaction) := deeds.flatMap (fun d => d.action.queued d.node.down)

/-- The transactions of the proposals that have been stored, with the calls that queued them, in order. -/
def storedBy (deeds : List Deed) : List (Nat × Transaction) := deeds.flatMap (fun d => d.action.stored)

/-- The tasks that send own proposals. -/
def senders (m : Machine) : List (List Action) := m.tasks.filter (fun script => script.any Action.Sends)

/-- **There is at most one sender**, at some stage of its work; and nothing is about to be done about an own record from
elsewhere. -/
structure Paced (deeds : List Deed) (m : Machine) : Prop where
  foreign : ∀ a, m.Todo a → a.Foreign m.node.name
  logged : (m.node.store.proposals m.node.name).map Record.transaction? =
    (storedBy deeds).map (fun queued => some queued.2)
  sender : m.senders = [] ∧ storedBy deeds <+: queuedBy deeds ∨
    ∃ script, m.senders = [script] ∧ m.node.Stage (queuedBy deeds) (storedBy deeds) script

/-- No request does the sender's work. -/
theorem not_sends_of_answer (q : Request) {a : Action} (ha : a ∈ (m.node.answer q).todo) : a.Sends = false := by
  cases Node.begins_of_answer ha <;> rfl

theorem not_sends {script : List Action} (h : ∀ a ∈ script, a.Sends = false) : script.any Action.Sends = false := by
  rw [List.any_eq_false]
  intro a ha hsends
  rw [h a ha] at hsends
  cases hsends

theorem Paced.start (fresh : m.Fresh c) (strict : c.strictRounds = true) : Paced [] m := by
  refine ⟨fun a ha => ?_, ?_, .inr ⟨[.takeProposal], ?_, .free ?_ ?_⟩⟩
  · have standing := fresh.standing ha
    cases a with
    | findRound | stampRound => cases standing
    | _ => trivial
  · obtain ⟨_, _, _, _, hnew, -⟩ := fresh
    have core := Node.core_new hnew
    exact congrArg (fun c : Node.Core => (c.store.proposals c.name).map Record.transaction?) core
  · obtain ⟨_, _, _, now, -, htasks⟩ := fresh
    rw [senders, htasks]
    simp only [Node.tasks, strict]
    by_cases anti : c.antiEntropyPeriod = 0 <;> by_cases beat : c.heartbeatPeriod = 0 <;>
      simp [anti, beat, Action.Sends]
  · obtain ⟨_, _, _, _, hnew, -⟩ := fresh
    have core := Node.core_new hnew
    have clock : m.node.nextOwn = 0 := congrArg (fun c : Node.Core => (c.broadcast.clock.nextRound c.name).toNat) core
    have proposed : m.node.proposed = 0 := congrArg (fun c : Node.Core => (c.store.proposals c.name).length) core
    rw [clock, proposed]
  · obtain ⟨_, _, _, _, hnew, -⟩ := fresh
    exact (congrArg Node.Desk.queue (Node.desk_new hnew)).symm

/-- The senders after an idle move: those that there were, if a shutdown leaves them. -/
theorem senders_of_idle (move : m.Move e [] m') : m'.senders.Perm m.senders ∨ m'.senders.Sublist m.senders := by
  cases move with
  | @answered q _ node left =>
    refine .inl ((left.filter _).trans ?_)
    rw [List.filter_append, List.filter_eq_nil_iff.2, List.nil_append]
    · exact List.Perm.refl _
    · intro script hs
      have none : script.any Action.Sends = false := by
        rcases List.mem_cons.1 hs with rfl | hs
        · exact not_sends (fun a ha => not_sends_of_answer (m := m) q (List.mem_append_left _ ha))
        · exact not_sends (fun a ha => not_sends_of_answer (m := m) q (Step.mem_todo_of_started hs ha))
      rw [none]
      exact Bool.false_ne_true
  | arrived | closed => exact .inl (List.Perm.refl _)
  | stopped sub => exact .inr (sub.filter _)

theorem Paced.idle (h : Paced deeds m) (move : m.Move e [] m') : Paced deeds m' := by
  have name : m'.node.name = m.node.name := move.idle.name_eq
  have proposals : m'.node.store.proposals m.node.name = m.node.store.proposals m.node.name := move.idle.proposals_eq _
  refine ⟨fun a ha => ?_, by rw [name, proposals]; exact h.logged, ?_⟩
  · rw [name]
    rcases move.todo_of_idle ha with ha | ⟨q, ha⟩
    · exact h.foreign a ha
    · cases Node.begins_of_answer ha <;> trivial
  rcases h.sender with ⟨none, order⟩ | ⟨script, one, stage⟩
  · refine .inl ⟨?_, order⟩
    rcases senders_of_idle move with same | sub
    · rw [none] at same
      exact List.perm_nil.1 same
    · rw [none] at sub
      exact List.eq_nil_of_sublist_nil sub
  · have broadcast : m'.node.broadcast = m.node.broadcast := move.idle.broadcast_eq
    have kept : m'.node.Stage (queuedBy deeds ++ []) (storedBy deeds) script := by
      refine stage.keep name ?_ ?_ ?_ move.idle.log_prefix (by rw [move.queue_of_idle, List.append_nil])
      · rw [Node.nextOwn, broadcast, name, Node.nextOwn]
      · rw [Node.proposed, name, proposals, Node.proposed]
      · exact UInt32.le_of_eq (congrArg (fun b => b.tracker.current) broadcast).symm
    rw [List.append_nil] at kept
    rcases senders_of_idle move with same | sub
    · rw [one] at same
      exact .inr ⟨script, List.perm_singleton.1 same, kept⟩
    · rw [one] at sub
      rcases List.sublist_singleton.1 sub with none | one
      · exact .inl ⟨none, stage.prefix⟩
      · exact .inr ⟨script, one, kept⟩

/-- The senders before and after an action, if it is not the sender's. -/
theorem senders_of_other {step : Step} {script : List Action} {others : List (List Action)}
    (taken : m.tasks.Perm ((a :: script) :: others))
    (left : m'.tasks.Perm ((step.next ++ script) :: (others ++ step.started))) (none : (a :: script).any Action.Sends = false)
    (todo : ∀ a' ∈ step.todo, a'.Sends = false) : m'.senders.Perm m.senders := by
  have before := taken.filter (fun script => script.any Action.Sends)
  have after := left.filter (fun script => script.any Action.Sends)
  rw [List.any_cons, Bool.or_eq_false_iff] at none
  have next : (step.next ++ script).any Action.Sends = false := by
    rw [List.any_append, none.2, not_sends (fun a' ha' => todo a' (List.mem_append_left _ ha')), Bool.or_false]
  have started : step.started.filter (fun script => script.any Action.Sends) = [] := by
    refine List.filter_eq_nil_iff.2 (fun s hs => ?_)
    rw [not_sends (fun a' ha' => todo a' (Step.mem_todo_of_started hs ha'))]
    exact Bool.false_ne_true
  rw [List.filter_cons_of_neg (by rw [List.any_cons, none.1, none.2]; exact Bool.false_ne_true)] at before
  rw [List.filter_cons_of_neg (by rw [next]; exact Bool.false_ne_true), List.filter_append, started, List.append_nil] at after
  exact after.trans before.symm

/-- The senders before and after an action of one of them. -/
theorem senders_of_own {step : Step} {script : List Action} {others : List (List Action)}
    (taken : m.tasks.Perm ((a :: script) :: others))
    (left : m'.tasks.Perm ((step.next ++ script) :: (others ++ step.started))) (sends : (a :: script).any Action.Sends = true) :
    ∃ more, m.senders.Perm ((a :: script) :: more) ∧ ((step.next ++ script).any Action.Sends = true →
      (∀ s ∈ step.started, ∀ a' ∈ s, a'.Sends = false) → m'.senders.Perm ((step.next ++ script) :: more)) := by
  have before := taken.filter (fun script => script.any Action.Sends)
  have after := left.filter (fun script => script.any Action.Sends)
  rw [List.filter_cons_of_pos (p := fun script : List Action => script.any Action.Sends) sends] at before
  refine ⟨_, before, fun next quiet => ?_⟩
  have started : step.started.filter (fun script => script.any Action.Sends) = [] := by
    refine List.filter_eq_nil_iff.2 (fun s hs => ?_)
    rw [not_sends (quiet s hs)]
    exact Bool.false_ne_true
  rw [List.filter_cons_of_pos (p := fun script : List Action => script.any Action.Sends) next, List.filter_append, started,
    List.append_nil] at after
  exact after

/-- **The task that does the sender's work is the only one.** -/
theorem Paced.only {step : Step} {script : List Action} {others : List (List Action)} (h : Paced deeds m)
    (taken : m.tasks.Perm ((a :: script) :: others))
    (left : m'.tasks.Perm ((step.next ++ script) :: (others ++ step.started))) (sends : (a :: script).any Action.Sends = true) :
    m.node.Stage (queuedBy deeds) (storedBy deeds) (a :: script) ∧ ((step.next ++ script).any Action.Sends = true →
      (∀ s ∈ step.started, ∀ a' ∈ s, a'.Sends = false) → m'.senders = [step.next ++ script]) := by
  obtain ⟨more, before, after⟩ := senders_of_own taken left sends
  rcases h.sender with ⟨none, -⟩ | ⟨own, one, stage⟩
  · rw [none] at before
    exact absurd (List.nil_perm.1 before) (List.cons_ne_nil _ _)
  · rw [one] at before
    obtain ⟨rfl, rfl⟩ := List.cons.inj (List.perm_singleton.1 before.symm)
    exact ⟨stage, fun next quiet => List.perm_singleton.1 (after next quiet)⟩

theorem Paced.acted (h : Paced deeds m) (run : Run allowed c m) (strict : c.strictRounds = true) {now : Nat} {step : Step}
    {script : List Action} {others : List (List Action)} (perform : step ∈ m.node.perform now a)
    (taken : m.tasks.Perm ((a :: script) :: others)) (node : m'.node = step.node)
    (left : m'.tasks.Perm ((step.next ++ script) :: (others ++ step.started))) (fits : m'.node.store.Fits)
    (guest : ¬ Deed.TakesOwn ⟨m.node, a, step⟩) : Paced (deeds ++ [⟨m.node, a, step⟩]) m' := by
  obtain ⟨-, config⟩ := run.kept
  rw [← config] at strict
  have todo := todo_of_taken taken
  have guests : ∀ sender r, a = .accept sender r → step.node.store = m.node.store.push r → r.origin ≠ m.node.name :=
    fun sender r ha hs ho => guest ⟨sender, r, ha, hs, ho⟩
  have name := (Node.kept_of_perform perform).1
  have stored : storedBy (deeds ++ [⟨m.node, a, step⟩]) = storedBy deeds ++ a.stored := by
    simp [storedBy]
  refine ⟨fun a' ha' => ?_, ?_, ?_⟩
  · rw [node, name]
    rcases todo_of_left taken left ha' with ha' | ha'
    · exact h.foreign a' ha'
    · exact Node.foreign_of_perform perform (h.foreign a todo) guests ha'
  · rw [node, name, Node.transactions_of_perform perform guests, h.logged, stored, List.map_append]
  have queued : queuedBy (deeds ++ [⟨m.node, a, step⟩]) = queuedBy deeds ++ a.queued m.node.down := by
    simp [queuedBy]
  rw [queued, stored]
  by_cases sends : (a :: script).any Action.Sends = true
  · -- the sender acts
    obtain ⟨stage, alone⟩ := h.only taken left sends
    obtain ⟨stage', quiet⟩ := Node.stage_of_perform perform stage run.sound run.fits (node ▸ fits)
    rw [stage.queues_nothing, List.append_nil, node]
    exact .inr ⟨_, alone stage'.sends quiet, stage'⟩
  · -- another task acts
    have none := Bool.not_eq_true _ ▸ sends
    have quiet : a.Sends = false := (Bool.or_eq_false_iff.1 (List.any_cons ▸ none)).1
    have same := senders_of_other taken left none
      (fun a' ha' => Node.not_sends_of_perform perform strict quiet ha')
    rw [Action.stored_of_not_sends quiet, List.append_nil]
    rcases h.sender with ⟨nobody, order⟩ | ⟨own, one, stage⟩
    · rw [nobody] at same
      exact .inl ⟨List.perm_nil.1 same, order.trans (List.prefix_append _ _)⟩
    · rw [one] at same
      refine .inr ⟨own, List.perm_singleton.1 same, ?_⟩
      rw [node]
      refine stage.keep name (Node.nextOwn_of_perform perform quiet (h.foreign a todo)) ?_
        (Node.round_le_of_perform perform (run.advances todo)) (Node.log_prefix_of_perform perform)
        (Node.queue_of_perform perform strict quiet)
      have proposals := (Node.coreChange_of_perform perform).proposals_eq
        (fun _ _ _ he => by rw [he] at quiet; cases quiet) guests
      rw [Node.proposed, name, Node.proposed]
      exact congrArg List.length proposals

theorem paced_of_history (h : History allowed c deeds m) (strict : c.strictRounds = true)
    (guests : ∀ d ∈ deeds, ¬ d.TakesOwn) : Paced deeds m := by
  refine h.induct (P := fun deeds m => (∀ d ∈ deeds, ¬ d.TakesOwn) → Paced deeds m) (fun m fresh _ => .start fresh strict)
    ?_ guests
  intro deeds more m m' e before ih move _ fits guests
  have paced := ih (fun d hd => guests d (List.mem_append_left _ hd))
  cases more with
  | nil =>
    rw [List.append_nil]
    exact paced.idle move
  | cons d more =>
    obtain @⟨now, a, step, script, others, _, perform, taken, node, left⟩ := move
    exact paced.acted before.run strict perform taken node left fits
      (guests _ (List.mem_append_right _ List.mem_cons_self))

/-- **Own proposals wait for their rounds.**  When rounds are strict and no record of the own name is taken from elsewhere:
a proposal is logged only when the round that it falls into, after all those logged before it, is open; and what is
proposed is what was queued, in that order, each once. -/
theorem proposals_wait (h : History allowed c deeds m) (strict : c.strictRounds = true)
    (guests : ∀ d ∈ deeds, ¬ d.TakesOwn) :
    (∀ d ∈ deeds, ∀ r ∈ d.step.node.store.proposals c.origin, r ∉ d.node.store.proposals c.origin →
      ∃ round, d.step.node.store.proposalRound c.origin r.id = some round ∧
        round.toNat = (d.node.store.proposals c.origin).length ∧ round ≤ d.node.round) ∧
    (m.node.store.proposals c.origin).map Record.transaction? = (storedBy deeds).map (fun queued => some queued.2) ∧
    storedBy deeds <+: queuedBy deeds := by
  refine ⟨fun d hd r hr new => ?_, ?_, ?_⟩
  · obtain ⟨before, after, split⟩ := List.append_of_mem hd
    obtain ⟨m₀, m₁, now, past, move, -, fits⟩ := h.past split
    have paced := paced_of_history past strict (fun d hd => guests d (by rw [split]; exact List.mem_append_left _ hd))
    have guest := guests d hd
    obtain ⟨name, -⟩ := past.run.kept
    cases move with
    | @acted _ a step script others _ perform taken node left =>
      rw [← name] at hr new ⊢
      by_cases stores : ∃ call tx clock, a = .storeProposal call tx clock
      · obtain ⟨call, tx, clock, rfl⟩ := stores
        obtain ⟨stage, -⟩ := paced.only taken left rfl
        rw [node] at fits
        obtain rfl := List.mem_singleton.1 perform
        exact Node.open_of_storeProposal stage past.run.sound past.run.fits fits hr new
      · -- nothing else stores a proposal
        have proposals : step.node.store.proposals m₀.node.name = m₀.node.store.proposals m₀.node.name :=
          (Node.coreChange_of_perform perform).proposals_eq (fun call tx clock he => stores ⟨call, tx, clock, he⟩)
            (fun sender r ha hs ho => guest ⟨sender, r, ha, hs, ho⟩)
        exact absurd (proposals ▸ hr) new
  · rw [← h.run.kept.1]
    exact (paced_of_history h strict guests).logged
  · rcases (paced_of_history h strict guests).sender with ⟨-, order⟩ | ⟨_, -, stage⟩
    · exact order
    · exact stage.prefix

/-- Of three transactions that are queued, the first is proposed at once, the second when two confirmations have opened the
next round, and the third waits. -/
theorem proposals_wait_two_rounds :
    let config : Config := { name := "a", peers := [], antiEntropyPeriod := 0, peerCount := 3, strictRounds := true }
    let tx (k : UInt64) : Transaction := ⟨"t", k, []⟩
    ∃ deeds m, History (fun _ _ _ => True) config deeds m ∧ config.strictRounds = true ∧ (∀ d ∈ deeds, ¬ d.TakesOwn) ∧
      queuedBy deeds = [(0, tx 0), (1, tx 1), (2, tx 2)] ∧ storedBy deeds = [(0, tx 0), (1, tx 1)] ∧
      (m.node.store.proposals config.origin).map Record.transaction? = [some (tx 0), some (tx 1)] ∧
      ∀ d ∈ deeds, ∀ r ∈ d.step.node.store.proposals config.origin, r ∉ d.node.store.proposals config.origin →
        ∃ round, d.step.node.store.proposalRound config.origin r.id = some round ∧
          round.toNat = (d.node.store.proposals config.origin).length ∧ round ≤ d.node.round := by
  intro config tx
  let message (o : String) (id : SequenceId) (confirmed : Option SequenceId) : Packet :=
    .proposal ⟨⟨o⟩, id, confirmed, Word256.zero, tx 0, none⟩
  let turns (task count : Nat) : List (Nat × Event) := List.replicate count (task, .act 0)
  let arrives (task count : Nat) (p : Packet) : List (Nat × Event) := [(0, .arrive ⟨"B"⟩ p), (1, .act 0)] ++ turns task count
  let moves : List (Nat × Event) :=
    [(0, .call (.propose (tx 0))), (4, .act 0), (0, .call (.propose (tx 1))), (5, .act 0),
      (0, .call (.propose (tx 2))), (6, .act 0)] ++ turns 3 9 ++
    arrives 8 7 (message "b" 1 none) ++ arrives 9 6 (message "b" 2 (some 1)) ++
    arrives 10 7 (message "c" 1 none) ++ arrives 11 6 (message "c" 2 (some 1)) ++ turns 3 9
  have played : ((start? config ⟨"A"⟩ .acceptAll).bind (fun m => playDeeds? (fun _ _ _ => True) moves ([], m))).map
      (fun x => (x.1.any Deed.offersOwn, queuedBy x.1, storedBy x.1)) =
      some (false, [(0, tx 0), (1, tx 1), (2, tx 2)], [(0, tx 0), (1, tx 1)]) := by decide +kernel
  obtain ⟨deeds, m, history, hstate⟩ := history_of_start? played
  simp only [Prod.mk.injEq] at hstate
  obtain ⟨hguests, hqueued, hstored⟩ := hstate
  have guests := Deed.not_takesOwn hguests
  obtain ⟨due, logged, -⟩ := proposals_wait history rfl guests
  rw [hstored] at logged
  exact ⟨deeds, m, history, rfl, guests, hqueued, hstored, logged, due⟩

end Machine
end GossipNode
