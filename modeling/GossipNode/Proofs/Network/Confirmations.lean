import GossipNode.Proofs.Network.Histories
import GossipNode.Proofs.Node.Confirming
/-!
# One confirmation for each proposal

Whatever is proposed and acknowledged, in whatever order: every number of the own log is in one of the situations of a
proposal (`situation_of_history`).  So a proposal is confirmed at most once, and only after a majority has been reported;
the collector and the tasks that wait agree; and a proposal that has been logged has its task until it is confirmed or,
when rounds are strict, given up (`confirmed_once`).
-/
namespace GossipNode
namespace Machine

variable {m m' : Machine} {e : Event} {c : Config} {deeds more : List Deed} {d : Deed} {a : Action} {id : SequenceId}
  {allowed : Machine → Event → Machine → Prop}

/-- The node is not shut down. -/
def StaysUp (_ : Machine) (_ : Event) (m' : Machine) : Prop := m'.node.down = false

instance (m : Machine) (e : Event) (m' : Machine) : Decidable (m.StaysUp e m') :=
  inferInstanceAs (Decidable (m'.node.down = false))

theorem Move.ne_shutdown (h : m.Move e more m') (up : m'.node.down = false) : e ≠ .shutdown := by
  rintro rfl
  cases h with
  | stopped =>
    have down : m.node.shutdown.down = true := congrArg (fun b => b.desk.down) m.node.backdrop_shutdown
    rw [down] at up
    cases up

/-- A majority has been reported for an own proposal. -/
def reported (deeds : List Deed) (id : SequenceId) : Bool := deeds.any (fun d => d.node.Reports id d.action)

/-- How often an own proposal has been given up. -/
def abandonments (deeds : List Deed) (id : SequenceId) : Nat := deeds.countP (fun d => d.action.Abandons id)

/-- What is left to be done for an own proposal. -/
def attendants (m : Machine) (id : SequenceId) : List Action := m.actions.filter (fun a => a.Attends id)

/-- Where an own proposal is after what has been done. -/
def Situated (c : Config) (deeds : List Deed) (m : Machine) (id : SequenceId) : Prop :=
  Situation c.origin c.strictRounds id (m.node.core.account (reported deeds id) (abandonments deeds id) id) (m.attendants id)

theorem Situated.start (fresh : m.Fresh c) : Situated c [] m id := by
  have none : m.attendants id = [] := by
    refine List.filter_eq_nil_iff.2 (fun a ha => ?_)
    have standing := fresh.standing (mem_actions.1 ha)
    cases a with
    | takeProposal | receive | publish | applyRoute | awaitPush | awaitHeartbeat => exact Bool.false_ne_true
    | _ => cases standing
  obtain ⟨_, _, _, _, hnew, -⟩ := fresh
  unfold Situated
  rw [none, Node.core_new hnew]
  exact .unknown

/-- No request is about an own proposal that is logged. -/
theorem attends_of_answer (q : Request) {a : Action} (ha : a ∈ (m.node.answer q).todo) : a.Attends id = false := by
  cases Node.begins_of_answer ha <;> rfl

/-- Without an action a node learns nothing about its proposals. -/
theorem account_of_idle {n : Node} {core : Node.Core} (h : n.IdleChange core) {reported : Bool} {abandoned : Nat} :
    core.account reported abandoned id = n.core.account reported abandoned id := by
  cases h with
  | heard => rfl
  | @posted r _ _ other =>
    refine Node.account_push_of_other (fun _ hu => ?_) (fun _ hc => nomatch (Record.confirmed?_of_other other).symm.trans hc)
    rw [Store.isUnconfirmedProposal_of_other other] at hu
    cases hu

theorem Situated.idle (h : Situated c deeds m id) (move : m.Move e [] m') (up : m'.node.down = false) :
    Situated c deeds m' id := by
  unfold Situated
  rw [account_of_idle move.idle]
  rcases move.actions_of_idle with ⟨begun, added, hbegun⟩ | ⟨rfl, -⟩
  · refine Situation.perm h ((added.filter _).trans ?_)
    have none : begun.filter (fun a => a.Attends id) = [] := by
      refine List.filter_eq_nil_iff.2 (fun a ha => ?_)
      obtain ⟨q, ha⟩ := hbegun a ha
      rw [attends_of_answer q ha]
      exact Bool.false_ne_true
    rw [List.filter_append, none, List.nil_append]
    exact List.Perm.refl _
  · exact absurd rfl (move.ne_shutdown up)

theorem Situated.acted (h : Situated c deeds m id) (run : Run allowed c m) {now : Nat} {step : Step} {script : List Action}
    {others : List (List Action)} (perform : step ∈ m.node.perform now a) (taken : m.tasks.Perm ((a :: script) :: others))
    (node : m'.node = step.node) (left : m'.tasks.Perm ((step.next ++ script) :: (others ++ step.started)))
    (up : m'.node.down = false) (guest : ¬ Deed.TakesOwn ⟨m.node, a, step⟩) :
    Situated c (deeds ++ [⟨m.node, a, step⟩]) m' id := by
  obtain ⟨name, config⟩ := run.kept
  have reports : reported (deeds ++ [⟨m.node, a, step⟩]) id = (reported deeds id || m.node.Reports id a) := by
    simp [reported]
  have abandons : abandonments (deeds ++ [⟨m.node, a, step⟩]) id =
      abandonments deeds id + if a.Abandons id then 1 else 0 := by
    rw [abandonments, List.countP_append, List.countP_singleton, abandonments]
  obtain ⟨before, after⟩ := perm_acted taken left
  have before := before.filter (fun a => a.Attends id)
  have after := after.filter (fun a => a.Attends id)
  rw [List.filter_append] at after
  unfold Situated at h ⊢
  rw [reports, abandons, node]
  rw [← name, ← config] at h ⊢
  rw [node] at up
  by_cases attends : a.Attends id = true
  · -- the task of the proposal acts, and nothing else is left to be done for it
    rw [List.filter_cons_of_pos attends] at before
    have situation := h.perm before.symm
    have none := situation.alone
    rw [none] at situation
    rw [none, List.append_nil] at after
    exact (Node.situation_of_attend perform up run.sound situation).perm after
  · have idle := Bool.not_eq_true _ ▸ attends
    rw [List.filter_cons_of_neg attends] at before
    have other := Node.situation_of_other perform idle (fun sender r ha hs ho => guest ⟨sender, r, ha, hs, ho⟩)
      run.sound run.fits (h.perm before.symm)
    exact other.perm (after.trans List.perm_append_comm)

theorem situation_of_history (h : History StaysUp c deeds m) (guests : ∀ d ∈ deeds, ¬ d.TakesOwn) (id : SequenceId) :
    Situated c deeds m id := by
  refine h.induct (P := fun deeds m => (∀ d ∈ deeds, ¬ d.TakesOwn) → Situated c deeds m id) (fun m fresh _ => .start fresh)
    ?_ guests
  intro deeds more m m' e before ih move up fits guests
  have situated := ih (fun d hd => guests d (List.mem_append_left _ hd))
  cases more with
  | nil =>
    rw [List.append_nil]
    exact situated.idle move up
  | cons d more =>
    obtain @⟨now, a, step, script, others, _, perform, taken, node, left⟩ := move
    exact situated.acted before.run perform taken node left up (guests _ (List.mem_append_right _ List.mem_cons_self))

/-- What is done for a proposal is all that is left to be done for it. -/
theorem Situated.of_todo (h : Situated c deeds m id) (todo : m.Todo a) (attends : a.Attends id = true) :
    Situation c.origin c.strictRounds id (m.node.core.account (reported deeds id) (abandonments deeds id) id) [a] := by
  rw [← h.eq_of_mem (List.mem_filter.2 ⟨mem_actions.2 todo, attends⟩)]
  exact h

/-! ## What follows -/

/-- **A proposal that is logged is in one place**: with its task, confirmed or given up. -/
theorem length_attendants_add (h : History StaysUp c deeds m) (guests : ∀ d ∈ deeds, ¬ d.TakesOwn) (id : SequenceId) :
    (m.attendants id).length + m.node.store.confirmations c.origin id + abandonments deeds id =
      (m.node.store.proposals c.origin).countP (fun r => r.id == id) := by
  have situated := situation_of_history h guests id
  rw [← h.run.kept.1]
  exact situated.length_add

/-- What is confirmed by an action is confirmed by the task of a proposal, at the end of its work. -/
theorem confirms_of_perform {n : Node} {now : Nat} {step : Step} (perform : step ∈ n.perform now a)
    (guest : ¬ Deed.TakesOwn ⟨n, a, step⟩) {r : Record} (hr : r ∈ step.node.store.log n.name) (new : r ∉ n.store.log n.name)
    (hid : r.confirmed? = some id) : ∃ round tx clock, a = .storeConfirmation id round tx clock := by
  have change := Node.coreChange_of_perform perform
  have guest : ∀ sender x, a = .accept sender x → step.node.core.store = n.store.push x → x.origin ≠ n.name :=
    fun sender x ha hs ho => guest ⟨sender, x, ha, hs, ho⟩
  rw [show step.node.store = step.node.core.store from rfl] at hr
  generalize step.node.core = core at change guest hr
  -- the record is the one that is new
  have appended : ∀ x : Record, core.store = n.store.push x → x = r ∧ x.origin = n.name := by
    intro x hx
    rw [hx] at hr
    obtain ⟨rfl, ho⟩ := (Store.mem_or_eq_of_mem_log_push hr).resolve_left new
    exact ⟨rfl, ho.symm⟩
  cases change with
  | accepted =>
    obtain ⟨-, own⟩ := appended _ rfl
    exact absurd own (guest _ _ rfl rfl)
  | made _ _ _ other =>
    obtain ⟨rfl, -⟩ := appended _ rfl
    cases (Record.confirmed?_of_other other).symm.trans hid
  | proposed =>
    obtain ⟨rfl, -⟩ := appended _ rfl
    cases hid
  | confirmed =>
    obtain ⟨rfl, -⟩ := appended _ rfl
    obtain rfl := Option.some.inj hid
    exact ⟨_, _, _, rfl⟩
  | _ => exact absurd hr new

theorem reported_before (h : History StaysUp c deeds m) (guests : ∀ d ∈ deeds, ¬ d.TakesOwn) {before after : List Deed}
    (split : deeds = before ++ d :: after) {r : Record} (hr : r ∈ d.step.node.store.log c.origin)
    (new : r ∉ d.node.store.log c.origin) (hid : r.confirmed? = some id) :
    ∃ d' ∈ before, d'.node.Reports id d'.action = true := by
  obtain ⟨m₀, m₁, now, past, move, -, -⟩ := h.past split
  have situated := situation_of_history past (fun d hd => guests d (by rw [split]; exact List.mem_append_left _ hd)) id
  have guest := guests d (by rw [split]; exact List.mem_append_right _ List.mem_cons_self)
  cases move with
  | @acted _ a step _ _ _ perform taken node left =>
    rw [← past.run.kept.1] at hr new
    obtain ⟨round, tx, clock, rfl⟩ := confirms_of_perform perform guest hr new hid
    have storing := situated.of_todo (todo_of_taken taken) (beq_self_eq_true id)
    exact List.any_eq_true.1 storing.reported_of_storing

/-- **The task of a proposal finds it, and can open its collection.** -/
theorem proceeds_of_history (h : History StaysUp c deeds m) (guests : ∀ d ∈ deeds, ¬ d.TakesOwn) (hd : d ∈ deeds) (call : Nat)
    (r : Record) (tx : Transaction) :
    (∀ o id, d.action = .findRound o id (.collect call r tx) → ∃ round, d.node.store.proposalRound o id = some round) ∧
    (∀ round, d.action = .startCollection call r round tx → ∃ started, d.node.broadcast.acks.start r.id = .ok started) := by
  obtain ⟨before, after, split⟩ := List.append_of_mem hd
  obtain ⟨m₀, m₁, now, past, move, -, -⟩ := h.past split
  have situated := situation_of_history past (fun d hd => guests d (by rw [split]; exact List.mem_append_left _ hd)) r.id
  cases move with
  | @acted _ a step _ _ _ perform taken node left =>
    have todo := todo_of_taken taken
    refine ⟨fun o id ha => ?_, fun round ha => ?_⟩
    · obtain rfl : a = _ := ha
      have finding := situated.of_todo todo (beq_self_eq_true r.id)
      rw [← past.run.kept.1] at finding
      obtain ⟨rfl, rfl, logged⟩ := finding.of_finding
      exact past.run.sound.exists_proposalRound (Nat.lt_of_lt_of_eq Nat.one_pos logged.symm)
    · obtain rfl : a = _ := ha
      have starting := situated.of_todo todo (beq_self_eq_true r.id)
      obtain ⟨progress, acks, start, -⟩ := AckCollector.isCollecting_start starting.collecting_of_starting
      exact ⟨_, start⟩

/-! ## The theorem -/

/-- **Each own proposal is confirmed once at most.**  Whatever happens to a node short of a shutdown, if it takes no record
of its own name from elsewhere: a confirmation is of an own proposal, is the only one of it, and is logged after a majority
has been reported for it; a task waits for a majority exactly while it is collected; a proposal that is logged is found,
and its collection can be opened; and it has its task until it is confirmed or, when rounds are strict, given up. -/
theorem confirmed_once (h : History StaysUp c deeds m) (guests : ∀ d ∈ deeds, ¬ d.TakesOwn) :
    (∀ id, m.node.store.confirmations c.origin id ≤ 1 ∧ (0 < m.node.store.confirmations c.origin id →
      (∃ r ∈ m.node.store.proposals c.origin, r.id = id) ∧ reported deeds id = true)) ∧
    (∀ before d after, deeds = before ++ d :: after → ∀ r ∈ d.step.node.store.log c.origin, r ∉ d.node.store.log c.origin →
      ∀ id, r.confirmed? = some id → ∃ d' ∈ before, d'.node.Reports id d'.action = true) ∧
    (∀ id, m.node.broadcast.waiting.contains id = m.node.broadcast.acks.isCollecting id) ∧
    (∀ d ∈ deeds, ∀ call r tx,
      (∀ o id, d.action = .findRound o id (.collect call r tx) → ∃ round, d.node.store.proposalRound o id = some round) ∧
      (∀ round, d.action = .startCollection call r round tx → ∃ started, d.node.broadcast.acks.start r.id = .ok started)) ∧
    (∀ r ∈ m.node.store.proposals c.origin, (m.attendants r.id).length + m.node.store.confirmations c.origin r.id +
      abandonments deeds r.id = 1 ∧ (c.strictRounds = false → abandonments deeds r.id = 0)) := by
  refine ⟨fun id => ?_, fun before d after split r hr new id hid => reported_before h guests split hr new hid,
    fun id => (situation_of_history h guests id).waiting_eq, fun d hd call r tx => proceeds_of_history h guests hd call r tx,
    fun r hr => ?_⟩
  · have place := length_attendants_add h guests id
    have once := h.run.sound.countP_proposals_le c.origin id
    refine ⟨by omega, fun confirmed => ⟨?_, ?_⟩⟩
    · obtain ⟨r, hr, hid⟩ := List.countP_pos_iff.1 (show 0 < (m.node.store.proposals c.origin).countP (fun r => r.id == id)
        by omega)
      exact ⟨r, hr, beq_iff_eq.1 hid⟩
    · rw [← h.run.kept.1] at confirmed
      exact (situation_of_history h guests id).reported_of_confirmed confirmed
  · have place := length_attendants_add h guests r.id
    rw [h.run.sound.countP_proposals_of_mem hr] at place
    exact ⟨place, (situation_of_history h guests r.id).abandoned_eq_zero⟩

/-- Of two proposals the first is acknowledged twice by a peer and confirmed once; the second waits for its majority. -/
theorem confirmed_once_acknowledged_twice :
    let config : Config := { name := "a", peers := [], antiEntropyPeriod := 0, peerCount := 3 }
    ∃ deeds m, History StaysUp config deeds m ∧ (∀ d ∈ deeds, ¬ d.TakesOwn) ∧
      (m.node.store.proposals config.origin).map Record.id = [1, 3] ∧
      m.node.store.confirmations config.origin 1 = 1 ∧ reported deeds 1 = true ∧ m.attendants 1 = [] ∧
      m.node.store.confirmations config.origin 3 = 0 ∧ m.node.broadcast.waiting.contains 3 = true ∧
      (m.attendants 3).length = 1 := by
  intro config
  let acknowledgment : Packet := .ack ⟨⟨"b"⟩, 1, config.origin, 10⟩
  let turns (task count : Nat) : List (Nat × Event) := List.replicate count (task, .act 0)
  let arrives (task : Nat) (p : Packet) : List (Nat × Event) := [(0, .arrive ⟨"B"⟩ p), (1, .act 0)] ++ turns task 2
  let moves : List (Nat × Event) :=
    [(0, .call (.propose ⟨"first", 1, []⟩))] ++ turns 3 6 ++ turns 4 1 ++ arrives 6 acknowledgment ++
    arrives 7 acknowledgment ++ turns 4 4 ++ [(0, .call (.propose ⟨"second", 2, []⟩))] ++ turns 9 6
  have played : ((start? config ⟨"A"⟩ .acceptAll).bind (fun m => playDeeds? StaysUp moves ([], m))).map
      (fun x => (x.1.any Deed.offersOwn, (x.2.node.store.proposals config.origin).map Record.id,
        x.2.node.store.confirmations config.origin 1, x.2.node.store.confirmations config.origin 3,
        x.2.node.broadcast.acks.isCollecting 3)) = some (false, [1, 3], 1, 0, true) := by decide +kernel
  obtain ⟨deeds, m, history, hstate⟩ := history_of_start? played
  simp only [Prod.mk.injEq] at hstate
  obtain ⟨hguests, hids, hfirst, hsecond, hcollecting⟩ := hstate
  have guests := Deed.not_takesOwn hguests
  obtain ⟨confirmed, -, awaited, -, place⟩ := confirmed_once history guests
  have logged : ∀ id ∈ [1, 3], (m.attendants id).length + m.node.store.confirmations config.origin id = 1 := by
    intro id hid
    rw [← hids] at hid
    obtain ⟨r, hr, rfl⟩ := List.mem_map.1 hid
    obtain ⟨one, free⟩ := place r hr
    rw [free rfl] at one
    exact one
  have first := logged 1 (by decide)
  have second := logged 3 (by decide)
  rw [hfirst] at first
  rw [hsecond] at second
  exact ⟨deeds, m, history, guests, hids, hfirst, ((confirmed 1).2 (by omega)).2, List.length_eq_zero_iff.1 (by omega),
    hsecond, (awaited 3).trans hcollecting, second⟩

end Machine
end GossipNode
