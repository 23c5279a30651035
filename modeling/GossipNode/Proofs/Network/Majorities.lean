import GossipNode.Proofs.Network.Confirmations
/-!
# Where majorities are lost

A proposal is in the log, and may be pushed to peers, before its collection is opened; and a task that finds the round of
its proposal closed gives up in an action of its own, later.  An acknowledgment that comes in the first gap is ignored,
and a majority that is reported in the second is given up with the proposal (`majorities_lost`).

Otherwise nothing is lost: an acknowledgment is counted from the opening of the collection until a majority has been
reported or the proposal is given up; and a majority that has been reported stays with the task of its proposal until it is
confirmed or, its round closed, given up (`majorities_told`).
-/
namespace GossipNode
namespace Machine

variable {m m' : Machine} {e : Event} {c : Config} {deeds more : List Deed} {a : Action} {id : SequenceId}
  {allowed : Machine → Event → Machine → Prop}

/-! ## Giving up -/

/-- The round of an own proposal has closed. -/
def Overtaken (m : Machine) (id : SequenceId) : Prop :=
  ∃ round, m.node.store.proposalRound m.node.name id = some round ∧ round < m.node.round

/-- A round that has closed stays closed. -/
theorem Overtaken.mono (h : m.Overtaken id) (name : m'.node.name = m.node.name)
    (grown : ∀ o, m.node.store.log o <+: m'.node.store.log o) (le : m.node.round ≤ m'.node.round) : m'.Overtaken id := by
  obtain ⟨round, hround, closed⟩ := h
  exact ⟨round, by rw [name]; exact Store.proposalRound_mono (grown _) hround, UInt32.lt_of_lt_of_le closed le⟩

/-- **A task gives up only what it has found closed.** -/
theorem overtaken_of_perform {now : Nat} {step : Step} (perform : step ∈ m.node.perform now a)
    (placed : a.Placed m.node.store m.node.name) (left : Action.abandon id ∈ step.todo) : m.Overtaken id := by
  have follows := Node.follows_of_perform perform left
  generalize hb : Action.abandon id = b at follows
  cases follows with
  | @abandon r round tx tick closed =>
    obtain rfl := Action.abandon.inj hb
    exact ⟨round, placed, closed⟩
  | @stamped o id' round purpose =>
    cases purpose with
    | acknowledge =>
      dsimp only [Node.afterStamp] at hb
      split at hb <;> cases hb
    | _ => cases hb
  | _ => cases hb

/-- **A proposal is given up only when its round has closed.** -/
theorem overtaken_of_history (h : History allowed c deeds m) :
    m.Todo (.abandon id) ∨ 0 < abandonments deeds id → m.Overtaken id := by
  refine h.induct (P := fun deeds m => m.Todo (.abandon id) ∨ 0 < abandonments deeds id → m.Overtaken id) ?_ ?_
  · rintro m fresh (todo | given)
    · cases fresh.standing todo
    · cases given
  · intro deeds more m m' e before ih move _ _ doomed
    cases more with
    | nil =>
      rw [List.append_nil] at doomed
      have past : m.Overtaken id := by
        refine ih (doomed.imp_left (fun todo => ?_))
        rcases move.todo_of_idle todo with todo | ⟨q, begun⟩
        · exact todo
        · cases Node.begins_of_answer begun
      have round : m'.node.round = m.node.round := congrArg (fun b => b.tracker.current) move.idle.broadcast_eq
      exact past.mono move.idle.name_eq move.idle.log_prefix (UInt32.le_of_eq round.symm)
    | cons d more =>
      obtain @⟨now, a, step, script, others, _, perform, taken, node, left⟩ := move
      have run := before.run
      have todo := todo_of_taken taken
      have past : m.Overtaken id := by
        rcases doomed with doomed | given
        · rcases todo_of_left taken left doomed with doomed | doomed
          · exact ih (.inl doomed)
          · exact overtaken_of_perform perform (run.placed todo) doomed
        · rw [abandonments, List.countP_append, List.countP_singleton] at given
          by_cases gives : a.Abandons id = true
          · cases a with
            | abandon id' =>
              obtain rfl := beq_iff_eq.1 gives
              exact ih (.inl todo)
            | _ => cases gives
          · rw [if_neg gives, Nat.add_zero] at given
            exact ih (.inr given)
      refine past.mono ?_ (fun o => ?_) ?_ <;> rw [node]
      · exact (Node.kept_of_perform perform).1
      · exact Node.log_prefix_of_perform perform o
      · exact Node.round_le_of_perform perform (run.advances todo)

/-! ## The theorem -/

/-- **What becomes of a majority.**  Whatever happens to a node short of a shutdown, if it takes no record of its own name
from elsewhere, for every own proposal that is logged: an acknowledgment is ignored exactly when a majority has been
reported, the proposal has been given up or its collection is still to be opened; once a majority has been reported, the
proposal is confirmed, or given up, or has its task, which has been told of the majority or knows of it; and it is given up
only when rounds are strict and its round has closed. -/
theorem majorities_told (h : History StaysUp c deeds m) (guests : ∀ d ∈ deeds, ¬ d.TakesOwn) {r : Record}
    (logged : r ∈ m.node.store.proposals c.origin) :
    (∀ w, (m.node.broadcast.acks.recordAck r.id w).1 = .ignored ↔
      reported deeds r.id = true ∨ 0 < abandonments deeds r.id ∨ ∃ a ∈ m.attendants r.id, a.Opens = true) ∧
    (reported deeds r.id = true → m.node.store.confirmations c.origin r.id = 1 ∨ 0 < abandonments deeds r.id ∨
      ∃ a, m.attendants r.id = [a] ∧ (m.node.majorities.contains r.id = true ∨ a.Concludes = true)) ∧
    (0 < abandonments deeds r.id → c.strictRounds = true ∧
      ∃ round, m.node.store.proposalRound c.origin r.id = some round ∧ round < m.node.round) := by
  have situated := situation_of_history h guests r.id
  have name := h.run.kept.1
  have one : (m.node.store.proposals m.node.name).countP (fun p => p.id == r.id) = 1 := by
    rw [name]
    exact h.run.sound.countP_proposals_of_mem logged
  refine ⟨fun w => ?_, fun told => ?_, fun given => ⟨?_, ?_⟩⟩
  · exact AckCollector.recordAck_eq_ignored_iff.trans (situated.collecting_eq_false_iff one)
  · rw [← name]
    exact situated.of_reported told
  · by_contra free
    have none := situated.abandoned_eq_zero (Bool.not_eq_true _ ▸ free)
    exact absurd none (Nat.ne_of_gt given)
  · rw [← name]
    exact overtaken_of_history h (.inr given)

/-! ## Two schedules -/

/-- An acknowledgment for an own proposal that is logged is ignored. -/
def ignores (id : SequenceId) (d : Deed) : Bool :=
  match d.action with
  | .countAck ack => ack.id == id && (d.node.store.proposals d.node.name).any (fun r => r.id == id) &&
      ((d.node.broadcast.acks.recordAck ack.id ack.origin).1 matches .ignored)
  | _ => false

/-- One of three nodes. -/
def oneOfThree (strict : Bool) : Config :=
  { name := "a", peers := [], antiEntropyPeriod := 0, peerCount := 3, strictRounds := strict }

/-- A packet comes from a peer, and the task for it is started. -/
def arrival (p : Packet) : List (Nat × Event) := [(0, .arrive ⟨"B"⟩ p), (1, .act 0)]

def acknowledgment (own : Origin) : Packet := .ack ⟨⟨"b"⟩, 1, own, 10⟩

/-- A proposal is logged; a peer reports that it lacks it, is sent it and acknowledges it; and only then does the task of
the proposal find its round and open its collection. -/
def earlyAcknowledgment (own : Origin) : List (Nat × Event) :=
  (0, .call (.propose ⟨"first", 1, []⟩)) :: List.replicate 3 (3, .act 0) ++
  arrival (.status ⟨[⟨own, 1⟩]⟩) ++ List.replicate 4 (4, .act 0) ++ [(5, .act 0)] ++
  arrival (acknowledgment own) ++ List.replicate 2 (6, .act 0) ++ List.replicate 3 (3, .act 0) ++ [(7, .act 0)]

/-- A peer proposes and confirms. -/
def confirmedBy (name : String) (task : Nat) : List (Nat × Event) :=
  let record (id : SequenceId) (confirmed : Option SequenceId) : Packet :=
    .proposal ⟨⟨name⟩, id, confirmed, Word256.zero, ⟨"other", 1, []⟩, none⟩
  arrival (record 1 none) ++ List.replicate 3 (task, .act 0) ++
  arrival (record 2 (some 1)) ++ List.replicate 6 (task + 1, .act 0)

/-- A proposal is made and its collection opened; two peers confirm theirs, which closes the round; the task of the
proposal finds it closed at its tick; and only then does the acknowledgment of a peer come that makes the majority. -/
def lateAcknowledgment (own : Origin) : List (Nat × Event) :=
  [(0, .call (.propose ⟨"first", 1, []⟩)), (4, .act 0)] ++ List.replicate 7 (3, .act 0) ++ [(5, .act 0)] ++
  confirmedBy "b" 7 ++ confirmedBy "c" 9 ++ List.replicate 2 (5, .act 5000) ++
  arrival (acknowledgment own) ++ List.replicate 2 (11, .act 5000)

/-- The majority has been reported while the task of the proposal is about to give it up. -/
theorem majorities_told_giving_up :
    let config := oneOfThree true
    ∃ deeds m, History StaysUp config deeds m ∧ (∀ d ∈ deeds, ¬ d.TakesOwn) ∧ reported deeds 1 = true ∧
      m.node.majorities.contains 1 = true ∧ (∃ a, m.attendants 1 = [a] ∧ a.Abandons 1 = true) ∧
      ∀ w, (m.node.broadcast.acks.recordAck 1 w).1 = .ignored := by
  intro config
  have played : ((start? config ⟨"A"⟩ .acceptAll).bind (fun m =>
      playDeeds? StaysUp (lateAcknowledgment config.origin) ([], m))).map (fun x => (x.1.any Deed.offersOwn,
        (x.2.node.store.proposals config.origin).any (fun r => r.id == 1), reported x.1 1, abandonments x.1 1,
        x.2.node.store.confirmations config.origin 1, (x.2.attendants 1).all (fun a => a.Abandons 1))) =
      some (false, true, true, 0, 0, true) := by decide +kernel
  obtain ⟨deeds, m, history, hstate⟩ := history_of_start? played
  simp only [Prod.mk.injEq] at hstate
  obtain ⟨hguests, hlogged, hreported, hkept, hconfirmed, hleft⟩ := hstate
  have guests := Deed.not_takesOwn hguests
  obtain ⟨r, logged, hid⟩ := List.any_eq_true.1 hlogged
  obtain ⟨ignored, told, -⟩ := majorities_told history guests logged
  rw [beq_iff_eq.1 hid] at ignored told
  rcases told hreported with confirmed | given | ⟨a, left, knows⟩
  · rw [hconfirmed] at confirmed
    cases confirmed
  · rw [hkept] at given
    cases given
  · rw [left, List.all_cons, List.all_nil, Bool.and_true] at hleft
    have told : m.node.majorities.contains 1 = true := by
      refine knows.resolve_right (fun concludes => ?_)
      cases a with
      | abandon => cases concludes
      | _ => cases hleft
    exact ⟨deeds, m, history, guests, hreported, told, ⟨a, left, hleft⟩, fun w => (ignored w).2 (.inl hreported)⟩

/-- **Majorities are lost.**  An acknowledgment is ignored that comes between the logging of a proposal and the opening of
its collection, though no majority has been reported, and the proposal is left waiting; and a proposal of which a majority
has been reported is given up without a confirmation. -/
theorem majorities_lost :
    (∃ deeds m, History StaysUp (oneOfThree false) deeds m ∧ (∀ d ∈ deeds, ¬ d.TakesOwn) ∧
      deeds.any (ignores 1) = true ∧ reported deeds 1 = false ∧ m.attendants 1 ≠ [] ∧
      m.node.store.confirmations (oneOfThree false).origin 1 = 0) ∧
    ∃ deeds m, History StaysUp (oneOfThree true) deeds m ∧ (∀ d ∈ deeds, ¬ d.TakesOwn) ∧ m.node.down = false ∧
      reported deeds 1 = true ∧ m.attendants 1 = [] ∧ m.node.store.confirmations (oneOfThree true).origin 1 = 0 := by
  constructor
  · have played : ((start? (oneOfThree false) ⟨"A"⟩ .acceptAll).bind (fun m =>
        playDeeds? StaysUp (earlyAcknowledgment (oneOfThree false).origin) ([], m))).map (fun x =>
          (x.1.any Deed.offersOwn, x.1.any (ignores 1), reported x.1 1, (x.2.attendants 1).isEmpty,
          x.2.node.store.confirmations (oneOfThree false).origin 1)) = some (false, true, false, false, 0) := by
      decide +kernel
    obtain ⟨deeds, m, history, hstate⟩ := history_of_start? played
    simp only [Prod.mk.injEq] at hstate
    obtain ⟨hguests, hignored, hreported, hleft, hconfirmed⟩ := hstate
    exact ⟨deeds, m, history, Deed.not_takesOwn hguests, hignored, hreported,
      fun none => absurd (List.isEmpty_iff.2 none) (Bool.not_eq_true _ ▸ hleft), hconfirmed⟩
  · have played : ((start? (oneOfThree true) ⟨"A"⟩ .acceptAll).bind (fun m =>
        playDeeds? StaysUp (lateAcknowledgment (oneOfThree true).origin ++ [(5, .act 5000)]) ([], m))).map (fun x =>
          (x.1.any Deed.offersOwn, x.2.node.down, reported x.1 1, (x.2.attendants 1).isEmpty,
          x.2.node.store.confirmations (oneOfThree true).origin 1)) = some (false, false, true, true, 0) := by
      decide +kernel
    obtain ⟨deeds, m, history, hstate⟩ := history_of_start? played
    simp only [Prod.mk.injEq] at hstate
    obtain ⟨hguests, hdown, hreported, hleft, hconfirmed⟩ := hstate
    exact ⟨deeds, m, history, Deed.not_takesOwn hguests, hdown, hreported, List.isEmpty_iff.1 hleft, hconfirmed⟩

end Machine
end GossipNode
