import GossipNode.Proofs.Node.Changes
import GossipNode.Proofs.Node.Counting
/-!
# Sending one proposal after the other

When rounds are strict, one task sends the own proposals: it takes the first transaction from the queue, waits until the
round after the last own proposal is open, and stores, stamps and spreads the new one.  It compares its clock with the
tracker, and not the log; so it is in time as long as the clock agrees with the log whenever it looks (`Stage`).  Between
two of its actions anything else may happen, and nothing else that happens touches either (`Stage.keep`).
-/
namespace GossipNode

namespace Action

/-- Actions of the task that sends the own proposals. -/
def Sends : Action → Bool
  | .takeProposal | .awaitRound .. | .awaitRoundChange .. | .startProposal .. | .storeProposal ..
  | .findRound _ _ (.collect ..) | .stampRound _ _ _ (.collect ..) | .startCollection .. => true
  | _ => false

/-- The action is about no accepted record of the own name. -/
def Foreign (own : Origin) : Action → Prop
  | .findRound o _ (.acknowledge _) | .findRound o _ .confirm | .stampRound o _ _ (.acknowledge _)
  | .stampRound o _ _ .confirm => o ≠ own
  | _ => True

/-- The transaction that the action puts into the queue. -/
def queued (down : Bool) : Action → List (Nat × Transaction)
  | .propose call tx => if down then [] else [(call, tx)]
  | _ => []

/-- The transaction that the action stores a proposal of. -/
def stored : Action → List (Nat × Transaction)
  | .storeProposal call tx _ => [(call, tx)]
  | _ => []

theorem stored_of_not_sends {a : Action} (h : a.Sends = false) : a.stored = [] := by
  cases a with
  | storeProposal => cases h
  | _ => rfl

end Action

theorem RoundClock.nextRound_record (c : RoundClock) (o o' : Origin) (id : SequenceId) (round : UInt32) :
    (c.record o id round).nextRound o' = if o' = o then max (c.nextRound o) (round + 1) else c.nextRound o' := by
  unfold RoundClock.nextRound RoundClock.record
  dsimp only
  rw [SortedMap.get?_insert_eq_ite]
  split <;> rfl

namespace Node

variable {n : Node} {a a' : Action} {now : Nat} {step : Step}

/-- The number of own proposals in the log. -/
def proposed (n : Node) : Nat := (n.store.proposals n.name).length

/-- The round that the clock gives the next own proposal. -/
def nextOwn (n : Node) : Nat := (n.broadcast.clock.nextRound n.name).toNat

/-- **Where the sender is**: what its script is, what its clock says of the own log, and which of the queued transactions
are not stored. -/
inductive Stage (n : Node) (queued stored : List (Nat × Transaction)) : List Action → Prop where
  | free (clock : n.nextOwn = n.proposed) (order : queued = stored ++ n.proposalQueue) : Stage n queued stored [.takeProposal]
  | waiting {call : Nat} {tx : Transaction} (clock : n.nextOwn = n.proposed)
      (order : queued = stored ++ (call, tx) :: n.proposalQueue) :
    Stage n queued stored [.awaitRound call tx, .takeProposal]
  | blocked {seen call : Nat} {tx : Transaction} (clock : n.nextOwn = n.proposed)
      (order : queued = stored ++ (call, tx) :: n.proposalQueue) :
    Stage n queued stored [.awaitRoundChange seen call tx, .takeProposal]
  | starting {call : Nat} {tx : Transaction} (clock : n.nextOwn = n.proposed) (isOpen : n.proposed ≤ n.round.toNat)
      (order : queued = stored ++ (call, tx) :: n.proposalQueue) :
    Stage n queued stored [.startProposal call tx, .takeProposal]
  | storing {call : Nat} {tx : Transaction} {vectorClock : Option StatusReport} (clock : n.nextOwn = n.proposed)
      (isOpen : n.proposed ≤ n.round.toNat) (order : queued = stored ++ (call, tx) :: n.proposalQueue) :
    Stage n queued stored [.storeProposal call tx vectorClock, .takeProposal]
  | finding {id : SequenceId} {call : Nat} {r : Record} {tx : Transaction} {round : UInt32}
      (clock : n.nextOwn + 1 = n.proposed) (latest : n.store.proposalRound n.name id = some round)
      (count : round.toNat + 1 = n.proposed) (order : queued = stored ++ n.proposalQueue) :
    Stage n queued stored [.findRound n.name id (.collect call r tx), .takeProposal]
  | stamping {id : SequenceId} {call : Nat} {r : Record} {tx : Transaction} {round : UInt32}
      (clock : n.nextOwn + 1 = n.proposed) (count : round.toNat + 1 = n.proposed)
      (order : queued = stored ++ n.proposalQueue) :
    Stage n queued stored [.stampRound n.name id round (.collect call r tx), .takeProposal]
  | collecting {call : Nat} {r : Record} {tx : Transaction} {round : UInt32} (clock : n.nextOwn = n.proposed)
      (order : queued = stored ++ n.proposalQueue) :
    Stage n queued stored [.startCollection call r round tx, .takeProposal]

variable {queued stored more : List (Nat × Transaction)} {script : List Action}

theorem Stage.sends (h : Stage n queued stored script) : script.any Action.Sends = true := by cases h <;> rfl

/-- The sender puts nothing into the queue. -/
theorem Stage.queues_nothing {a : Action} {down : Bool} (h : Stage n queued stored (a :: script)) : a.queued down = [] := by
  cases h <;> rfl

theorem Stage.prefix (h : Stage n queued stored script) : stored <+: queued := by
  cases h <;> · rename_i order; rw [order]; exact List.prefix_append _ _

/-- **Whatever else happens, the sender stays where it is**: others change neither the clock for the own name nor the own
proposals, rounds only open, and the queue grows at its end. -/
theorem Stage.keep {n' : Node} (h : Stage n queued stored script) (name : n'.name = n.name)
    (clock : n'.nextOwn = n.nextOwn) (proposed : n'.proposed = n.proposed) (round : n.round ≤ n'.round)
    (grown : ∀ o, n.store.log o <+: n'.store.log o) (queue : n'.proposalQueue = n.proposalQueue ++ more) :
    Stage n' (queued ++ more) stored script := by
  have later := UInt32.le_iff_toNat_le.1 round
  cases h with
  | free hclock order => exact .free (by omega) (by rw [order, queue, List.append_assoc])
  | waiting hclock order => exact .waiting (by omega) (by rw [order, queue, List.append_assoc, List.cons_append])
  | blocked hclock order => exact .blocked (by omega) (by rw [order, queue, List.append_assoc, List.cons_append])
  | starting hclock isOpen order =>
    exact .starting (by omega) (by omega) (by rw [order, queue, List.append_assoc, List.cons_append])
  | storing hclock isOpen order =>
    exact .storing (by omega) (by omega) (by rw [order, queue, List.append_assoc, List.cons_append])
  | finding hclock latest count order =>
    have latest := Store.proposalRound_mono (grown _) latest
    rw [← name] at latest ⊢
    exact .finding (by omega) latest (by omega) (by rw [order, queue, List.append_assoc])
  | stamping hclock count order =>
    rw [← name]
    exact .stamping (by omega) (by omega) (by rw [order, queue, List.append_assoc])
  | collecting hclock order => exact .collecting (by omega) (by rw [order, queue, List.append_assoc])

/-! ## Other tasks -/

/-- Nothing but the sender leads to what the sender does. -/
theorem not_sends_of_perform (h : step ∈ n.perform now a) (strict : n.config.strictRounds = true) (ha : a.Sends = false)
    (hmem : a' ∈ step.todo) : a'.Sends = false := by
  cases follows_of_perform h hmem with
  | startNow free => rw [strict] at free; cases free
  | @found _ _ purpose => cases purpose <;> first | rfl | cases ha
  | @stamped _ _ _ purpose =>
    cases purpose with
    | acknowledge =>
      dsimp only [afterStamp]
      split <;> rfl
    | confirm => rfl
    | collect => cases ha
  | takeProposal | awaitRound | startInRound | awaitRoundChange | roundChanged | storeProposal | findOwn => cases ha
  | _ => rfl

/-- Without an own record from elsewhere, nothing is done about one. -/
theorem foreign_of_perform (h : step ∈ n.perform now a) (ha : a.Foreign n.name)
    (guests : ∀ sender r, a = .accept sender r → step.node.store = n.store.push r → r.origin ≠ n.name)
    (hmem : a' ∈ step.todo) : a'.Foreign n.name := by
  cases follows_of_perform h hmem with
  | @findProposal sender m new | @findConfirmed sender m _ new =>
    rw [List.mem_singleton.1 h] at guests
    exact guests sender (.proposal m) rfl (accept_proposal new).1
  | @found _ _ purpose => cases purpose <;> exact ha
  | @stamped _ _ _ purpose =>
    cases purpose with
    | acknowledge =>
      dsimp only [afterStamp]
      split <;> trivial
    | _ => trivial
  | _ => trivial

/-- The clock for the own name is set by the sender only. -/
theorem nextOwn_of_perform (h : step ∈ n.perform now a) (ha : a.Sends = false) (foreign : a.Foreign n.name) :
    step.node.nextOwn = n.nextOwn := by
  have name := (kept_of_perform h).1
  have change := coreChange_of_perform h
  have clock : step.node.broadcast.clock.nextRound n.name = n.broadcast.clock.nextRound n.name := by
    rw [show step.node.broadcast = step.node.core.broadcast from rfl]
    generalize step.node.core = core at change
    cases change with
    | @stamped o id round purpose =>
      have other : o ≠ n.name := by
        cases purpose with
        | acknowledge | confirm => exact foreign
        | collect => cases ha
      exact (RoundClock.nextRound_record _ _ _ _ _).trans (if_neg other.symm)
    | _ => rfl
  unfold nextOwn
  rw [name, clock]

/-- **Own proposals are stored by the sender only**, unless they come in from elsewhere. -/
theorem CoreChange.proposals_eq {core : Core} (h : n.CoreChange a core)
    (stores : ∀ call tx clock, a ≠ .storeProposal call tx clock)
    (foreign : ∀ sender r, a = .accept sender r → core.store = n.store.push r → r.origin ≠ n.name) :
    core.store.proposals n.name = n.store.proposals n.name := by
  cases h with
  | accepted =>
    refine (Store.proposals_push _ _ _).trans ?_
    rw [if_neg (fun h => foreign _ _ rfl rfl h.1.symm), List.append_nil]
  | made _ _ _ other => exact Store.proposals_push_of_other _ (Store.isUnconfirmedProposal_of_other other) _
  | proposed => exact absurd rfl (stores _ _ _)
  | confirmed => exact Store.proposals_push_of_other _ rfl _
  | _ => rfl

theorem proposals_storeProposal (n : Node) (call : Nat) (tx : Transaction) (clock : Option StatusReport) :
    (n.storeProposal call tx clock).node.store.proposals n.name = n.store.proposals n.name ++ [n.proposalOf tx clock] := by
  show (n.store.push (n.proposalOf tx clock)).proposals n.name = _
  rw [Store.proposals_push, if_pos ⟨rfl, rfl⟩]

/-- **What is proposed here is what is stored**, one after the other. -/
theorem transactions_of_perform (h : step ∈ n.perform now a)
    (guests : ∀ sender r, a = .accept sender r → step.node.store = n.store.push r → r.origin ≠ n.name) :
    (step.node.store.proposals n.name).map Record.transaction? =
      (n.store.proposals n.name).map Record.transaction? ++ a.stored.map (fun queued => some queued.2) := by
  by_cases stores : ∃ call tx clock, a = .storeProposal call tx clock
  · obtain ⟨call, tx, clock, rfl⟩ := stores
    rw [List.mem_singleton.1 h, proposals_storeProposal, List.map_append]
    rfl
  · have proposals : step.node.store.proposals n.name = n.store.proposals n.name :=
      (coreChange_of_perform h).proposals_eq (fun call tx clock he => stores ⟨call, tx, clock, he⟩) guests
    have none : a.stored = [] := by
      unfold Action.stored
      split
      · exact absurd ⟨_, _, _, rfl⟩ stores
      · rfl
    rw [proposals, none, List.map_nil, List.append_nil]

theorem queue_of_perform (h : step ∈ n.perform now a) (strict : n.config.strictRounds = true) (ha : a.Sends = false) :
    step.node.proposalQueue = n.proposalQueue ++ a.queued n.down := by
  by_cases calls : ∃ call tx, a = .propose call tx
  · obtain ⟨call, tx, rfl⟩ := calls
    rw [List.mem_singleton.1 h]
    unfold propose
    rw [strict]
    cases hdown : n.down with
    | true =>
      have reply : (n.reply call (.error .shuttingDown)).proposalQueue = n.proposalQueue :=
        congrArg (fun b => b.desk.queue) (n.backdrop_reply call _)
      simpa [Action.queued, hdown, rest] using reply
    | false => rfl
  · have desk : step.node.desk = n.desk :=
      desk_of_perform h (fun call tx he => calls ⟨call, tx, he⟩) (fun he => by rw [he] at ha; cases ha)
    have none : a.queued n.down = [] := by
      unfold Action.queued
      split
      · exact absurd ⟨_, _, rfl⟩ calls
      · rfl
    rw [none, List.append_nil]
    exact congrArg Desk.queue desk

/-! ## The sender -/

/-- **The sender goes on from stage to stage.** -/
theorem stage_of_perform (h : step ∈ n.perform now a) (stage : Stage n queued stored (a :: script))
    (sound : n.store.Sound) (fits : n.store.Fits) (fits' : step.node.store.Fits) :
    Stage step.node queued (stored ++ a.stored) (step.next ++ script) ∧ ∀ s ∈ step.started, ∀ a' ∈ s, a'.Sends = false := by
  have none : ∀ {m : Node} {next : List Action}, ∀ s ∈ (m.proceed next).started, ∀ a' ∈ s, a'.Sends = false := by
    intro m next s hs
    rw [Step.started, show (m.proceed next).effects = [] from rfl, List.filterMap_nil, ite_self] at hs
    cases hs
  -- all but one of the actions store nothing
  have same : a.stored = [] → stored ++ a.stored = stored := fun h => by rw [h, List.append_nil]
  cases stage with
  | free clock order =>
    simp only [perform, takeProposal] at h
    split at h
    · cases h
    · rename_i call tx queue hq
      rw [List.mem_singleton.1 h, same rfl]
      rw [hq] at order
      exact ⟨.waiting clock order, none⟩
  | waiting clock order =>
    rw [List.mem_singleton.1 h, same rfl]
    unfold awaitRound
    split
    · rename_i isOpen
      have isOpen : n.nextOwn ≤ n.round.toNat := UInt32.le_iff_toNat_le.1 isOpen
      rw [clock] at isOpen
      exact ⟨.starting clock isOpen order, none⟩
    · exact ⟨.blocked clock order, none⟩
  | blocked clock order =>
    simp only [perform, awaitRoundChange] at h
    split at h
    · cases h
    · rw [List.mem_singleton.1 h, same rfl]
      exact ⟨.waiting clock order, none⟩
  | starting clock isOpen order =>
    rw [List.mem_singleton.1 h, same rfl]
    exact ⟨.storing clock isOpen order, none⟩
  | @storing call tx vectorClock clock isOpen order =>
    rw [List.mem_singleton.1 h] at fits' ⊢
    obtain ⟨round, hround, hnat⟩ := sound.proposalRound_push fits (r := n.proposalOf tx vectorClock) fits' rfl rfl
    have count : (n.storeProposal call tx vectorClock).node.proposed = n.proposed + 1 := by
      show ((n.storeProposal call tx vectorClock).node.store.proposals n.name).length = _
      rw [proposals_storeProposal, List.length_append]
      rfl
    refine ⟨.finding ?_ hround ?_ ?_, none⟩
    · rw [count, ← clock]; rfl
    · rw [count, hnat]; rfl
    · rw [order, Action.stored, List.append_assoc]; rfl
  | @finding id call r tx round clock latest count order =>
    have next : n.findRound n.name id (.collect call r tx) = n.proceed [.stampRound n.name id round (.collect call r tx)] := by
      unfold findRound
      rw [latest]
    rw [List.mem_singleton.1 h, next, same rfl]
    exact ⟨.stamping clock count order, none⟩
  | @stamping id call r tx round clock count order =>
    rw [List.mem_singleton.1 h, same rfl]
    refine ⟨.collecting ?_ order, none⟩
    -- the round of the proposal that has just been stored is the last one, so the clock catches up with the log
    have room := fits n.name
    have le := n.store.length_proposals_le n.name
    have last : (round + 1).toNat = n.proposed := by
      rw [← count]
      exact toNat_add_one (by rw [count]; exact Nat.lt_of_le_of_lt le (Nat.lt_of_succ_lt room))
    have behind : n.broadcast.clock.nextRound n.name ≤ round + 1 := by
      rw [UInt32.le_iff_toNat_le, last, ← clock]
      exact Nat.le_succ _
    have latest : max (n.broadcast.clock.nextRound n.name) (round + 1) = round + 1 := if_pos behind
    show ((n.broadcast.clock.record n.name id round).nextRound n.name).toNat = n.proposed
    rw [RoundClock.nextRound_record, if_pos rfl, latest, last]
  | @collecting call r tx round clock order =>
    rw [List.mem_singleton.1 h, same rfl]
    obtain ⟨acks, waiting, frame⟩ := n.frame_startCollection call r round tx
    have core := congrArg Frame.core frame
    have queue : (n.startCollection call r round tx).node.proposalQueue = n.proposalQueue :=
      congrArg (fun b => b.desk.queue) (n.backdrop_startCollection call r round tx)
    refine ⟨?_, fun s hs a' ha' => ?_⟩
    · have clock' : (n.startCollection call r round tx).node.nextOwn = n.nextOwn :=
        congrArg (fun c : Core => (c.broadcast.clock.nextRound c.name).toNat) core
      have proposed' : (n.startCollection call r round tx).node.proposed = n.proposed :=
        congrArg (fun c : Core => (c.store.proposals c.name).length) core
      rw [show (n.startCollection call r round tx).next = [] by unfold startCollection; split <;> rfl]
      exact .free (by rw [clock', proposed', clock]) (by rw [queue]; exact order)
    · cases n.follows_startCollection (Step.mem_todo_of_started hs ha')
      rfl

/-- **A proposal is stored when its round is open**: its round is the number of own proposals before it. -/
theorem open_of_storeProposal {call : Nat} {tx : Transaction} {clock : Option StatusReport}
    (stage : Stage n queued stored (.storeProposal call tx clock :: script)) (sound : n.store.Sound) (fits : n.store.Fits)
    (fits' : (n.storeProposal call tx clock).node.store.Fits) {r : Record}
    (hr : r ∈ (n.storeProposal call tx clock).node.store.proposals n.name) (new : r ∉ n.store.proposals n.name) :
    ∃ round, (n.storeProposal call tx clock).node.store.proposalRound n.name r.id = some round ∧
      round.toNat = n.proposed ∧ round ≤ n.round := by
  rw [proposals_storeProposal] at hr
  obtain rfl := List.mem_singleton.1 ((List.mem_append.1 hr).resolve_left new)
  obtain ⟨round, hround, hnat⟩ := sound.proposalRound_push fits (r := n.proposalOf tx clock) fits' rfl rfl
  refine ⟨round, hround, hnat, ?_⟩
  cases stage with
  | storing _ isOpen => exact UInt32.le_iff_toNat_le.2 (Nat.le_trans (Nat.le_of_eq hnat) isOpen)

end Node
end GossipNode
