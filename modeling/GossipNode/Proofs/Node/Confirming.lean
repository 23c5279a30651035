import GossipNode.Proofs.Consensus.Collecting
import GossipNode.Proofs.Node.Changes
import GossipNode.Proofs.Node.Counting
/-!
# An own proposal, from its log to its confirmation

What a node keeps about a number of its own log is spread over the log, the collector, the tasks that wait for a majority
and the majorities that were told to them (`Account`).  The number is in one of few situations, and each says what the
account is and which action is left to be done for it, if any (`Situation`).  An action that is done for the number leads
to the next situation (`Situation.attend`); of all others only an acknowledgment and the logging of the proposal do
(`Situation.other`).
-/
namespace GossipNode

namespace Action

/-- The action is done for the own proposal of that number, from the moment that it is logged. -/
def Attends (id : SequenceId) : Action → Bool
  | .findRound _ _ (.collect _ r _) | .stampRound _ _ _ (.collect _ r _) | .startCollection _ r .. | .drive r ..
  | .awaitMajority r .. | .checkRound r .. => r.id == id
  | .abandon id' | .confirm id' .. | .storeConfirmation id' .. => id' == id
  | _ => false

/-- The action gives the proposal of that number up. -/
def Abandons (id : SequenceId) : Action → Bool
  | .abandon id' => id' == id
  | _ => false

/-- The collection of the proposal is still to be opened. -/
def Opens : Action → Bool
  | .findRound _ _ (.collect ..) | .stampRound _ _ _ (.collect ..) | .startCollection .. => true
  | _ => false

/-- The proposal has its majority, and its task knows. -/
def Concludes : Action → Bool
  | .drive _ _ _ true | .confirm .. | .storeConfirmation .. => true
  | _ => false

theorem Abandons.attends {id : SequenceId} {a : Action} (h : a.Abandons id = true) : a.Attends id = true := by
  cases a with
  | abandon => exact h
  | _ => cases h

end Action

/-- **What is known of a number of the own log.** -/
structure Account where
  /-- How many proposals of that number are logged, and how many confirmations of it. -/
  proposed : Nat
  confirmed : Nat
  /-- Acknowledgments are collected. -/
  collecting : Bool
  /-- A task can be told that there is a majority. -/
  waiting : Bool
  /-- A task has been told, and has not noticed. -/
  told : Bool
  /-- A majority has been reported, by an acknowledgment or at the start of the collection. -/
  reported : Bool
  abandoned : Nat

namespace Account

def unknown : Account := ⟨0, 0, false, false, false, false, 0⟩

def logged : Account := { unknown with proposed := 1 }

/-- The majority is collected, or has been told. -/
def undecided (told : Bool) : Account := { logged with collecting := !told, waiting := !told, told, reported := told }

def decided : Account := { logged with reported := true }

def confirmed_ : Account := { decided with confirmed := 1 }

/-- The proposal has been given up, maybe after its majority was told. -/
def dropped (told : Bool) : Account := { logged with told, reported := told, abandoned := 1 }

end Account

namespace Node

/-- An action of this node reports a majority for the own proposal of that number. -/
def Reports (n : Node) (id : SequenceId) : Action → Bool
  | .countAck ack => ack.id == id && (n.broadcast.acks.recordAck ack.id ack.origin).1.isMajority
  | .startCollection _ r _ _ => r.id == id && (n.broadcast.acks.start r.id).toOption.any (fun started => started.1.isMajority)
  | _ => false

/-- What a core knows of a number, and what has been done about it. -/
def Core.account (core : Core) (reported : Bool) (abandoned : Nat) (id : SequenceId) : Account where
  proposed := (core.store.proposals core.name).countP (fun r => r.id == id)
  confirmed := core.store.confirmations core.name id
  collecting := core.broadcast.acks.isCollecting id
  waiting := core.broadcast.waiting.contains id
  told := core.majorities.contains id
  reported
  abandoned

end Node

/-- **Where an own proposal is**: what is known of its number, and what is left to be done for it. -/
inductive Situation (own : Origin) (strict : Bool) (id : SequenceId) : Account → List Action → Prop where
  | unknown : Situation own strict id .unknown []
  | finding {call : Nat} {r : Record} {tx : Transaction} (number : r.id = id) :
    Situation own strict id .logged [.findRound own id (.collect call r tx)]
  | stamping {call : Nat} {r : Record} {round : UInt32} {tx : Transaction} (number : r.id = id) :
    Situation own strict id .logged [.stampRound own id round (.collect call r tx)]
  | starting {call : Nat} {r : Record} {round : UInt32} {tx : Transaction} (number : r.id = id) :
    Situation own strict id .logged [.startCollection call r round tx]
  | driving {told : Bool} {r : Record} {round : UInt32} {tx : Transaction} (number : r.id = id) :
    Situation own strict id (.undecided told) [.drive r round tx false]
  | awaiting {told : Bool} {r : Record} {round : UInt32} {tx : Transaction} {tick : Nat} (number : r.id = id) :
    Situation own strict id (.undecided told) [.awaitMajority r round tx tick]
  | checking {told : Bool} {r : Record} {round : UInt32} {tx : Transaction} {tick : Nat} (number : r.id = id)
      (gated : strict = true) : Situation own strict id (.undecided told) [.checkRound r round tx tick]
  | abandoning {told : Bool} (gated : strict = true) : Situation own strict id (.undecided told) [.abandon id]
  | spreading {r : Record} {round : UInt32} {tx : Transaction} (number : r.id = id) :
    Situation own strict id .decided [.drive r round tx true]
  | confirming {round : UInt32} {tx : Transaction} : Situation own strict id .decided [.confirm id round tx]
  | storing {round : UInt32} {tx : Transaction} {clock : Option StatusReport} :
    Situation own strict id .decided [.storeConfirmation id round tx clock]
  | confirmed : Situation own strict id .confirmed_ []
  | dropped {told : Bool} (gated : strict = true) : Situation own strict id (.dropped told) []

namespace Situation

variable {own : Origin} {strict : Bool} {id : SequenceId} {acc acc' : Account} {left left' : List Action}

theorem of_eq (h : Situation own strict id acc left) (account : acc' = acc) (rest : left' = left) :
    Situation own strict id acc' left' := by
  rw [account, rest]
  exact h

theorem eq_of_mem {a : Action} (h : Situation own strict id acc left) (ha : a ∈ left) : left = [a] := by
  cases h with
  | unknown | confirmed | dropped => cases ha
  | _ => rw [List.mem_singleton.1 ha]

/-- **A proposal that is logged has its task, or is confirmed, or has been given up.** -/
theorem length_add (h : Situation own strict id acc left) : left.length + acc.confirmed + acc.abandoned = acc.proposed := by
  cases h <;> rfl

theorem abandoned_eq_zero (h : Situation own strict id acc left) (free : strict = false) : acc.abandoned = 0 := by
  cases h with
  | dropped gated => rw [free] at gated; cases gated
  | _ => rfl

/-- **Nothing is confirmed without a majority.** -/
theorem reported_of_confirmed (h : Situation own strict id acc left) (confirmed : 0 < acc.confirmed) :
    acc.reported = true := by
  cases h with
  | confirmed => rfl
  | _ => cases confirmed

theorem reported_of_storing {id' : SequenceId} {round : UInt32} {tx : Transaction} {clock : Option StatusReport}
    (h : Situation own strict id acc [.storeConfirmation id' round tx clock]) : acc.reported = true := by
  cases h
  rfl

theorem of_finding {o : Origin} {id' : SequenceId} {call : Nat} {r : Record} {tx : Transaction}
    (h : Situation own strict id acc [.findRound o id' (.collect call r tx)]) : o = own ∧ id' = id ∧ acc.proposed = 1 := by
  cases h
  exact ⟨rfl, rfl, rfl⟩

theorem collecting_of_starting {call : Nat} {r : Record} {round : UInt32} {tx : Transaction}
    (h : Situation own strict id acc [.startCollection call r round tx]) : acc.collecting = false := by
  cases h
  rfl

/-- **At most one action is left to be done.** -/
theorem alone {a : Action} (h : Situation own strict id acc (a :: left)) : left = [] := by
  cases h <;> rfl

theorem perm (h : Situation own strict id acc left) (perm : left'.Perm left) : Situation own strict id acc left' := by
  refine h.of_eq rfl ?_
  cases h with
  | unknown | confirmed | dropped => exact List.perm_nil.1 perm
  | _ => exact List.perm_singleton.1 perm

/-- **A task waits for a majority exactly while it is collected.** -/
theorem waiting_eq (h : Situation own strict id acc left) : acc.waiting = acc.collecting := by
  cases h <;> rfl

theorem of_collecting (h : Situation own strict id acc left) (collecting : acc.collecting = true) :
    acc = .undecided false := by
  cases h with
  | @driving told | @awaiting told | @checking told | @abandoning told =>
    cases told with
    | false => rfl
    | true => cases collecting
  | _ => cases collecting

/-- **When a proposal is not collected**: before its collection is opened, after its majority and after it is given up. -/
theorem collecting_eq_false_iff (h : Situation own strict id acc left) (logged : acc.proposed = 1) :
    acc.collecting = false ↔ acc.reported = true ∨ 0 < acc.abandoned ∨ ∃ a ∈ left, a.Opens = true := by
  cases h with
  | unknown => cases logged
  | finding | stamping | starting => exact iff_of_true rfl (.inr (.inr ⟨_, List.mem_cons_self, rfl⟩))
  | @driving told | @awaiting told | @checking told | @abandoning told =>
    cases told with
    | true => exact iff_of_true rfl (.inl rfl)
    | false =>
      refine iff_of_false (fun closed => nomatch closed) ?_
      rintro (reported | abandoned | ⟨a, ha, opens⟩)
      · cases reported
      · cases abandoned
      · rw [List.mem_singleton.1 ha] at opens
        cases opens
  | spreading | confirming | storing | confirmed => exact iff_of_true rfl (.inl rfl)
  | dropped => exact iff_of_true rfl (.inr (.inl Nat.one_pos))

/-- **Where a majority is after it has been reported**: confirmed or given up, or with the task of the proposal, which has
been told or knows. -/
theorem of_reported (h : Situation own strict id acc left) (reported : acc.reported = true) :
    acc.confirmed = 1 ∨ 0 < acc.abandoned ∨ ∃ a, left = [a] ∧ (acc.told = true ∨ a.Concludes = true) := by
  cases h with
  | unknown | finding | stamping | starting => cases reported
  | driving | awaiting | checking | abandoning => exact .inr (.inr ⟨_, rfl, .inl reported⟩)
  | spreading | confirming | storing => exact .inr (.inr ⟨_, rfl, .inr rfl⟩)
  | confirmed => exact .inl rfl
  | dropped => exact .inr (.inl Nat.one_pos)

theorem of_proposed (h : Situation own strict id acc left) (none : acc.proposed = 0) : acc = .unknown ∧ left = [] := by
  cases h with
  | unknown => exact ⟨rfl, rfl⟩
  | _ => cases none

/-- The task of a proposal may be told at any time. -/
theorem tell {told : Bool} (h : Situation own strict id (.undecided false) left) :
    Situation own strict id (.undecided told) left := by
  generalize hacc : Account.undecided false = acc at h
  cases h with
  | driving number => exact .driving number
  | awaiting number => exact .awaiting number
  | checking number gated => exact .checking number gated
  | abandoning gated => exact .abandoning gated
  | _ => cases hacc

end Situation

namespace Node

variable {n : Node} {a a' : Action} {now : Nat} {step : Step} {own : Origin} {strict : Bool} {id : SequenceId}
  {reported : Bool} {abandoned : Nat} {acc : Account} {left : List Action} {core : Core}

/-! ## Accounts -/

theorem account_eq_iff {proposed confirmed abandoned' : Nat} {collecting waiting told reported' : Bool} :
    core.account reported abandoned id = ⟨proposed, confirmed, collecting, waiting, told, reported', abandoned'⟩ ↔
      (core.store.proposals core.name).countP (fun r => r.id == id) = proposed ∧
      core.store.confirmations core.name id = confirmed ∧ core.broadcast.acks.isCollecting id = collecting ∧
      core.broadcast.waiting.contains id = waiting ∧ core.majorities.contains id = told ∧ reported = reported' ∧
      abandoned = abandoned' := by
  unfold Core.account
  rw [Account.mk.injEq]

theorem account_push (core : Core) (r : Record) :
    ({ core with store := core.store.push r } : Core).account reported abandoned id =
    { core.account reported abandoned id with
      proposed := (core.account reported abandoned id).proposed +
        if r.isUnconfirmedProposal && (r.origin == core.name && r.id == id) then 1 else 0
      confirmed := (core.account reported abandoned id).confirmed +
        if r.origin = core.name ∧ r.confirmed? = some id then 1 else 0 } := by
  unfold Core.account
  dsimp only
  rw [Store.countP_proposals_push, Store.confirmations_push]

/-- A record that is neither a proposal of the number nor a confirmation of it is of no account. -/
theorem account_push_of_other (other : r.origin = core.name → r.isUnconfirmedProposal = true → r.id ≠ id)
    (unconfirming : r.origin = core.name → r.confirmed? ≠ some id) :
    ({ core with store := core.store.push r } : Core).account reported abandoned id = core.account reported abandoned id := by
  have none : (r.isUnconfirmedProposal && (r.origin == core.name && r.id == id)) = false := by
    grind
  rw [account_push, none, if_neg Bool.false_ne_true, if_neg (fun h => unconfirming h.1 h.2)]
  rfl

/-- **An action that is not done for a number** and neither acknowledges it nor logs it leaves its account as it is. -/
theorem CoreChange.account_eq (change : n.CoreChange a core) (idle : a.Attends id = false)
    (guests : ∀ sender r, a = .accept sender r → core.store = n.store.push r → r.origin ≠ n.name)
    (acked : ∀ ack, a = .countAck ack → ack.id ≠ id)
    (logs : ∀ call tx clock, a = .storeProposal call tx clock → n.store.nextId n.name ≠ id) :
    core.account reported abandoned id = n.core.account reported abandoned id := by
  -- only the collections, the tasks and the majorities of other numbers change
  have collections : ∀ {acks : AckCollector} {waiting majorities : SortedSet SequenceId},
      acks.isCollecting id = n.broadcast.acks.isCollecting id → waiting.contains id = n.broadcast.waiting.contains id →
      majorities.contains id = n.majorities.contains id →
      ({ n.core with broadcast := { n.broadcast with acks, waiting }, majorities } : Core).account reported abandoned id =
        n.core.account reported abandoned id := by
    intro acks waiting majorities hacks hwaiting hmajorities
    exact account_eq_iff.2 ⟨rfl, rfl, hacks, hwaiting, hmajorities, rfl, rfl⟩
  cases change with
  | same | received | stamped | offered | closed => rfl
  | accepted =>
    have foreign := guests _ _ rfl rfl
    exact account_push_of_other (fun ho => absurd ho foreign) (fun ho => absurd ho foreign)
  | @made _ r _ _ other =>
    refine account_push_of_other (fun _ hu => ?_) (fun _ hc => nomatch (Record.confirmed?_of_other other).symm.trans hc)
    rw [Store.isUnconfirmedProposal_of_other other] at hu
    cases hu
  | proposed => exact account_push_of_other (fun _ _ => logs _ _ _ rfl) (fun _ h => nomatch h)
  | confirmed =>
    refine account_push_of_other (fun _ hu => nomatch hu) (fun _ hc => ?_)
    rw [Option.some.inj hc, Action.Attends, beq_self_eq_true] at idle
    cases idle
  | counted => exact collections (AckCollector.isCollecting_recordAck_of_ne (acked _ rfl).symm) rfl rfl
  | elected =>
    have other := (acked _ rfl).symm
    refine collections (AckCollector.isCollecting_recordAck_of_ne other) ?_ ?_
    · rw [SortedMap.contains_erase, decide_eq_true other, Bool.true_and]
    · exact (SortedMap.contains_insert _ _ _ _).trans (by rw [decide_eq_false other, Bool.false_or])
  | opened h =>
    have other := (beq_eq_false_iff_ne.1 idle).symm
    refine collections (AckCollector.isCollecting_start_of_ne h other) ?_ rfl
    exact (SortedMap.contains_insert _ _ _ _).trans (by rw [decide_eq_false other, Bool.false_or])
  | decided h => exact collections (AckCollector.isCollecting_start_of_ne h (beq_eq_false_iff_ne.1 idle).symm) rfl rfl
  | noticed =>
    refine collections rfl rfl ?_
    rw [SortedMap.contains_erase, decide_eq_true (beq_eq_false_iff_ne.1 idle).symm, Bool.true_and]
  | abandoned =>
    have other := (beq_eq_false_iff_ne.1 idle).symm
    refine collections ?_ ?_ rfl
    · rw [AckCollector.isCollecting_abandon, decide_eq_true other, Bool.true_and]
    · rw [SortedMap.contains_erase, decide_eq_true other, Bool.true_and]

/-! ## What is left to be done -/

/-- What a step leaves to be done for a number, by its task and by the tasks that it starts. -/
def attending (step : Step) (id : SequenceId) : List Action :=
  (step.next ++ step.started.flatten).filter (fun a => a.Attends id)

/-- What other tasks are started for, the task goes on alone. -/
theorem attending_eq_next (h : ∀ script ∈ step.effects.filterMap Effect.script?, ∀ a ∈ script, a.Attends id = false) :
    attending step id = step.next.filter (fun a => a.Attends id) := by
  have none : step.started.flatten.filter (fun a => a.Attends id) = [] := by
    refine List.filter_eq_nil_iff.2 (fun a ha => ?_)
    obtain ⟨script, hs, ha⟩ := List.mem_flatten.1 ha
    unfold Step.started at hs
    split at hs
    · cases hs
    · rw [h script hs a ha]
      exact Bool.false_ne_true
  rw [attending, List.filter_append, none, List.append_nil]

theorem attending_proceed (n : Node) (next : List Action) :
    attending (n.proceed next) id = next.filter (fun a => a.Attends id) :=
  attending_eq_next (fun _ h => nomatch h)

/-- To spread a record is not to attend to its proposal. -/
theorem attending_spread (n : Node) (next : List Action) (r : Record) (excluded : List PeerAddress) :
    attending ⟨n, next, [.spread r excluded]⟩ id = next.filter (fun a => a.Attends id) := by
  refine attending_eq_next (fun script hs a ha => ?_)
  obtain rfl := List.mem_singleton.1 hs
  rw [List.mem_singleton.1 ha]
  rfl

theorem attending_proceed_self (ha : a.Attends id = true) : attending (n.proceed [a]) id = [a] := by
  rw [attending_proceed, List.filter_cons_of_pos ha, List.filter_nil]

theorem attending_spread_self {r : Record} {excluded : List PeerAddress} (ha : a.Attends id = true) :
    attending ⟨n, [a], [.spread r excluded]⟩ id = [a] := by
  rw [attending_spread, List.filter_cons_of_pos ha, List.filter_nil]

/-- Nothing is left to be done for a number but by the task of its proposal, or when its proposal is logged. -/
theorem attending_of_other (h : step ∈ n.perform now a) (idle : a.Attends id = false)
    (logs : ∀ call tx clock, a = .storeProposal call tx clock → n.store.nextId n.name ≠ id) : attending step id = [] := by
  refine List.filter_eq_nil_iff.2 (fun a' ha' => ?_)
  have todo : a' ∈ step.todo := by
    rcases List.mem_append.1 ha' with ha' | ha'
    · exact List.mem_append_left _ ha'
    · obtain ⟨script, hs, ha'⟩ := List.mem_flatten.1 ha'
      exact Step.mem_todo_of_started hs ha'
  have follows := follows_of_perform h todo
  have none : a'.Attends id = false := by
    cases follows with
    | findOwn => exact beq_eq_false_iff_ne.2 (logs _ _ _ rfl)
    | @found _ _ purpose => cases purpose <;> first | rfl | exact idle
    | @stamped _ _ _ purpose =>
      cases purpose with
      | acknowledge =>
        dsimp only [afterStamp]
        split <;> rfl
      | confirm => rfl
      | collect => exact idle
    | drive | confirmNow | awaitMajority | confirm | checkRound | insist | abandon | insistInRound | storeConfirmation =>
      exact idle
    | _ => rfl
  rw [none]
  exact Bool.false_ne_true

/-! ## From situation to situation -/

theorem startCollection_of_start (call : Nat) {r : Record} (round : UInt32) (tx : Transaction) {progress : AckProgress}
    {acks : AckCollector} (hs : n.broadcast.acks.start r.id = .ok (progress, acks)) :
    (n.startCollection call r round tx).node.core = { n.core with broadcast := { n.broadcast with
      acks, waiting := if progress.isMajority then n.broadcast.waiting else SortedSet.add n.broadcast.waiting r.id } } ∧
    (n.startCollection call r round tx).next = [] ∧
    (n.startCollection call r round tx).effects =
      [.spawn ("proposal #" ++ toString r.id) [.drive r round tx progress.isMajority]] := by
  unfold startCollection
  rw [hs]
  cases progress <;> exact ⟨core_of_frame (frame_reply _ _ _), rfl, rfl⟩

/-- **The collection of a proposal that is logged can be opened**: then it is open, or the own name is a majority. -/
theorem situation_of_startCollection {call : Nat} {r : Record} {round : UInt32} {tx : Transaction}
    (up : (n.startCollection call r round tx).node.down = false)
    (hacc : n.core.account reported abandoned r.id = .logged) :
    Situation own strict r.id ((n.startCollection call r round tx).node.core.account
      (reported || n.Reports r.id (.startCollection call r round tx)) abandoned r.id)
      (attending (n.startCollection call r round tx) r.id) := by
  obtain ⟨proposed, confirmed, closed, nobody, untold, silent, kept⟩ := account_eq_iff.1 hacc
  obtain ⟨progress, acks, start, still⟩ := AckCollector.isCollecting_start (c := n.broadcast.acks) closed
  obtain ⟨core, next, effects⟩ := startCollection_of_start call round tx start
  have left : attending (n.startCollection call r round tx) r.id = [.drive r round tx progress.isMajority] := by
    rw [attending, next, Step.started, up, effects]
    exact List.filter_cons_of_pos (beq_self_eq_true _)
  have reports : n.Reports r.id (.startCollection call r round tx) = progress.isMajority := by
    rw [Reports, start, beq_self_eq_true, Bool.true_and]
    rfl
  rw [core, reports, left, show reported = false from silent, Bool.false_or]
  cases hm : progress.isMajority with
  | true =>
    rw [hm] at still
    exact .of_eq (.spreading rfl) (account_eq_iff.2 ⟨proposed, confirmed, still, nobody, untold, rfl, kept⟩) rfl
  | false =>
    rw [hm] at still
    have awaited : (SortedSet.add n.broadcast.waiting r.id).contains r.id = true :=
      (SortedMap.contains_insert _ _ _ _).trans (by rw [decide_eq_true rfl, Bool.true_or])
    exact .of_eq (.driving rfl) (account_eq_iff.2 ⟨proposed, confirmed, still, awaited, untold, rfl, kept⟩) rfl

/-- **The task of a proposal leads it from situation to situation.** -/
theorem situation_of_attend (h : step ∈ n.perform now a) (up : step.node.down = false) (sound : n.store.Sound)
    (sit : Situation n.name n.config.strictRounds id (n.core.account reported abandoned id) [a]) :
    Situation n.name n.config.strictRounds id
      (step.node.core.account (reported || n.Reports id a) (abandoned + if a.Abandons id then 1 else 0) id)
      (attending step id) := by
  generalize hacc : n.core.account reported abandoned id = acc at sit
  have same : n.core.account (reported || false) (abandoned + 0) id = acc := by rw [Bool.or_false]; exact hacc
  cases sit with
  | @finding call r tx number =>
    have logged : (n.store.proposals n.name).countP (fun r => r.id == id) = 1 := congrArg Account.proposed hacc
    obtain ⟨round, hround⟩ := sound.exists_proposalRound (by rw [logged]; exact Nat.one_pos)
    have next : n.findRound n.name id (.collect call r tx) = n.proceed [.stampRound n.name id round (.collect call r tx)] := by
      unfold findRound
      rw [hround]
    rw [List.mem_singleton.1 h, next]
    exact .of_eq (.stamping number) same (attending_proceed_self (beq_iff_eq.2 number))
  | @stamping call r round tx number =>
    rw [List.mem_singleton.1 h]
    exact .of_eq (.starting number) same (attending_proceed_self (beq_iff_eq.2 number))
  | @starting call r round tx number =>
    subst number
    obtain rfl := List.mem_singleton.1 h
    exact situation_of_startCollection up hacc
  | driving number =>
    rw [List.mem_singleton.1 h]
    exact .of_eq (.awaiting number) same (attending_spread_self (beq_iff_eq.2 number))
  | @awaiting told r round tx tick number =>
    subst number
    simp only [perform, awaitMajority, List.mem_append] at h
    rcases h with h | h
    · split at h
      · rename_i noticed
        have told : told = true := (congrArg Account.told hacc).symm.trans noticed
        subst told
        rw [List.mem_singleton.1 h]
        refine .of_eq .confirming ?_ (attending_proceed_self (beq_self_eq_true _))
        have erased : (n.majorities.erase r.id).contains r.id = false := by
          rw [SortedMap.contains_erase, decide_eq_false (not_not_intro rfl), Bool.false_and]
        obtain ⟨proposed, confirmed, closed, nobody, -, reported, kept⟩ := account_eq_iff.1 same
        exact account_eq_iff.2 ⟨proposed, confirmed, closed, nobody, erased, reported, kept⟩
      · cases h
    · split at h
      · rw [List.mem_singleton.1 h]
        split
        · rename_i gated
          exact .of_eq (.checking rfl gated) same (attending_proceed_self (beq_self_eq_true _))
        · exact .of_eq (.awaiting rfl) same (attending_spread_self (beq_self_eq_true _))
      · cases h
  | @checking told r round tx tick number gated =>
    subst number
    rw [List.mem_singleton.1 h]
    unfold checkRound
    split
    · exact .of_eq (.abandoning gated) same (attending_proceed_self (beq_self_eq_true _))
    · exact .of_eq (.awaiting rfl) same (attending_spread_self (beq_self_eq_true _))
  | @abandoning told gated =>
    rw [List.mem_singleton.1 h]
    have closed : (n.broadcast.acks.abandon id).2.isCollecting id = false := by
      rw [AckCollector.isCollecting_abandon, decide_eq_false (not_not_intro rfl), Bool.false_and]
    have nobody : (n.broadcast.waiting.erase id).contains id = false := by
      rw [SortedMap.contains_erase, decide_eq_false (not_not_intro rfl), Bool.false_and]
    obtain ⟨proposed, confirmed, -, -, told, reported, kept⟩ := account_eq_iff.1 same
    refine .of_eq (.dropped gated) (account_eq_iff.2 ⟨proposed, confirmed, closed, nobody, told, reported, ?_⟩)
      (attending_proceed _ [])
    rw [Action.Abandons, beq_self_eq_true, if_pos rfl, show abandoned = 0 from kept]
  | @spreading r round tx number =>
    subst number
    rw [List.mem_singleton.1 h]
    exact .of_eq .confirming same (attending_spread_self (beq_self_eq_true _))
  | @confirming round tx =>
    rw [List.mem_singleton.1 h]
    exact .of_eq .storing same (attending_proceed_self (beq_self_eq_true _))
  | @storing round tx clock =>
    rw [List.mem_singleton.1 h]
    have pushed := n.store.confirmations_push (n.confirmationOf id tx clock) n.name id
    have others := n.store.countP_proposals_push (n.confirmationOf id tx clock) n.name id
    obtain ⟨proposed, confirmed, closed, nobody, told, reported, kept⟩ := account_eq_iff.1 same
    rw [if_pos ⟨rfl, rfl⟩, show n.store.confirmations n.name id = 0 from confirmed] at pushed
    exact .of_eq .confirmed (account_eq_iff.2 ⟨others.trans proposed, pushed, closed, nobody, told, reported, kept⟩)
      (attending_spread _ _ _ _)

/-- **What an acknowledgment does** while it is collected: at the majority, the task that waits is told. -/
theorem core_countAck {ack : Ack} (awaited : n.broadcast.waiting.contains ack.id = true) :
    (n.countAck ack).node.core =
      if (n.broadcast.acks.recordAck ack.id ack.origin).1.isMajority then
        { n.core with
          broadcast := { n.broadcast with
            acks := (n.broadcast.acks.recordAck ack.id ack.origin).2
            waiting := n.broadcast.waiting.erase ack.id }
          majorities := SortedSet.add n.majorities ack.id }
      else { n.core with broadcast := { n.broadcast with acks := (n.broadcast.acks.recordAck ack.id ack.origin).2 } } := by
  unfold countAck
  generalize n.broadcast.acks.recordAck ack.id ack.origin = recorded
  obtain ⟨progress, acks⟩ := recorded
  cases progress with
  | majority ws =>
    simp only [awaited, Bool.and_self, if_true]
    rfl
  | _ => rfl

theorem core_countAck_of_closed {ack : Ack} (closed : n.broadcast.acks.isCollecting ack.id = false) :
    (n.countAck ack).node.core = n.core := by
  unfold countAck
  rw [AckCollector.recordAck_of_closed closed]
  rfl

/-- **An acknowledgment is counted while it is collected**, and else it is ignored. -/
theorem situation_of_countAck {ack : Ack} (sit : Situation own strict ack.id (n.core.account reported abandoned ack.id) left) :
    Situation own strict ack.id ((n.countAck ack).node.core.account (reported || n.Reports ack.id (.countAck ack)) abandoned
      ack.id) left := by
  have reports : n.Reports ack.id (.countAck ack) = (n.broadcast.acks.recordAck ack.id ack.origin).1.isMajority := by
    rw [Reports, beq_self_eq_true, Bool.true_and]
  rw [reports]
  cases hc : n.broadcast.acks.isCollecting ack.id with
  | false =>
    rw [core_countAck_of_closed hc, AckCollector.recordAck_of_closed hc,
      show AckProgress.isMajority (.ignored, n.broadcast.acks).1 = false from rfl, Bool.or_false]
    exact sit
  | true =>
    have awaited : n.broadcast.waiting.contains ack.id = true := sit.waiting_eq.trans hc
    have hacc := sit.of_collecting hc
    rw [hacc] at sit
    obtain ⟨proposed, confirmed, -, -, told, silent, kept⟩ := account_eq_iff.1 hacc
    have still := AckCollector.recordAck_of_open (w := ack.origin) hc
    rw [core_countAck awaited, show reported = false from silent, Bool.false_or]
    cases hm : (n.broadcast.acks.recordAck ack.id ack.origin).1.isMajority with
    | false =>
      rw [hm] at still
      exact sit.of_eq (account_eq_iff.2 ⟨proposed, confirmed, still, awaited, told, rfl, kept⟩) rfl
    | true =>
      rw [hm] at still
      have nobody : (n.broadcast.waiting.erase ack.id).contains ack.id = false := by
        rw [SortedMap.contains_erase, decide_eq_false (not_not_intro rfl), Bool.false_and]
      have added : (SortedSet.add n.majorities ack.id).contains ack.id = true :=
        (SortedMap.contains_insert _ _ _ _).trans (by rw [decide_eq_true rfl, Bool.true_or])
      exact sit.tell.of_eq (account_eq_iff.2 ⟨proposed, confirmed, still, nobody, added, rfl, kept⟩) rfl

/-- **A proposal that is logged gets a number that nothing was known of.** -/
theorem situation_of_storeProposal {call : Nat} {tx : Transaction} {clock : Option StatusReport} (sound : n.store.Sound)
    (fits : n.store.Fits)
    (sit : Situation n.name strict (n.store.nextId n.name) (n.core.account reported abandoned (n.store.nextId n.name)) left) :
    Situation n.name strict (n.store.nextId n.name)
      ((n.storeProposal call tx clock).node.core.account reported abandoned (n.store.nextId n.name))
      (left ++ attending (n.storeProposal call tx clock) (n.store.nextId n.name)) := by
  have pushed := n.store.countP_proposals_push (n.proposalOf tx clock) n.name (n.store.nextId n.name)
  have others := n.store.confirmations_push (n.proposalOf tx clock) n.name (n.store.nextId n.name)
  have once := (sound.push (r := n.proposalOf tx clock) fits rfl).countP_proposals_le n.name (n.store.nextId n.name)
  have counts : ((n.proposalOf tx clock).isUnconfirmedProposal && ((n.proposalOf tx clock).origin == n.name &&
      (n.proposalOf tx clock).id == n.store.nextId n.name)) = true := by
    simp [proposalOf, Record.isUnconfirmedProposal, Record.origin, Record.id]
  rw [counts, if_pos rfl] at pushed
  rw [if_neg (fun h => nomatch h.2), Nat.add_zero] at others
  rw [pushed] at once
  have none : (n.store.proposals n.name).countP (fun r => r.id == n.store.nextId n.name) = 0 := by omega
  obtain ⟨hacc, rfl⟩ := sit.of_proposed none
  obtain ⟨-, confirmed, closed, nobody, told, silent, kept⟩ := account_eq_iff.1 hacc
  rw [none] at pushed
  have left : attending (n.storeProposal call tx clock) (n.store.nextId n.name) =
      [.findRound n.name (n.store.nextId n.name) (.collect call (n.proposalOf tx clock) tx)] :=
    attending_proceed_self (beq_self_eq_true _)
  rw [left]
  exact .of_eq (.finding rfl)
    (account_eq_iff.2 ⟨pushed, others.trans confirmed, closed, nobody, told, silent, kept⟩) rfl

/-- **What is not done for a number leaves it where it is**, but for an acknowledgment, and when it is logged. -/
theorem situation_of_other (h : step ∈ n.perform now a) (idle : a.Attends id = false)
    (guests : ∀ sender r, a = .accept sender r → step.node.store = n.store.push r → r.origin ≠ n.name)
    (sound : n.store.Sound) (fits : n.store.Fits)
    (sit : Situation n.name strict id (n.core.account reported abandoned id) left) :
    Situation n.name strict id
      (step.node.core.account (reported || n.Reports id a) (abandoned + if a.Abandons id then 1 else 0) id)
      (left ++ attending step id) := by
  have going : a.Abandons id = false := by
    by_contra h
    rw [Action.Abandons.attends (Bool.not_eq_false _ ▸ h)] at idle
    cases idle
  rw [going, if_neg Bool.false_ne_true, Nat.add_zero]
  by_cases acked : ∃ ack, a = .countAck ack ∧ ack.id = id
  · obtain ⟨ack, rfl, rfl⟩ := acked
    obtain rfl := List.mem_singleton.1 h
    rw [attending_of_other h idle (fun _ _ _ he => nomatch he), List.append_nil]
    exact situation_of_countAck sit
  by_cases logs : ∃ call tx clock, a = .storeProposal call tx clock ∧ n.store.nextId n.name = id
  · obtain ⟨call, tx, clock, rfl, rfl⟩ := logs
    obtain rfl := List.mem_singleton.1 h
    rw [show n.Reports _ (.storeProposal call tx clock) = false from rfl, Bool.or_false]
    exact situation_of_storeProposal sound fits sit
  · have acked : ∀ ack, a = .countAck ack → ack.id ≠ id := fun ack ha hid => acked ⟨ack, ha, hid⟩
    have logs : ∀ call tx clock, a = .storeProposal call tx clock → n.store.nextId n.name ≠ id :=
      fun call tx clock ha hid => logs ⟨call, tx, clock, ha, hid⟩
    have silent : n.Reports id a = false := by
      cases a with
      | countAck ack => rw [Reports, beq_eq_false_iff_ne.2 (acked ack rfl), Bool.false_and]
      | startCollection call r round tx => rw [Reports, show (r.id == id) = false from idle, Bool.false_and]
      | _ => rfl
    rw [silent, Bool.or_false, attending_of_other h idle logs, List.append_nil,
      (coreChange_of_perform h).account_eq idle guests acked logs]
    exact sit

end Node
end GossipNode
