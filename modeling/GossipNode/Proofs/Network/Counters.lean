import Mathlib.Algebra.Ring.Nat
import GossipNode.Proofs.Network.Confirmations
import GossipNode.Proofs.Network.Topics
import GossipNode.Proofs.Node.Books
/-!
# The counters agree with the state

A counter only grows, and what it counts is somewhere else in the node: records are in the store, rounds have closed, blocks
are in the chains of topics, and the waits for reports are the tasks that have begun them.  Each action that changes one
side changes the other (`Node.entry_of_perform`), so along a run they agree (`counters_agree`).
-/
namespace GossipNode

theorem SortedMap.sum_values_insert {α β : Type} [Ord α] [Std.LawfulEqOrd α] [Std.TransOrd α] (m : SortedMap α β) (k : α)
    (v : β) (f : β → Nat) :
    ((m.insert k v).values.map f).sum + ((m.get? k).map f).getD 0 = (m.values.map f).sum + f v := by
  have after := (((m.perm_entries_insert k v).map Prod.snd).map f).sum_nat
  cases hk : m.get? k with
  | none =>
    rw [erase_of_get?_eq_none hk] at after
    simp only [values, List.map_cons, List.sum_cons] at after ⊢
    simp only [Option.map_none, Option.getD_none]
    omega
  | some w =>
    have before := (((perm_entries_of_get? hk).map Prod.snd).map f).sum_nat
    simp only [values, List.map_cons, List.sum_cons] at after before ⊢
    simp only [Option.map_some, Option.getD_some]
    omega

theorem filterMap_cons_toList {α β : Type} (f : α → Option β) (x : α) (l : List α) :
    (x :: l).filterMap f = (f x).toList ++ l.filterMap f := by
  cases h : f x <;> simp [h]

theorem filterMap_concat_toList {α β : Type} (f : α → Option β) (l : List α) (x : α) :
    (l ++ [x]).filterMap f = l.filterMap f ++ (f x).toList := by
  rw [List.filterMap_append, filterMap_cons_toList, List.filterMap_nil, List.append_nil]

namespace Node

variable {n n' : Node} {a : Action} {now : Nat} {step : Step} {t : String} {s : Topic} {b : Books} {begun left : List Nat}

/-! ## Blocks -/

/-- How many blocks are committed, over all topics. -/
def committedCount (n : Node) : Nat := (n.topics.values.map fun s => s.ledger.committed.length).sum

theorem committedCount_of_topics (h : n'.topics = n.topics) : n'.committedCount = n.committedCount := by
  rw [committedCount, h, committedCount]

theorem committedCount_of_insert (h : n'.topics = n.topics.insert t s) :
    n'.committedCount + (n.topic t).ledger.committed.length = n.committedCount + s.ledger.committed.length := by
  have before : ((n.topics.get? t).map fun s => s.ledger.committed.length).getD 0 =
      (n.topic t).ledger.committed.length := by
    unfold topic
    cases n.topics.get? t <;> rfl
  rw [committedCount, h, ← before]
  exact n.topics.sum_values_insert t s _

theorem TopicChange.ledger_eq (h : n.TopicChange a t s) (other : ∀ t stash c, a ≠ .decide t stash c) :
    s.ledger = (n.topic t).ledger := by
  cases h with
  | opened new => rw [topic_of_closed new]
  | appended => exact absurd rfl (other _ _ _)
  | fed | fedBallot | proposed | drained | took => rfl

theorem Entry.blocksAppended_eq (entry : n.Entry a b begun left) (other : ∀ t stash c, a ≠ .decide t stash c) :
    b.blocksAppended = n.metrics.blocksAppended := by
  cases entry with
  | appended => exact absurd rfl (other _ _ _)
  | _ => rfl

/-- **A block that is counted is committed**, and one that is committed is counted. -/
theorem committedCount_of_perform (h : step ∈ n.perform now a) :
    step.node.committedCount + n.metrics.blocksAppended = n.committedCount + step.node.metrics.blocksAppended := by
  by_cases decides : ∃ t stash c, a = .decide t stash c
  · obtain ⟨t, stash, c, rfl⟩ := decides
    rw [List.mem_singleton.1 h]
    cases happ : (n.topic t).ledger.append c.winner with
    | ok ledger =>
      have topics : (n.decide t stash c).node.topics = n.topics.insert t { n.topic t with ledger } := by
        simp only [decide, happ]
        rfl
      have counted : (n.decide t stash c).node.metrics.blocksAppended = n.metrics.blocksAppended + 1 := by
        simp only [decide, happ]
        rfl
      have count := committedCount_of_insert topics
      simp only [(Ledger.append_eq_ok happ).1, Ledger.committed_push, List.length_append, List.length_singleton] at count
      omega
    | error e =>
      simp only [decide, happ]
      rfl
  · have other (t : String) (stash : RoundStash) (c : RoundCollector) : a ≠ .decide t stash c :=
      fun ha => decides ⟨t, stash, c, ha⟩
    have counted : step.node.metrics.blocksAppended = n.metrics.blocksAppended := (entry_of_perform h).blocksAppended_eq other
    rcases topics_of_perform h with topics | ⟨t, s, change, topics⟩
    · rw [committedCount_of_topics topics, counted]
    · have count := committedCount_of_insert topics
      rw [change.ledger_eq other] at count
      omega

theorem committedCount_answer (n : Node) (q : Request) : (n.answer q).node.committedCount = n.committedCount := by
  by_cases submits : ∃ t b, q = .submitBallot t b
  · obtain ⟨t, b, rfl⟩ := submits
    have count := committedCount_of_insert (n.topics_submitBallot t b)
    exact Nat.add_right_cancel count
  · exact committedCount_of_topics (n.topics_answer q fun t b hq => submits ⟨t, b, hq⟩)

theorem topics_new {c : Config} {address : PeerAddress} {random : RandomSource} {auth : Authenticator}
    (h : Node.new c address random auth = .ok n) : n.topics = ∅ := by
  obtain ⟨hv, ht⟩ := checks_of_new h
  unfold Node.new at h
  rw [hv, ht] at h
  rw [← Except.ok.inj h]

/-! ## Records and rounds -/

theorem Entry.recordsAccepted_eq (entry : n.Entry a b begun left) :
    b.recordsAccepted = n.metrics.recordsAccepted + (n.taken? a).toList.length := by
  cases entry with
  | nothing other =>
    rw [taken?_of_other fun sender r ha => by rw [ha] at other; cases other]
    rfl
  | _ => rfl

theorem Entry.roundsAdvanced_eq (entry : n.Entry a b begun left) (other : ∀ o round, a ≠ .countConfirmation o round) :
    b.roundsAdvanced = n.metrics.roundsAdvanced := by
  cases entry with
  | closed => exact absurd rfl (other _ _)
  | _ => rfl

/-- **A round that is counted has closed.** -/
theorem round_of_perform (h : step ∈ n.perform now a) (advances : n.Advances a) :
    step.node.round.toNat + n.metrics.roundsAdvanced = n.round.toNat + step.node.metrics.roundsAdvanced := by
  by_cases counts : ∃ o round, a = .countConfirmation o round
  · obtain ⟨o, round, rfl⟩ := counts
    have closed : step.node.metrics.roundsAdvanced =
        n.metrics.roundsAdvanced + (n.broadcast.tracker.recordConfirmation o round).1.length := by
      rw [List.mem_singleton.1 h]
      exact congrArg Books.roundsAdvanced (n.books_countConfirmation o round)
    have current : step.node.round = (n.broadcast.tracker.recordConfirmation o round).2.current := by
      rw [List.mem_singleton.1 h]
      exact n.round_countConfirmation o round
    have advances := advances o round rfl
    rw [current]
    omega
  · have other (o : Origin) (round : UInt32) : a ≠ .countConfirmation o round := fun ha => counts ⟨o, round, ha⟩
    have counted : step.node.metrics.roundsAdvanced = n.metrics.roundsAdvanced := (entry_of_perform h).roundsAdvanced_eq other
    rw [round, (tracker_of_perform h).2 other, counted]
    rfl

end Node

namespace Machine

variable {m m' : Machine} {e : Event} {c : Config} {events : List Event} {deeds more : List Deed} {a : Action}
  {allowed : Machine → Event → Machine → Prop}

/-! ## What is counted -/

/-- The tickets that tasks wait with. -/
def waiting (m : Machine) : List Nat := m.actions.filterMap Action.waiting?

/-- The tickets of waits whose time is over, and whose registrations are about to be removed. -/
def leaving (m : Machine) : List Nat := m.actions.filterMap Action.leaving?

/-- The tickets of waits that have ended with a notice. -/
def heard (deeds : List Deed) : List Nat := deeds.filterMap fun d => d.node.heard? d.action

/-- The tickets of waits that have ended without one. -/
def late (deeds : List Deed) : List Nat := deeds.filterMap fun d => d.action.leaving?

def Event.Appends : Event → Bool
  | .call q => q.Appends
  | _ => false

/-- How many records have been made here. -/
def appended (events : List Event) (deeds : List Deed) : Nat :=
  events.countP Event.Appends + deeds.countP fun d => d.action.Appends

/-- **The books of a node and what has been counted for them.** -/
structure Agrees (events : List Event) (deeds : List Deed) (m : Machine) : Prop where
  balanced : m.node.books.Balanced m.waiting m.leaving (heard deeds) (late deeds)
  peered : m.node.books.Peered
  records : m.node.metrics.recordsAccepted + appended events deeds = m.node.store.recordCount
  rounds : m.node.metrics.roundsAdvanced = m.node.round.toNat
  blocks : m.node.metrics.blocksAppended = m.node.committedCount

theorem Agrees.start (fresh : m.Fresh c) : Agrees [] [] m := by
  have waiting : m.waiting = [] := by
    refine List.filterMap_eq_nil_iff.2 (fun a ha => ?_)
    have standing := fresh.standing (mem_actions.1 ha)
    cases a with
    | awaitNotice => cases standing
    | _ => rfl
  have leaving : m.leaving = [] := by
    refine List.filterMap_eq_nil_iff.2 (fun a ha => ?_)
    have standing := fresh.standing (mem_actions.1 ha)
    cases a with
    | giveUp => cases standing
    | _ => rfl
  obtain ⟨address, _, _, _, hnew, -⟩ := fresh
  have books := Node.books_new hnew
  have core := Node.core_new hnew
  obtain ⟨own, other⟩ := PeerSet.own_new address c.bootstrapPeers
  refine ⟨?_, ?_, ?_, ?_, ?_⟩
  · rw [waiting, leaving, books]
    exact ⟨.start, rfl, rfl, rfl⟩
  · rw [books]
    exact ⟨own, other, rfl⟩
  · have none : m.node.metrics.recordsAccepted = 0 := congrArg Node.Books.recordsAccepted books
    have empty : m.node.store = .empty := congrArg Node.Core.store core
    rw [none, empty]
    rfl
  · have none : m.node.metrics.roundsAdvanced = 0 := congrArg Node.Books.roundsAdvanced books
    have first : m.node.round = 0 := congrArg (fun x => x.broadcast.tracker.current) core
    rw [none, first]
    rfl
  · have none : m.node.metrics.blocksAppended = 0 := congrArg Node.Books.blocksAppended books
    rw [none, Node.committedCount, Node.topics_new hnew]
    rfl

/-! ## One move -/

/-- **An action keeps the counters in agreement.** -/
theorem Agrees.acted (h : Agrees events deeds m) (run : Run allowed c m) {now : Nat} {step : Step} {script : List Action}
    {others : List (List Action)} (perform : step ∈ m.node.perform now a) (taken : m.tasks.Perm ((a :: script) :: others))
    (node : m'.node = step.node) (left : m'.tasks.Perm ((step.next ++ script) :: (others ++ step.started))) :
    Agrees (events ++ [.act now]) (deeds ++ [⟨m.node, a, step⟩]) m' := by
  have entry := Node.entry_of_perform perform
  obtain ⟨before, after⟩ := perm_acted taken left
  refine ⟨?_, ?_, ?_, ?_, ?_⟩
  · -- the action goes and what it leaves comes; what else is to be done has the tickets it had
    have waiting := before.filterMap Action.waiting?
    have leaving := before.filterMap Action.leaving?
    rw [filterMap_cons_toList] at waiting leaving
    have balanced := entry.balanced (h.balanced.perm waiting.symm leaving.symm)
    rw [node, heard, filterMap_concat_toList, late, filterMap_concat_toList]
    refine balanced.perm ?_ ?_
    · rw [← List.filterMap_append]
      exact after.filterMap _
    · rw [← List.filterMap_append]
      exact after.filterMap _
  · rw [node]
    exact entry.peered h.peered
  · have stored := Node.recordCount_of_perform perform run.sound run.fits
    have accepted : step.node.metrics.recordsAccepted = _ := entry.recordsAccepted_eq
    have agrees := h.records
    simp only [appended, List.countP_append, List.countP_singleton, Event.Appends, Bool.false_eq_true, if_false] at agrees ⊢
    rw [node]
    omega
  · have counted := Node.round_of_perform perform (run.advances (todo_of_taken taken))
    have agrees := h.rounds
    rw [node]
    omega
  · have counted := Node.committedCount_of_perform perform
    have agrees := h.blocks
    rw [node]
    omega

/-- Without an action no wait begins or ends. -/
theorem Move.filterMap_of_idle (h : m.Move e [] m') (up : m'.node.down = false) {f : Action → Option Nat}
    (none : ∀ q, ∀ a ∈ (m.node.answer q).todo, f a = none) : (m'.actions.filterMap f).Perm (m.actions.filterMap f) := by
  rcases h.actions_of_idle with ⟨begun, added, hbegun⟩ | ⟨rfl, -⟩
  · have nothing : begun.filterMap f = [] := by
      refine List.filterMap_eq_nil_iff.2 (fun a ha => ?_)
      obtain ⟨q, ha⟩ := hbegun a ha
      exact none q a ha
    have added := added.filterMap f
    rw [List.filterMap_append, nothing, List.nil_append] at added
    exact added
  · exact absurd rfl (h.ne_shutdown up)

/-- **Without an action** a peer may be heard of and a record made; no block is committed and no round closes. -/
theorem Move.unbooked (h : m.Move e [] m') (up : m'.node.down = false) (sound : m.node.store.Sound)
    (fits : m.node.store.Fits) :
    (m'.node.books = m.node.books ∨ ∃ p, m'.node.books = m.node.books.learn p) ∧
      m'.node.store.recordCount = m.node.store.recordCount + (if e.Appends then 1 else 0) ∧
      m'.node.committedCount = m.node.committedCount := by
  have quiet (books : m'.node.books = m.node.books) (appends : e.Appends = false) (store : m'.node.store = m.node.store)
      (topics : m'.node.topics = m.node.topics) : (m'.node.books = m.node.books ∨ ∃ p, m'.node.books = m.node.books.learn p) ∧
      m'.node.store.recordCount = m.node.store.recordCount + (if e.Appends then 1 else 0) ∧
      m'.node.committedCount = m.node.committedCount := by
    rw [appends, store]
    exact ⟨.inl books, rfl, Node.committedCount_of_topics topics⟩
  cases h with
  | @answered q _ node left =>
    rw [node]
    exact ⟨m.node.books_answer q, m.node.recordCount_answer sound fits q, m.node.committedCount_answer q⟩
  | arrived arrive =>
    exact quiet (Node.books_arrive arrive) rfl (congrArg (fun f => f.core.store) (Node.frame_arrive arrive))
      (congrArg (fun b => b.shelf.topics) (Node.backdrop_arrive arrive))
  | closed => exact quiet rfl rfl rfl rfl
  | stopped sub => exact absurd rfl (Move.ne_shutdown (.stopped sub) up)

theorem Agrees.idle (h : Agrees events deeds m) (run : Run allowed c m) (move : m.Move e [] m')
    (up : m'.node.down = false) : Agrees (events ++ [e]) deeds m' := by
  have waiting : m'.waiting.Perm m.waiting :=
    move.filterMap_of_idle up fun q a ha => by cases Node.begins_of_answer ha <;> rfl
  have leaving : m'.leaving.Perm m.leaving :=
    move.filterMap_of_idle up fun q a ha => by cases Node.begins_of_answer ha <;> rfl
  have balanced := h.balanced.perm waiting leaving
  have round : m'.node.round = m.node.round := congrArg (fun b => b.tracker.current) move.idle.broadcast_eq
  obtain ⟨books, records, blocks⟩ := move.unbooked up run.sound run.fits
  have accepted : m'.node.metrics.recordsAccepted = m.node.metrics.recordsAccepted := by
    rcases books with books | ⟨p, books⟩ <;> exact congrArg Node.Books.recordsAccepted books
  have advanced : m'.node.metrics.roundsAdvanced = m.node.metrics.roundsAdvanced := by
    rcases books with books | ⟨p, books⟩ <;> exact congrArg Node.Books.roundsAdvanced books
  have appended : m'.node.metrics.blocksAppended = m.node.metrics.blocksAppended := by
    rcases books with books | ⟨p, books⟩ <;> exact congrArg Node.Books.blocksAppended books
  refine ⟨?_, ?_, ?_, ?_, ?_⟩
  · rcases books with books | ⟨p, books⟩
    · rw [books]; exact balanced
    · rw [books]; exact balanced.learn p
  · rcases books with books | ⟨p, books⟩
    · rw [books]; exact h.peered
    · rw [books]; exact h.peered.learn p
  · have agrees := h.records
    simp only [Machine.appended, List.countP_append, List.countP_singleton] at agrees ⊢
    omega
  · rw [advanced, round]; exact h.rounds
  · rw [appended, blocks]; exact h.blocks

/-! ## The theorem -/

theorem agrees_of_chronicle (h : Chronicle StaysUp c events deeds m) : Agrees events deeds m := by
  refine h.induct (P := Agrees) (fun m fresh => .start fresh) ?_
  intro events deeds more m m' e before ih move up _
  cases more with
  | nil =>
    rw [List.append_nil]
    exact ih.idle before.history.run move up
  | cons d more =>
    obtain @⟨now, a, step, script, others, _, perform, taken, node, left⟩ := move
    exact ih.acted before.history.run perform taken node left

/-- **The counters agree with the state.**  Whatever happens to a node short of a shutdown: the records that it has taken
and those made here are those in its store; each ticket that has been given out is waited with, is being given up, or has
ended once, with a notice or because its time was over; the rounds that have been counted have closed, the blocks that
have been counted are in the chains of topics, and the peers are counted, of which the node is none.  While no wait is
being given up, what has been sent is what has been notified or timed out and what is registered, and each registration
and each notice has its own task that waits for it. -/
theorem counters_agree (h : Chronicle StaysUp c events deeds m) :
    m.node.metrics.recordsAccepted + appended events deeds = m.node.store.recordCount ∧
    (m.waiting ++ m.leaving ++ heard deeds ++ late deeds).Perm (List.range m.node.metrics.mongersSent) ∧
    m.node.metrics.acksFired = (heard deeds).length + m.node.notices.size ∧
    m.node.metrics.mongerTimeouts = (late deeds).length ∧
    (m.leaving = [] →
      m.node.metrics.mongersSent = m.node.metrics.acksFired + m.node.metrics.mongerTimeouts + m.node.acks.pending.length ∧
      m.waiting.Perm (m.node.acks.pending.map Registration.ticket ++ m.node.notices.keys)) ∧
    m.node.metrics.roundsAdvanced = m.node.round.toNat ∧
    m.node.metrics.blocksAppended = m.node.committedCount ∧
    m.node.metrics.peerCount = m.node.peers.size ∧ m.node.peers.contains m.node.address = false := by
  have agrees := agrees_of_chronicle h
  obtain ⟨tickets, sent, fired, timedOut⟩ := agrees.balanced
  have sent : m.node.metrics.mongersSent = m.node.acks.nextTicket := sent
  refine ⟨agrees.records, ?_, fired, timedOut, fun rest => ?_, agrees.rounds, agrees.blocks, agrees.peered.counted,
    agrees.peered.other⟩
  · rw [sent]
    exact tickets.once
  · rw [rest] at tickets
    have listened := tickets.listened_of_leaving
    have next := tickets.nextTicket_eq
    have awaited := tickets.awaited
    have fired : m.node.metrics.acksFired = (heard deeds).length + m.node.notices.size := fired
    have timedOut : m.node.metrics.mongerTimeouts = (late deeds).length := timedOut
    rw [listened] at next awaited
    rw [List.length_map, List.length_nil] at next
    refine ⟨?_, awaited⟩
    rw [sent, fired, timedOut]
    exact next

/-- One record is taken and four are made; of three that are sent, one is reported, one is given up and one still waited
for; a round closes, a block is appended and a peer is heard of. -/
theorem counters_agree_after_each_end :
    let config : Config := { name := "a", peers := [], antiEntropyPeriod := 0 }
    ∃ events deeds m, Chronicle StaysUp config events deeds m ∧ m.leaving = [] ∧
      m.node.metrics.recordsAccepted = 1 ∧ appended events deeds = 4 ∧ m.node.store.recordCount = 5 ∧
      m.node.metrics.mongersSent = 3 ∧ m.node.metrics.acksFired = 1 ∧ m.node.metrics.mongerTimeouts = 1 ∧
      m.node.acks.pending.length = 1 ∧ m.node.metrics.roundsAdvanced = 1 ∧ m.node.metrics.blocksAppended = 1 ∧
      m.node.metrics.peerCount = 1 := by
  intro config
  let turns (task count : Nat) : List (Nat × Event) := List.replicate count (task, .act 0)
  let arrives (task : Nat) (p : Packet) : List (Nat × Event) := [(0, .arrive ⟨"B"⟩ p), (1, .act 0)] ++ turns task 4
  let moves : List (Nat × Event) :=
    arrives 3 (.rumor ⟨⟨"b"⟩, 1, "one"⟩) ++ [(0, .call (.postRumor "own"))] ++ turns 6 2 ++
    arrives 7 (.status ⟨[⟨⟨"a"⟩, 2⟩]⟩) ++ turns 6 1 ++ turns 8 1 ++ [(8, .act 1000000000000), (8, .act 0)] ++
    [(0, .call (.propose ⟨"first", 1, []⟩))] ++ turns 9 6 ++ turns 10 4 ++ turns 11 2 ++
    [(0, .call (.submitBallot "t" ⟨"v", "", ""⟩))] ++ turns 14 3 ++ turns 2 1
  have played : ((start? config ⟨"A"⟩ .acceptAll).bind (fun m => playDeeds? StaysUp moves ([], m))).map
      (fun x => (x.2.leaving, [appended (moves.map Prod.snd) x.1, x.2.node.store.recordCount, (heard x.1).length,
        (late x.1).length, x.2.node.notices.size, x.2.node.acks.pending.length, x.2.node.round.toNat,
        x.2.node.committedCount, x.2.node.peers.size])) = some ([], [4, 5, 1, 1, 0, 1, 1, 1, 1]) := by decide +kernel
  obtain ⟨deeds, m, chronicle, hstate⟩ := chronicle_of_start? played
  simp only [Prod.mk.injEq, List.cons.injEq, and_true] at hstate
  obtain ⟨hleaving, happended, hcount, hheard, hlate, hnotices, hpending, hround, hblocks, hpeers⟩ := hstate
  obtain ⟨records, -, fired, timedOut, sent, rounds, blocks, peers, -⟩ := counters_agree chronicle
  obtain ⟨sent, -⟩ := sent hleaving
  rw [happended, hcount] at records
  rw [hheard, hnotices] at fired
  rw [hlate] at timedOut
  rw [fired, timedOut, hpending] at sent
  rw [hround] at rounds
  rw [hblocks] at blocks
  rw [hpeers] at peers
  exact ⟨_, deeds, m, chronicle, hleaving, by omega, happended, hcount, sent, fired, timedOut, hpending, rounds, blocks, peers⟩

end Machine
end GossipNode
