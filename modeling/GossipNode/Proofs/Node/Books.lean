import GossipNode.Proofs.Node.Ballots
import GossipNode.Proofs.Node.Successors
import GossipNode.Proofs.Node.Telling
import GossipNode.Proofs.Registry.Waits
import GossipNode.Proofs.Store.Reconciliation
/-!
# The books of a node

The books are the counters, the peers, the registry of waits and the notices that nobody has taken yet.  Of all actions
eight enter something into them, and `Node.Entry` says what, with the tickets of the waits that the action leaves to its
task.  From it are read off that tickets are accounted for (`Entry.balanced`) and that the gauge of peers is right
(`Entry.peered`).  How many records an action adds to the store is said by `recordCount_of_perform`.
-/
namespace GossipNode

/-! ## Actions and tickets -/

namespace Action

/-- Actions that enter something into the books. -/
def Booked : Action → Bool
  | .learn _ | .accept .. | .settle .. | .sendRecord .. | .awaitNotice .. | .giveUp .. | .countConfirmation .. | .decide .. =>
    true
  | _ => false

/-- The ticket that a task waits with. -/
def waiting? : Action → Option Nat
  | .awaitNotice _ _ ticket _ => some ticket
  | _ => none

/-- The ticket that a task gives up, as its time is over. -/
def leaving? : Action → Option Nat
  | .giveUp _ _ ticket => some ticket
  | _ => none

/-- Actions that put a record made here into the store. -/
def Appends : Action → Bool
  | .awaitHeartbeat _ | .storeProposal .. | .storeConfirmation .. | .publish => true
  | _ => false

end Action

/-- Requests that put a record made here into the store. -/
def Request.Appends : Request → Bool
  | .postRumor _ => true
  | _ => false

/-! ## Peers -/

namespace PeerSet

variable {s : PeerSet}

theorem own_insert (s : PeerSet) (p : PeerAddress) : (s.insert p).2.own = s.own := by
  unfold insert
  split <;> rfl

theorem insert_of_known {p : PeerAddress} (known : (s.insert p).1 = false) : (s.insert p).2 = s := by
  unfold insert at known ⊢
  split
  · rfl
  · rename_i new
    rw [if_neg new] at known
    cases known

/-- **A node is never among its peers.** -/
theorem contains_own_insert (h : s.contains s.own = false) (p : PeerAddress) : (s.insert p).2.contains s.own = false := by
  unfold insert
  split
  · exact h
  · rename_i new
    rw [Bool.or_eq_true, decide_eq_true_eq, not_or] at new
    rw [Bool.eq_false_iff, contains, ne_eq, SortedSet.contains_add, not_or]
    exact ⟨Ne.symm new.1, Bool.eq_false_iff.1 h⟩

theorem own_new (own : PeerAddress) (bootstrap : List PeerAddress) :
    (PeerSet.new own bootstrap).own = own ∧ (PeerSet.new own bootstrap).contains own = false := by
  have added : ∀ (l : List PeerAddress) (s : PeerSet), s.own = own ∧ s.contains own = false →
      (l.foldl (fun s p => (s.insert p).2) s).own = own ∧ (l.foldl (fun s p => (s.insert p).2) s).contains own = false := by
    intro l
    induction l with
    | nil => exact fun _ h => h
    | cons p l ih =>
      rintro s ⟨rfl, h⟩
      exact ih _ ⟨s.own_insert p, contains_own_insert h p⟩
  exact added bootstrap ⟨own, ∅⟩ ⟨rfl, rfl⟩

end PeerSet

namespace Node

structure Books where
  recordsAccepted : Nat
  mongersSent : Nat
  mongerTimeouts : Nat
  acksFired : Nat
  roundsAdvanced : Nat
  blocksAppended : Nat
  peerCount : Int
  address : PeerAddress
  peers : PeerSet
  acks : AckRegistry
  notices : SortedMap Nat Notice

def books (n : Node) : Books :=
  ⟨n.metrics.recordsAccepted, n.metrics.mongersSent, n.metrics.mongerTimeouts, n.metrics.acksFired,
    n.metrics.roundsAdvanced, n.metrics.blocksAppended, n.metrics.peerCount, n.address, n.peers, n.acks, n.notices⟩

namespace Books

/-- A peer is heard of; one that is new is counted. -/
def learn (b : Books) (p : PeerAddress) : Books :=
  { b with
    peers := (b.peers.insert p).2
    peerCount := if (b.peers.insert p).1 then (b.peers.insert p).2.size else b.peerCount }

/-- A peer reports: the notices of those who wait go to them. -/
def report (b : Books) (peer : PeerAddress) (v : StatusVector) (inSync : Bool) : Books :=
  { b with
    acks := (b.acks.onStatus peer v inSync).2
    notices := ((b.acks.onStatus peer v inSync).1.filter fun s => s.1.listening).foldl
      (fun ns s => ns.insert s.1.ticket s.2) b.notices
    acksFired := b.acksFired + AckRegistry.fired (b.acks.onStatus peer v inSync).1 }

end Books

/-- **What an action enters into the books**, with the tickets that it leaves to be waited with and to be given up. -/
inductive Entry (n : Node) : Action → Books → List Nat → List Nat → Prop where
  | nothing {a : Action} (other : a.Booked = false) : Entry n a n.books [] []
  | learned {p : PeerAddress} : Entry n (.learn p) (n.books.learn p) [] []
  | accepted {sender : PeerAddress} {r : Record} : Entry n (.accept sender r)
      { n.books with
        recordsAccepted := n.metrics.recordsAccepted + (n.taken? (.accept sender r)).toList.length } [] []
  | settled {peer : PeerAddress} {v : StatusVector} {inSync : Bool} {answer : StatusAnswer} :
    Entry n (.settle peer v inSync answer) (n.books.report peer v inSync) [] []
  | sent {r : Record} {p : PeerAddress} : Entry n (.sendRecord r p)
      { n.books with
        acks := (n.acks.register p r.origin r.id).2
        mongersSent := n.metrics.mongersSent + 1 } [n.acks.nextTicket] []
  | heard {r : Record} {p : PeerAddress} {ticket deadline : Nat} {notice : Notice}
      (there : n.notices.get? ticket = some notice) :
    Entry n (.awaitNotice r p ticket deadline) { n.books with notices := n.notices.erase ticket } [] []
  | late {r : Record} {p : PeerAddress} {ticket deadline : Nat} (absent : n.notices.contains ticket = false) :
    Entry n (.awaitNotice r p ticket deadline) { n.books with acks := n.acks.abandon ticket } [] [ticket]
  | gaveUp {r : Record} {p : PeerAddress} {ticket : Nat} : Entry n (.giveUp r p ticket)
      { n.books with
        acks := n.acks.cancel ticket
        mongerTimeouts := n.metrics.mongerTimeouts + 1 } [] []
  | closed {o : Origin} {round : UInt32} : Entry n (.countConfirmation o round)
      { n.books with
        roundsAdvanced := n.metrics.roundsAdvanced + (n.broadcast.tracker.recordConfirmation o round).1.length } [] []
  | appended {t : String} {stash : RoundStash} {c : RoundCollector} {ledger : Ledger}
      (ok : (n.topic t).ledger.append c.winner = .ok ledger) :
    Entry n (.decide t stash c) { n.books with blocksAppended := n.metrics.blocksAppended + 1 } [] []
  | refused {t : String} {stash : RoundStash} {c : RoundCollector} {e : LedgerError}
      (error : (n.topic t).ledger.append c.winner = .error e) : Entry n (.decide t stash c) n.books [] []

variable {n : Node} {a : Action} {now : Nat} {step : Step}

/-! ## What most functions leave alone -/

theorem books_learnPeer (n : Node) (p : PeerAddress) : (n.learnPeer p).books = n.books.learn p := by
  have known := @PeerSet.insert_of_known n.peers p
  unfold learnPeer Books.learn
  rw [show n.books.peers.insert p = n.peers.insert p from rfl]
  generalize n.peers.insert p = inserted at known ⊢
  obtain ⟨new, peers⟩ := inserted
  cases new with
  | true => rfl
  | false =>
    obtain rfl := known rfl
    rfl

theorem books_reply (n : Node) (call : Nat) (r : Except NodeError SequenceId) : (n.reply call r).books = n.books := by
  unfold reply
  split <;> rfl

theorem books_deliverHere (n : Node) (p : Packet) : (n.deliverHere p).node.books = n.books := by
  cases p <;> rfl

theorem books_forward (n : Node) (d : Origin) (p : Packet) : (n.forward d p).node.books = n.books := by
  unfold forward
  split <;> rfl

theorem books_originate (n : Node) (p : Packet) : (n.originate p).2.node.books = n.books := by
  unfold originate
  split
  · rfl
  · split
    · exact n.books_deliverHere p
    · exact n.books_forward _ p

theorem books_handle (n : Node) (sender : PeerAddress) (p : Packet) : (n.handle sender p).node.books = n.books := by
  unfold handle
  split
  · rfl
  · split <;> rfl
  · split
    · unfold relay
      split
      · exact n.books_deliverHere p
      · split <;> rfl
    · rfl
    · rfl

theorem books_announce (n : Node) (r : Record) : (n.announce r).books = n.books := by
  unfold announce
  split
  · split <;> rfl
  · split <;> rfl
  · rfl

theorem books_flipToGoOn (n : Node) (r : Record) (last : PeerAddress) : (n.flipToGoOn r last).node.books = n.books := by
  simp only [flipToGoOn]
  split <;> rfl

theorem books_foldl_emit (l : List RoundClosed) (e : RoundClosed → NodeEvent) (n : Node) :
    (l.foldl (fun n c => n.emit (e c)) n).books = n.books := by
  induction l generalizing n with
  | nil => rfl
  | cons c l ih => exact ih (n.emit (e c))

theorem books_openTopic (n : Node) (t : String) : (n.openTopic t).node.books = n.books := by
  unfold openTopic
  split <;> rfl

/-- **Most actions enter nothing.** -/
theorem books_of_other (h : step ∈ n.perform now a) (other : a.Booked = false) : step.node.books = n.books := by
  cases a with
  | learn | accept | settle | sendRecord | awaitNotice | giveUp | countConfirmation | decide => cases other
  | receive =>
    simp only [perform, receive] at h
    split at h
    · split at h
      · cases h
      · rw [List.mem_singleton.1 h]; rfl
    · rw [List.mem_singleton.1 h]; rfl
  | handle sender p => rw [List.mem_singleton.1 h]; exact n.books_handle sender p
  | passOn | compareStatus | pushStatus | startProposal | storeProposal | stampRound | offerGate | drive | abandon | confirm
  | storeConfirmation => rw [List.mem_singleton.1 h]; rfl
  | forward d p => rw [List.mem_singleton.1 h]; exact n.books_forward d p
  | applyRoute =>
    simp only [perform, applyRoute] at h
    split at h
    · cases h
    · rw [List.mem_singleton.1 h]; rfl
  | takeProposal =>
    simp only [perform, takeProposal] at h
    split at h
    · cases h
    · rw [List.mem_singleton.1 h]; rfl
  | publish =>
    simp only [perform, publish] at h
    split at h
    · cases h
    · rw [List.mem_singleton.1 h]; rfl
  | chooseTarget r excluded =>
    rw [List.mem_singleton.1 h]
    simp only [chooseTarget]
    split <;> rfl
  | awaitPush tick =>
    simp only [perform, awaitPush] at h
    split at h
    · rw [List.mem_singleton.1 h]; rfl
    · cases h
  | awaitHeartbeat tick =>
    simp only [perform, awaitHeartbeat] at h
    split at h
    · rw [List.mem_singleton.1 h]; rfl
    · cases h
  | pause t round stash deadline =>
    simp only [perform, pause] at h
    split at h
    · rw [List.mem_singleton.1 h]; rfl
    · cases h
  | awaitRoundChange seen call tx =>
    simp only [perform, awaitRoundChange] at h
    split at h
    · cases h
    · rw [List.mem_singleton.1 h]; rfl
  | propose call tx =>
    rw [List.mem_singleton.1 h]
    unfold propose
    split
    · rfl
    · split
      · exact n.books_reply call _
      · rfl
  | awaitRound call tx =>
    rw [List.mem_singleton.1 h]
    unfold awaitRound
    split <;> rfl
  | checkRound r round tx tick =>
    rw [List.mem_singleton.1 h]
    unfold checkRound
    split <;> rfl
  | acknowledge o id via =>
    rw [List.mem_singleton.1 h]
    unfold acknowledge
    split <;> rfl
  | findRound o id purpose =>
    rw [List.mem_singleton.1 h]
    unfold findRound
    split
    · rfl
    · exact n.books_reply _ _
    · rfl
  | startCollection call r round tx =>
    rw [List.mem_singleton.1 h]
    unfold startCollection
    split <;> exact books_reply _ _ _
  | countAck ack => rcases n.countAck_cases ack with he | ⟨ws, -, -, he⟩ <;> · rw [List.mem_singleton.1 h, he]; rfl
  | awaitMajority r round tx tick =>
    simp only [perform, awaitMajority, List.mem_append] at h
    rcases h with h | h
    · split at h
      · rw [List.mem_singleton.1 h]; rfl
      · cases h
    · split at h
      · rw [List.mem_singleton.1 h]
        split <;> rfl
      · cases h
  | openTopic t => rw [List.mem_singleton.1 h]; exact n.books_openTopic t
  | feed b =>
    rw [List.mem_singleton.1 h]
    simp only [feedBlock]
    split <;> rfl
  | seekBallot t round stash =>
    rw [List.mem_singleton.1 h]
    simp only [seekBallot]
    split <;> rfl
  | collect t stash c =>
    simp only [perform, collect] at h
    split at h
    · rw [List.mem_singleton.1 h]; rfl
    · split at h
      · cases h
      · split at h
        · rw [List.mem_singleton.1 h]; rfl
        · split at h <;> · rw [List.mem_singleton.1 h]; rfl

/-! ## Entries -/

theorem books_accept (n : Node) (sender : PeerAddress) (r : Record) : (n.accept sender r).node.books =
    { n.books with
      recordsAccepted := n.metrics.recordsAccepted + (n.taken? (.accept sender r)).toList.length } := by
  by_cases ok : (n.isProved r && (n.store.accept r).1 == .new) = true
  · rw [taken?_accept, if_pos ok]
    simp only [Bool.and_eq_true, beq_iff_eq] at ok
    rw [accept, ok.1, Store.accept_of_eq (Store.accept_new_iff.1 ok.2)]
    exact books_announce _ r
  · rw [taken?_accept, if_neg ok]
    unfold accept
    split
    · rfl
    · split
      · rename_i proved _ _ new
        exact absurd (by simpa [new] using proved) ok
      · rfl

theorem books_countConfirmation (n : Node) (o : Origin) (round : UInt32) : (n.countConfirmation o round).node.books =
    { n.books with
      roundsAdvanced := n.metrics.roundsAdvanced + (n.broadcast.tracker.recordConfirmation o round).1.length } := by
  unfold countConfirmation
  generalize n.broadcast.tracker.recordConfirmation o round = recorded
  obtain ⟨rounds, tracker⟩ := recorded
  cases rounds with
  | nil => rfl
  | cons c rounds => exact books_foldl_emit _ _ _

theorem filterMap_todo_eq_nil {f : Action → Option Nat} (none : ∀ a ∈ step.todo, f a = none) :
    (step.next ++ step.started.flatten).filterMap f = [] := by
  refine List.filterMap_eq_nil_iff.2 (fun a ha => none a ?_)
  rcases List.mem_append.1 ha with ha | ha
  · exact List.mem_append_left _ ha
  · obtain ⟨script, hs, ha⟩ := List.mem_flatten.1 ha
    exact Step.mem_todo_of_started hs ha

/-- Only sending a record begins a wait, and only a wait is given up. -/
theorem tickets_of_follows {a' : Action} (h : n.Follows a a') : ((∀ r p, a ≠ .sendRecord r p) → a'.waiting? = none) ∧
    ((∀ r p ticket deadline, a ≠ .awaitNotice r p ticket deadline) → a'.leaving? = none) := by
  cases h with
  | awaitNotice => exact ⟨fun other => absurd rfl (other _ _), fun _ => rfl⟩
  | giveUp => exact ⟨fun _ => rfl, fun other => absurd rfl (other _ _ _ _)⟩
  | stamped =>
    unfold afterStamp
    split
    · split <;> exact ⟨fun _ => rfl, fun _ => rfl⟩
    · exact ⟨fun _ => rfl, fun _ => rfl⟩
    · exact ⟨fun _ => rfl, fun _ => rfl⟩
  | _ => exact ⟨fun _ => rfl, fun _ => rfl⟩

/-- **An action enters this into the books**, and nothing else. -/
theorem entry_of_perform (h : step ∈ n.perform now a) : n.Entry a step.node.books
    ((step.next ++ step.started.flatten).filterMap Action.waiting?)
    ((step.next ++ step.started.flatten).filterMap Action.leaving?) := by
  -- but for sending and for giving up, what a step leaves to be done has no ticket
  have waiting (other : ∀ r p, a ≠ .sendRecord r p) :
      (step.next ++ step.started.flatten).filterMap Action.waiting? = [] :=
    filterMap_todo_eq_nil fun a' ha => (tickets_of_follows (follows_of_perform h ha)).1 other
  have leaving (other : ∀ r p ticket deadline, a ≠ .awaitNotice r p ticket deadline) :
      (step.next ++ step.started.flatten).filterMap Action.leaving? = [] :=
    filterMap_todo_eq_nil fun a' ha => (tickets_of_follows (follows_of_perform h ha)).2 other
  by_cases other : a.Booked = false
  · have sends (r : Record) (p : PeerAddress) : a ≠ .sendRecord r p := fun ha => by rw [ha] at other; cases other
    have waits (r : Record) (p : PeerAddress) (ticket deadline : Nat) : a ≠ .awaitNotice r p ticket deadline :=
      fun ha => by rw [ha] at other; cases other
    rw [waiting sends, leaving waits, books_of_other h other]
    exact .nothing other
  cases a with
  | learn p =>
    rw [waiting (by simp), leaving (by simp), List.mem_singleton.1 h]
    exact (n.books_learnPeer p) ▸ .learned
  | accept sender r =>
    rw [waiting (by simp), leaving (by simp), List.mem_singleton.1 h, books_accept]
    exact .accepted
  | settle peer v inSync answer =>
    rw [waiting (by simp), leaving (by simp), List.mem_singleton.1 h]
    exact .settled
  | sendRecord r p =>
    rw [leaving (by simp), List.mem_singleton.1 h]
    have started : (n.sendRecord now r p).started = [] := by
      unfold Step.started
      split <;> rfl
    rw [started]
    exact .sent
  | awaitNotice r p ticket deadline =>
    rw [waiting (by simp)]
    simp only [perform, awaitNotice, List.mem_append, Option.mem_toList, Option.map_eq_some_iff] at h
    rcases h with ⟨notice, there, rfl⟩ | h
    · split
      · rw [filterMap_todo_eq_nil (fun a' ha => by rw [todo_flipToGoOn ha]; rfl), books_flipToGoOn]
        exact .heard there
      · rw [filterMap_todo_eq_nil (fun a' ha => by cases ha)]
        exact .heard there
    · split at h
      · rename_i elapsed
        obtain rfl := Option.some.inj h
        have started : (({ n with acks := n.acks.abandon ticket } : Node).proceed [.giveUp r p ticket]).started = [] := by
          unfold Step.started
          split <;> rfl
        rw [started]
        exact .late elapsed.2
      · cases h
  | giveUp r p ticket =>
    rw [waiting (by simp), leaving (by simp), List.mem_singleton.1 h]
    rw [show (n.giveUp r p ticket).node.books = _ from books_flipToGoOn _ r p]
    exact .gaveUp
  | countConfirmation o round =>
    rw [waiting (by simp), leaving (by simp), List.mem_singleton.1 h, books_countConfirmation]
    exact .closed
  | decide t stash c =>
    rw [waiting (by simp), leaving (by simp), List.mem_singleton.1 h]
    simp only [decide]
    split
    · rename_i ok
      exact .appended ok
    · rename_i error
      exact .refused error
  | _ => exact absurd rfl other

/-! ## What the books say -/

namespace Books

/-- **The waits are accounted for.** -/
structure Balanced (b : Books) (waiting leaving heard late : List Nat) : Prop where
  tickets : b.acks.Balanced b.notices waiting leaving heard late
  sent : b.mongersSent = b.acks.nextTicket
  fired : b.acksFired = heard.length + b.notices.size
  timedOut : b.mongerTimeouts = late.length

/-- **The peers are counted**, and the node is not one of them. -/
structure Peered (b : Books) : Prop where
  own : b.peers.own = b.address
  other : b.peers.contains b.address = false
  counted : b.peerCount = b.peers.size

variable {b : Books} {waiting leaving heard late waiting' leaving' : List Nat}

theorem Balanced.perm (h : b.Balanced waiting leaving heard late) (hw : waiting'.Perm waiting)
    (hl : leaving'.Perm leaving) : b.Balanced waiting' leaving' heard late :=
  ⟨h.tickets.perm hw hl, h.sent, h.fired, h.timedOut⟩

theorem Balanced.learn (h : b.Balanced waiting leaving heard late) (p : PeerAddress) :
    (b.learn p).Balanced waiting leaving heard late := ⟨h.tickets, h.sent, h.fired, h.timedOut⟩

/-- Each notice that is sent to someone who waits is one that has not been taken. -/
theorem Balanced.report (h : b.Balanced waiting leaving heard late) (peer : PeerAddress) (v : StatusVector) (inSync : Bool) :
    (b.report peer v inSync).Balanced waiting leaving heard late := by
  have tickets := h.tickets.report peer v inSync
  refine ⟨tickets, h.sent.trans (b.acks.nextTicket_onStatus peer v inSync).symm, ?_, h.timedOut⟩
  have before := h.tickets.length_waiting
  have after := tickets.length_waiting
  have listened := (b.acks.perm_listened_onStatus peer v inSync).length_eq
  have fired := h.fired
  rw [List.length_append, List.length_map, ← List.countP_eq_length_filter] at listened
  simp only [Books.report, AckRegistry.fired] at after ⊢
  omega

theorem Peered.learn (h : b.Peered) (p : PeerAddress) : (b.learn p).Peered where
  own := (b.peers.own_insert p).trans h.own
  other := by
    have other := h.other
    rw [← h.own] at other
    rw [show (b.learn p).address = b.peers.own from h.own.symm]
    exact PeerSet.contains_own_insert other p
  counted := by
    unfold Books.learn
    split
    · rfl
    · rename_i known
      rw [PeerSet.insert_of_known (Bool.not_eq_true _ ▸ known)]
      exact h.counted

end Books

/-- The ticket of the notice that a task takes. -/
def heard? (n : Node) : Action → Option Nat
  | .awaitNotice _ _ ticket _ => if n.notices.contains ticket then some ticket else none
  | _ => none

theorem heard?_awaitNotice (n : Node) (r : Record) (p : PeerAddress) (ticket deadline : Nat) :
    n.heard? (.awaitNotice r p ticket deadline) = if n.notices.contains ticket then some ticket else none := rfl

variable {b : Books} {begun left waiting leaving heard late : List Nat}

theorem tickets_of_not_booked (other : a.Booked = false) : a.waiting? = none ∧ a.leaving? = none ∧ n.heard? a = none := by
  cases a with
  | learn | accept | settle | sendRecord | awaitNotice | giveUp | countConfirmation | decide => cases other
  | _ => exact ⟨rfl, rfl, rfl⟩

/-- **An action keeps the waits accounted for.** -/
theorem Entry.balanced (entry : n.Entry a b begun left)
    (h : n.books.Balanced (a.waiting?.toList ++ waiting) (a.leaving?.toList ++ leaving) heard late) :
    b.Balanced (begun ++ waiting) (left ++ leaving) (heard ++ (n.heard? a).toList) (late ++ a.leaving?.toList) := by
  have same (none : a.waiting? = none ∧ a.leaving? = none ∧ n.heard? a = none) :
      n.books.Balanced waiting leaving (heard ++ (n.heard? a).toList) (late ++ a.leaving?.toList) := by
    rw [none.1, none.2.1] at h
    rw [none.2.1, none.2.2, Option.toList_none, List.append_nil, List.append_nil]
    exact h
  cases entry with
  | nothing other => exact same (tickets_of_not_booked other)
  | learned => exact (same ⟨rfl, rfl, rfl⟩).learn _
  | settled => exact (same ⟨rfl, rfl, rfl⟩).report _ _ _
  | accepted | closed | appended | refused =>
    obtain ⟨tickets, sent, fired, timedOut⟩ := same ⟨rfl, rfl, rfl⟩
    exact ⟨tickets, sent, fired, timedOut⟩
  | @sent r p =>
    obtain ⟨tickets, sent, fired, timedOut⟩ := same ⟨rfl, rfl, rfl⟩
    exact ⟨tickets.register p r.origin r.id, congrArg (· + 1) sent, fired, timedOut⟩
  | @heard r p ticket deadline notice there =>
    have contained : n.notices.contains ticket = true := Option.isSome_iff_exists.2 ⟨notice, there⟩
    have size := (SortedMap.perm_keys_of_get? there).length_eq
    simp only [SortedMap.keys, List.length_cons, List.length_map] at size
    rw [heard?_awaitNotice, if_pos contained, show (Action.awaitNotice r p ticket deadline).leaving? = none from rfl,
      Option.toList_none, List.append_nil]
    refine ⟨h.tickets.take there, h.sent, h.fired.trans ?_, h.timedOut⟩
    simp only [Option.toList_some, List.length_append, List.length_singleton, SortedMap.size]
    exact (congrArg (heard.length + ·) size).trans (by omega)
  | @late r p ticket deadline absent =>
    rw [heard?_awaitNotice, absent, show (Action.awaitNotice r p ticket deadline).leaving? = none from rfl]
    simp only [Bool.false_eq_true, if_false, Option.toList_none, List.append_nil]
    exact ⟨h.tickets.abandon absent, h.sent, h.fired, h.timedOut⟩
  | @gaveUp r p ticket =>
    rw [show n.heard? (.giveUp r p ticket) = none from rfl, Option.toList_none, List.append_nil]
    refine ⟨h.tickets.cancel, h.sent, h.fired, ?_⟩
    have timedOut : n.metrics.mongerTimeouts = late.length := h.timedOut
    simp [Action.leaving?, timedOut]

theorem Entry.peered (entry : n.Entry a b begun left) (h : n.books.Peered) : b.Peered := by
  cases entry with
  | learned => exact h.learn _
  | _ => exact ⟨h.own, h.other, h.counted⟩

/-! ## Without an action -/

theorem books_answer (n : Node) (q : Request) :
    (n.answer q).node.books = n.books ∨ ∃ p, (n.answer q).node.books = n.books.learn p := by
  cases q with
  | sendPrivate d text => exact .inl (n.books_originate _)
  | sendRouted p => exact .inl (n.books_originate p)
  | submitBallot t b => exact .inl (n.books_openTopic t)
  | addPeer p => exact .inr ⟨p, n.books_learnPeer p⟩
  | postRumor | propose | giveUpCall => exact .inl rfl

theorem books_arrive {n' : Node} {room : Nat} {sender : PeerAddress} {p : Packet}
    (h : n.arrive room sender p = some n') : n'.books = n.books := by
  unfold arrive at h
  split at h
  · rw [← Option.some.inj h]; rfl
  · cases h

theorem books_foldl_reply (l : List Nat) (e : Except NodeError SequenceId) (n : Node) :
    (l.foldl (fun n call => n.reply call e) n).books = n.books := by
  induction l generalizing n with
  | nil => rfl
  | cons call l ih => exact (ih _).trans (n.books_reply call e)

theorem books_shutdown (n : Node) : n.shutdown.books = n.books := by
  simp only [shutdown]
  split
  · exact books_foldl_reply _ _ _
  · rfl

theorem books_new {c : Config} {address : PeerAddress} {random : RandomSource} {auth : Authenticator}
    (h : Node.new c address random auth = .ok n) : n.books =
      ⟨0, 0, 0, 0, 0, 0, (PeerSet.new address c.bootstrapPeers).size, address, .new address c.bootstrapPeers, .empty, ∅⟩ := by
  obtain ⟨hv, ht⟩ := checks_of_new h
  unfold Node.new at h
  rw [hv, ht] at h
  rw [← Except.ok.inj h]
  rfl

/-! ## Records -/

/-- A record made here goes into the store under the next number. -/
theorem store_of_appends (h : step ∈ n.perform now a) (appends : a.Appends = true) :
    ∃ r, r.id = n.store.nextId r.origin ∧ step.node.store = n.store.push r := by
  cases a with
  | awaitHeartbeat tick =>
    simp only [perform, awaitHeartbeat] at h
    split at h
    · rw [List.mem_singleton.1 h]
      exact ⟨.rumor ⟨n.name, n.store.nextId n.name, ""⟩, rfl, rfl⟩
    · cases h
  | publish =>
    simp only [perform, publish] at h
    split at h
    · cases h
    · rename_i x candidates _
      rw [List.mem_singleton.1 h]
      exact ⟨n.announcementOf x, rfl, rfl⟩
  | storeProposal call tx clock => rw [List.mem_singleton.1 h]; exact ⟨n.proposalOf tx clock, rfl, rfl⟩
  | storeConfirmation id round tx clock => rw [List.mem_singleton.1 h]; exact ⟨n.confirmationOf id tx clock, rfl, rfl⟩
  | _ => cases appends

/-- **An action adds the record that it takes or makes**, and no other. -/
theorem recordCount_of_perform (h : step ∈ n.perform now a) (sound : n.store.Sound) (fits : n.store.Fits) :
    step.node.store.recordCount =
      n.store.recordCount + (n.taken? a).toList.length + if a.Appends then 1 else 0 := by
  by_cases appends : a.Appends = true
  · obtain ⟨r, next, store⟩ := store_of_appends h appends
    have offers : ∀ sender r, a ≠ .accept sender r := fun sender r ha => by rw [ha] at appends; cases appends
    rw [store, Store.recordCount_push sound fits next, taken?_of_other offers, if_pos appends]
    rfl
  · rw [if_neg appends]
    cases ht : n.taken? a with
    | some r =>
      obtain ⟨next, store⟩ := store_of_taken h ht
      rw [store, Store.recordCount_push sound fits next]
      rfl
    | none =>
      rcases store_of_perform h with store | ⟨sender, r, rfl, -⟩ | ⟨r, makes, -⟩
      · rw [store]
        rfl
      · rw [List.mem_singleton.1 h, store_of_refused ht]
        rfl
      · cases makes <;> exact absurd rfl appends

theorem recordCount_answer (n : Node) (sound : n.store.Sound) (fits : n.store.Fits) (q : Request) :
    (n.answer q).node.store.recordCount = n.store.recordCount + if q.Appends then 1 else 0 := by
  cases q with
  | postRumor text => exact Store.recordCount_push sound fits rfl
  | sendPrivate d text => exact congrArg (fun f => f.core.store.recordCount) (n.frame_originate _)
  | sendRouted p => exact congrArg (fun f => f.core.store.recordCount) (n.frame_originate p)
  | submitBallot t b => exact congrArg (fun f => f.core.store.recordCount) (n.frame_submitBallot t b)
  | addPeer p => exact congrArg (fun f => f.core.store.recordCount) (n.frame_learnPeer p)
  | propose | giveUpCall => rfl

end Node
end GossipNode
