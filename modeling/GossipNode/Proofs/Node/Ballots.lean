import GossipNode.Proofs.Node.Driver
import GossipNode.Proofs.Node.Changes
/-!
# What records are made of

A node makes a record of a text, of a transaction, of an own proposal that has its majority, or of a block that waits to be
announced (`Node.store_of_perform`).  Those blocks are made of ballots that wait in their topics; and a ballot waits only
if it was submitted, or if a block brought it (`Node.stocked_of_perform`).
-/
namespace GossipNode

theorem BallotBuffer.mem_pending_offer {q : BallotBuffer} {b x : Ballot} {l : Ledger}
    (h : x ∈ (q.offer b l).2.pending) : x ∈ q.pending ∨ x = b := by
  unfold offer at h
  split at h
  · exact .inl h
  · rcases List.mem_append.1 h with h | h
    · exact .inl h
    · exact .inr (List.mem_singleton.1 h)

namespace Node

variable {n n' : Node} {a : Action} {now : Nat} {step : Step} {t : String}

/-! ## Ballots -/

variable {ok : String → Ballot → Prop}

/-- **Every ballot that waits, and that of every block that waits, is known to be one of these for its topic.** -/
structure Stocked (ok : String → Ballot → Prop) (n : Node) : Prop where
  waiting : ∀ t, ∀ b ∈ (n.topic t).ballots.pending, ok t b
  candidates : ∀ x ∈ n.candidates, x.origin = n.name ∧ ∃ b, x.ballot = some b ∧ ok x.topic b

namespace Stocked

theorem of_shelf (s : n.Stocked ok) (h : n'.shelf = n.shelf) : n'.Stocked ok := by
  have topics : n'.topics = n.topics := congrArg Shelf.topics h
  have candidates : n'.candidates = n.candidates := congrArg Shelf.candidates h
  have name : n'.name = n.name := congrArg Shelf.name h
  constructor
  · rw [show n'.topic = n.topic by unfold topic; rw [topics]]
    exact s.waiting
  · rw [candidates, name]
    exact s.candidates

theorem setTopic (s : n.Stocked ok) {x : Topic} (h : ∀ b ∈ x.ballots.pending, ok t b) : (n.setTopic t x).Stocked ok := by
  refine ⟨fun t' b hb => ?_, s.candidates⟩
  by_cases same : t' = t
  · subst t'
    rw [show (n.setTopic t x).topic t = x from congrArg Site.topic (site_setTopic n t x)] at hb
    exact h b hb
  · rw [show (n.setTopic t x).topic t' = n.topic t' from congrArg Site.topic (site_setTopic_of_ne same x)] at hb
    exact s.waiting t' b hb

theorem openTopic (s : n.Stocked ok) (t : String) : (n.openTopic t).node.Stocked ok := by
  unfold Node.openTopic
  split
  · exact s
  · exact s.setTopic (fun _ hb => nomatch hb)

theorem offerBallot (s : n.Stocked ok) {b : Ballot} (h : ok t b) : (n.offerBallot t b).2.Stocked ok := by
  refine s.setTopic (fun b' hb => ?_)
  rcases BallotBuffer.mem_pending_offer hb with hb | rfl
  · exact s.waiting t b' hb
  · exact h

theorem submitBallot (s : n.Stocked ok) {b : Ballot} (h : ok t b) : (n.submitBallot t b).2.node.Stocked ok :=
  (s.openTopic t).offerBallot h

theorem feedBlock (s : n.Stocked ok) {x : Block} (h : ∀ b, x.ballot = some b → ok x.topic b) :
    (n.feedBlock x).node.Stocked ok := by
  unfold Node.feedBlock
  cases hb : x.ballot with
  | none => exact s.setTopic (s.waiting x.topic)
  | some b =>
    have offered := s.offerBallot (h b hb)
    exact offered.setTopic (offered.waiting x.topic)

theorem seekBallot (s : n.Stocked ok) (round : UInt32) (stash : RoundStash) :
    (n.seekBallot now t round stash).node.Stocked ok := by
  have left : ∀ b ∈ ((n.topic t).ballots.nextUncommitted (n.topic t).ledger).2.pending, ok t b :=
    fun b hb => s.waiting t b (List.mem_filter.1 hb).1
  have first : ∀ b, ((n.topic t).ballots.nextUncommitted (n.topic t).ledger).1 = some b → ok t b :=
    fun b hb => left b (List.mem_of_mem_head? hb)
  simp only [Node.seekBallot]
  generalize (n.topic t).ballots.nextUncommitted (n.topic t).ledger = sought at left first
  obtain ⟨_ | ballot, ballots⟩ := sought
  · exact s.setTopic left
  · have added : Stocked ok { n with
        random := n.random.next.2
        candidates := n.candidates ++
          [Block.candidate (n.topic t).ledger.tipHash ballot n.random.next.1 round n.name t] } := by
      refine ⟨s.waiting, fun x hx => ?_⟩
      rcases List.mem_append.1 hx with hx | hx
      · exact s.candidates x hx
      · rw [List.mem_singleton.1 hx]
        exact ⟨rfl, ballot, rfl, first ballot rfl⟩
    exact added.setTopic left

theorem collect (s : n.Stocked ok) {stash : RoundStash} {c : RoundCollector} (h : step ∈ n.collect t stash c) :
    step.node.Stocked ok := by
  simp only [Node.collect] at h
  split at h
  · rw [List.mem_singleton.1 h]; exact s
  split at h
  · cases h
  have taken : ∀ feed, (n.setTopic t { n.topic t with feed }).Stocked ok := fun _ => s.setTopic (s.waiting t)
  split at h
  · rw [List.mem_singleton.1 h]; exact taken _
  split at h <;>
  · rw [List.mem_singleton.1 h]; exact taken _

theorem decide (s : n.Stocked ok) (stash : RoundStash) (c : RoundCollector) :
    (n.decide t stash c).node.Stocked ok := by
  have appended : ∀ ledger, (n.setTopic t { n.topic t with ledger }).Stocked ok := fun _ => s.setTopic (s.waiting t)
  simp only [Node.decide]
  split
  · exact (appended _).of_shelf rfl
  · exact s

end Stocked

/-- **No ballot waits but one that waited before, or that a block brings.** -/
theorem stocked_of_perform (h : step ∈ n.perform now a) (s : n.Stocked ok)
    (feeds : ∀ x, a = .feed x → ∀ b, x.ballot = some b → ok x.topic b) : step.node.Stocked ok := by
  by_cases other : a.Shelves = false
  · exact s.of_shelf (shelf_of_perform h other)
  cases a with
  | openTopic t => rw [List.mem_singleton.1 h]; exact s.openTopic t
  | feed x => rw [List.mem_singleton.1 h]; exact s.feedBlock (feeds x rfl)
  | seekBallot t round stash => rw [List.mem_singleton.1 h]; exact s.seekBallot round stash
  | collect => exact s.collect h
  | decide t stash c => rw [List.mem_singleton.1 h]; exact s.decide stash c
  | publish =>
    simp only [perform, publish] at h
    split at h
    · cases h
    · rename_i x candidates hc
      rw [List.mem_singleton.1 h]
      exact ⟨s.waiting, fun y hy => s.candidates y (by rw [hc]; exact List.mem_cons_of_mem _ hy)⟩
  | _ => exact absurd rfl other

/-! ## Records -/

/-- The record that announces a block. -/
def announcementOf (n : Node) (b : Block) : Record := .block ⟨n.name, n.store.nextId n.name, b, n.auth.prove n.nonce⟩

/-- **What an action may make a record of.** -/
inductive Makes (n : Node) : Action → Record → Prop where
  | heartbeat {tick : Nat} : Makes n (.awaitHeartbeat tick) (.rumor ⟨n.name, n.store.nextId n.name, ""⟩)
  | proposal {call : Nat} {tx : Transaction} {clock : Option StatusReport} :
    Makes n (.storeProposal call tx clock) (n.proposalOf tx clock)
  | confirmation {id : SequenceId} {round : UInt32} {tx : Transaction} {clock : Option StatusReport} :
    Makes n (.storeConfirmation id round tx clock) (n.confirmationOf id tx clock)
  | announcement {b : Block} (waits : b ∈ n.candidates) : Makes n .publish (n.announcementOf b)

/-- **A store changes by a record that is offered or made.** -/
theorem store_of_perform (h : step ∈ n.perform now a) : step.node.store = n.store ∨
    (∃ sender r, a = .accept sender r ∧ step.node.store = n.store.push r) ∨
    ∃ r, n.Makes a r ∧ step.node.store = n.store.push r := by
  by_cases quiet : a.Quiet = true
  · exact .inl (congrArg Core.store (core_of_quiet quiet h))
  cases a with
  | receive =>
    simp only [perform, receive] at h
    split at h
    · split at h
      · cases h
      · rw [List.mem_singleton.1 h]; exact .inl rfl
    · rw [List.mem_singleton.1 h]; exact .inl rfl
  | accept sender r =>
    rw [List.mem_singleton.1 h]
    rcases n.core_accept sender r with he | ⟨-, he⟩
    · exact .inl (congrArg Core.store he)
    · exact .inr (.inl ⟨sender, r, rfl, congrArg Core.store he⟩)
  | awaitHeartbeat tick =>
    simp only [perform, awaitHeartbeat] at h
    split at h
    · rw [List.mem_singleton.1 h]; exact .inr (.inr ⟨_, .heartbeat, rfl⟩)
    · cases h
  | publish =>
    simp only [perform, publish] at h
    split at h
    · cases h
    · rename_i b candidates hc
      rw [List.mem_singleton.1 h]
      exact .inr (.inr ⟨_, .announcement (by rw [hc]; exact List.mem_cons_self), rfl⟩)
  | storeProposal => rw [List.mem_singleton.1 h]; exact .inr (.inr ⟨_, .proposal, rfl⟩)
  | storeConfirmation => rw [List.mem_singleton.1 h]; exact .inr (.inr ⟨_, .confirmation, rfl⟩)
  | stampRound | offerGate | abandon => rw [List.mem_singleton.1 h]; exact .inl rfl
  | countAck ack => rcases n.countAck_cases ack with he | ⟨ws, -, -, he⟩ <;> · rw [List.mem_singleton.1 h, he]; exact .inl rfl
  | startCollection call r round tx =>
    obtain ⟨acks, waiting, he⟩ := n.frame_startCollection call r round tx
    rw [List.mem_singleton.1 h]
    exact .inl (congrArg (fun f => f.core.store) he)
  | awaitMajority r round tx tick =>
    simp only [perform, awaitMajority, List.mem_append] at h
    rcases h with h | h
    · split at h
      · rw [List.mem_singleton.1 h]; exact .inl rfl
      · cases h
    · split at h
      · rw [List.mem_singleton.1 h]
        split <;> exact .inl rfl
      · cases h
  | countConfirmation o round => rw [List.mem_singleton.1 h]; exact .inl (n.store_countConfirmation o round)
  | _ => exact absurd rfl quiet

end Node
end GossipNode
