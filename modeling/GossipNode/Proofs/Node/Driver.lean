import GossipNode.Proofs.Ledger.Chain
import GossipNode.Proofs.Node.Core
/-!
# What a driver does to its topic

The site of a topic is what its driver reads and writes: the name and the number of peers, the state of the topic and
the blocks that wait to be announced.  For each thing that can happen to it, one equation says what the site is after
it; everything else a node does leaves the site as it is.
-/
namespace GossipNode

/-- The round that a driver is in. -/
def Action.round? : Action → Option UInt32
  | .seekBallot _ round _ | .pause _ round _ _ => some round
  | .collect _ _ c | .decide _ _ c => some c.round
  | _ => none

structure Node.Site where
  name : Origin
  peers : UInt64
  opened : Bool
  topic : Topic
  candidates : List Block
deriving DecidableEq

namespace Node

def site (n : Node) (t : String) : Site :=
  ⟨n.name, n.config.peerCount, n.topics.contains t, n.topic t, n.candidates⟩

variable {n : Node} {t : String}

theorem site_setTopic (n : Node) (t : String) (s : Topic) :
    (n.setTopic t s).site t = { n.site t with opened := true, topic := s } := by
  unfold site topic setTopic SortedMap.contains
  rw [SortedMap.get?_insert_self]
  rfl

theorem site_setTopic_of_ne {t' : String} (h : t ≠ t') (s : Topic) : (n.setTopic t' s).site t = n.site t := by
  unfold site topic setTopic SortedMap.contains
  rw [SortedMap.get?_insert_eq_ite, if_neg h]

/-- **An open topic** is not opened again; one that is not open yet is as good as new. -/
theorem site_openTopic (n : Node) (t : String) : (n.openTopic t).node.site t = { n.site t with opened := true } := by
  unfold openTopic
  by_cases h : n.topics.contains t = true
  · rw [if_pos h, rest, ← h]
    rfl
  · have unknown : n.topic t = Topic.new t := by
      rw [topic, SortedMap.contains_eq_false_iff.1 (Bool.not_eq_true _ ▸ h)]
      rfl
    rw [if_neg h, site_setTopic, ← unknown]
    rfl

theorem effects_openTopic (h : n.topics.contains t = false) :
    (n.openTopic t).effects = [.spawn ("ledger " ++ t) [.seekBallot t 1 .empty]] := by
  unfold openTopic
  rw [if_neg (by rw [h]; exact Bool.false_ne_true)]

theorem site_offerBallot (n : Node) (t : String) (ballot : Ballot) :
    ∃ ballots, (n.offerBallot t ballot).2.site t =
      { n.site t with opened := true, topic := { n.topic t with ballots } } :=
  ⟨_, site_setTopic n t _⟩

theorem site_offerBallot_of_ne {t' : String} (h : t ≠ t') (ballot : Ballot) :
    (n.offerBallot t' ballot).2.site t = n.site t := site_setTopic_of_ne h _

/-- **Submitting a ballot** changes the queue only. -/
theorem site_submitBallot (n : Node) (t : String) (ballot : Ballot) :
    ∃ ballots, (n.submitBallot t ballot).2.node.site t =
      { n.site t with opened := true, topic := { n.topic t with ballots } } := by
  have opened := n.site_openTopic t
  obtain ⟨ballots, hb⟩ := (n.openTopic t).node.site_offerBallot t ballot
  refine ⟨ballots, ?_⟩
  rw [opened, show (n.openTopic t).node.topic t = n.topic t from congrArg Site.topic opened] at hb
  exact hb

/-- **A block that is fed** goes to the end of the feed of its topic; its ballot may be queued. -/
theorem site_feedBlock (n : Node) (b : Block) :
    ∃ ballots, (n.feedBlock b).node.site b.topic =
      { n.site b.topic with
        opened := true
        topic := { n.topic b.topic with ballots, feed := (n.topic b.topic).feed ++ [b] } } := by
  unfold feedBlock
  cases b.ballot with
  | none => exact ⟨_, site_setTopic n b.topic _⟩
  | some ballot =>
    obtain ⟨ballots, hb⟩ := n.site_offerBallot b.topic ballot
    refine ⟨ballots, ?_⟩
    dsimp only
    rw [site_setTopic, show (n.offerBallot b.topic ballot).2.topic b.topic = _ from congrArg Site.topic hb, hb]

theorem site_feedBlock_of_ne {b : Block} (h : t ≠ b.topic) : (n.feedBlock b).node.site t = n.site t := by
  unfold feedBlock
  cases b.ballot with
  | none => exact site_setTopic_of_ne h _
  | some ballot => exact (site_setTopic_of_ne h _).trans (site_offerBallot_of_ne h ballot)

/-- **Announcing** takes the first block that waits. -/
theorem site_publish {step : Step} (h : step ∈ n.publish) (t : String) :
    ∃ b candidates, n.candidates = b :: candidates ∧ step.node.site t = { n.site t with candidates } := by
  unfold publish at h
  split at h
  · cases h
  · rename_i b candidates hc
    refine ⟨b, candidates, hc, ?_⟩
    rw [List.mem_singleton.1 h]
    rfl

/-- **Looking for a ballot**: one that is not committed is proposed on the tip, and the collector sees what was kept for
the round; or there is none, and what came in is kept. -/
theorem seekBallot_cases (n : Node) (t : String) (now : Nat) (round : UInt32) (stash : RoundStash) :
    (∃ ballot fitness ballots, (n.topic t).ledger.isCommitted ballot.voter = false ∧
      (n.seekBallot now t round stash).node.site t =
        { n.site t with
          opened := true
          topic := { n.topic t with ballots }
          candidates := n.candidates ++
            [Block.candidate (n.topic t).ledger.tipHash ballot fitness round n.name t] } ∧
      (n.seekBallot now t round stash).next =
        [.collect t (stash.take round).2
          (openRound (Block.candidate (n.topic t).ledger.tipHash ballot fitness round n.name t)
            (n.topic t).ledger.tipHash (n.config.peerCount.toNat - 1) (stash.take round).1)]) ∨
    ∃ ballots deadline,
      (n.seekBallot now t round stash).node.site t =
        { n.site t with opened := true, topic := { n.topic t with ballots, feed := [] } } ∧
      (n.seekBallot now t round stash).next =
        [.pause t round (((n.topic t).feed.filter (fun b => round ≤ b.round)).foldl RoundStash.add stash) deadline] := by
  simp only [seekBallot]
  split
  · rename_i ballot ballots hb
    exact .inl ⟨ballot, n.random.next.1, ballots, BallotBuffer.not_committed_of_next hb, site_setTopic _ _ _, rfl⟩
  · exact .inr ⟨_, _, site_setTopic _ _ _, rfl⟩

/-- **Collecting**: a collector that is complete goes on to decide; else the first block of the feed is kept for its
round, counted, or dropped. -/
theorem collect_cases {stash : RoundStash} {c : RoundCollector} {step : Step}
    (h : step ∈ n.collect t stash c) :
    (c.isComplete = true ∧ step.node = n ∧ step.next = [.decide t stash c]) ∨
    ∃ b feed, (n.topic t).feed = b :: feed ∧
      step.node.site t = { n.site t with opened := true, topic := { n.topic t with feed } } ∧
      (step.next = [.collect t (stash.add b) c] ∨ step.next = [.collect t stash (c.offer b).2] ∨
        step.next = [.collect t stash c]) := by
  simp only [collect] at h
  split at h
  · rename_i complete
    rw [List.mem_singleton.1 h]
    exact .inl ⟨complete, rfl, rfl⟩
  split at h
  · cases h
  rename_i b feed hf
  refine .inr ⟨b, feed, hf, ?_⟩
  split at h
  · rw [List.mem_singleton.1 h]
    exact ⟨site_setTopic _ _ _, .inl rfl⟩
  split at h
  · rw [List.mem_singleton.1 h]
    exact ⟨site_setTopic _ _ _, .inr (.inl rfl)⟩
  · rw [List.mem_singleton.1 h]
    exact ⟨site_setTopic _ _ _, .inr (.inr rfl)⟩

/-- **Deciding** appends the winner, if it can be appended. -/
theorem site_decide (stash : RoundStash) {c : RoundCollector} {ledger : Ledger}
    (h : (n.topic t).ledger.append c.winner = .ok ledger) :
    (n.decide t stash c).node.site t = { n.site t with opened := true, topic := { n.topic t with ledger } } := by
  simp only [decide]
  rw [h]
  exact site_setTopic n t _

theorem site_new {c : Config} {address : PeerAddress} {random : RandomSource} {auth : Authenticator}
    (h : Node.new c address random auth = .ok n) (t : String) :
    n.site t = ⟨c.origin, c.peerCount, false, Topic.new t, []⟩ := by
  obtain ⟨hv, ht⟩ := checks_of_new h
  unfold Node.new at h
  rw [hv, ht] at h
  rw [← Except.ok.inj h]
  rfl

/-- **What a driver does is always followed by one thing that a driver does**, and blocks that wait go on waiting. -/
theorem driver_of_perform {a : Action} {now : Nat} {step : Step} (ha : a.round?.isSome = true)
    (h : step ∈ n.perform now a) :
    ∃ a', step.next = [a'] ∧ a'.round?.isSome = true ∧ n.candidates <+: step.node.candidates := by
  cases a with
  | seekBallot t round stash =>
    obtain rfl := List.mem_singleton.1 h
    simp only [seekBallot]
    split
    · exact ⟨_, rfl, rfl, List.prefix_append _ _⟩
    · exact ⟨_, rfl, rfl, List.prefix_rfl⟩
  | pause t round stash deadline =>
    simp only [perform, pause] at h
    split at h
    · obtain rfl := List.mem_singleton.1 h
      exact ⟨_, rfl, rfl, List.prefix_rfl⟩
    · cases h
  | collect t stash c =>
    simp only [perform, collect] at h
    split at h
    · obtain rfl := List.mem_singleton.1 h
      exact ⟨_, rfl, rfl, List.prefix_rfl⟩
    split at h
    · cases h
    split at h
    · obtain rfl := List.mem_singleton.1 h
      exact ⟨_, rfl, rfl, List.prefix_rfl⟩
    split at h <;>
    · obtain rfl := List.mem_singleton.1 h
      exact ⟨_, rfl, rfl, List.prefix_rfl⟩
  | decide t stash c =>
    obtain rfl := List.mem_singleton.1 h
    refine ⟨_, rfl, rfl, ?_⟩
    simp only [decide]
    split <;> exact List.prefix_rfl
  | _ => cases ha

end Node
end GossipNode
