import GossipNode.Proofs.Ledger.Elections
import GossipNode.Proofs.Network.Histories
import GossipNode.Proofs.Node.Driver
/-!
# Topics along a run

An action changes at most one topic, the one that it is about, and `Node.TopicChange` says how.  A request changes one only
if it submits a ballot.  So the chain of a topic and its queue have at any time come about by calls that `Election` knows,
whatever else the node has done (`Machine.Run.election`).
-/
namespace GossipNode

theorem SortedMap.insert_insert {α β : Type} [Ord α] [Std.LawfulEqOrd α] [Std.TransOrd α] (m : SortedMap α β) (k : α)
    (v v' : β) : (m.insert k v).insert k v' = m.insert k v' := by
  refine ext_get? (fun a => ?_)
  by_cases h : compare a k = .eq <;> simp [h]

def Topic.election (s : Topic) : Election := ⟨s.ledger, s.ballots⟩

namespace Node

/-- **What an action makes of the topic that it is about.** -/
inductive TopicChange (n : Node) : Action → String → Topic → Prop where
  | opened {t : String} (new : n.topics.contains t = false) : TopicChange n (.openTopic t) t (Topic.new t)
  | fed {b : Block} (none : b.ballot = none) :
    TopicChange n (.feed b) b.topic { n.topic b.topic with feed := (n.topic b.topic).feed ++ [b] }
  | fedBallot {b : Block} {ballot : Ballot} (some : b.ballot = some ballot) :
    TopicChange n (.feed b) b.topic { n.topic b.topic with
      ballots := ((n.topic b.topic).ballots.offer ballot (n.topic b.topic).ledger).2
      feed := (n.topic b.topic).feed ++ [b] }
  | proposed {t : String} {round : UInt32} {stash : RoundStash} {ballot : Ballot} {ballots : BallotBuffer}
      (next : (n.topic t).ballots.nextUncommitted (n.topic t).ledger = (some ballot, ballots)) :
    TopicChange n (.seekBallot t round stash) t { n.topic t with ballots }
  | drained {t : String} {round : UInt32} {stash : RoundStash} {ballots : BallotBuffer}
      (next : (n.topic t).ballots.nextUncommitted (n.topic t).ledger = (none, ballots)) :
    TopicChange n (.seekBallot t round stash) t { n.topic t with ballots, feed := [] }
  | took {t : String} {stash : RoundStash} {c : RoundCollector} {b : Block} {feed : List Block}
      (more : c.isComplete = false) (head : (n.topic t).feed = b :: feed) :
    TopicChange n (.collect t stash c) t { n.topic t with feed }
  | appended {t : String} {stash : RoundStash} {c : RoundCollector} {ledger : Ledger}
      (ok : (n.topic t).ledger.append c.winner = .ok ledger) :
    TopicChange n (.decide t stash c) t { n.topic t with ledger }

variable {n : Node} {a : Action} {now : Nat} {step : Step} {t t' : String} {s : Topic}

theorem topic_of_closed (h : n.topics.contains t = false) : n.topic t = Topic.new t := by
  rw [topic, SortedMap.contains_eq_false_iff.1 h]
  rfl

@[simp] theorem topic_setTopic_self (n : Node) (t : String) (s : Topic) : (n.setTopic t s).topic t = s :=
  congrArg Site.topic (n.site_setTopic t s)

theorem topic_of_topics {n' : Node} (h : n'.topics = n.topics) : n'.topic t = n.topic t := by
  rw [topic, h, topic]

theorem topic_of_insert {n' : Node} (h : n'.topics = n.topics.insert t' s) :
    n'.topic t = if t = t' then s else n.topic t := by
  rw [topic, h, SortedMap.get?_insert_eq_ite]
  split
  · rfl
  · rfl

theorem contains_of_insert {n' : Node} (h : n'.topics = n.topics.insert t' s) :
    n'.topics.contains t = true ↔ t = t' ∨ n.topics.contains t = true := by
  rw [h, SortedMap.contains, SortedMap.get?_insert_eq_ite]
  split
  · rename_i same
    simp [same]
  · rename_i other
    simp [other, SortedMap.contains]

theorem topicChange_feedBlock (n : Node) (b : Block) : ∃ s, n.TopicChange (.feed b) b.topic s ∧
    (n.feedBlock b).node.topics = n.topics.insert b.topic s := by
  unfold feedBlock
  cases hb : b.ballot with
  | none => exact ⟨_, .fed hb, rfl⟩
  | some ballot =>
    refine ⟨_, .fedBallot hb, ?_⟩
    have offered : (n.offerBallot b.topic ballot).2.topic b.topic = { n.topic b.topic with
        ballots := ((n.topic b.topic).ballots.offer ballot (n.topic b.topic).ledger).2 } := n.topic_setTopic_self _ _
    dsimp only
    rw [offered]
    exact SortedMap.insert_insert _ _ _ _

/-- **An action changes one topic at most.** -/
theorem topics_of_perform (h : step ∈ n.perform now a) :
    step.node.topics = n.topics ∨ ∃ t s, n.TopicChange a t s ∧ step.node.topics = n.topics.insert t s := by
  by_cases other : a.Shelves = false
  · exact .inl (congrArg Shelf.topics (shelf_of_perform h other))
  cases a with
  | openTopic t =>
    rw [List.mem_singleton.1 h]
    unfold openTopic
    split
    · exact .inl rfl
    · rename_i new
      exact .inr ⟨t, _, .opened (Bool.not_eq_true _ ▸ new), rfl⟩
  | feed b =>
    rw [List.mem_singleton.1 h]
    exact .inr ⟨b.topic, n.topicChange_feedBlock b⟩
  | publish =>
    simp only [perform, publish] at h
    split at h
    · cases h
    · rw [List.mem_singleton.1 h]
      exact .inl rfl
  | seekBallot t round stash =>
    rw [List.mem_singleton.1 h]
    simp only [seekBallot]
    split
    · rename_i next
      exact .inr ⟨t, _, .proposed next, rfl⟩
    · rename_i next
      exact .inr ⟨t, _, .drained next, rfl⟩
  | collect t stash c =>
    simp only [perform, collect] at h
    split at h
    · rw [List.mem_singleton.1 h]
      exact .inl rfl
    rename_i more
    split at h
    · cases h
    rename_i b feed head
    have took : n.TopicChange (.collect t stash c) t { n.topic t with feed } := .took (Bool.not_eq_true _ ▸ more) head
    split at h
    · rw [List.mem_singleton.1 h]
      exact .inr ⟨t, _, took, rfl⟩
    split at h <;>
    · rw [List.mem_singleton.1 h]
      exact .inr ⟨t, _, took, rfl⟩
  | decide t stash c =>
    rw [List.mem_singleton.1 h]
    simp only [decide]
    split
    · rename_i ok
      exact .inr ⟨t, _, .appended ok, rfl⟩
    · exact .inl rfl
  | _ => exact absurd rfl other

theorem TopicChange.election (h : n.TopicChange a t s) : ∃ calls, s.election = (n.topic t).election.run calls := by
  cases h with
  | opened new =>
    rw [topic_of_closed new]
    exact ⟨[], rfl⟩
  | fed => exact ⟨[], rfl⟩
  | @fedBallot _ ballot => exact ⟨[.offer ballot], rfl⟩
  | proposed next =>
    refine ⟨[.next], ?_⟩
    simp [Election.run, Election.call, Election.next, Topic.election, next]
  | drained next =>
    refine ⟨[.next], ?_⟩
    simp [Election.run, Election.call, Election.next, Topic.election, next]
  | took => exact ⟨[], rfl⟩
  | @appended t stash c ledger ok =>
    refine ⟨[.append c.winner], ?_⟩
    simp [Election.run, Election.call, Election.append, Topic.election, Ledger.offer, ok]

/-- A ballot that is submitted is offered to the queue of its topic, which is opened before. -/
theorem topics_submitBallot (n : Node) (t : String) (b : Ballot) : (n.submitBallot t b).2.node.topics =
    n.topics.insert t { n.topic t with ballots := ((n.topic t).ballots.offer b (n.topic t).ledger).2 } := by
  have same : (n.openTopic t).node.topic t = n.topic t := congrArg Site.topic (n.site_openTopic t)
  show (n.openTopic t).node.topics.insert t { (n.openTopic t).node.topic t with
    ballots := (((n.openTopic t).node.topic t).ballots.offer b ((n.openTopic t).node.topic t).ledger).2 } = _
  rw [same, openTopic]
  split
  · rfl
  · exact SortedMap.insert_insert _ _ _ _

theorem topics_answer (n : Node) (q : Request) (other : ∀ t b, q ≠ .submitBallot t b) :
    (n.answer q).node.topics = n.topics := by
  have shelf : (n.answer q).node.shelf = n.shelf := by
    cases q with
    | submitBallot t b => exact absurd rfl (other t b)
    | sendPrivate d text => exact congrArg Backdrop.shelf (n.backdrop_originate _)
    | sendRouted p => exact congrArg Backdrop.shelf (n.backdrop_originate p)
    | addPeer p => exact congrArg Backdrop.shelf (n.backdrop_learnPeer p)
    | postRumor | propose | giveUpCall => rfl
  exact congrArg Shelf.topics shelf

end Node

namespace Machine

variable {m m' : Machine} {e : Event} {more : List Deed} {c : Config} {allowed : Machine → Event → Machine → Prop}

/-- **What a move does to the topics**: nothing, or one action or one ballot that is submitted changes one of them. -/
inductive TopicsMove (m : Machine) : Event → List Deed → SortedMap String Topic → Prop where
  | same (e : Event) (more : List Deed) : TopicsMove m e more m.node.topics
  | acted {now : Nat} {a : Action} {step : Step} {t : String} {s : Topic} (change : m.node.TopicChange a t s) :
    TopicsMove m (.act now) [⟨m.node, a, step⟩] (m.node.topics.insert t s)
  | submitted {t : String} {b : Ballot} : TopicsMove m (.call (.submitBallot t b)) []
      (m.node.topics.insert t { m.node.topic t with
        ballots := ((m.node.topic t).ballots.offer b (m.node.topic t).ledger).2 })

theorem Move.topics (h : m.Move e more m') : m.TopicsMove e more m'.node.topics := by
  cases h with
  | acted perform taken node left =>
    rw [node]
    rcases Node.topics_of_perform perform with he | ⟨t, s, change, he⟩
    · rw [he]
      exact .same _ _
    · rw [he]
      exact .acted change
  | @answered q _ node left =>
    rw [node]
    by_cases submits : ∃ t b, q = .submitBallot t b
    · obtain ⟨t, b, rfl⟩ := submits
      rw [show (m.node.answer (.submitBallot t b)).node.topics = _ from m.node.topics_submitBallot t b]
      exact .submitted
    · rw [m.node.topics_answer q (fun t b hq => submits ⟨t, b, hq⟩)]
      exact .same _ _
  | arrived arrive =>
    rw [show Node.topics _ = m.node.topics from congrArg (fun b => b.shelf.topics) (Node.backdrop_arrive arrive)]
    exact .same _ _
  | closed => exact .same _ _
  | stopped sub =>
    rw [show Node.topics _ = m.node.topics from congrArg (fun b => b.shelf.topics) m.node.backdrop_shutdown]
    exact .same _ _

/-! ## Elections -/

/-- **The chain and the queue of a topic have come about by calls** to them, whatever else the node has done. -/
theorem Run.election (h : Run allowed c m) (t : String) :
    ∃ calls, (m.node.topic t).election = (Election.new t).run calls := by
  obtain ⟨deeds, history⟩ := h.history
  refine history.induct (P := fun _ m => ∃ calls, (m.node.topic t).election = (Election.new t).run calls) ?_ ?_
  · rintro m ⟨_, _, _, _, hnew, -⟩
    rw [show m.node.topic t = Topic.new t from congrArg Node.Site.topic (Node.site_new hnew t)]
    exact ⟨[], rfl⟩
  · intro deeds more m m' e _ ih move _ _
    obtain ⟨calls, before⟩ := ih
    have change := move.topics
    generalize htopics : m'.node.topics = topics at change
    cases change with
    | same =>
      rw [Node.topic_of_topics htopics]
      exact ⟨calls, before⟩
    | @acted _ _ _ t' s change =>
      rw [Node.topic_of_insert htopics]
      split
      · rename_i same
        subst same
        obtain ⟨more, after⟩ := change.election
        exact ⟨calls ++ more, by rw [after, before, Election.run_append]⟩
      · exact ⟨calls, before⟩
    | @submitted t' b =>
      rw [Node.topic_of_insert htopics]
      split
      · rename_i same
        subst same
        refine ⟨calls ++ [.offer b], ?_⟩
        rw [Election.run_append, ← before]
        rfl
      · exact ⟨calls, before⟩

end Machine
end GossipNode
