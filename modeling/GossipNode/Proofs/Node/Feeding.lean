import GossipNode.Proofs.Ledger.Winners
import GossipNode.Proofs.Network.Topics
/-!
# From the feed to the collector

Blocks go through three hands: the feed of a topic, the stash of its driver, and the collector of a round.  What a deed of
the driver takes from the feed, which collector it opens and what it offers is read off the deed; `Node.Drives` lists the
ways in which these belong together, one for each thing that a driver does.  Everything else that a node does takes nothing
from a feed (`Node.feed_of_other`).
-/
namespace GossipNode

/-- The topic that is driven by an action. -/
def Action.driven? : Action → Option String
  | .seekBallot t .. | .pause t .. | .collect t .. | .decide t .. => some t
  | _ => none

namespace RoundCollector

/-- The offers that are made when these blocks are offered one after another, each with the collector it is made to. -/
def offers (c : RoundCollector) : List Block → List (RoundCollector × Block)
  | [] => []
  | b :: bs => (c, b) :: (c.offer b).2.offers bs

variable {c : RoundCollector} {bs : List Block} {x : RoundCollector × Block}

theorem offers_concat (c : RoundCollector) (bs : List Block) (b : Block) :
    c.offers (bs ++ [b]) = c.offers bs ++ [(c.offerAll bs, b)] := by
  induction bs generalizing c with
  | nil => rfl
  | cons x bs ih => exact congrArg (_ :: ·) (ih (c.offer x).2)

@[simp] theorem round_offerAll (c : RoundCollector) (bs : List Block) : (c.offerAll bs).round = c.round := by
  induction bs generalizing c with
  | nil => rfl
  | cons b bs ih => exact (ih _).trans (c.offer_fixed b).1

@[simp] theorem map_snd_offers (c : RoundCollector) (bs : List Block) : (c.offers bs).map Prod.snd = bs := by
  induction bs generalizing c with
  | nil => rfl
  | cons b bs ih => exact congrArg (b :: ·) (ih (c.offer b).2)

theorem of_mem_offers (h : x ∈ c.offers bs) : x.1.round = c.round ∧ x.2 ∈ bs := by
  induction bs generalizing c with
  | nil => cases h
  | cons b bs ih =>
    rcases List.mem_cons.1 h with rfl | h
    · exact ⟨rfl, List.mem_cons_self⟩
    · obtain ⟨round, mem⟩ := ih h
      exact ⟨round.trans (c.offer_fixed b).1, List.mem_cons_of_mem _ mem⟩

end RoundCollector

namespace Node

/-- The collector that a driver opens for its round, if there is a ballot to propose. -/
def opening? (n : Node) (t : String) (round : UInt32) : Option RoundCollector :=
  ((n.topic t).ballots.nextUncommitted (n.topic t).ledger).1.map fun ballot =>
    .new (.candidate (n.topic t).ledger.tipHash ballot n.random.next.1 round n.name t) (n.topic t).ledger.tipHash
      (n.config.peerCount.toNat - 1)

theorem round_opening? {n : Node} {t : String} {round : UInt32} {c : RoundCollector} (h : n.opening? t round = some c) :
    c.round = round := by
  obtain ⟨ballot, -, rfl⟩ := Option.map_eq_some_iff.1 h
  rfl

end Node

namespace Deed

variable (t : String) (d : Deed)

/-- The block that a deed puts into the feed of a topic. -/
def feeds : Option Block :=
  match d.action with
  | .feed b => if b.topic = t then some b else none
  | _ => none

/-- The blocks that a deed takes from the feed of a topic, with the round that the driver is in. -/
def takes : List (UInt32 × Block) :=
  let feed := (d.node.topic t).feed
  (feed.take (feed.length - (d.step.node.topic t).feed.length)).map fun b => (d.action.round?.getD 0, b)

/-- The collector that a deed opens, if it starts a round of the topic. -/
def opens : Option RoundCollector :=
  match d.action with
  | .seekBallot t' round _ => if t' = t then d.node.opening? t round else none
  | _ => none

/-- The offers that a deed makes to collectors of the topic: those of the blocks kept for a round that it starts, or that
of the block that it takes. -/
def offers : List (RoundCollector × Block) :=
  match d.action with
  | .seekBallot _ round stash => (d.opens t).toList.flatMap fun c => c.offers (stash.take round).1
  | .collect t' _ c => if t' = t then ((d.takes t).filter fun x => x.2.round = c.round).map fun x => (c, x.2) else []
  | _ => []

end Deed

namespace Node

variable {n : Node} {a : Action} {now : Nat} {step : Step} {t : String}

/-- **What a driver does**: the blocks that it takes, the collector that it opens, the offers that it makes, and what it
does next. -/
inductive Drives (n : Node) (t : String) :
    Action → List Block → Option RoundCollector → List (RoundCollector × Block) → Action → Prop where
  | propose {round : UInt32} {stash : RoundStash} {c : RoundCollector} (opening : n.opening? t round = some c) :
    Drives n t (.seekBallot t round stash) [] (some c) (c.offers (stash.take round).1)
      (.collect t (stash.take round).2 (c.offerAll (stash.take round).1))
  | keepAll {round : UInt32} {stash : RoundStash} (deadline : Nat) :
    Drives n t (.seekBallot t round stash) (n.topic t).feed none []
      (.pause t round (((n.topic t).feed.filter (fun b => round ≤ b.round)).foldl RoundStash.add stash) deadline)
  | resume {round : UInt32} {stash : RoundStash} {deadline : Nat} :
    Drives n t (.pause t round stash deadline) [] none [] (.seekBallot t round stash)
  | complete {stash : RoundStash} {c : RoundCollector} :
    Drives n t (.collect t stash c) [] none [] (.decide t stash c)
  | keep {stash : RoundStash} {c : RoundCollector} {b : Block} (later : c.round < b.round) :
    Drives n t (.collect t stash c) [b] none [] (.collect t (stash.add b) c)
  | offer {stash : RoundStash} {c : RoundCollector} {b : Block} (round : b.round = c.round) :
    Drives n t (.collect t stash c) [b] none [(c, b)] (.collect t stash (c.offer b).2)
  | drop {stash : RoundStash} {c : RoundCollector} {b : Block} (earlier : b.round < c.round) :
    Drives n t (.collect t stash c) [b] none [] (.collect t stash c)
  | next {stash : RoundStash} {c : RoundCollector} :
    Drives n t (.decide t stash c) [] none [] (.seekBallot t (c.round + 1) stash)

theorem takes_of_feed {taken : List Block} (h : (n.topic t).feed = taken ++ (step.node.topic t).feed) :
    Deed.takes t ⟨n, a, step⟩ = taken.map fun b => (a.round?.getD 0, b) := by
  simp [Deed.takes, h]

theorem drives_seekBallot (now : Nat) (n : Node) (t : String) (round : UInt32) (stash : RoundStash) : ∃ taken a',
    (n.topic t).feed = taken ++ ((n.seekBallot now t round stash).node.topic t).feed ∧
      (n.seekBallot now t round stash).next = [a'] ∧
      n.Drives t (.seekBallot t round stash) taken (n.opening? t round)
        ((n.opening? t round).toList.flatMap fun c => c.offers (stash.take round).1) a' := by
  simp only [seekBallot]
  split
  · rename_i ballot ballots next
    have opening : n.opening? t round = some (.new (.candidate (n.topic t).ledger.tipHash ballot n.random.next.1 round n.name t)
        (n.topic t).ledger.tipHash (n.config.peerCount.toNat - 1)) := by simp [opening?, next]
    rw [opening, Option.toList_some, List.flatMap_singleton]
    exact ⟨[], _, by simp, rfl, .propose opening⟩
  · rename_i ballots next
    rw [show n.opening? t round = none by simp [opening?, next]]
    exact ⟨(n.topic t).feed, _, by simp [proceed], rfl, .keepAll _⟩

theorem drives_collect {stash : RoundStash} {c : RoundCollector} (h : step ∈ n.collect t stash c) : ∃ taken a',
    (n.topic t).feed = taken ++ (step.node.topic t).feed ∧ step.next = [a'] ∧
      n.Drives t (.collect t stash c) taken none ((taken.filter fun b => b.round = c.round).map fun b => (c, b)) a' := by
  simp only [collect] at h
  split at h
  · rw [List.mem_singleton.1 h]
    exact ⟨[], _, rfl, rfl, .complete⟩
  split at h
  · cases h
  rename_i b feed head
  have rest : ∀ node : Node, node.topics = n.topics.insert t { n.topic t with feed } →
      (n.topic t).feed = [b] ++ (node.topic t).feed := by
    intro node topics
    rw [topic_of_insert topics, if_pos rfl, head]
    rfl
  split at h
  · rename_i later
    have other : b.round ≠ c.round := (UInt32.ne_of_lt later).symm
    rw [List.mem_singleton.1 h]
    refine ⟨[b], _, rest _ rfl, rfl, ?_⟩
    simpa [other] using Drives.keep later
  split at h
  · rename_i same
    rw [List.mem_singleton.1 h]
    refine ⟨[b], _, rest _ rfl, rfl, ?_⟩
    simpa [same] using Drives.offer same
  · rename_i notLater other
    have earlier : b.round < c.round := UInt32.lt_of_le_of_ne (UInt32.not_lt.1 notLater) other
    rw [List.mem_singleton.1 h]
    refine ⟨[b], _, rest _ rfl, rfl, ?_⟩
    simpa [other] using Drives.drop earlier

/-- **A driver does one of these things**, and goes on with one action. -/
theorem drives_of_perform (h : step ∈ n.perform now a) (ha : a.driven? = some t) : ∃ taken a',
    (n.topic t).feed = taken ++ (step.node.topic t).feed ∧ step.next = [a'] ∧
      n.Drives t a taken (Deed.opens t ⟨n, a, step⟩) (Deed.offers t ⟨n, a, step⟩) a' := by
  cases a with
  | seekBallot t' round stash =>
    obtain rfl := Option.some.inj ha
    rw [List.mem_singleton.1 h]
    simpa [Deed.opens, Deed.offers] using n.drives_seekBallot now t' round stash
  | pause t' round stash deadline =>
    obtain rfl := Option.some.inj ha
    simp only [perform, pause] at h
    split at h
    · rw [List.mem_singleton.1 h]
      exact ⟨[], _, rfl, rfl, .resume⟩
    · cases h
  | collect t' stash c =>
    obtain rfl := Option.some.inj ha
    obtain ⟨taken, a', feed, next, drives⟩ := drives_collect h
    refine ⟨taken, a', feed, next, ?_⟩
    have offers : Deed.offers t' ⟨n, .collect t' stash c, step⟩ =
        (taken.filter fun b => b.round = c.round).map fun b => (c, b) := by
      simp [Deed.offers, takes_of_feed feed, List.filter_map, Function.comp_def]
    rw [offers]
    exact drives
  | decide t' stash c =>
    obtain rfl := Option.some.inj ha
    have feed : (step.node.topic t').feed = (n.topic t').feed := by
      rcases topics_of_perform h with same | ⟨_, _, change, changed⟩
      · rw [topic_of_topics same]
      · cases change
        rw [topic_of_insert changed, if_pos rfl]
    obtain rfl := List.mem_singleton.1 h
    exact ⟨[], _, feed.symm, rfl, .next⟩
  | _ => cases ha

theorem Drives.driven {taken : List Block} {opens : Option RoundCollector} {made : List (RoundCollector × Block)} {a' : Action}
    (h : n.Drives t a taken opens made a') : a'.driven? = some t := by
  cases h <;> rfl

theorem started_of_driven (h : step ∈ n.perform now a) (ha : a.driven? = some t) : step.started = [] := by
  have none : step.effects.filterMap Effect.script? = [] := by
    cases a with
    | seekBallot t' round stash =>
      rw [List.mem_singleton.1 h]
      simp only [seekBallot]
      split <;> rfl
    | pause t' round stash deadline =>
      simp only [perform, pause] at h
      split at h
      · rw [List.mem_singleton.1 h]; rfl
      · cases h
    | collect t' stash c =>
      simp only [perform, collect] at h
      split at h
      · rw [List.mem_singleton.1 h]; rfl
      split at h
      · cases h
      split at h
      · rw [List.mem_singleton.1 h]; rfl
      split at h <;>
      · rw [List.mem_singleton.1 h]; rfl
    | decide => rw [List.mem_singleton.1 h]; rfl
    | _ => cases ha
  simp [Step.started, none]

/-- An action that does not drive the topic opens no collector of it and makes no offer. -/
theorem nothing_of_other (n : Node) (step : Step) (other : a.driven? ≠ some t) :
    Deed.opens t ⟨n, a, step⟩ = none ∧ Deed.offers t ⟨n, a, step⟩ = [] := by
  cases a with
  | seekBallot t' round stash =>
    have ne : t' ≠ t := fun h => other (congrArg some h)
    simp [Deed.opens, Deed.offers, ne]
  | collect t' stash c =>
    have ne : t' ≠ t := fun h => other (congrArg some h)
    simp [Deed.opens, Deed.offers, ne]
  | _ => exact ⟨rfl, rfl⟩

/-- **Any other action** may put a block into a feed, and takes none. -/
theorem feed_of_other (h : step ∈ n.perform now a) (other : a.driven? ≠ some t) :
    (step.node.topic t).feed = (n.topic t).feed ++ (Deed.feeds t ⟨n, a, step⟩).toList := by
  by_cases feeds : ∃ b, a = .feed b
  · obtain ⟨b, rfl⟩ := feeds
    obtain rfl := List.mem_singleton.1 h
    by_cases same : b.topic = t
    · subst same
      obtain ⟨ballots, site⟩ := n.site_feedBlock b
      simp [Deed.feeds, show (n.feedBlock b).node.topic b.topic = _ from congrArg Site.topic site]
    · have topic : (n.feedBlock b).node.topic t = n.topic t := congrArg Site.topic (site_feedBlock_of_ne (Ne.symm same))
      simp [Deed.feeds, same, topic]
  · have none : Deed.feeds t ⟨n, a, step⟩ = none := by
      unfold Deed.feeds
      split
      · rename_i b ha
        exact absurd ⟨b, ha⟩ feeds
      · rfl
    rw [none, Option.toList_none, List.append_nil]
    rcases topics_of_perform h with same | ⟨t', s, change, changed⟩
    · rw [topic_of_topics same]
    · rw [topic_of_insert changed]
      split
      · rename_i here
        subst here
        cases change with
        | opened new => rw [topic_of_closed new]
        | fed | fedBallot => exact absurd ⟨_, rfl⟩ feeds
        | proposed | drained | took | appended => exact absurd rfl other
      · rfl

end Node
end GossipNode
