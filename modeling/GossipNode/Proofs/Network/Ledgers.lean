import Mathlib.Data.Fintype.Basic
import GossipNode.Proofs.Network.Machines
import GossipNode.Proofs.Node.Phases
/-!
# Ledgers across a network

Every node of a network drives the same topic, and each counts all the nodes as peers.  Ballots are submitted anywhere
and at any time, drivers take turns in any order, and a block that has been announced reaches any feed early, late, more
than once or never.  Between two turns a node may do anything else that leaves the topic alone.

The invariant is that the contest of the topic is fair and that every driver is in a phase that fits it.  It holds as
long as no two blocks of a round tie, and then ledgers agree (`LedgerNetwork.ledgers_agree`).
-/
namespace GossipNode
namespace LedgerNetwork

/-- A node, and what the driver of the topic still has to do. -/
structure Driven where
  node : Node
  driver : List Action

/-- The nodes of a network, and the blocks that have been announced. -/
structure State (ι : Type) where
  nodes : ι → Driven
  announced : List Block

inductive Move (ι : Type) where
  | submit (i : ι) (ballot : Ballot)
  /-- The driver goes on, at a time of the clock, with one of the steps that it may take. -/
  | drive (i : ι) (now choice : Nat)
  | announce (i : ι)
  /-- A block that has been announced reaches the feed of a node. -/
  | feed (i : ι) (b : Block)
  | aside (i : ι) (n : Node)

/-- A node that has just opened the topic. -/
def Driven.Fresh (t : String) (c : Config) (d : Driven) : Prop :=
  ∃ n address random auth, Node.new c address random auth = .ok n ∧ d.node = (n.openTopic t).node ∧
    (n.openTopic t).started = [d.driver]

namespace State

variable {ι : Type} [DecidableEq ι]

/-- One node changes, and so may what has been announced. -/
def put (s : State ι) (i : ι) (d : Driven) (announced : List Block) : State ι :=
  ⟨Function.update s.nodes i d, announced⟩

def move? (t : String) (s : State ι) : Move ι → Option (State ι)
  | .submit i ballot => some (s.put i ⟨((s.nodes i).node.submitBallot t ballot).2.node, (s.nodes i).driver⟩ s.announced)
  | .drive i now choice =>
    match (s.nodes i).driver with
    | [] => none
    | a :: script => ((s.nodes i).node.perform now a)[choice]?.map fun step =>
      s.put i ⟨step.node, step.next ++ script⟩ s.announced
  | .announce i =>
    match (s.nodes i).node.candidates, (s.nodes i).node.publish with
    | b :: _, step :: _ => some (s.put i ⟨step.node, (s.nodes i).driver⟩ (s.announced ++ [b]))
    | _, _ => none
  | .feed i b =>
    if b ∈ s.announced then some (s.put i ⟨((s.nodes i).node.feedBlock b).node, (s.nodes i).driver⟩ s.announced)
    else none
  | .aside i n =>
    if n.site t = (s.nodes i).node.site t then some (s.put i ⟨n, (s.nodes i).driver⟩ s.announced) else none

end State

variable {ι : Type}

namespace State

/-- The round that the driver of a node is in. -/
def round (s : State ι) (i : ι) : UInt32 := ((s.nodes i).driver.head?.bind Action.round?).getD 0

def Completed (s : State ι) (i : ι) (r : Nat) : Prop := r < (s.round i).toNat

def ledger (t : String) (s : State ι) (i : ι) : Ledger := ((s.nodes i).node.topic t).ledger

/-- A block that a driver has made. -/
def Proposed (s : State ι) (b : Block) : Prop := b ∈ s.announced ∨ ∃ i, b ∈ (s.nodes i).node.candidates

def contest (configs : ι → Config) (t : String) (s : State ι) : Contest ι :=
  ⟨fun i => (configs i).origin, s.ledger t, s.Proposed⟩

/-- No two blocks of a round have the same fitness. -/
def Untied (s : State ι) : Prop :=
  ∀ b b', s.Proposed b → s.Proposed b' → b.round = b'.round → b.fitness = b'.fitness → b = b'

end State

/-- **The states of a run** of drivers that start from genesis.  The round after a round is a checked sum of 32-bit
words: where it would overflow there is no next state. -/
inductive Reachable [DecidableEq ι] (configs : ι → Config) (t : String) : State ι → Prop where
  | start {s : State ι} (fresh : ∀ i, (s.nodes i).Fresh t (configs i)) (announced : s.announced = []) :
      Reachable configs t s
  | step {s s' : State ι} {m : Move ι} : Reachable configs t s → s.move? t m = some s' →
      (∀ i, (s'.round i).toNat + 1 < UInt32.size) → Reachable configs t s'

/-! ## What a move does -/

/-- **What a move does**: a driver goes on, or a node changes under its driver.  The ledger stays then, what is fed has
been announced, and blocks that are announced do not wait any more. -/
inductive Change [DecidableEq ι] (t : String) (s : State ι) : State ι → Prop where
  | drive {i : ι} {a : Action} {script : List Action} {now : Nat} {step : Step}
      (driver : (s.nodes i).driver = a :: script) (taken : step ∈ (s.nodes i).node.perform now a) :
      Change t s (s.put i ⟨step.node, step.next ++ script⟩ s.announced)
  | under {i : ι} {n : Node} {l : List Block} {x : Node.Site} (site : n.site t = x)
      (name : x.name = (s.nodes i).node.name) (peers : x.peers = (s.nodes i).node.config.peerCount)
      (ledger : x.topic.ledger = s.ledger t i)
      (feed : ∀ b ∈ x.topic.feed, b ∈ ((s.nodes i).node.topic t).feed ∨ b ∈ s.announced)
      (moved : ∀ b, (b ∈ l ∨ b ∈ x.candidates) ↔ (b ∈ s.announced ∨ b ∈ (s.nodes i).node.candidates)) :
      Change t s (s.put i ⟨n, (s.nodes i).driver⟩ l)

/-- **Every move is such a change.** -/
theorem change_of_move [DecidableEq ι] {t : String} {s s' : State ι} {m : Move ι} (hm : s.move? t m = some s') :
    Change t s s' := by
  cases m with
  | submit i ballot =>
    obtain rfl := Option.some.inj hm
    obtain ⟨ballots, site⟩ := (s.nodes i).node.site_submitBallot t ballot
    exact .under site rfl rfl rfl (fun _ => .inl) (fun _ => Iff.rfl)
  | drive i now choice =>
    simp only [State.move?] at hm
    split at hm
    · cases hm
    · rename_i a script driver
      obtain ⟨step, hstep, rfl⟩ := Option.map_eq_some_iff.1 hm
      exact .drive driver (List.mem_of_getElem? hstep)
  | announce i =>
    simp only [State.move?] at hm
    split at hm
    · rename_i b candidates step steps hc hp
      obtain rfl := Option.some.inj hm
      obtain ⟨b', candidates', hc', site⟩ := Node.site_publish (by rw [hp]; exact List.mem_cons_self) t
      obtain ⟨rfl, rfl⟩ := List.cons.inj (hc.symm.trans hc')
      refine .under site rfl rfl rfl (fun _ => .inl) (fun b' => ?_)
      rw [hc, List.mem_append, List.mem_singleton, List.mem_cons, or_assoc]
    · cases hm
  | feed i b =>
    simp only [State.move?] at hm
    split at hm
    · rename_i announced
      obtain rfl := Option.some.inj hm
      by_cases ht : t = b.topic
      · subst ht
        obtain ⟨ballots, site⟩ := (s.nodes i).node.site_feedBlock b
        refine .under site rfl rfl rfl (fun b' hb' => ?_) (fun _ => Iff.rfl)
        rcases List.mem_append.1 hb' with hb' | hb'
        · exact .inl hb'
        · rw [List.mem_singleton.1 hb']
          exact .inr announced
      · exact .under (Node.site_feedBlock_of_ne ht) rfl rfl rfl (fun _ => .inl) (fun _ => Iff.rfl)
    · cases hm
  | aside i n =>
    simp only [State.move?] at hm
    split at hm
    · rename_i site
      obtain rfl := Option.some.inj hm
      exact .under site rfl rfl rfl (fun _ => .inl) (fun _ => Iff.rfl)
    · cases hm

namespace State

variable {configs : ι → Config} {t : String} {s : State ι} {i : ι} {d : Driven} {l : List Block} [DecidableEq ι]

theorem nodes_put_self : (s.put i d l).nodes i = d := Function.update_self _ _ _

theorem nodes_put_of_ne {j : ι} (h : j ≠ i) : (s.put i d l).nodes j = s.nodes j := Function.update_of_ne h _ _

theorem ledger_put : (s.put i d l).ledger t = Function.update (s.ledger t) i (d.node.topic t).ledger := by
  funext j
  unfold ledger
  by_cases hj : j = i
  · subst hj
    rw [nodes_put_self, Function.update_self]
  · rw [nodes_put_of_ne hj, Function.update_of_ne hj]

theorem proposed_put {b : Block} : (s.put i d l).Proposed b ↔
    (b ∈ l ∨ b ∈ d.node.candidates) ∨ ∃ j, j ≠ i ∧ b ∈ (s.nodes j).node.candidates := by
  constructor
  · rintro (hb | ⟨j, hb⟩)
    · exact .inl (.inl hb)
    · by_cases hj : j = i
      · subst hj
        rw [nodes_put_self] at hb
        exact .inl (.inr hb)
      · rw [nodes_put_of_ne hj] at hb
        exact .inr ⟨j, hj, hb⟩
  · rintro ((hb | hb) | ⟨j, hj, hb⟩)
    · exact .inl hb
    · exact .inr ⟨i, by rw [nodes_put_self]; exact hb⟩
    · exact .inr ⟨j, by rw [nodes_put_of_ne hj]; exact hb⟩

theorem proposed_iff (i : ι) {b : Block} : s.Proposed b ↔
    (b ∈ s.announced ∨ b ∈ (s.nodes i).node.candidates) ∨ ∃ j, j ≠ i ∧ b ∈ (s.nodes j).node.candidates := by
  rw [← s.proposed_put, put, Function.update_eq_self]

/-- The contest stays if the ledger does and every block is where it was, or has moved on. -/
theorem contest_put_same (ledger : (d.node.topic t).ledger = s.ledger t i)
    (moved : ∀ b, (b ∈ l ∨ b ∈ d.node.candidates) ↔ (b ∈ s.announced ∨ b ∈ (s.nodes i).node.candidates)) :
    (s.put i d l).contest configs t = s.contest configs t := by
  have proposed : (s.put i d l).Proposed = s.Proposed := by
    funext b
    rw [s.proposed_put, s.proposed_iff i, moved]
  unfold contest
  rw [ledger_put, ledger, Function.update_eq_self, proposed]

theorem contest_put_propose (ledger : (d.node.topic t).ledger = s.ledger t i) {own : Block}
    (candidates : d.node.candidates = (s.nodes i).node.candidates ++ [own]) :
    (s.put i d s.announced).contest configs t = (s.contest configs t).propose own := by
  have proposed : (s.put i d s.announced).Proposed = fun b => s.Proposed b ∨ b = own := by
    funext b
    rw [s.proposed_put, s.proposed_iff i, candidates, List.mem_append, List.mem_singleton, ← or_assoc, or_right_comm]
  unfold contest Contest.propose
  rw [ledger_put, ledger, Function.update_eq_self, proposed]

theorem contest_put_append {b : Block} (ledger : (d.node.topic t).ledger = (s.ledger t i).push b)
    (candidates : d.node.candidates = (s.nodes i).node.candidates) :
    (s.put i d s.announced).contest configs t = (s.contest configs t).append i b := by
  have proposed : (s.put i d s.announced).Proposed = s.Proposed := by
    funext b
    rw [s.proposed_put, s.proposed_iff i, candidates]
  unfold contest Contest.append
  rw [ledger_put, ledger, proposed]

end State

/-! ## The invariant -/

variable [Fintype ι] {configs : ι → Config} {t : String} {s s' : State ι}

/-- **The invariant of a run.** -/
structure Invariant (configs : ι → Config) (t : String) (s : State ι) : Prop where
  fair : (s.contest configs t).Fair
  seated : ∀ i, (s.contest configs t).Seated t i ((s.nodes i).node.site t) (s.nodes i).driver

omit [Fintype ι] in
theorem Driven.Fresh.seat {d : Driven} {c : Config} (h : d.Fresh t c) :
    d.node.site t = ⟨c.origin, c.peerCount, true, Topic.new t, []⟩ ∧ d.driver = [.seekBallot t 1 .empty] := by
  obtain ⟨n, address, random, auth, hnew, hnode, hstarted⟩ := h
  have site := Node.site_new hnew t
  refine ⟨by rw [hnode, n.site_openTopic, site], ?_⟩
  unfold Step.started at hstarted
  split at hstarted
  · cases hstarted
  · rw [Node.effects_openTopic (congrArg Node.Site.opened site)] at hstarted
    exact (List.cons.inj hstarted).1.symm

theorem Invariant.start (peers : ∀ i, (configs i).peerCount.toNat = Fintype.card ι)
    (fresh : ∀ i, (s.nodes i).Fresh t (configs i)) (announced : s.announced = []) : Invariant configs t s := by
  have site := fun i => (fresh i).seat.1
  have ledger : ∀ i, (s.contest configs t).ledgers i = Ledger.new t :=
    fun i => congrArg (fun x => x.topic.ledger) (site i)
  have none : ∀ b, ¬ s.Proposed b := by
    rintro b (hb | ⟨i, hb⟩)
    · rw [announced] at hb
      cases hb
    · rw [show (s.nodes i).node.candidates = [] from congrArg Node.Site.candidates (site i)] at hb
      cases hb
  refine ⟨⟨fun i j => ?_, fun i => ?_, fun b hb => absurd hb (none b), fun b _ hb => absurd hb (none b),
    fun b _ hb => absurd hb (none b), fun i k b hb => ?_⟩, fun i => ?_⟩
  · rw [ledger, ledger]
  · rw [ledger]
    exact .new t
  · unfold Contest.chain at hb
    rw [ledger] at hb
    cases hb
  · rw [(fresh i).seat.1, (fresh i).seat.2]
    refine ⟨rfl, peers i, (ledger i).symm, by rw [ledger]; rfl, fun _ h => (nomatch h), _, rfl, rfl, ?_,
      (fun _ h => nomatch h), fun b hb => absurd hb (none b)⟩
    unfold Contest.chain
    rw [ledger]
    rfl

variable [DecidableEq ι] {i : ι} {d : Driven} {l : List Block}

/-- **One node changes**, and the others stay in their seats: their ledgers are the same, and no block of theirs is
new. -/
theorem Invariant.put (h : Invariant configs t s) {w : Contest ι} (contest : (s.put i d l).contest configs t = w)
    (fair : w.Fair) (g : (s.contest configs t).Grows w)
    (others : ∀ j, j ≠ i → w.ledgers j = s.ledger t j ∧
      ∀ b, w.proposed b → b.origin = w.names j → s.Proposed b)
    (seated : w.Seated t i (d.node.site t) d.driver) : Invariant configs t (s.put i d l) := by
  refine ⟨by rw [contest]; exact fair, fun j => ?_⟩
  rw [contest]
  by_cases hj : j = i
  · subst hj
    rw [State.nodes_put_self]
    exact seated
  · rw [State.nodes_put_of_ne hj]
    exact (h.seated j).mono g (others j hj).1 (others j hj).2

theorem Invariant.put_same (h : Invariant configs t s) (ledger : (d.node.topic t).ledger = s.ledger t i)
    (moved : ∀ b, (b ∈ l ∨ b ∈ d.node.candidates) ↔ (b ∈ s.announced ∨ b ∈ (s.nodes i).node.candidates))
    (seated : (s.contest configs t).Seated t i (d.node.site t) d.driver) : Invariant configs t (s.put i d l) :=
  h.put (State.contest_put_same ledger moved) h.fair ⟨rfl, fun _ => ⟨rfl, List.prefix_rfl⟩, fun _ => id⟩
    (fun _ _ => ⟨rfl, fun _ hb _ => hb⟩) seated

theorem Invariant.put_propose (distinct : Function.Injective (fun i => (configs i).origin))
    (h : Invariant configs t s) {own : Block} (may : (s.contest configs t).MayPropose i own)
    (ledger : (d.node.topic t).ledger = s.ledger t i)
    (candidates : d.node.candidates = (s.nodes i).node.candidates ++ [own])
    (seated : ((s.contest configs t).propose own).Fair →
      ((s.contest configs t).propose own).Seated t i (d.node.site t) d.driver)
    (untied : (s.put i d s.announced).Untied) : Invariant configs t (s.put i d s.announced) := by
  have contest : (s.put i d s.announced).contest configs t = (s.contest configs t).propose own :=
    State.contest_put_propose ledger candidates
  have fair : ((s.contest configs t).propose own).Fair := by
    refine h.fair.propose ?_ may
    rw [← contest]
    exact untied
  refine h.put contest fair (Contest.grows_propose _ own) (fun j hj => ⟨rfl, fun b hb ho => ?_⟩) (seated fair)
  -- the one block that is new is a block of this node
  rcases hb with hb | rfl
  · exact hb
  · exact absurd (distinct (ho.symm.trans may.origin)) hj

theorem Invariant.put_append (h : Invariant configs t s) {b : Block} (wins : (s.contest configs t).Wins b)
    (round : b.round.toNat = ((s.contest configs t).chain i).length + 1)
    (ledger : (d.node.topic t).ledger = (s.ledger t i).push b)
    (candidates : d.node.candidates = (s.nodes i).node.candidates)
    (seated : ((s.contest configs t).append i b).Seated t i (d.node.site t) d.driver) :
    Invariant configs t (s.put i d s.announced) := by
  refine h.put (State.contest_put_append ledger candidates) (h.fair.append wins round) (Contest.grows_append _ i b)
    (fun j hj => ?_) seated
  exact ⟨Contest.ledgers_append_of_ne _ b hj, fun _ hb _ => hb⟩

/-! ## Moves -/

/-- **A driver goes on.** -/
theorem Invariant.drive (distinct : Function.Injective (fun i => (configs i).origin)) (h : Invariant configs t s)
    {a : Action} {script : List Action} (hd : (s.nodes i).driver = a :: script) {now : Nat} {step : Step}
    (hs : step ∈ (s.nodes i).node.perform now a) (room : (s.round i).toNat + 1 < UInt32.size)
    (untied : (s.put i ⟨step.node, step.next ++ script⟩ s.announced).Untied) :
    Invariant configs t (s.put i ⟨step.node, step.next ++ script⟩ s.announced) := by
  have seat := h.seated i
  rw [hd] at seat
  obtain ⟨rfl, phase⟩ := seat.of_cons
  rw [List.append_nil] at untied ⊢
  cases a with
  | seekBallot t' r stash =>
    obtain ⟨rfl, -⟩ := phase
    obtain rfl := List.mem_singleton.1 hs
    rcases seat.seek now with ⟨seat', candidates⟩ | ⟨own, may, ledger, candidates, seat'⟩
    · exact h.put_same seat'.ledger (fun b => by rw [candidates]) seat'
    · exact h.put_propose distinct may ledger candidates seat' untied
  | pause t' r stash deadline =>
    obtain ⟨rfl, -⟩ := phase
    obtain ⟨seat', hn⟩ := seat.pause hs
    exact h.put_same seat'.ledger (fun b => by rw [hn]) seat'
  | collect t' stash c =>
    obtain ⟨rfl, -⟩ := phase
    obtain ⟨seat', candidates⟩ := seat.collect h.fair hs
    exact h.put_same seat'.ledger (fun b => by rw [candidates]) seat'
  | decide t' stash c =>
    obtain ⟨rfl, running, -⟩ := phase
    obtain rfl := List.mem_singleton.1 hs
    have here : s.round i = c.round := by
      unfold State.round
      rw [hd]
      rfl
    rw [here] at room
    obtain ⟨wins, round, -⟩ := seat.wins h.fair distinct
    obtain ⟨seat', ledger, candidates⟩ := seat.decide h.fair distinct room
    exact h.put_append wins round ledger candidates seat'
  | _ => exact phase.elim

/-- **Every move keeps the invariant**, as long as no blocks tie. -/
theorem Invariant.move (distinct : Function.Injective (fun i => (configs i).origin)) (h : Invariant configs t s)
    {m : Move ι} (hm : s.move? t m = some s') (room : ∀ i, (s.round i).toNat + 1 < UInt32.size) (untied : s'.Untied) :
    Invariant configs t s' := by
  cases change_of_move hm with
  | drive driver taken => exact h.drive distinct driver taken (room _) untied
  | under site name peers ledger feed moved =>
    subst site
    refine h.put_same ledger moved ((h.seated _).stay name peers ledger (fun b hb => ?_))
    rcases feed b hb with hb | hb
    · exact (h.seated _).feed b hb
    · exact .inl hb

/-! ## Runs -/

/-- A driver has one thing to do, and it is a driver's. -/
def Driven.Driving (d : Driven) : Prop := ∃ a, d.driver = [a] ∧ a.round?.isSome = true

omit [Fintype ι] in
theorem State.grows_put (driving : ∀ i, (s.nodes i).Driving) (hd : d.Driving)
    (moved : ∀ b, b ∈ s.announced ∨ b ∈ (s.nodes i).node.candidates → b ∈ l ∨ b ∈ d.node.candidates) :
    (∀ j, ((s.put i d l).nodes j).Driving) ∧ ∀ b, s.Proposed b → (s.put i d l).Proposed b := by
  refine ⟨fun j => ?_, fun b hb => ?_⟩
  · by_cases hj : j = i
    · subst hj
      rw [nodes_put_self]
      exact hd
    · rw [nodes_put_of_ne hj]
      exact driving j
  · rw [proposed_put]
    rcases (s.proposed_iff i).1 hb with hb | hb
    · exact .inl (moved b hb)
    · exact .inr hb

omit [Fintype ι] in
/-- **What has been proposed stays proposed.** -/
theorem State.grows_of_move {m : Move ι} (hm : s.move? t m = some s') (driving : ∀ i, (s.nodes i).Driving) :
    (∀ i, (s'.nodes i).Driving) ∧ ∀ b, s.Proposed b → s'.Proposed b := by
  cases change_of_move hm with
  | @drive i a script now step driver taken =>
    obtain ⟨a', ha', hround⟩ := driving i
    obtain ⟨rfl, rfl⟩ := List.cons.inj (driver.symm.trans ha')
    obtain ⟨next, hnext, hdriver, candidates⟩ := Node.driver_of_perform hround taken
    refine State.grows_put driving ⟨next, by rw [hnext]; rfl, hdriver⟩ (fun b hb => ?_)
    exact hb.imp id (fun hb => candidates.subset hb)
  | @under i n l x site name peers ledger feed moved =>
    subst site
    exact State.grows_put driving (driving i) (fun b => (moved b).2)

omit [Fintype ι] in
theorem driving_of_reachable (h : Reachable configs t s) :
    (∀ i, (s.nodes i).Driving) ∧ ∀ i, (s.round i).toNat + 1 < UInt32.size := by
  induction h with
  | start fresh =>
    refine ⟨fun i => ⟨_, (fresh i).seat.2, rfl⟩, fun i => ?_⟩
    unfold State.round
    rw [(fresh i).seat.2]
    exact (by decide : (1 : UInt32).toNat + 1 < UInt32.size)
  | step _ hm room ih => exact ⟨(State.grows_of_move hm ih.1).1, room⟩

theorem invariant_of_reachable (distinct : Function.Injective (fun i => (configs i).origin))
    (peers : ∀ i, (configs i).peerCount.toNat = Fintype.card ι) (h : Reachable configs t s) (untied : s.Untied) :
    Invariant configs t s := by
  induction h with
  | start fresh announced => exact .start peers fresh announced
  | step hr hm _ ih =>
    obtain ⟨driving, room⟩ := driving_of_reachable hr
    have kept := (State.grows_of_move hm driving).2
    exact (ih (fun b b' hb hb' => untied b b' (kept b hb) (kept b' hb'))).move distinct hm room untied

omit [DecidableEq ι] in
/-- The round of a driver is the number of the block that it is about to append. -/
theorem Invariant.round_eq (h : Invariant configs t s) (i : ι) :
    (s.ledger t i).committed.length + 1 = (s.round i).toNat := by
  obtain ⟨a, ha, phase⟩ := (h.seated i).phase
  unfold State.round
  rw [ha]
  cases a with
  | seekBallot | pause => exact phase.2.current.symm
  | collect => exact phase.2.collecting.round.symm
  | decide => exact phase.2.1.collecting.round.symm
  | _ => exact phase.elim

/-- **Ledgers agree.**  In every state of every run in which no two blocks of a round tie: two nodes that have completed
a round have the same blocks up to that round; every round that a node has completed has appended one block; the block
at a place of the chain is of that round; and the winner that a driver has decided on is appended. -/
theorem ledgers_agree (distinct : Function.Injective (fun i => (configs i).origin))
    (peers : ∀ i, (configs i).peerCount.toNat = Fintype.card ι) (h : Reachable configs t s) (untied : s.Untied) :
    (∀ i j r, s.Completed i r → s.Completed j r →
      (s.ledger t i).committed.take r = (s.ledger t j).committed.take r) ∧
    (∀ i, (s.ledger t i).committed.length + 1 = (s.round i).toNat) ∧
    (∀ i r (b : Block), (s.ledger t i).blocks[r]? = some b → b.round.toNat = r) ∧
    (∀ i stash c, (s.nodes i).driver.head? = some (.decide t stash c) →
      (s.ledger t i).append c.winner = .ok ((s.ledger t i).push c.winner)) := by
  have inv := invariant_of_reachable distinct peers h untied
  refine ⟨fun i j r hi hj => ?_, inv.round_eq, fun i r b hb => ?_, fun i stash c hd => ?_⟩
  · have leni := inv.round_eq i
    have lenj := inv.round_eq j
    unfold State.Completed at hi hj
    exact inv.fair.take_chain_eq (show r ≤ (s.ledger t i).committed.length by omega)
      (show r ≤ (s.ledger t j).committed.length by omega)
  · cases r with
    | zero =>
      obtain rfl := Option.some.inj hb
      rfl
    | succ k => exact (inv.fair.won i k b hb).1
  · have seat := inv.seated i
    obtain ⟨a, ha, -⟩ := seat.phase
    rw [ha] at hd seat
    obtain rfl := Option.some.inj hd
    exact (seat.wins inv.fair distinct).2.2

/-! ## Runs that can be computed -/

/-- A node that has just opened the topic, if its configuration is one that a node can run with. -/
def Driven.open? (t : String) (c : Config) (random : RandomSource) : Option Driven :=
  (Node.new c ⟨c.name⟩ random .acceptAll).toOption.bind fun n =>
    match (n.openTopic t).started with
    | [script] => some ⟨(n.openTopic t).node, script⟩
    | _ => none

omit [Fintype ι] [DecidableEq ι] in
theorem Driven.fresh_of_open? {c : Config} {random : RandomSource} {d : Driven} (h : Driven.open? t c random = some d) :
    d.Fresh t c := by
  obtain ⟨n, hn, hd⟩ := Option.bind_eq_some_iff.1 h
  split at hd
  · rename_i script hs
    obtain rfl := Option.some.inj hd
    cases hnew : Node.new c ⟨c.name⟩ random .acceptAll with
    | error e => rw [hnew] at hn; cases hn
    | ok n' =>
      rw [hnew] at hn
      obtain rfl := Option.some.inj hn
      exact ⟨n', _, _, _, hnew, rfl, hs⟩
  · cases hd

/-- The state after moves, one after another, of nodes that have just opened the topic. -/
def play? (configs : ι → Config) (t : String) (randoms : ι → RandomSource) (moves : List (Move ι)) :
    Option (State ι) :=
  if h : ∀ i, (Driven.open? t (configs i) (randoms i)).isSome = true then
    moves.foldlM (fun s m => (s.move? t m).bind fun s' =>
      if ∀ i, (s'.round i).toNat + 1 < UInt32.size then some s' else none)
      ⟨fun i => (Driven.open? t (configs i) (randoms i)).get (h i), []⟩
  else none

theorem reachable_of_play? {randoms : ι → RandomSource} {moves : List (Move ι)}
    (h : play? configs t randoms moves = some s) : Reachable configs t s := by
  unfold play? at h
  split at h
  · rename_i hopen
    have start : Reachable configs t ⟨fun i => (Driven.open? t (configs i) (randoms i)).get (hopen i), []⟩ :=
      .start (fun i => Driven.fresh_of_open? (Option.some_get (hopen i)).symm) rfl
    revert h start
    generalize (⟨fun i => (Driven.open? t (configs i) (randoms i)).get (hopen i), []⟩ : State ι) = first
    intro h start
    induction moves generalizing first with
    | nil => obtain rfl := Option.some.inj h; exact start
    | cons m moves ih =>
      obtain ⟨next, hnext, hrest⟩ := Option.bind_eq_some_iff.1 h
      obtain ⟨s', hmove, hroom⟩ := Option.bind_eq_some_iff.1 hnext
      split at hroom
      · rename_i room
        obtain rfl := Option.some.inj hroom
        exact ih _ hrest (start.step hmove room)
      · cases hroom
  · cases h

/-- Two nodes propose different ballots for the first round; the fitter block, of node 1, is appended by both. -/
theorem ledgers_agree_two_nodes :
    let config (name : String) : Config := { name, peerCount := 2 }
    let configs : Fin 2 → Config := fun i => if i = 0 then config "a" else config "b"
    let winner : Block := Block.candidate genesisHash ⟨"bob", "no", "bob"⟩ 7 1 ⟨"b"⟩ "council"
    ∃ s : State (Fin 2), Function.Injective (fun i => (configs i).origin) ∧
      (∀ i, (configs i).peerCount.toNat = Fintype.card (Fin 2)) ∧ Reachable configs "council" s ∧ s.Untied ∧
      s.Completed 0 1 ∧ s.Completed 1 1 ∧ (s.ledger "council" 0).committed = [winner] ∧
      (s.ledger "council" 0).committed.take 1 = (s.ledger "council" 1).committed.take 1 := by
  intro config configs winner
  let other : Block := Block.candidate genesisHash ⟨"alice", "yes", "alice"⟩ 5 1 ⟨"a"⟩ "council"
  let random (word : UInt64) : RandomSource := .scripted ⟨[word], List.cons_ne_nil _ _, 0, []⟩
  let drive (i : Fin 2) : Move (Fin 2) := .drive i 0 0
  let moves : List (Move (Fin 2)) :=
    [.submit 0 ⟨"alice", "yes", "alice"⟩, .submit 1 ⟨"bob", "no", "bob"⟩, drive 0, drive 1, .announce 0, .announce 1,
      .feed 0 winner, .feed 1 other, drive 0, drive 0, drive 0, drive 1, drive 1, drive 1]
  have distinct : Function.Injective (fun i => (configs i).origin) := by intro i j; revert i j; decide +kernel
  have peers : ∀ i, (configs i).peerCount.toNat = Fintype.card (Fin 2) := by decide +kernel
  have played : (play? configs "council" (fun i => if i = 0 then random 5 else random 7) moves).map
      (fun s => (s.announced, fun i => ((s.nodes i).node.candidates, s.round i, (s.ledger "council" 0).committed))) =
        some ([other, winner], fun _ => ([], 2, [winner])) := by decide +kernel
  obtain ⟨s, hs, hstate⟩ := Option.map_eq_some_iff.1 played
  obtain ⟨hannounced, hnodes⟩ := Prod.mk.inj hstate
  have reachable := reachable_of_play? hs
  have two : ∀ b, s.Proposed b → b = other ∨ b = winner := by
    rintro b (hb | ⟨i, hb⟩)
    · rw [hannounced] at hb
      simpa using hb
    · rw [(Prod.mk.inj (congrFun hnodes i)).1] at hb
      cases hb
  have untied : s.Untied := by
    intro b b' hb hb' _ hf
    rcases two b hb with rfl | rfl <;> rcases two b' hb' with rfl | rfl
    · rfl
    · exact absurd hf (by decide)
    · exact absurd hf (by decide)
    · rfl
  have round : ∀ i, s.round i = 2 := fun i => (Prod.mk.inj (Prod.mk.inj (congrFun hnodes i)).2).1
  have completed : ∀ i, s.Completed i 1 := by
    intro i
    unfold State.Completed
    rw [round i]
    decide
  exact ⟨s, distinct, peers, reachable, untied, completed 0, completed 1,
    (Prod.mk.inj (Prod.mk.inj (congrFun hnodes 0)).2).2,
    (ledgers_agree distinct peers reachable untied).1 0 1 1 (completed 0) (completed 1)⟩

end LedgerNetwork
end GossipNode
