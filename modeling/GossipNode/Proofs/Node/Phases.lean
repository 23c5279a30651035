import GossipNode.Proofs.Ledger.Rounds
import GossipNode.Proofs.Node.Driver
/-!
# Phases of a driver

How the driver of a topic goes on in a fair contest: it looks for a ballot, pauses or proposes, collects, and decides.
A driver that is `Seated` in the contest stays so with every action.  Only two actions change the contest: the block
that is proposed could be appended where it is proposed, and the block that is appended has won its round.
-/
namespace GossipNode
namespace Contest

variable {ι : Type} (w : Contest ι)

/-- A driver that looks for a ballot has not proposed for its round. -/
structure Waiting (i : ι) (r : UInt32) (stash : RoundStash) : Prop where
  current : r.toNat = (w.chain i).length + 1
  kept : ∀ b ∈ stash.held, w.proposed b
  ahead : ∀ b, w.proposed b → b.origin = w.names i → b.round < r

/-- A driver that collects has not proposed for a later round. -/
structure Running [Fintype ι] (i : ι) (stash : RoundStash) (c : RoundCollector) : Prop where
  collecting : w.Collecting i c
  expected : Fintype.card ι ≤ c.expectedRemote + 1
  kept : ∀ b ∈ stash.held, w.proposed b
  ahead : ∀ b, w.proposed b → b.origin = w.names i → b.round ≤ c.round

def Phase [Fintype ι] (t : String) (i : ι) : Action → Prop
  | .seekBallot t' round stash | .pause t' round stash _ => t' = t ∧ w.Waiting i round stash
  | .collect t' stash c => t' = t ∧ w.Running i stash c
  | .decide t' stash c => t' = t ∧ w.Running i stash c ∧ c.isComplete = true
  | _ => False

/-- The site of a node and its driver fit the contest. -/
structure Seated [Fintype ι] (t : String) (i : ι) (x : Node.Site) (driver : List Action) : Prop where
  name : x.name = w.names i
  peers : x.peers.toNat = Fintype.card ι
  ledger : x.topic.ledger = w.ledgers i
  topic : (w.ledgers i).topic = t
  feed : ∀ b ∈ x.topic.feed, w.proposed b
  phase : ∃ a, driver = [a] ∧ w.Phase t i a

variable {w} {w' : Contest ι} {i : ι} {t : String}

theorem Waiting.mono {r : UInt32} {stash : RoundStash} (h : w.Waiting i r stash) (g : w.Grows w')
    (same : w'.ledgers i = w.ledgers i) (own : ∀ b, w'.proposed b → b.origin = w'.names i → w.proposed b) :
    w'.Waiting i r stash := by
  refine ⟨?_, fun b hb => g.proposed b (h.kept b hb), fun b hb ho => h.ahead b (own b hb ho) ?_⟩
  · unfold chain
    rw [same]
    exact h.current
  · rw [← g.names]
    exact ho

variable [Fintype ι]

theorem Running.mono {stash : RoundStash} {c : RoundCollector} (h : w.Running i stash c) (g : w.Grows w')
    (same : w'.ledgers i = w.ledgers i) (own : ∀ b, w'.proposed b → b.origin = w'.names i → w.proposed b) :
    w'.Running i stash c := by
  refine ⟨h.collecting.mono g same, h.expected, fun b hb => g.proposed b (h.kept b hb), fun b hb ho => ?_⟩
  exact h.ahead b (own b hb ho) (by rw [← g.names]; exact ho)

theorem Phase.mono {a : Action} (h : w.Phase t i a) (g : w.Grows w') (same : w'.ledgers i = w.ledgers i)
    (own : ∀ b, w'.proposed b → b.origin = w'.names i → w.proposed b) : w'.Phase t i a := by
  cases a with
  | seekBallot | pause => exact ⟨h.1, h.2.mono g same own⟩
  | collect => exact ⟨h.1, h.2.mono g same own⟩
  | decide => exact ⟨h.1, h.2.1.mono g same own, h.2.2⟩
  | _ => exact h

theorem Seated.mono {x : Node.Site} {driver : List Action} (h : w.Seated t i x driver) (g : w.Grows w')
    (same : w'.ledgers i = w.ledgers i) (own : ∀ b, w'.proposed b → b.origin = w'.names i → w.proposed b) :
    w'.Seated t i x driver := by
  obtain ⟨a, ha, hphase⟩ := h.phase
  exact ⟨by rw [g.names]; exact h.name, h.peers, by rw [same]; exact h.ledger, by rw [same]; exact h.topic,
    fun b hb => g.proposed b (h.feed b hb), a, ha, hphase.mono g same own⟩

/-- A driver does one thing at a time. -/
theorem Seated.of_cons {x : Node.Site} {a : Action} {script : List Action} (h : w.Seated t i x (a :: script)) :
    script = [] ∧ w.Phase t i a := by
  obtain ⟨a', ha, hphase⟩ := h.phase
  obtain ⟨rfl, rfl⟩ := List.cons.inj ha
  exact ⟨rfl, hphase⟩

/-- The topic may change under a driver as long as the ledger stays. -/
theorem Seated.stay {x x' : Node.Site} {driver : List Action} (h : w.Seated t i x driver) (name : x'.name = x.name)
    (peers : x'.peers = x.peers) (ledger : x'.topic.ledger = x.topic.ledger) (feed : ∀ b ∈ x'.topic.feed, w.proposed b) :
    w.Seated t i x' driver :=
  ⟨name.trans h.name, by rw [peers]; exact h.peers, ledger.trans h.ledger, h.topic, feed, h.phase⟩

theorem Seated.go {x x' : Node.Site} {driver : List Action} {a : Action} (h : w.Seated t i x driver)
    (name : x'.name = x.name) (peers : x'.peers = x.peers) (ledger : x'.topic.ledger = x.topic.ledger)
    (feed : ∀ b ∈ x'.topic.feed, w.proposed b) (phase : w.Phase t i a) : w.Seated t i x' [a] :=
  ⟨name.trans h.name, by rw [peers]; exact h.peers, ledger.trans h.ledger, h.topic, feed, a, rfl, phase⟩

/-! ## Collecting -/

section Collecting

variable {stash : RoundStash} {c : RoundCollector}

theorem Running.offer (h : w.Running i stash c) (fair : w.Fair) {b : Block} (hb : w.proposed b) :
    w.Running i stash (c.offer b).2 := by
  obtain ⟨round, expected⟩ := c.offer_fixed b
  refine ⟨h.collecting.offer fair hb, by rw [expected]; exact h.expected, h.kept, ?_⟩
  rw [round]
  exact h.ahead

theorem Running.offers {l : List Block} (h : w.Running i stash c) (fair : w.Fair) (hl : ∀ b ∈ l, w.proposed b) :
    w.Running i stash (l.foldl (fun c b => (c.offer b).2) c) := by
  induction l generalizing c with
  | nil => exact h
  | cons b l ih =>
    exact ih (h.offer fair (hl b List.mem_cons_self)) (fun b' hb' => hl b' (List.mem_cons_of_mem _ hb'))

theorem Running.keep (h : w.Running i stash c) {b : Block} (hb : w.proposed b) : w.Running i (stash.add b) c := by
  refine ⟨h.collecting, h.expected, fun b' hb' => ?_, h.ahead⟩
  rcases List.mem_append.1 hb' with hb' | hb'
  · exact h.kept b' hb'
  · rw [List.mem_singleton.1 hb']
    exact hb

variable {n : Node}

/-- **Collecting goes on**, whatever is in the feed. -/
theorem Seated.collect (h : w.Seated t i (n.site t) [.collect t stash c]) (fair : w.Fair) {step : Step}
    (hs : step ∈ n.collect t stash c) :
    w.Seated t i (step.node.site t) step.next ∧ step.node.candidates = n.candidates := by
  obtain ⟨-, -, running⟩ := h.of_cons
  rcases Node.collect_cases hs with ⟨complete, hn, hnext⟩ | ⟨b, feed, hf, hsite, hnext⟩
  · rw [hn, hnext]
    exact ⟨h.go rfl rfl rfl h.feed ⟨rfl, running, complete⟩, rfl⟩
  have fed : ∀ b' ∈ b :: feed, w.proposed b' := by
    rw [← hf]
    exact h.feed
  have hb := fed b List.mem_cons_self
  have left : ∀ b' ∈ feed, w.proposed b' := fun b' hb' => fed b' (List.mem_cons_of_mem _ hb')
  refine ⟨?_, congrArg Node.Site.candidates hsite⟩
  rw [hsite]
  rcases hnext with hnext | hnext | hnext
  · rw [hnext]
    exact h.go rfl rfl rfl left ⟨rfl, running.keep hb⟩
  · rw [hnext]
    exact h.go rfl rfl rfl left ⟨rfl, running.offer fair hb⟩
  · rw [hnext]
    exact h.go rfl rfl rfl left ⟨rfl, running⟩

end Collecting

/-! ## Looking for a ballot -/

section Seeking

variable {stash : RoundStash} {r : UInt32} {n : Node}

theorem Seated.pause {now deadline : Nat} (h : w.Seated t i (n.site t) [.pause t r stash deadline]) {step : Step}
    (hs : step ∈ n.pause now t r stash deadline) :
    w.Seated t i (step.node.site t) step.next ∧ step.node = n := by
  unfold Node.pause at hs
  split at hs
  · rw [List.mem_singleton.1 hs]
    exact ⟨h.go rfl rfl rfl h.feed h.of_cons.2, rfl⟩
  · cases hs

omit [Fintype ι] in
theorem Waiting.mayPropose {own : Block} (h : w.Waiting i r stash) (origin : own.origin = w.names i)
    (round : own.round = r) (fits : (w.ledgers i).append own = .ok ((w.ledgers i).push own)) :
    w.MayPropose i own := by
  refine ⟨origin, by rw [round]; exact h.current, fits, fun b hb ho he => ?_⟩
  have := h.ahead b hb (ho.trans origin)
  rw [he, round] at this
  exact UInt32.lt_irrefl r this

/-- A driver that has just proposed collects, and the blocks that it has kept for the round are counted. -/
theorem Waiting.running {own : Block} {tip : BlockHash} {expected : Nat} (h : w.Waiting i r stash)
    (fair : (w.propose own).Fair) (round : own.round = r) (ht : tip = (w.ledgers i).tipHash)
    (he : Fintype.card ι ≤ expected + 1) :
    (w.propose own).Running i (stash.take r).2 (Node.openRound own tip expected (stash.take r).1) := by
  have start : (w.propose own).Running i (stash.take r).2 (RoundCollector.new own tip expected) := by
    refine ⟨.new (.inr rfl) (by rw [round]; exact h.current) ht, he, fun b hb => .inl ?_, ?_⟩
    · exact h.kept b (stash.held_take_subset r b hb)
    · rintro b (hb | rfl) ho
      · have := h.ahead b hb ho
        rw [← round] at this
        exact UInt32.le_of_lt this
      · exact UInt32.le_refl _
  refine start.offers fair (fun b hb => .inl ?_)
  exact h.kept b (RoundStash.mem_take.1 hb).1

/-- **Looking for a ballot** leaves the contest as it is, or proposes a block that the node may propose. -/
theorem Seated.seek (h : w.Seated t i (n.site t) [.seekBallot t r stash]) (now : Nat) :
    (w.Seated t i ((n.seekBallot now t r stash).node.site t) (n.seekBallot now t r stash).next ∧
      (n.seekBallot now t r stash).node.candidates = n.candidates) ∨
    ∃ own, w.MayPropose i own ∧ ((n.seekBallot now t r stash).node.topic t).ledger = w.ledgers i ∧
      (n.seekBallot now t r stash).node.candidates = n.candidates ++ [own] ∧
      ((w.propose own).Fair → (w.propose own).Seated t i ((n.seekBallot now t r stash).node.site t)
        (n.seekBallot now t r stash).next) := by
  obtain ⟨-, -, waiting⟩ := h.of_cons
  have ledger : (n.topic t).ledger = w.ledgers i := h.ledger
  have peers : n.config.peerCount.toNat = Fintype.card ι := h.peers
  rcases Node.seekBallot_cases n t now r stash with
    ⟨ballot, fitness, ballots, uncommitted, hsite, hnext⟩ | ⟨ballots, deadline, hsite, hnext⟩
  · refine .inr ⟨_, ?_, ?_, congrArg Node.Site.candidates hsite, fun fair => ?_⟩
    · refine waiting.mayPropose h.name rfl ?_
      have happend := Ledger.append_candidate (n.topic t).ledger uncommitted fitness r n.name
      rw [show (n.topic t).ledger.topic = t by rw [ledger]; exact h.topic, ledger] at happend
      rw [ledger]
      exact happend
    · rw [← ledger]
      exact congrArg (fun x => x.topic.ledger) hsite
    · rw [hsite, hnext]
      refine ⟨h.name, h.peers, ledger, h.topic, fun b hb => .inl (h.feed b hb), _, rfl, rfl, ?_⟩
      exact waiting.running fair rfl (by rw [ledger]) (by omega)
  · refine .inl ⟨?_, congrArg Node.Site.candidates hsite⟩
    rw [hsite, hnext]
    refine h.go rfl rfl rfl (fun _ hb => nomatch hb) ⟨rfl, waiting.current, fun b hb => ?_, waiting.ahead⟩
    rcases RoundStash.mem_foldl_add.1 hb with hb | hb
    · exact waiting.kept b hb
    · exact h.feed b (List.mem_filter.1 hb).1

end Seeking

/-! ## Deciding -/

section Deciding

variable {stash : RoundStash} {c : RoundCollector} {n : Node}

/-- **A driver that decides has the winner of its round**, and can append it. -/
theorem Seated.wins (h : w.Seated t i (n.site t) [.decide t stash c]) (fair : w.Fair)
    (distinct : Function.Injective w.names) :
    w.Wins c.best ∧ c.best.round.toNat = (w.chain i).length + 1 ∧
      (w.ledgers i).append c.best = .ok ((w.ledgers i).push c.best) := by
  obtain ⟨-, -, running, complete⟩ := h.of_cons
  have enough : Fintype.card ι ≤ c.received + 1 := by
    have received : c.expectedRemote ≤ c.received := by simpa [RoundCollector.isComplete] using complete
    have expected := running.expected
    omega
  have round : c.best.round.toNat = (w.chain i).length + 1 := by
    rw [running.collecting.best.2]
    exact running.collecting.round
  exact ⟨running.collecting.wins fair distinct enough, round, fair.append_eq_ok running.collecting.best.1 round⟩

variable [DecidableEq ι]

/-- **Deciding appends the winner**, and the driver goes on with the next round. -/
theorem Seated.decide (h : w.Seated t i (n.site t) [.decide t stash c]) (fair : w.Fair)
    (distinct : Function.Injective w.names) (room : c.round.toNat + 1 < UInt32.size) :
    (w.append i c.best).Seated t i ((n.decide t stash c).node.site t) (n.decide t stash c).next ∧
      ((n.decide t stash c).node.topic t).ledger = (w.ledgers i).push c.best ∧
      (n.decide t stash c).node.candidates = n.candidates := by
  obtain ⟨-, -, running, -⟩ := h.of_cons
  have ledger : (n.topic t).ledger = w.ledgers i := h.ledger
  have happend : (n.topic t).ledger.append c.winner = .ok ((w.ledgers i).push c.best) := by
    rw [ledger]
    exact (h.wins fair distinct).2.2
  have hsite := n.site_decide stash happend
  have next := toNat_add_one room
  refine ⟨?_, congrArg (fun x => x.topic.ledger) hsite, congrArg Node.Site.candidates hsite⟩
  rw [hsite]
  refine ⟨h.name, h.peers, ?_, ?_, h.feed, _, rfl, rfl, ?_, running.kept, fun b hb ho => ?_⟩
  · rw [ledgers_append_self]
  · rw [ledgers_append_self]
    exact h.topic
  · unfold chain
    rw [ledgers_append_self, Ledger.committed_push, List.length_append, next, running.collecting.round]
    rfl
  · have := UInt32.le_iff_toNat_le.1 (running.ahead b hb ho)
    rw [UInt32.lt_iff_toNat_lt, next]
    omega

end Deciding

end Contest
end GossipNode
