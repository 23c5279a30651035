import GossipNode.Proofs.Node.Successors
import GossipNode.Proofs.Store.Rounds
/-!
# On the way to being counted

A confirmation is counted some actions after it has come into the store: one that was accepted is looked up first, one
that was made here carries the round of its proposal all along.  Two things are said of the actions on that way.  They
carry the round that the log says (`Placed`), and none of them is lost: what waits to be counted waits until it is
(`Pending`).
-/
namespace GossipNode

namespace Action

/-- What an action carries is what the store says: the round of an own proposal, or of one that has been confirmed. -/
def Placed (s : Store) (own : Origin) : Action → Prop
  | .findRound o id .confirm => s.Confirms o id
  | .findRound o id (.collect _ r _) => o = own ∧ r.id = id
  | .stampRound o id round .confirm => s.Confirms o id ∧ s.proposalRound o id = some round
  | .stampRound o id round (.collect _ r _) => o = own ∧ r.id = id ∧ s.proposalRound o id = some round
  | .startCollection _ r round _ | .drive r round _ _ | .awaitMajority r round _ _ | .checkRound r round _ _ =>
    s.proposalRound own r.id = some round
  | .confirm id round _ | .storeConfirmation id round _ _ => s.proposalRound own id = some round
  | .countConfirmation o round => ∃ id, s.Confirms o id ∧ s.proposalRound o id = some round
  | _ => True

/-- The action leads to a confirmation of that number being counted for that round. -/
def Pending (o : Origin) (id : SequenceId) (round : UInt32) : Action → Prop
  | .findRound o' id' .confirm | .stampRound o' id' _ .confirm => o' = o ∧ id' = id
  | .countConfirmation o' round' => o' = o ∧ round' = round
  | _ => False

/-- Actions on the way from a confirmation in the store to its being counted. -/
def Counts : Action → Bool
  | .findRound _ _ .confirm | .stampRound _ _ _ .confirm | .countConfirmation .. => true
  | _ => false

variable {s s' : Store} {own o : Origin} {id : SequenceId} {round : UInt32} {a : Action}

theorem Pending.counts (h : a.Pending o id round) : a.Counts = true := by
  unfold Pending at h
  split at h
  · rfl
  · rfl
  · rfl
  · exact h.elim

/-- Stores grow, and rounds stay. -/
theorem Placed.mono (grown : ∀ o, s.log o <+: s'.log o) (h : a.Placed s own) : a.Placed s' own := by
  cases a with
  | findRound o id purpose =>
    cases purpose with
    | acknowledge => trivial
    | confirm => exact Store.Confirms.mono (grown o) h
    | collect => exact h
  | stampRound o id round purpose =>
    cases purpose with
    | acknowledge => trivial
    | confirm => exact ⟨h.1.mono (grown o), Store.proposalRound_mono (grown o) h.2⟩
    | collect => exact ⟨h.1, h.2.1, Store.proposalRound_mono (grown o) h.2.2⟩
  | startCollection | drive | awaitMajority | checkRound | confirm | storeConfirmation =>
    exact Store.proposalRound_mono (grown own) h
  | countConfirmation o round =>
    obtain ⟨id, hc, hround⟩ := h
    exact ⟨id, hc.mono (grown o), Store.proposalRound_mono (grown o) hround⟩
  | _ => trivial

end Action

namespace Node

variable {n : Node} {a : Action} {now : Nat} {step : Step}

theorem tracker_countConfirmation (n : Node) (o : Origin) (round : UInt32) :
    (n.countConfirmation o round).node.broadcast.tracker = (n.broadcast.tracker.recordConfirmation o round).2 := by
  unfold countConfirmation
  split
  · rename_i hrecord
    rw [hrecord]
    rfl
  · rename_i hrecord
    rw [hrecord]
    exact congrArg (fun f => f.core.broadcast.tracker) (frame_foldl_emit _ _ _)

/-- What the action counts moves the round on by the rounds that it closes. -/
def Advances (n : Node) (a : Action) : Prop := ∀ o round, a = .countConfirmation o round →
  (n.broadcast.tracker.recordConfirmation o round).2.current.toNat =
    n.round.toNat + (n.broadcast.tracker.recordConfirmation o round).1.length

/-- **Rounds only move on.** -/
theorem round_le_of_perform (h : step ∈ n.perform now a) (advances : n.Advances a) : n.round ≤ step.node.round := by
  by_cases counts : ∃ o round, a = .countConfirmation o round
  · obtain ⟨o, round, rfl⟩ := counts
    rw [List.mem_singleton.1 h]
    unfold Node.round
    rw [tracker_countConfirmation, UInt32.le_iff_toNat_le, advances o round rfl]
    exact Nat.le_add_right _ _
  · have same := (tracker_of_perform h).2 (fun o round he => counts ⟨o, round, he⟩)
    exact UInt32.le_of_eq (congrArg RoundTracker.current same).symm

theorem log_prefix_of_perform (h : step ∈ n.perform now a) (o : Origin) : n.store.log o <+: step.node.store.log o := by
  have change := storeChange_of_perform h
  generalize step.node.store = store at change
  cases change with
  | same => exact List.prefix_rfl
  | accepted | made => exact Store.log_prefix_push _ _ o

/-- A proposal needs no proof. -/
theorem accept_proposal {sender : PeerAddress} {m : Proposal} (new : m.id = n.store.nextId m.origin) :
    (n.accept sender (.proposal m)).node.store = n.store.push (.proposal m) ∧
      (n.accept sender (.proposal m)).next =
        duties sender (.proposal m) ++ [.passOn sender (.proposal m) (n.store.push (.proposal m)).statusReport] := by
  have hnew : n.store.accept (.proposal m) = (.new, n.store.push (.proposal m)) := Store.accept_of_eq new
  unfold accept
  rw [if_neg (by simp [isProved]), hnew]
  exact ⟨congrArg (fun f => f.core.store) (frame_announce _ _), rfl⟩

/-! ## Placed -/

/-- **What an action leaves to be done is placed** in the store after it. -/
theorem placed_of_perform (h : step ∈ n.perform now a) (ha : a.Placed n.store n.name) {a' : Action}
    (hmem : a' ∈ step.todo) : a'.Placed step.node.store n.name := by
  have grown := log_prefix_of_perform h
  have later : ∀ {o : Origin} {id : SequenceId} {round : UInt32}, n.store.proposalRound o id = some round →
      step.node.store.proposalRound o id = some round := fun hr => Store.proposalRound_mono (grown _) hr
  cases follows_of_perform h hmem with
  | @findConfirmed sender m id new hm =>
    rw [List.mem_singleton.1 h]
    refine ⟨.proposal m, ?_, hm⟩
    rw [(accept_proposal new).1]
    exact n.store.mem_log_push (.proposal m)
  | findOwn => exact ⟨rfl, rfl⟩
  | @found o id purpose round hround =>
    cases purpose with
    | acknowledge => trivial
    | confirm => exact ⟨Store.Confirms.mono (grown o) ha, later hround⟩
    | collect => exact ⟨ha.1, ha.2, later hround⟩
  | @stamped o id round purpose =>
    cases purpose with
    | acknowledge =>
      dsimp only [afterStamp]
      split <;> trivial
    | confirm => exact ⟨id, ha.1.mono (grown o), later ha.2⟩
    | collect call r tx =>
      obtain ⟨rfl, rfl, hround⟩ := ha
      exact later hround
  | drive | confirmNow | awaitMajority | confirm | checkRound | insist | insistInRound | storeConfirmation =>
    exact later ha
  | @countOwn id round tx clock =>
    refine ⟨id, ⟨.proposal ⟨n.name, n.store.nextId n.name, some id, Word256.zero, tx, clock⟩, ?_, rfl⟩, later ha⟩
    rw [List.mem_singleton.1 h]
    exact n.store.mem_log_push (.proposal ⟨n.name, n.store.nextId n.name, some id, Word256.zero, tx, clock⟩)
  | _ => trivial

theorem placed_of_answer {q : Request} (hmem : a ∈ (n.answer q).todo) (s : Store) : a.Placed s n.name := by
  cases begins_of_answer hmem <;> trivial

/-! ## Pending -/

variable {o : Origin} {id : SequenceId} {round : UInt32}

/-- **What waits to be counted goes on waiting, or is counted.** -/
theorem pending_of_perform (h : step ∈ n.perform now a) (ha : a.Placed n.store n.name) (hp : a.Pending o id round)
    (hround : n.store.proposalRound o id = some round) :
    (∃ a' ∈ step.next, a'.Pending o id round) ∨ a = .countConfirmation o round := by
  unfold Action.Pending at hp
  split at hp
  · obtain ⟨rfl, rfl⟩ := hp
    rw [List.mem_singleton.1 h]
    refine .inl ⟨.stampRound _ _ round .confirm, ?_, rfl, rfl⟩
    unfold findRound
    rw [hround]
    exact List.mem_cons_self
  · obtain ⟨rfl, rfl⟩ := hp
    rw [List.mem_singleton.1 h]
    exact .inl ⟨_, List.mem_cons_self, rfl, Option.some.inj (ha.2.symm.trans hround)⟩
  · obtain ⟨rfl, rfl⟩ := hp
    exact .inr rfl
  · exact hp.elim

/-- **A confirmation that comes into the store waits to be counted.** -/
theorem pending_of_new (h : step ∈ n.perform now a) (ha : a.Placed n.store n.name) {r : Record}
    (hr : r ∈ step.node.store.log o) (new : r ∉ n.store.log o) (hid : r.confirmed? = some id)
    (hround : step.node.store.proposalRound o id = some round) : ∃ a' ∈ step.next, a'.Pending o id round := by
  have grown := log_prefix_of_perform h
  have change := storeChange_of_perform h
  have pushed : ∀ {r'}, r ∈ (n.store.push r').log o → r' = r ∧ o = r.origin := by
    intro r' hmem
    rcases Store.mem_or_eq_of_mem_log_push hmem with hmem | ⟨rfl, ho⟩
    · exact absurd hmem new
    · exact ⟨rfl, ho⟩
  generalize hs : step.node.store = store at hr hround change
  cases change with
  | same => exact absurd hr new
  | accepted sender r' hnew =>
    obtain ⟨rfl, rfl⟩ := pushed hr
    cases r' with
    | rumor m => cases hid
    | block b => cases hid
    | proposal m =>
      have hm : m.confirmed = some id := hid
      rw [List.mem_singleton.1 h, (accept_proposal hnew).2, duties, hm]
      exact ⟨_, List.mem_cons_self, rfl, rfl⟩
  | made _ r' origin hnew confirms =>
    obtain ⟨rfl, rfl⟩ := pushed hr
    cases r' with
    | rumor m => cases hid
    | block b => cases hid
    | proposal m =>
      obtain ⟨round', clock, rfl⟩ := confirms m id rfl hid
      have here : n.store.proposalRound n.name id = some round' := ha
      have same : round' = round := by
        have after := Store.proposalRound_mono (Store.log_prefix_push n.store (.proposal m) n.name) here
        rw [← origin, hround] at after
        exact (Option.some.inj after).symm
      rw [List.mem_singleton.1 h]
      exact ⟨_, List.mem_cons_self, origin.symm, same⟩

end Node
end GossipNode
