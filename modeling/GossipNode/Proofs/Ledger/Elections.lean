import Mathlib.Data.List.Nodup
import GossipNode.Proofs.Ledger.Validity
/-!
# No ballot is lost

The chain of a topic and the queue of its ballots are changed by three calls, in any order and with anything: a ballot is
offered, the next one is asked for, a block is appended.  The queue learns what has been committed only when it is asked,
and the ballot of a voter that is committed need not be the one in the queue.

What an accepted ballot is to the queue is said over all of them (`Election.Kept`): the queue holds accepted ballots in
the order of their offers, and of the voters that are not committed it holds them all.
-/
namespace GossipNode

/-- The chain of a topic and the ballots that wait for it. -/
structure Election where
  ledger : Ledger
  ballots : BallotBuffer
deriving DecidableEq

namespace Election

inductive Call where
  | offer (b : Ballot)
  | next
  | append (b : Block)

def new (topic : String) : Election := ⟨Ledger.new topic, .empty⟩

def offer (s : Election) (b : Ballot) : Bool × Election :=
  let (added, ballots) := s.ballots.offer b s.ledger
  (added, { s with ballots })

def next (s : Election) : Option Ballot × Election :=
  let (ballot, ballots) := s.ballots.nextUncommitted s.ledger
  (ballot, { s with ballots })

def append (s : Election) (b : Block) : Election := { s with ledger := (s.ledger.offer b).2 }

def call (s : Election) : Call → Election
  | .offer b => (s.offer b).2
  | .next => s.next.2
  | .append b => s.append b

def run (s : Election) (calls : List Call) : Election := calls.foldl call s

/-- The ballots that have been accepted, in the order of their offers. -/
def accepted (s : Election) : List Call → List Ballot
  | [] => []
  | .offer b :: calls => if (s.offer b).1 then b :: (s.offer b).2.accepted calls else (s.offer b).2.accepted calls
  | .next :: calls => s.next.2.accepted calls
  | .append b :: calls => (s.append b).accepted calls

/-- The voter of the ballot has no committed block. -/
def awaits (s : Election) (b : Ballot) : Bool := !s.ledger.isCommitted b.voter

/-- **What has become of the ballots that have been accepted.** -/
structure Kept (s : Election) (accepted : List Ballot) : Prop where
  voters : (accepted.map Ballot.voter).Nodup
  order : s.ballots.pending.Sublist accepted
  waiting : s.ballots.pending.filter s.awaits = accepted.filter s.awaits

variable {s : Election} {accepted : List Ballot} {b x : Ballot}

@[simp] theorem ledger_offer (s : Election) (b : Ballot) : (s.offer b).2.ledger = s.ledger := rfl

@[simp] theorem ledger_next (s : Election) : s.next.2.ledger = s.ledger := rfl

@[simp] theorem ballots_append (s : Election) (b : Block) : (s.append b).ballots = s.ballots := rfl

/-! ## One call -/

theorem offer_cases (s : Election) (b : Ballot) :
    (s.awaits b = true ∧ (∀ x ∈ s.ballots.pending, x.voter ≠ b.voter) ∧
      s.offer b = (true, { s with ballots := ⟨s.ballots.pending ++ [b]⟩ })) ∨
    ((s.ledger.isCommitted b.voter = true ∨ ∃ x ∈ s.ballots.pending, x.voter = b.voter) ∧ s.offer b = (false, s)) := by
  unfold offer BallotBuffer.offer awaits
  by_cases committed : s.ledger.isCommitted b.voter = true
  · exact .inr ⟨.inl committed, by simp [committed]⟩
  · by_cases held : s.ballots.holds b.voter = true
    · exact .inr ⟨.inr (by simpa [BallotBuffer.holds] using held), by simp [held]⟩
    · refine .inl ⟨by simpa using committed, by simpa [BallotBuffer.holds] using held, by simp [committed, held]⟩

theorem offer_fst_eq_false_iff :
    (s.offer b).1 = false ↔ s.ledger.isCommitted b.voter = true ∨ ∃ x ∈ s.ballots.pending, x.voter = b.voter := by
  rcases s.offer_cases b with ⟨fresh, new, he⟩ | ⟨refused, he⟩
  · rw [awaits, Bool.not_eq_true'] at fresh
    simpa [he, fresh] using new
  · simp [he, refused]

theorem offer_of_refused (h : (s.offer b).1 = false) : (s.offer b).2 = s := by
  rcases s.offer_cases b with ⟨-, -, he⟩ | ⟨-, he⟩
  · rw [he] at h
    cases h
  · rw [he]

/-- A voter that is committed stays so. -/
theorem awaits_append {c : Block} (h : (s.append c).awaits b = true) : s.awaits b = true := by
  rw [awaits, Bool.not_eq_true'] at h ⊢
  rw [← Bool.not_eq_true, append] at h
  rw [← Bool.not_eq_true]
  intro committed
  apply h
  rcases s.ledger.offer_cases c with ⟨-, he⟩ | ⟨e, -, he⟩
  · rw [he]
    exact Ledger.isCommitted_push.2 (.inl committed)
  · rw [he]
    exact committed

namespace Kept

theorem mem_pending (h : s.Kept accepted) (hx : x ∈ accepted) (fresh : s.awaits x = true) : x ∈ s.ballots.pending := by
  have both : x ∈ accepted.filter s.awaits := List.mem_filter.2 ⟨hx, fresh⟩
  rw [← h.waiting] at both
  exact (List.mem_filter.1 both).1

/-- **Who is refused**: a voter that is committed, or has had a ballot accepted. -/
theorem refused_iff (h : s.Kept accepted) (b : Ballot) :
    (s.offer b).1 = false ↔ s.ledger.isCommitted b.voter = true ∨ ∃ x ∈ accepted, x.voter = b.voter := by
  rw [offer_fst_eq_false_iff]
  constructor
  · rintro (committed | ⟨x, hx, same⟩)
    · exact .inl committed
    · exact .inr ⟨x, h.order.subset hx, same⟩
  · rintro (committed | ⟨x, hx, same⟩)
    · exact .inl committed
    · by_cases committed : s.ledger.isCommitted b.voter = true
      · exact .inl committed
      · exact .inr ⟨x, h.mem_pending hx (by simpa [awaits, same] using committed), same⟩

theorem offer_of_accepted (h : s.Kept accepted) (taken : (s.offer b).1 = true) : (s.offer b).2.Kept (accepted ++ [b]) := by
  have new : ¬ ∃ x ∈ accepted, x.voter = b.voter := fun found => by
    rw [(h.refused_iff b).2 (.inr found)] at taken
    cases taken
  rcases s.offer_cases b with ⟨fresh, -, he⟩ | ⟨-, he⟩
  · rw [he]
    refine ⟨?_, h.order.append_right _, ?_⟩
    · simp only [List.map_append, List.map_singleton, List.nodup_append, List.mem_map, List.mem_singleton]
      refine ⟨h.voters, List.nodup_singleton _, ?_⟩
      rintro _ ⟨x, hx, rfl⟩ _ rfl same
      exact new ⟨x, hx, same⟩
    · have same : awaits { s with ballots := ⟨s.ballots.pending ++ [b]⟩ } = s.awaits := rfl
      simp only [List.filter_append, same, h.waiting]
  · rw [he] at taken
    cases taken

theorem next (h : s.Kept accepted) : s.next.2.Kept accepted := by
  have same : s.next.2.awaits = s.awaits := rfl
  have pending : s.next.2.ballots.pending = s.ballots.pending.filter s.awaits := rfl
  refine ⟨h.voters, ?_, ?_⟩
  · rw [pending]
    exact List.filter_sublist.trans h.order
  · rw [pending, same, List.filter_filter, ← h.waiting]
    simp

/-- What awaits its turn after a block has been appended did so before. -/
theorem append (h : s.Kept accepted) (c : Block) : (s.append c).Kept accepted := by
  refine ⟨h.voters, h.order, ?_⟩
  have fewer : ∀ l : List Ballot, l.filter (s.append c).awaits = (l.filter s.awaits).filter (s.append c).awaits := by
    intro l
    rw [List.filter_filter]
    refine List.filter_congr (fun b _ => ?_)
    cases hb : (s.append c).awaits b with
    | false => simp
    | true => simp [awaits_append hb]
  rw [ballots_append, fewer, h.waiting, ← fewer]

/-- **The earliest accepted ballot whose voter is not committed** is the next one. -/
theorem next_eq (h : s.Kept accepted) : s.next.1 = accepted.find? s.awaits := by
  rw [← List.head?_filter, ← h.waiting]
  rfl

end Kept

/-! ## Runs -/

theorem Kept.run (calls : List Call) {s : Election} {before : List Ballot} (h : s.Kept before) :
    (s.run calls).Kept (before ++ s.accepted calls) := by
  induction calls generalizing s before with
  | nil =>
    rw [Election.accepted, List.append_nil]
    exact h
  | cons c calls ih =>
    cases c with
    | offer b =>
      rw [Election.accepted]
      by_cases taken : (s.offer b).1 = true
      · have more := ih (h.offer_of_accepted taken)
        rw [if_pos taken]
        rwa [List.append_assoc] at more
      · have same := offer_of_refused (Bool.not_eq_true _ ▸ taken)
        rw [if_neg taken, show s.run (.offer b :: calls) = (s.offer b).2.run calls from rfl, same]
        exact ih h
    | next => exact ih h.next
    | append b => exact ih (h.append b)

/-- The chain sees the appended blocks only. -/
theorem exists_ledger_run (s : Election) (calls : List Call) : ∃ bs, (s.run calls).ledger = s.ledger.offerAll bs := by
  induction calls generalizing s with
  | nil => exact ⟨[], rfl⟩
  | cons c calls ih =>
    obtain ⟨bs, he⟩ := ih (s.call c)
    cases c with
    | offer => exact ⟨bs, he⟩
    | next => exact ⟨bs, he⟩
    | append b => exact ⟨b :: bs, he⟩

theorem run_append (s : Election) (calls more : List Call) : s.run (calls ++ more) = (s.run calls).run more := List.foldl_append

/-- **No ballot is lost, and no voter counts twice.**  Whatever has been called on the chain of a topic and its queue, with
any ballots and blocks: no two accepted ballots have one voter, so no two in the queue do; the queue holds accepted ballots
in the order of their offers, and all of those whose voter is not committed; the next ballot is the earliest of these.  An
offer is refused exactly if its voter is in the queue or committed, and then changes nothing.  No voter has two committed
blocks, and what is committed stays so. -/
theorem no_ballot_lost (topic : String) (calls : List Call) :
    let s := (new topic).run calls
    let accepted := (new topic).accepted calls
    (s.ballots.pending.map Ballot.voter).Nodup ∧ (accepted.map Ballot.voter).Nodup ∧
    s.ballots.pending.Sublist accepted ∧ (∀ b ∈ accepted, s.ledger.isCommitted b.voter = false → b ∈ s.ballots.pending) ∧
    s.next.1 = accepted.find? s.awaits ∧ (s.next.1 = none ↔ ∀ b ∈ accepted, s.ledger.isCommitted b.voter = true) ∧
    (∀ b, ((s.offer b).1 = false ↔ s.ledger.isCommitted b.voter = true ∨ ∃ x ∈ s.ballots.pending, x.voter = b.voter) ∧
      ((s.offer b).1 = false → (s.offer b).2 = s)) ∧
    (s.ledger.committed.map Block.voter).Nodup ∧ ∀ more, s.ledger.blocks <+: ((new topic).run (calls ++ more)).ledger.blocks := by
  intro s accepted
  have kept : s.Kept accepted := by
    have start : (new topic).Kept [] := ⟨List.nodup_nil, List.Sublist.refl _, rfl⟩
    simpa using start.run calls
  obtain ⟨bs, hbs⟩ := (new topic).exists_ledger_run calls
  obtain ⟨sound, -⟩ := (Ledger.Sound.new topic).offerAll bs
  rw [← show s.ledger = (Ledger.new topic).offerAll bs from hbs] at sound
  refine ⟨kept.voters.sublist (kept.order.map _), kept.voters, kept.order, ?_, kept.next_eq, ?_,
    fun b => ⟨offer_fst_eq_false_iff, offer_of_refused⟩, ?_, fun more => ?_⟩
  · intro b hb fresh
    exact kept.mem_pending hb (by simp [awaits, fresh])
  · rw [kept.next_eq, List.find?_eq_none]
    simp [awaits]
  · rw [List.Nodup, List.pairwise_map]
    exact sound.valid.voters
  · obtain ⟨later, hlater⟩ := s.exists_ledger_run more
    rw [run_append, hlater]
    exact (sound.offerAll later).2

/-- A peer's ballot of a voter is committed while the own one waits. -/
example :
    let ann : Ballot := ⟨"ann", "yes", "ann"⟩
    let bob : Ballot := ⟨"bob", "yes", "bob"⟩
    let block := Block.candidate genesisHash { ann with voteHash := "no" } 1 1 ⟨"b"⟩ "council"
    let calls : List Call := [.offer ann, .offer bob, .append block, .offer ann]
    let s := (new "council").run calls
    (new "council").accepted calls = [ann, bob] ∧ s.ballots.pending = [ann, bob] ∧ s.next.1 = some bob := by
  decide +kernel

end Election
end GossipNode
