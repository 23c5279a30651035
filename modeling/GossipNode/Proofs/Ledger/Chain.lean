import GossipNode.Ledger.BallotBuffer
import GossipNode.Ledger.Round
/-!
# Chains, queues and stashes

What the parts of a ledger driver do, each said once: when a block is appended, which ballots a queue shows, and which
blocks come out of a stash.
-/
namespace GossipNode

/-! ## Appending -/

namespace Ledger

variable {l l' : Ledger} {b : Block}

/-- The chain with one more block. -/
def push (l : Ledger) (b : Block) : Ledger :=
  { l with
    committed := l.committed ++ [b]
    voters := match b.voter with
      | some v => l.voters.add v
      | none => l.voters }

theorem committed_push (l : Ledger) (b : Block) : (l.push b).committed = l.committed ++ [b] := rfl

theorem isCommitted_push {v : String} :
    (l.push b).isCommitted v = true ↔ l.isCommitted v = true ∨ b.voter = some v := by
  unfold isCommitted push
  cases b.voter with
  | none => simp
  | some w => rw [SortedSet.contains_add, Option.some_inj, or_comm, eq_comm (a := v)]

/-- The committed voters are those of the blocks. -/
def Counted (l : Ledger) : Prop := ∀ v, l.isCommitted v = true ↔ ∃ b ∈ l.committed, b.voter = some v

theorem Counted.new (topic : String) : (new topic).Counted :=
  fun _ => ⟨(fun h => nomatch h), (fun ⟨_, hb, _⟩ => nomatch hb)⟩

theorem Counted.push (h : l.Counted) (b : Block) : (l.push b).Counted := by
  intro v
  rw [isCommitted_push, h v, committed_push]
  simp only [List.mem_append, List.mem_singleton]
  constructor
  · rintro (⟨c, hc, hv⟩ | hv)
    · exact ⟨c, .inl hc, hv⟩
    · exact ⟨b, .inr rfl, hv⟩
  · rintro ⟨c, hc | rfl, hv⟩
    · exact .inl ⟨c, hc, hv⟩
    · exact .inr hv

/-- **A chain is told by its topic and its blocks**, as these tell who is committed. -/
theorem Counted.eq (h : l.Counted) (h' : l'.Counted) (topic : l.topic = l'.topic)
    (committed : l.committed = l'.committed) : l = l' := by
  have voters : l.voters = l'.voters := by
    refine SortedSet.ext_contains fun v => Bool.eq_iff_iff.2 ?_
    rw [← isCommitted, ← isCommitted, h v, h' v, committed]
  cases l
  cases l'
  cases topic
  cases committed
  cases voters
  rfl

/-- The chain of a topic that has grown to these blocks. -/
def ofBlocks (topic : String) (bs : List Block) : Ledger := bs.foldl push (new topic)

theorem foldl_push (bs : List Block) : ∀ {l : Ledger}, l.Counted →
    (bs.foldl push l).topic = l.topic ∧ (bs.foldl push l).committed = l.committed ++ bs ∧
      (bs.foldl push l).Counted := by
  induction bs with
  | nil => exact fun h => ⟨rfl, (List.append_nil _).symm, h⟩
  | cons b bs ih =>
    intro l h
    obtain ⟨topic, committed, counted⟩ := ih (h.push b)
    refine ⟨topic, ?_, counted⟩
    rw [List.foldl_cons, committed, committed_push, List.append_assoc, List.singleton_append]

/-- The chain as it was with `k` committed blocks. -/
def upTo (l : Ledger) (k : Nat) : Ledger := ofBlocks l.topic (l.committed.take k)

theorem Counted.upTo_length (h : l.Counted) : l.upTo l.committed.length = l := by
  obtain ⟨topic, committed, counted⟩ := foldl_push l.committed (Counted.new l.topic)
  unfold upTo ofBlocks
  rw [List.take_length]
  exact counted.eq h topic committed

/-- **What has been appended** is the block, and it fits on the tip. -/
theorem append_eq_ok (h : l.append b = .ok l') :
    l' = l.push b ∧ b.topic = l.topic ∧ b.prevHash = l.tipHash := by
  unfold append at h
  split at h
  · cases h
  rename_i topic
  split at h
  · cases h
  rename_i tip
  split at h
  · cases h
  split at h
  · cases h
  rename_i v hv
  split at h
  · cases h
  · refine ⟨?_, Decidable.not_not.1 topic, Decidable.not_not.1 tip⟩
    rw [← Except.ok.inj h, push, hv]

theorem append_of {voter : String} (topic : b.topic = l.topic) (tip : b.prevHash = l.tipHash)
    (hash : b.computedHash = b.currentHash) (hv : b.voter = some voter) (fresh : l.isCommitted voter = false) :
    l.append b = .ok (l.push b) := by
  unfold append
  rw [if_neg (Decidable.not_not.2 topic), if_neg (Decidable.not_not.2 tip), if_neg (Decidable.not_not.2 hash), hv]
  simp [fresh, push, hv]

/-- **A block proposed on the tip is appended** if its voter is not committed. -/
theorem append_candidate (l : Ledger) {ballot : Ballot} (h : l.isCommitted ballot.voter = false) (fitness : UInt64)
    (round : UInt32) (origin : Origin) :
    l.append (Block.candidate l.tipHash ballot fitness round origin l.topic) =
      .ok (l.push (Block.candidate l.tipHash ballot fitness round origin l.topic)) :=
  append_of rfl rfl rfl rfl h

end Ledger

/-! ## Queues -/

/-- **A ballot that a queue shows is not committed.** -/
theorem BallotBuffer.not_committed_of_next {q q' : BallotBuffer} {l : Ledger} {ballot : Ballot}
    (h : q.nextUncommitted l = (some ballot, q')) : l.isCommitted ballot.voter = false := by
  have hm : ballot ∈ q.pending.filter (fun b => !l.isCommitted b.voter) :=
    List.mem_of_mem_head? (Prod.mk.inj h).1
  simpa using (List.mem_filter.1 hm).2

/-! ## Stashes -/

namespace RoundStash

theorem mem_foldl_add {l : List Block} {s : RoundStash} {b : Block} :
    b ∈ (l.foldl add s).held ↔ b ∈ s.held ∨ b ∈ l := by
  induction l generalizing s with
  | nil => simp
  | cons x l ih =>
    rw [List.foldl_cons, ih]
    simp [add, or_assoc]

theorem mem_take {s : RoundStash} {round : UInt32} {b : Block} :
    b ∈ (s.take round).1 ↔ b ∈ s.held ∧ b.round = round := by
  simp [take]

theorem held_take_subset (s : RoundStash) (round : UInt32) : ∀ b ∈ (s.take round).2.held, b ∈ s.held := by
  intro b hb
  exact (List.mem_filter.1 hb).1

end RoundStash

/-! ## Collectors -/

/-- **What an offer does**: nothing, or the first block of an origin in the round is counted. -/
theorem RoundCollector.offer_cases (c : RoundCollector) (b : Block) :
    (c.offer b).2 = c ∨ (b.round = c.round ∧ b.origin ∉ c.seen ∧
      (c.offer b).2 = { c with
        seen := b.origin :: c.seen
        received := c.received + 1
        best := if c.beats b then b else c.best }) := by
  unfold offer
  by_cases hr : b.round = c.round
  · rw [if_neg (Decidable.not_not.2 hr)]
    by_cases hs : c.seen.contains b.origin = true
    · rw [if_pos hs]
      exact .inl rfl
    · rw [if_neg hs]
      exact .inr ⟨hr, by simpa using hs, rfl⟩
  · rw [if_pos hr]
    exact .inl rfl

/-- Neither the round nor the number of blocks to wait for ever changes. -/
theorem RoundCollector.offer_fixed (c : RoundCollector) (b : Block) :
    (c.offer b).2.round = c.round ∧ (c.offer b).2.expectedRemote = c.expectedRemote := by
  rcases c.offer_cases b with he | ⟨-, -, he⟩ <;>
  · rw [he]
    exact ⟨rfl, rfl⟩

end GossipNode
