import Mathlib.Data.List.Chain
import GossipNode.Proofs.Ledger.Chain
/-!
# Chains stay valid

Blocks are offered to the chain of a topic, one after another and whatever they are.  A chain takes a block exactly when
it is `Appendable`; else it names the first condition that fails (`Refused`) and stays as it is.  So every chain that can
come about is valid: it is linked and hashed from genesis on, and no voter has two blocks (`chains_stay_valid`).
-/
namespace GossipNode
namespace Ledger

/-- What a chain answers to a block, if it refuses it, and the chain after that. -/
def offer (l : Ledger) (b : Block) : Option LedgerError × Ledger :=
  match l.append b with
  | .ok l' => (none, l')
  | .error e => (some e, l)

def offerAll (l : Ledger) (bs : List Block) : Ledger := bs.foldl (fun l b => (l.offer b).2) l

/-! ## What is appended -/

structure Appendable (l : Ledger) (b : Block) : Prop where
  topic : b.topic = l.topic
  tip : b.prevHash = l.tipHash
  hash : b.currentHash = b.computedHash
  voter : ∃ v, b.voter = some v ∧ l.isCommitted v = false

/-- **Why a block is refused**: the first condition that fails. -/
inductive Refused (l : Ledger) (b : Block) : LedgerError → Prop where
  | wrongTopic (topic : b.topic ≠ l.topic) : Refused l b (.wrongTopic l.topic b.topic)
  | notOnTip (topic : b.topic = l.topic) (tip : b.prevHash ≠ l.tipHash) : Refused l b (.notOnTip b.prevHash l.tipHash)
  | hashMismatch (topic : b.topic = l.topic) (tip : b.prevHash = l.tipHash) (hash : b.currentHash ≠ b.computedHash) :
    Refused l b (.hashMismatch b.currentHash b.computedHash)
  | missingBallot (topic : b.topic = l.topic) (tip : b.prevHash = l.tipHash) (hash : b.currentHash = b.computedHash)
      (voter : b.ballot = none) : Refused l b .missingBallot
  | alreadyCommitted (topic : b.topic = l.topic) (tip : b.prevHash = l.tipHash) (hash : b.currentHash = b.computedHash)
      {v : String} (voter : b.voter = some v) (committed : l.isCommitted v = true) : Refused l b (.alreadyCommitted v)

variable {l : Ledger} {b : Block}

theorem Refused.not_appendable {e : LedgerError} (h : l.Refused b e) : ¬ l.Appendable b := by
  rintro ⟨topic, tip, hash, v, hv, fresh⟩
  cases h with
  | wrongTopic h => exact h topic
  | notOnTip _ h => exact h tip
  | hashMismatch _ _ h => exact h hash
  | missingBallot _ _ _ h => simp [Block.voter, h] at hv
  | alreadyCommitted _ _ _ hv' committed =>
    obtain rfl := Option.some.inj (hv.symm.trans hv')
    rw [fresh] at committed
    cases committed

/-- The conditions before the first that fails hold, so no other condition is the first. -/
theorem Refused.unique {e e' : LedgerError} (h : l.Refused b e) (h' : l.Refused b e') : e = e' := by
  cases h <;> cases h' <;> grind [Block.voter]

/-- **The conditions are looked at in their order.** -/
theorem append_cases (l : Ledger) (b : Block) :
    (l.Appendable b ∧ l.append b = .ok (l.push b)) ∨ ∃ e, l.Refused b e ∧ l.append b = .error e := by
  unfold append
  by_cases topic : b.topic = l.topic
  · rw [if_neg (not_not.2 topic)]
    by_cases tip : b.prevHash = l.tipHash
    · rw [if_neg (not_not.2 tip)]
      by_cases hash : b.computedHash = b.currentHash
      · rw [if_neg (not_not.2 hash)]
        cases hv : b.voter with
        | none => exact .inr ⟨_, .missingBallot topic tip hash.symm (Option.map_eq_none_iff.1 hv), rfl⟩
        | some v =>
          cases committed : l.isCommitted v with
          | true => exact .inr ⟨_, .alreadyCommitted topic tip hash.symm hv committed, by simp [committed]⟩
          | false => exact .inl ⟨⟨topic, tip, hash.symm, v, hv, committed⟩, by simp [committed, push, hv]⟩
      · rw [if_pos hash]
        exact .inr ⟨_, .hashMismatch topic tip (Ne.symm hash), rfl⟩
    · rw [if_pos tip]
      exact .inr ⟨_, .notOnTip topic tip, rfl⟩
  · rw [if_pos topic]
    exact .inr ⟨_, .wrongTopic topic, rfl⟩

theorem offer_cases (l : Ledger) (b : Block) :
    (l.Appendable b ∧ l.offer b = (none, l.push b)) ∨ ∃ e, l.Refused b e ∧ l.offer b = (some e, l) := by
  unfold offer
  rcases l.append_cases b with ⟨h, he⟩ | ⟨e, h, he⟩
  · exact .inl ⟨h, by rw [he]⟩
  · exact .inr ⟨e, h, by rw [he]⟩

theorem offer_fst_eq_none_iff : (l.offer b).1 = none ↔ l.Appendable b := by
  rcases l.offer_cases b with ⟨h, he⟩ | ⟨e, h, he⟩
  · simp [he, h]
  · simp [he, h.not_appendable]

theorem offer_fst_eq_some_iff {e : LedgerError} : (l.offer b).1 = some e ↔ l.Refused b e := by
  constructor
  · intro h
    rcases l.offer_cases b with ⟨-, he⟩ | ⟨e', refused, he⟩
    · rw [he] at h
      cases h
    · rw [he] at h
      obtain rfl := Option.some.inj h
      exact refused
  · intro h
    rcases l.offer_cases b with ⟨appendable, -⟩ | ⟨e', refused, he⟩
    · exact absurd appendable h.not_appendable
    · rw [he, refused.unique h]

/-! ## Tips -/

theorem blocks_push (l : Ledger) (b : Block) : (l.push b).blocks = l.blocks ++ [b] := rfl

theorem tip_push (l : Ledger) (b : Block) : (l.push b).tip = b := by
  simp [tip, push]

theorem getLast?_blocks (l : Ledger) : l.blocks.getLast? = some l.tip := by
  simp [blocks, tip, List.getLast?_cons]

/-! ## Runs -/

/-- **A valid chain**, oldest block first. -/
structure Valid (topic : String) (blocks : List Block) : Prop where
  genesis : blocks.head? = some (Block.genesis topic)
  linked : blocks.IsChain (fun b c => c.prevHash = b.currentHash)
  sealed : ∀ b ∈ blocks.tail, b.currentHash = b.computedHash ∧ b.topic = topic ∧ b.ballot.isSome = true
  voters : blocks.tail.Pairwise (fun b c => b.voter ≠ c.voter)

theorem Valid.new (topic : String) : Valid topic (new topic).blocks where
  genesis := rfl
  linked := List.IsChain.singleton _
  sealed _ hb := nomatch hb
  voters := List.Pairwise.nil

theorem Valid.push (h : Valid l.topic l.blocks) (counted : l.Counted) (hb : l.Appendable b) :
    Valid l.topic (l.push b).blocks where
  genesis := rfl
  linked := by
    rw [blocks_push, List.isChain_append]
    refine ⟨h.linked, List.IsChain.singleton _, fun c hc d hd => ?_⟩
    rw [getLast?_blocks] at hc
    obtain rfl := Option.some.inj hc
    obtain rfl := Option.some.inj hd
    exact hb.tip
  sealed c hc := by
    rcases List.mem_append.1 (show c ∈ l.committed ++ [b] from hc) with hc | hc
    · exact h.sealed c hc
    · obtain rfl := List.mem_singleton.1 hc
      obtain ⟨v, hv, -⟩ := hb.voter
      exact ⟨hb.hash, hb.topic, Option.isSome_map ▸ Option.isSome_of_eq_some hv⟩
  voters := by
    -- what the chain looks at is its set of voters, and these are the voters of its blocks
    refine List.pairwise_append.2 ⟨h.voters, List.pairwise_singleton _ _, fun c hc d hd same => ?_⟩
    obtain rfl := List.mem_singleton.1 hd
    obtain ⟨v, hv, fresh⟩ := hb.voter
    have committed := (counted v).2 ⟨c, hc, same.trans hv⟩
    rw [fresh] at committed
    cases committed

/-- **A chain of a topic that is in order**: valid, with the voters of its blocks committed. -/
structure Sound (topic : String) (l : Ledger) : Prop where
  named : l.topic = topic
  valid : Valid topic l.blocks
  counted : l.Counted

variable {topic : String}

theorem Sound.new (topic : String) : Sound topic (new topic) := ⟨rfl, .new topic, .new topic⟩

/-- **One block**: the chain stays in order and begins as it was. -/
theorem Sound.offer (h : Sound topic l) (b : Block) : Sound topic (l.offer b).2 ∧ l.blocks <+: (l.offer b).2.blocks := by
  rcases l.offer_cases b with ⟨hb, he⟩ | ⟨e, -, he⟩
  · rw [he]
    obtain ⟨rfl, valid, counted⟩ := h
    exact ⟨⟨rfl, valid.push counted hb, counted.push b⟩, List.prefix_append _ _⟩
  · rw [he]
    exact ⟨h, List.prefix_rfl⟩

theorem Sound.offerAll (bs : List Block) : ∀ {l : Ledger}, Sound topic l →
    Sound topic (l.offerAll bs) ∧ l.blocks <+: (l.offerAll bs).blocks := by
  induction bs with
  | nil => exact fun h => ⟨h, List.prefix_rfl⟩
  | cons b bs ih =>
    intro l h
    obtain ⟨sound, grown⟩ := h.offer b
    obtain ⟨sound', grown'⟩ := ih sound
    exact ⟨sound', grown.trans grown'⟩

theorem offerAll_append (l : Ledger) (bs more : List Block) : l.offerAll (bs ++ more) = (l.offerAll bs).offerAll more :=
  List.foldl_append

/-- **Chains stay valid.**  Whatever blocks have been offered to the new chain of a topic: the chain is valid, and a voter
is committed exactly if one of its blocks has the voter's ballot.  It takes a block exactly when the block is appendable,
which puts the block on the tip and commits its voter; it refuses it for the first reason there is, which changes nothing.
So what the chain has been is a beginning of what it becomes. -/
theorem chains_stay_valid (topic : String) (bs : List Block) :
    let l := (new topic).offerAll bs
    Valid topic l.blocks ∧ (∀ v, l.isCommitted v = true ↔ ∃ b ∈ l.committed, b.voter = some v) ∧
    (∀ b, ((l.offer b).1 = none ↔ l.Appendable b) ∧ (∀ e, (l.offer b).1 = some e ↔ l.Refused b e) ∧
      ((l.offer b).1 = none → (l.offer b).2.blocks = l.blocks ++ [b] ∧ (l.offer b).2.tip = b ∧
        ∀ v, (l.offer b).2.isCommitted v = true ↔ l.isCommitted v = true ∨ b.voter = some v) ∧
      ((l.offer b).1 ≠ none → (l.offer b).2 = l)) ∧
    ∀ more, l.blocks <+: ((new topic).offerAll (bs ++ more)).blocks := by
  intro l
  obtain ⟨sound, -⟩ := (Sound.new topic).offerAll bs
  refine ⟨sound.valid, sound.counted, fun b => ⟨offer_fst_eq_none_iff, fun e => offer_fst_eq_some_iff, ?_, ?_⟩,
    fun more => ?_⟩
  · intro taken
    rcases l.offer_cases b with ⟨-, he⟩ | ⟨e, -, he⟩
    · rw [he]
      exact ⟨l.blocks_push b, l.tip_push b, fun v => isCommitted_push⟩
    · rw [he] at taken
      cases taken
  · intro refused
    rcases l.offer_cases b with ⟨-, he⟩ | ⟨e, -, he⟩
    · exact absurd (by rw [he]) refused
    · rw [he]
  · rw [offerAll_append]
    exact (sound.offerAll more).2

end Ledger
end GossipNode
