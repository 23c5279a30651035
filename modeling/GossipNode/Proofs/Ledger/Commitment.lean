import Mathlib.Data.List.Forall2
import GossipNode.Proofs.Ledger.Validity
/-!
# A tip commits to its chain

The hash on the tip is all that one has to know of a chain.  `clash?` walks two chains back from their tips, through the
strings of octets that were hashed for them, to the first two that differ.  If the tips are equal, these two have the same
digest; and where no two differ, the chains have the same blocks, up to what no hash covers (`tip_commits_to_chain`).  So
whoever has another history under a known tip has a collision of the hash with it.

Topic, round, fitness and origin are not covered, and of a ballot only the two hashes, as one string: where the first ends
is not.
-/
namespace GossipNode

open Hash

/-- What is hashed for a block: for its link to the block before, then for its ballot.  Genesis hashes nothing. -/
def Block.hashed (b : Block) : List Bytes :=
  match b.ballot with
  | some ballot => [linkContent b.prevHash ballot, ballot.content]
  | none => [[]]

theorem linkContent_inj {prev prev' : BlockHash} {x y : Ballot} (h : linkContent prev x = linkContent prev' y) :
    prev = prev' ∧ x.digest = y.digest := by
  obtain ⟨hprev, hdigest⟩ := List.append_inj h (by simp)
  exact ⟨Word256.ext hprev, Word256.ext hdigest⟩

theorem linkContent_ne_nil (prev : BlockHash) (b : Ballot) : linkContent prev b ≠ [] := by
  intro h
  have := congrArg List.length h
  simp [linkContent] at this

namespace Ledger

/-- **A chain that has come about** by appending to a new one. -/
inductive Built : Ledger → Prop where
  | new (topic : String) : Built (new topic)
  | append {l l' : Ledger} {b : Block} (h : Built l) (appended : l.append b = .ok l') : Built l'

/-- All that has been hashed for a chain, the latest first. -/
def trail (l : Ledger) : List Bytes := l.blocks.reverse.flatMap Block.hashed

/-- The first two strings, seen from the tips, in which the trails of two chains differ. -/
def clash? (l l' : Ledger) : Option (Bytes × Bytes) := (l.trail.zip l'.trail).find? (fun p => p.1 != p.2)

/-- **The same chain as far as hashes tell**: as many blocks, and each with the same hash and the same octets of a ballot. -/
def Matches (l l' : Ledger) : Prop :=
  List.Forall₂ (fun b b' => b.currentHash = b'.currentHash ∧ b.ballot.map Ballot.content = b'.ballot.map Ballot.content)
    l.blocks l'.blocks

/-- Two strings that were hashed for the two chains and have one digest. -/
structure Collides (l l' : Ledger) (x y : Bytes) : Prop where
  left : x ∈ l.trail
  right : y ∈ l'.trail
  differ : x ≠ y
  digest : sha256 x = sha256 y

variable {l l' : Ledger} {b b' : Block} {x y : Bytes}

/-! ## One block -/

theorem trail_push (l : Ledger) {ballot : Ballot} (h : b.ballot = some ballot) :
    (l.push b).trail = linkContent b.prevHash ballot :: ballot.content :: l.trail := by
  simp [trail, blocks_push, Block.hashed, h]

/-- **What an appended block shows**: it has a ballot, stands on the tip, and its hash is the digest of both. -/
theorem Appendable.link (h : l.Appendable b) : ∃ ballot, b.ballot = some ballot ∧ b.prevHash = l.tipHash ∧
    (l.push b).tipHash = sha256 (linkContent b.prevHash ballot) := by
  obtain ⟨v, hv, -⟩ := h.voter
  obtain ⟨ballot, hballot, -⟩ := Option.map_eq_some_iff.1 hv
  refine ⟨ballot, hballot, h.tip, ?_⟩
  rw [tipHash, tip_push, h.hash, Block.computedHash, hballot]
  rfl

theorem appendable_of_append (h : l.append b = .ok l') : l.Appendable b ∧ l' = l.push b := by
  rcases l.append_cases b with ⟨appendable, he⟩ | ⟨e, -, he⟩
  · rw [he] at h
    exact ⟨appendable, (Except.ok.inj h).symm⟩
  · rw [he] at h
    cases h

/-- A chain that has come about is new, or has a block more than another. -/
theorem Built.cases (h : Built l) :
    (∃ topic, l = Ledger.new topic) ∨ ∃ l₀ b, Built l₀ ∧ l₀.Appendable b ∧ l = l₀.push b := by
  cases h with
  | new topic => exact .inl ⟨topic, rfl⟩
  | @append l₀ _ b built appended =>
    obtain ⟨hb, rfl⟩ := appendable_of_append appended
    exact .inr ⟨l₀, b, built, hb, rfl⟩

theorem Matches.push (h : l.Matches l') (hash : b.currentHash = b'.currentHash)
    (ballot : b.ballot.map Ballot.content = b'.ballot.map Ballot.content) : (l.push b).Matches (l'.push b') := by
  rw [Matches, blocks_push, blocks_push]
  exact List.rel_append h (.cons ⟨hash, ballot⟩ .nil)

theorem Collides.push (h : l.Collides l' x y) (hb : l.Appendable b) (hb' : l'.Appendable b') :
    (l.push b).Collides (l'.push b') x y := by
  obtain ⟨ballot, hballot, -⟩ := hb.link
  obtain ⟨ballot', hballot', -⟩ := hb'.link
  refine ⟨?_, ?_, h.differ, h.digest⟩
  · rw [trail_push l hballot]
    exact List.mem_cons_of_mem _ (List.mem_cons_of_mem _ h.left)
  · rw [trail_push l' hballot']
    exact List.mem_cons_of_mem _ (List.mem_cons_of_mem _ h.right)

/-! ## Whole chains -/

/-- A new chain has hashed nothing but the empty string, and no block is linked by that. -/
theorem compare_new_push (topic : String) (hb : l.Appendable b) (tips : (new topic).tipHash = (l.push b).tipHash) :
    ∃ y, y ≠ [] ∧ (new topic).clash? (l.push b) = some ([], y) ∧ (l.push b).clash? (new topic) = some (y, []) ∧
      y ∈ (l.push b).trail ∧ sha256 [] = sha256 y := by
  obtain ⟨ballot, hballot, -, hash⟩ := hb.link
  have trail := l.trail_push hballot
  have differ := linkContent_ne_nil b.prevHash ballot
  have new : (new topic).trail = [[]] := rfl
  refine ⟨linkContent b.prevHash ballot, differ, ?_, ?_, ?_, tips.trans hash⟩
  · simp [clash?, trail, new, differ.symm]
  · simp [clash?, trail, new, differ]
  · rw [trail]
    exact List.mem_cons_self

/-- **The last blocks under equal tips** clash themselves, or else link to equal tips and leave the comparison to what is
before them. -/
theorem compare_push_push (hb : l.Appendable b) (hb' : l'.Appendable b') (tips : (l.push b).tipHash = (l'.push b').tipHash) :
    (∃ x y, (l.push b).clash? (l'.push b') = some (x, y) ∧ (l.push b).Collides (l'.push b') x y) ∨
    (l.tipHash = l'.tipHash ∧ (l.push b).clash? (l'.push b') = l.clash? l' ∧
      (l.Matches l' → (l.push b).Matches (l'.push b'))) := by
  obtain ⟨ballot, hballot, prev, hash⟩ := hb.link
  obtain ⟨ballot', hballot', prev', hash'⟩ := hb'.link
  have trail := l.trail_push hballot
  have trail' := l'.trail_push hballot'
  by_cases links : linkContent b.prevHash ballot = linkContent b'.prevHash ballot'
  · obtain ⟨same, digests⟩ := linkContent_inj links
    by_cases contents : ballot.content = ballot'.content
    · refine .inr ⟨prev.symm.trans (same.trans prev'), ?_, fun h => h.push ?_ ?_⟩
      · simp [clash?, trail, trail', links, contents]
      · simpa [tipHash, tip_push] using tips
      · rw [hballot, hballot', Option.map_some, Option.map_some, contents]
    · refine .inl ⟨ballot.content, ballot'.content, ?_, ?_, ?_, contents, digests⟩
      · simp [clash?, trail, trail', links, contents]
      · simp [trail]
      · simp [trail']
  · refine .inl ⟨linkContent b.prevHash ballot, linkContent b'.prevHash ballot', ?_, ?_, ?_, links, ?_⟩
    · simp [clash?, trail, trail', links]
    · simp [trail]
    · simp [trail']
    · rw [← hash, ← hash', tips]

/-- **A tip commits to its chain.**  Take two chains that have come about, of any topics, whose tips have the same hash.
Either they have as many blocks, each with the same hash and the same octets of a ballot; or going back from the tips one
comes to two different strings of octets, hashed for the one and for the other chain, that have the same digest. -/
theorem tip_commits_to_chain (built : Built l) (built' : Built l') (tips : l.tipHash = l'.tipHash) :
    (l.clash? l' = none ∧ l.Matches l') ∨ ∃ x y, l.clash? l' = some (x, y) ∧ l.Collides l' x y := by
  -- back from the tips, along the first chain; the second may be at its genesis earlier or later
  induction built generalizing l' with
  | new topic =>
    rcases built'.cases with ⟨topic', rfl⟩ | ⟨l₁, b', -, hb', rfl⟩
    · exact .inl ⟨rfl, .cons ⟨rfl, rfl⟩ .nil⟩
    · obtain ⟨y, differ, clash, -, mem, digest⟩ := compare_new_push topic hb' tips
      exact .inr ⟨[], y, clash, List.mem_singleton.2 rfl, mem, differ.symm, digest⟩
  | @append l₀ l b built appended ih =>
    obtain ⟨hb, rfl⟩ := appendable_of_append appended
    rcases built'.cases with ⟨topic', rfl⟩ | ⟨l₁, b', before, hb', rfl⟩
    · obtain ⟨y, differ, -, clash, mem, digest⟩ := compare_new_push topic' hb tips.symm
      exact .inr ⟨y, [], clash, mem, List.mem_singleton.2 rfl, differ, digest.symm⟩
    · rcases compare_push_push hb hb' tips with found | ⟨earlier, clash, grow⟩
      · exact .inr found
      · rw [clash]
        rcases ih before earlier with ⟨none, same⟩ | ⟨x, y, found, collides⟩
        · exact .inl ⟨none, grow same⟩
        · exact .inr ⟨x, y, found, collides.push hb hb'⟩

/-- Two voters' blocks of two topics, of whose hashes the first ends at different places. -/
theorem tip_commits_to_chain_two_topics :
    let b := Block.candidate genesisHash ⟨"v", "ab", "cd"⟩ 1 1 ⟨"n"⟩ "eu"
    let b' := Block.candidate genesisHash ⟨"w", "a", "bcd"⟩ 2 1 ⟨"m"⟩ "us"
    let l := (new "eu").push b
    let l' := (new "us").push b'
    Built l ∧ Built l' ∧ l.tipHash = l'.tipHash ∧ l.tip.ballot ≠ l'.tip.ballot ∧
      ((l.clash? l' = none ∧ l.Matches l') ∨ ∃ x y, l.clash? l' = some (x, y) ∧ l.Collides l' x y) := by
  intro b b' l l'
  have built : Built l := (Built.new "eu").append (append_candidate (new "eu") rfl 1 1 ⟨"n"⟩)
  have built' : Built l' := (Built.new "us").append (append_candidate (new "us") rfl 2 1 ⟨"m"⟩)
  have same : (⟨"v", "ab", "cd"⟩ : Ballot).content = (⟨"w", "a", "bcd"⟩ : Ballot).content := by decide
  have tips : l.tipHash = l'.tipHash := by
    show contentHash genesisHash _ = contentHash genesisHash _
    unfold contentHash linkContent Ballot.digest
    rw [same]
  exact ⟨built, built', tips, by decide, tip_commits_to_chain built built' tips⟩

end Ledger
end GossipNode
