import Mathlib.Data.Finset.Card
import Mathlib.Data.List.Infix
import GossipNode.Proofs.Ledger.Chain
/-!
# The winner of a round

Which of the offered blocks count is said by looking back at the offers (`RoundCollector.Counts`): the first block of
every other origin in the round.  `RoundCollector.Wins` says who wins: the own block, unless a block that counts is on
the tip and fitter; then the first one of the fittest such blocks.

A stale block uses up the turn of its origin.  If every origin offers one block for the round, all of them count, and if
those on the tip differ in fitness there is one fittest.  So neither the order of the offers nor whose collector it is
makes a difference (`RoundCollector.fittest_wins`).
-/
namespace GossipNode
namespace RoundCollector

/-- The collector after blocks have been offered, one after another. -/
def offerAll (c : RoundCollector) (bs : List Block) : RoundCollector := bs.foldl (fun c b => (c.offer b).2) c

theorem offer_fst_eq_wrongRound_iff {c : RoundCollector} {b : Block} : (c.offer b).1 = .wrongRound ↔ b.round ≠ c.round := by
  unfold offer
  by_cases hr : b.round = c.round
  · by_cases hs : b.origin ∈ c.seen <;> simp [hr, hs]
  · simp [hr]

theorem offerAll_concat (c : RoundCollector) (bs : List Block) (b : Block) :
    c.offerAll (bs ++ [b]) = ((c.offerAll bs).offer b).2 := by
  simp [offerAll]

/-! ## What is to be expected -/

/-- A block counts if it is the first of another origin in the round. -/
structure Counts (own : Block) (before : List Block) (b : Block) : Prop where
  round : b.round = own.round
  other : b.origin ≠ own.origin
  first : ∀ x ∈ before, x.round = own.round → x.origin ≠ b.origin

structure Rivals (own : Block) (tip : BlockHash) (before : List Block) (b : Block) : Prop extends Counts own before b where
  onTip : b.prevHash = tip

/-- The origins other than the own one that have offered a block for the round. -/
def contributors (own : Block) (bs : List Block) : Finset Origin :=
  ((bs.filter (fun b => b.round = own.round)).map Block.origin).toFinset.erase own.origin

/-- **The winner of the round** after these offers. -/
inductive Wins (own : Block) (tip : BlockHash) (bs : List Block) : Block → Prop where
  | own (unbeaten : ∀ before b, before ++ [b] <+: bs → Rivals own tip before b → b.fitness ≤ own.fitness) : Wins own tip bs own
  | rival {before : List Block} {b : Block} (offered : before ++ [b] <+: bs) (rivals : Rivals own tip before b)
      (fitter : own.fitness < b.fitness)
      (fittest : ∀ before' x, before' ++ [x] <+: bs → Rivals own tip before' x → x.fitness ≤ b.fitness)
      (first : ∀ before' x, before' ++ [x] <+: before → Rivals own tip before' x → x.fitness < b.fitness) : Wins own tip bs b

/-- The blocks of a round that extend the tip. -/
def contenders (tip : BlockHash) (round : UInt32) (bs : List Block) : List Block :=
  bs.filter (fun b => b.round = round ∧ b.prevHash = tip)

variable {own b w : Block} {tip : BlockHash} {bs : List Block} {c : RoundCollector}

/-! ## One more offer -/

/-- No rival is fitter than the winner, nor is the own block. -/
theorem Wins.le (h : Wins own tip bs w) : own.fitness ≤ w.fitness ∧
    ∀ before x, before ++ [x] <+: bs → Rivals own tip before x → x.fitness ≤ w.fitness := by
  cases h with
  | own unbeaten => exact ⟨UInt64.le_refl _, unbeaten⟩
  | rival _ _ fitter fittest => exact ⟨UInt64.le_of_lt fitter, fittest⟩

theorem Wins.beaten (h : Wins own tip bs w) (rivals : Rivals own tip bs b) (fitter : w.fitness < b.fitness) :
    Wins own tip (bs ++ [b]) b := by
  obtain ⟨hown, hbs⟩ := h.le
  have earlier : ∀ before x, before ++ [x] <+: bs → Rivals own tip before x → x.fitness < b.fitness :=
    fun before x hx hr => UInt64.lt_of_le_of_lt (hbs before x hx hr) fitter
  refine .rival List.prefix_rfl rivals (UInt64.lt_of_le_of_lt hown fitter) (fun before x hx hr => ?_) earlier
  rcases List.prefix_concat_iff.1 hx with he | hx
  · obtain ⟨-, hb⟩ := List.append_inj' he rfl
    rw [(List.cons.inj hb).1]
    exact UInt64.le_refl _
  · exact UInt64.le_of_lt (earlier before x hx hr)

theorem Wins.unbeaten (h : Wins own tip bs w) (weak : Rivals own tip bs b → b.fitness ≤ w.fitness) :
    Wins own tip (bs ++ [b]) w := by
  have later : ∀ before x, before ++ [x] <+: bs ++ [b] → Rivals own tip before x → x.fitness ≤ w.fitness := by
    intro before x hx hr
    rcases List.prefix_concat_iff.1 hx with he | hx
    · obtain ⟨rfl, hb⟩ := List.append_inj' he rfl
      obtain rfl := (List.cons.inj hb).1
      exact weak hr
    · exact h.le.2 before x hx hr
  cases h with
  | own => exact .own later
  | rival offered rivals fitter _ first =>
    exact .rival (offered.trans (List.prefix_append _ _)) rivals fitter later first

/-! ## A whole round -/

/-- **What a collector has gathered** from the offers. -/
structure Gathered (own : Block) (tip : BlockHash) (bs : List Block) (c : RoundCollector) : Prop where
  round : c.round = own.round
  onTip : c.tip = tip
  seen : ∀ o, o ∈ c.seen ↔ o = own.origin ∨ ∃ x ∈ bs, x.round = own.round ∧ x.origin = o
  nodup : c.seen.Nodup
  received : c.seen.length = c.received + 1
  best : Wins own tip bs c.best

namespace Gathered

theorem counts_iff (h : Gathered own tip bs c) : Counts own bs b ↔ b.round = c.round ∧ b.origin ∉ c.seen := by
  rw [h.seen, h.round]
  constructor
  · rintro ⟨round, other, first⟩
    refine ⟨round, ?_⟩
    rintro (same | ⟨x, hx, hr, ho⟩)
    · exact other same
    · exact first x hx hr ho
  · rintro ⟨round, new⟩
    exact ⟨round, fun same => new (.inl same), fun x hx hr ho => new (.inr ⟨x, hx, hr, ho⟩)⟩

/-- **What the next offer is answered.** -/
theorem answer (h : Gathered own tip bs c) (b : Block) :
    ((c.offer b).1 = .counted ↔ Counts own bs b) ∧ ((c.offer b).1 = .wrongRound ↔ b.round ≠ own.round) := by
  rw [h.counts_iff, ← h.round]
  refine ⟨?_, offer_fst_eq_wrongRound_iff⟩
  unfold RoundCollector.offer
  by_cases hr : b.round = c.round
  · by_cases hs : b.origin ∈ c.seen <;> simp [hr, hs]
  · simp [hr]

theorem offer (h : Gathered own tip bs c) (b : Block) : Gathered own tip (bs ++ [b]) (c.offer b).2 := by
  rcases c.offer_cases b with he | ⟨hr, hs, he⟩
  · -- the block is dropped: it is of another round, or its origin has been seen
    rw [he]
    have dropped : ¬ Counts own bs b := by
      intro counts
      have grown := congrArg RoundCollector.received he
      obtain ⟨hr, hs⟩ := h.counts_iff.1 counts
      simp [RoundCollector.offer, hr, hs] at grown
    refine ⟨h.round, h.onTip, fun o => ?_, h.nodup, h.received, h.best.unbeaten (fun rivals => absurd rivals.toCounts dropped)⟩
    rw [h.seen]
    simp only [List.mem_append, List.mem_singleton]
    constructor
    · rintro (ho | ⟨x, hx, hxr, hxo⟩)
      · exact .inl ho
      · exact .inr ⟨x, .inl hx, hxr, hxo⟩
    · rintro (ho | ⟨x, hx | rfl, hxr, rfl⟩)
      · exact .inl ho
      · exact .inr ⟨x, hx, hxr, rfl⟩
      · by_contra new
        refine dropped (h.counts_iff.2 ⟨hxr.trans h.round.symm, fun hs => new ((h.seen _).1 hs)⟩)
  · have counts := h.counts_iff.2 ⟨hr, hs⟩
    rw [he]
    refine ⟨h.round, h.onTip, fun o => ?_, List.nodup_cons.2 ⟨hs, h.nodup⟩, by simp [h.received], ?_⟩
    · have same : b.round = own.round := counts.round
      simp only [List.mem_cons, h.seen, List.mem_append, List.not_mem_nil, or_false]
      constructor
      · rintro (rfl | ho | ⟨x, hx, hxr, hxo⟩)
        · exact .inr ⟨b, .inr rfl, same, rfl⟩
        · exact .inl ho
        · exact .inr ⟨x, .inl hx, hxr, hxo⟩
      · rintro (ho | ⟨x, hx | rfl, hxr, rfl⟩)
        · exact .inr (.inl ho)
        · exact .inr (.inr ⟨x, hx, hxr, rfl⟩)
        · exact .inl rfl
    · by_cases beats : c.beats b = true
      · simp only [beats, if_true]
        simp only [RoundCollector.beats, Bool.and_eq_true, beq_iff_eq, decide_eq_true_eq] at beats
        exact h.best.beaten ⟨counts, beats.1.trans h.onTip⟩ beats.2
      · simp only [beats, Bool.false_eq_true, if_false]
        refine h.best.unbeaten (fun rivals => UInt64.not_lt.1 (fun hlt => beats ?_))
        simp [RoundCollector.beats, rivals.onTip, h.onTip, hlt]

theorem card_contributors (h : Gathered own tip bs c) : c.received = (contributors own bs).card := by
  have all : c.seen.toFinset = insert own.origin (contributors own bs) := by
    ext o
    simp only [List.mem_toFinset, h.seen, contributors, Finset.mem_insert, Finset.mem_erase, List.mem_map, List.mem_filter,
      decide_eq_true_eq]
    by_cases ho : o = own.origin
    · simp [ho]
    · simp [ho, and_assoc]
  have count := congrArg Finset.card all
  rw [List.toFinset_card_of_nodup h.nodup, h.received, Finset.card_insert_of_notMem (by simp [contributors])] at count
  omega

end Gathered

theorem gathered_offerAll (own : Block) (tip : BlockHash) (expected : Nat) (bs : List Block) :
    Gathered own tip bs ((new own tip expected).offerAll bs) := by
  induction bs using List.reverseRecOn with
  | nil => exact ⟨rfl, rfl, by simp [offerAll, new], List.nodup_singleton _, rfl, .own (by simp)⟩
  | append_singleton bs b ih =>
    rw [offerAll_concat]
    exact ih.offer b

theorem expected_offerAll (c : RoundCollector) (bs : List Block) : (c.offerAll bs).expectedRemote = c.expectedRemote := by
  induction bs generalizing c with
  | nil => rfl
  | cons b bs ih => exact (ih _).trans (c.offer_fixed b).2

/-! ## Every order -/

/-- **Where every origin offers one block for the round, the winner is the fittest of those on the tip.** -/
theorem Wins.fittest (h : Wins own tip bs w) (onTip : own.prevHash = tip)
    (once : (((own :: bs).filter (fun b => b.round = own.round)).map Block.origin).Nodup) :
    w ∈ contenders tip own.round (own :: bs) ∧ ∀ x ∈ contenders tip own.round (own :: bs), x.fitness ≤ w.fitness := by
  constructor
  · cases h with
    | own => simp [contenders, onTip]
    | rival offered rivals =>
      have hw : w ∈ bs := offered.subset (by simp)
      simp [contenders, hw, rivals.round, rivals.onTip]
  · intro x hx
    simp only [contenders, List.mem_filter, List.mem_cons, decide_eq_true_eq] at hx
    obtain ⟨rfl | hx, round, tip⟩ := hx
    · exact h.le.1
    -- nothing before the block is of its origin, so it counts
    obtain ⟨before, after, rfl⟩ := List.append_of_mem hx
    refine h.le.2 before x ⟨after, by simp⟩ ⟨⟨round, ?_, ?_⟩, tip⟩
    all_goals simp only [List.filter_cons, List.filter_append, round, decide_true, if_true, List.map_cons, List.map_append,
      List.nodup_cons, List.nodup_append, List.mem_append, List.mem_cons] at once
    · exact fun same => once.1 (.inr (.inl same.symm))
    · intro y hy hr
      exact once.2.2.2 y.origin (List.mem_map_of_mem (List.mem_filter.2 ⟨hy, by simpa using hr⟩)) x.origin (.inl rfl)

theorem Wins.unique {own' w' : Block} {bs' : List Block} (h : Wins own tip bs w) (h' : Wins own' tip bs' w')
    (onTip : own.prevHash = tip) (onTip' : own'.prevHash = tip) (round : own'.round = own.round)
    (perm : (own :: bs).Perm (own' :: bs'))
    (once : (((own :: bs).filter (fun b => b.round = own.round)).map Block.origin).Nodup)
    (distinct : ((contenders tip own.round (own :: bs)).map Block.fitness).Nodup) : w = w' := by
  have same : (contenders tip own.round (own :: bs)).Perm (contenders tip own.round (own' :: bs')) := perm.filter _
  obtain ⟨hw, fittest⟩ := h.fittest onTip once
  obtain ⟨hw', fittest'⟩ := h'.fittest onTip' (by
    rw [round]
    exact ((perm.filter _).map _).nodup_iff.1 once)
  rw [round] at hw' fittest'
  have hw' := same.mem_iff.2 hw'
  exact List.inj_on_of_nodup_map distinct hw hw' (UInt64.le_antisymm (fittest' w (same.mem_iff.1 hw)) (fittest w' hw'))

/-- **The fittest block wins its round.**  Whatever blocks have been offered to the collector of an own block that extends
the tip: the next one counts if it is the first of another origin in the round, and is refused as one of another round if
it is one; the number received is that of the origins that have contributed, and the round is complete when that is large
enough; the winner is the own block or, if one is fitter, the first of the fittest that count and extend the tip.  If every
origin offers one block for the round and those on the tip differ in fitness, the same block wins whatever the order, and
whichever of those on the tip is the own one. -/
theorem fittest_wins (own : Block) (tip : BlockHash) (expected : Nat) (bs : List Block) (onTip : own.prevHash = tip) :
    let c := (new own tip expected).offerAll bs
    (∀ b, ((c.offer b).1 = .counted ↔ Counts own bs b) ∧ ((c.offer b).1 = .wrongRound ↔ b.round ≠ own.round)) ∧
    c.received = (contributors own bs).card ∧ (c.isComplete = true ↔ expected ≤ (contributors own bs).card) ∧
    Wins own tip bs c.winner ∧
    ∀ own' bs' expected', own'.prevHash = tip → own'.round = own.round → (own :: bs).Perm (own' :: bs') →
      (((own :: bs).filter (fun b => b.round = own.round)).map Block.origin).Nodup →
      ((contenders tip own.round (own :: bs)).map Block.fitness).Nodup →
      ((new own' tip expected').offerAll bs').winner = c.winner := by
  intro c
  have gathered : Gathered own tip bs c := gathered_offerAll own tip expected bs
  have expect : c.expectedRemote = expected := expected_offerAll _ bs
  refine ⟨gathered.answer, gathered.card_contributors, ?_, gathered.best, ?_⟩
  · rw [isComplete, decide_eq_true_eq, expect, gathered.card_contributors]
  · intro own' bs' expected' onTip' round perm once distinct
    have best' := (gathered_offerAll own' tip expected' bs').best
    exact (gathered.best.unique best' onTip onTip' round perm once distinct).symm

/-- A stale block of b is the fittest and takes b's turn, and of c and d, which tie, c wins.  Without the tie d wins, also
for d itself and with the offers turned round. -/
theorem fittest_wins_stale_and_tied :
    let tip := Word256.zero
    let block (origin : String) (fitness : UInt64) (round : UInt32) (prev : BlockHash) : Block :=
      ⟨prev, Word256.zero, fitness, round, ⟨origin⟩, "council", none⟩
    let stale := block "b" 99 2 genesisHash
    let own := block "a" 5 2 tip
    let tied := [stale, block "b" 50 2 tip, block "c" 7 2 tip, block "e" 80 3 tip, block "d" 7 2 tip]
    let fittest := block "d" 9 2 tip
    own.prevHash = tip ∧ (own :: [stale, block "c" 7 2 tip, fittest]).Perm (fittest :: [block "c" 7 2 tip, stale, own]) ∧
    ((new own tip 3).offerAll tied).received = 3 ∧ ((new own tip 3).offerAll tied).isComplete = true ∧
    ((new own tip 3).offerAll tied).winner = block "c" 7 2 tip ∧
    ((new fittest tip 3).offerAll [block "c" 7 2 tip, stale, own]).winner = fittest := by
  intro tip block stale own tied fittest
  have perm : (own :: [stale, block "c" 7 2 tip, fittest]).Perm (fittest :: [block "c" 7 2 tip, stale, own]) := by
    decide +kernel
  obtain ⟨-, received, complete, -, -⟩ := fittest_wins own tip 3 tied rfl
  obtain ⟨-, -, -, -, anyOrder⟩ := fittest_wins own tip 3 [stale, block "c" 7 2 tip, fittest] rfl
  refine ⟨rfl, perm, ?_, ?_, ?_, ?_⟩
  · rw [received]
    decide +kernel
  · rw [complete]
    decide +kernel
  · decide +kernel
  · rw [anyOrder fittest _ 3 rfl rfl perm (by decide +kernel) (by decide +kernel)]
    decide +kernel

end RoundCollector
end GossipNode
