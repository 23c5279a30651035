import Mathlib.Data.Finset.Card
import Mathlib.Data.Fintype.Card
import GossipNode.Proofs.Ledger.Chain
/-!
# Rounds of a topic

A `Contest` is what a topic's rounds depend on: what the nodes are called, their chains, and the blocks that have been
proposed.  It is `Fair` if every block was proposed by a node that could have appended it, no node has proposed twice
for a round, no two blocks of a round tie, and every block of a chain has won its round.  Winning is durable: a block
has won if every node has a block in its round that is no fitter.

In a fair contest a round has one winner (`Fair.eq_of_wins`), so chains agree as far as they both go
(`Fair.upTo_eq`), so every block of a round is on the tip of whoever has got to that round, and can be appended there
(`Fair.append_eq_ok`).  A collector that is complete holds the winner (`Collecting.wins`).
-/
namespace GossipNode

structure Contest (ι : Type) where
  names : ι → Origin
  ledgers : ι → Ledger
  proposed : Block → Prop

namespace Contest

variable {ι : Type}

def chain (w : Contest ι) (i : ι) : List Block := (w.ledgers i).committed

/-- A node could append the block to its chain, as it was at the start of the block's round. -/
def Rooted (w : Contest ι) (b : Block) : Prop :=
  ∃ i k, b.origin = w.names i ∧ b.round.toNat = k + 1 ∧ k ≤ (w.chain i).length ∧
    ((w.ledgers i).upTo k).append b = .ok (((w.ledgers i).upTo k).push b)

/-- Every node has a block in the round that is no fitter. -/
def Wins (w : Contest ι) (b : Block) : Prop :=
  w.proposed b ∧ ∀ i, ∃ b', w.proposed b' ∧ b'.origin = w.names i ∧ b'.round = b.round ∧ b'.fitness ≤ b.fitness

/-- No two blocks of a round have the same fitness. -/
def Untied (w : Contest ι) : Prop :=
  ∀ b b', w.proposed b → w.proposed b' → b.round = b'.round → b.fitness = b'.fitness → b = b'

structure Fair (w : Contest ι) : Prop where
  topic : ∀ i j, (w.ledgers i).topic = (w.ledgers j).topic
  counted : ∀ i, (w.ledgers i).Counted
  rooted : ∀ b, w.proposed b → w.Rooted b
  unique : ∀ b b', w.proposed b → w.proposed b' → b.origin = b'.origin → b.round = b'.round → b = b'
  untied : w.Untied
  won : ∀ i k b, (w.chain i)[k]? = some b → b.round.toNat = k + 1 ∧ w.Wins b

variable {w : Contest ι} {i j : ι}

namespace Fair

/-- A winner is as fit as any block of its round. -/
theorem fitness_le (h : w.Fair) {b b' : Block} (hb : w.Wins b) (hb' : w.proposed b') (hr : b'.round = b.round) :
    b'.fitness ≤ b.fitness := by
  obtain ⟨j, k, hj, -⟩ := h.rooted b' hb'
  obtain ⟨x, hx, ho, hxr, hle⟩ := hb.2 j
  obtain rfl : x = b' := h.unique x b' hx hb' (ho.trans hj.symm) (hxr.trans hr.symm)
  exact hle

/-- **A round has one winner.** -/
theorem eq_of_wins (h : w.Fair) {b b' : Block} (hb : w.Wins b) (hb' : w.Wins b') (hr : b.round = b'.round) : b = b' := by
  have h1 := h.fitness_le hb hb'.1 hr.symm
  have h2 := h.fitness_le hb' hb.1 hr
  exact h.untied b b' hb.1 hb'.1 hr (UInt64.le_antisymm h2 h1)

/-- **Chains agree** as far as they both go. -/
theorem take_chain_eq (h : w.Fair) {k : Nat} (hi : k ≤ (w.chain i).length) (hj : k ≤ (w.chain j).length) :
    (w.chain i).take k = (w.chain j).take k := by
  apply List.ext_getElem
  · rw [List.length_take, List.length_take, Nat.min_eq_left hi, Nat.min_eq_left hj]
  · intro l hl hl'
    rw [List.length_take] at hl hl'
    rw [List.getElem_take, List.getElem_take]
    obtain ⟨hr, hw⟩ := h.won i l _ (List.getElem?_eq_getElem (by omega))
    obtain ⟨hr', hw'⟩ := h.won j l _ (List.getElem?_eq_getElem (by omega))
    exact h.eq_of_wins hw hw' (UInt32.toNat_inj.1 (hr.trans hr'.symm))

theorem upTo_eq (h : w.Fair) {k : Nat} (hi : k ≤ (w.chain i).length) (hj : k ≤ (w.chain j).length) :
    (w.ledgers i).upTo k = (w.ledgers j).upTo k := by
  have := h.take_chain_eq hi hj
  unfold Ledger.upTo
  rw [h.topic i j]
  unfold chain at this
  rw [this]

/-- **Whoever has got to the round of a block can append it.** -/
theorem append_eq_ok (h : w.Fair) {b : Block} (hb : w.proposed b) (hr : b.round.toNat = (w.chain i).length + 1) :
    (w.ledgers i).append b = .ok ((w.ledgers i).push b) := by
  -- the block fits on a chain as it was at the start of its round, and that is the chain here
  obtain ⟨j, k, -, hk, hlen, happend⟩ := h.rooted b hb
  obtain rfl : k = (w.chain i).length := by omega
  have same := h.upTo_eq hlen (Nat.le_refl _)
  rw [same] at happend
  rw [show (w.ledgers i).upTo (w.chain i).length = w.ledgers i from (h.counted i).upTo_length] at happend
  exact happend

end Fair

/-! ## Later contests -/

/-- The same nodes later: chains go on, and what has been proposed stays proposed. -/
structure Grows (w w' : Contest ι) : Prop where
  names : w'.names = w.names
  ledgers : ∀ i, (w'.ledgers i).topic = (w.ledgers i).topic ∧ w.chain i <+: w'.chain i
  proposed : ∀ b, w.proposed b → w'.proposed b

variable {w' : Contest ι}

theorem Grows.upTo_eq (g : w.Grows w') {k : Nat} (h : k ≤ (w.chain i).length) :
    (w'.ledgers i).upTo k = (w.ledgers i).upTo k := by
  obtain ⟨ht, l, hl⟩ := g.ledgers i
  unfold chain at h hl
  unfold Ledger.upTo
  rw [ht, ← hl, List.take_append_of_le_length h]

theorem Rooted.mono {b : Block} (h : w.Rooted b) (g : w.Grows w') : w'.Rooted b := by
  obtain ⟨i, k, ho, hr, hk, happend⟩ := h
  refine ⟨i, k, by rw [g.names]; exact ho, hr, Nat.le_trans hk (g.ledgers i).2.length_le, ?_⟩
  rw [g.upTo_eq hk]
  exact happend

theorem Wins.mono {b : Block} (h : w.Wins b) (g : w.Grows w') : w'.Wins b := by
  refine ⟨g.proposed b h.1, fun i => ?_⟩
  obtain ⟨b', hb', ho, hr, hle⟩ := h.2 i
  exact ⟨b', g.proposed b' hb', by rw [g.names]; exact ho, hr, hle⟩

def propose (w : Contest ι) (own : Block) : Contest ι := { w with proposed := fun b => w.proposed b ∨ b = own }

theorem grows_propose (w : Contest ι) (own : Block) : w.Grows (w.propose own) :=
  ⟨rfl, fun _ => ⟨rfl, List.prefix_rfl⟩, fun _ => .inl⟩

/-- A block that a node may propose: it could append it, and it has not proposed for its round. -/
structure MayPropose (w : Contest ι) (i : ι) (own : Block) : Prop where
  origin : own.origin = w.names i
  round : own.round.toNat = (w.chain i).length + 1
  fits : (w.ledgers i).append own = .ok ((w.ledgers i).push own)
  fresh : ∀ b, w.proposed b → b.origin = own.origin → b.round ≠ own.round

/-- **A contest stays fair when a node proposes.** -/
theorem Fair.propose (h : w.Fair) {own : Block} (untied : (w.propose own).Untied) (may : w.MayPropose i own) :
    (w.propose own).Fair := by
  have g := w.grows_propose own
  refine ⟨h.topic, h.counted, ?_, ?_, untied, fun j k b hb => ⟨(h.won j k b hb).1, (h.won j k b hb).2.mono g⟩⟩
  · rintro b (hb | rfl)
    · exact (h.rooted b hb).mono g
    · refine ⟨i, (w.chain i).length, may.origin, may.round, Nat.le_refl _, ?_⟩
      rw [show ((w.propose b).ledgers i).upTo (w.chain i).length = w.ledgers i from (h.counted i).upTo_length]
      exact may.fits
  · rintro b b' (hb | rfl) (hb' | rfl) ho hr'
    · exact h.unique b b' hb hb' ho hr'
    · exact absurd hr' (may.fresh b hb ho)
    · exact absurd hr'.symm (may.fresh b' hb' ho.symm)
    · rfl

section Append

variable [DecidableEq ι]

def append (w : Contest ι) (i : ι) (b : Block) : Contest ι :=
  { w with ledgers := Function.update w.ledgers i ((w.ledgers i).push b) }

@[simp] theorem ledgers_append_self (w : Contest ι) (i : ι) (b : Block) :
    (w.append i b).ledgers i = (w.ledgers i).push b := Function.update_self _ _ _

theorem ledgers_append_of_ne (w : Contest ι) (b : Block) (h : j ≠ i) : (w.append i b).ledgers j = w.ledgers j :=
  Function.update_of_ne h _ _

theorem grows_append (w : Contest ι) (i : ι) (b : Block) : w.Grows (w.append i b) := by
  refine ⟨rfl, fun j => ?_, fun _ => id⟩
  unfold chain
  by_cases hj : j = i
  · subst hj
    rw [ledgers_append_self]
    exact ⟨rfl, List.prefix_append _ _⟩
  · rw [ledgers_append_of_ne w b hj]
    exact ⟨rfl, List.prefix_rfl⟩

/-- **A contest stays fair when a node appends the winner of its round.** -/
theorem Fair.append (h : w.Fair) {b : Block} (hb : w.Wins b) (hr : b.round.toNat = (w.chain i).length + 1) :
    (w.append i b).Fair := by
  have g := w.grows_append i b
  refine ⟨fun j k => ?_, fun j => ?_, fun b hb => (h.rooted b hb).mono g, h.unique, h.untied, fun j k b' hb' => ?_⟩
  · rw [(g.ledgers j).1, (g.ledgers k).1]
    exact h.topic j k
  · by_cases hj : j = i
    · subst hj
      rw [ledgers_append_self]
      exact (h.counted j).push b
    · rw [ledgers_append_of_ne w b hj]
      exact h.counted j
  · unfold chain at hb' hr
    by_cases hj : j = i
    · subst hj
      rw [ledgers_append_self, Ledger.committed_push] at hb'
      rcases Nat.lt_or_ge k (w.ledgers j).committed.length with hk | hk
      · rw [List.getElem?_append_left hk] at hb'
        exact ⟨(h.won j k b' hb').1, (h.won j k b' hb').2.mono g⟩
      · rw [List.getElem?_append_right hk, List.getElem?_singleton] at hb'
        split at hb'
        · obtain rfl := Option.some.inj hb'
          exact ⟨by omega, hb.mono g⟩
        · cases hb'
    · rw [ledgers_append_of_ne w b hj] at hb'
      exact ⟨(h.won j k b' hb').1, (h.won j k b' hb').2.mono g⟩

end Append

/-! ## Collectors -/

/-- **The invariant of a collector** of a node that has proposed for its round: it counts distinct origins, its own
among them, and has the fittest of their blocks. -/
structure Collecting (w : Contest ι) (i : ι) (c : RoundCollector) : Prop where
  round : c.round.toNat = (w.chain i).length + 1
  tip : c.tip = (w.ledgers i).tipHash
  nodup : c.seen.Nodup
  counted : c.seen.length = c.received + 1
  best : w.proposed c.best ∧ c.best.round = c.round
  fittest : ∀ o ∈ c.seen, ∃ b, w.proposed b ∧ b.origin = o ∧ b.round = c.round ∧ b.fitness ≤ c.best.fitness

namespace Collecting

variable {c : RoundCollector}

theorem new {own : Block} {tip : BlockHash} {expected : Nat} (hown : w.proposed own)
    (hr : own.round.toNat = (w.chain i).length + 1) (ht : tip = (w.ledgers i).tipHash) :
    w.Collecting i (RoundCollector.new own tip expected) := by
  refine ⟨hr, ht, List.nodup_singleton _, rfl, ⟨hown, rfl⟩, fun o ho => ?_⟩
  rw [List.mem_singleton.1 ho]
  exact ⟨own, hown, rfl, rfl, UInt64.le_refl _⟩

/-- **Every block of the round is on the tip**, so the fittest one seen is kept. -/
theorem offer (h : w.Collecting i c) (fair : w.Fair) {b : Block} (hb : w.proposed b) :
    w.Collecting i (c.offer b).2 := by
  rcases c.offer_cases b with he | ⟨hr, hs, he⟩
  · rw [he]; exact h
  have onTip : b.prevHash = c.tip := by
    have happend := fair.append_eq_ok hb (by rw [hr]; exact h.round)
    rw [h.tip]
    exact (Ledger.append_eq_ok happend).2.2
  have nodup : (b.origin :: c.seen).Nodup := List.nodup_cons.2 ⟨hs, h.nodup⟩
  have counted : (b.origin :: c.seen).length = c.received + 1 + 1 := by rw [List.length_cons, h.counted]
  rw [he]
  by_cases hlt : c.best.fitness < b.fitness
  · have hbeats : c.beats b = true := by simp [RoundCollector.beats, onTip, hlt]
    rw [if_pos hbeats]
    refine ⟨h.round, h.tip, nodup, counted, ⟨hb, hr⟩, fun o ho => ?_⟩
    rcases List.mem_cons.1 ho with rfl | ho
    · exact ⟨b, hb, rfl, hr, UInt64.le_refl _⟩
    · obtain ⟨x, hx, hxo, hxr, hle⟩ := h.fittest o ho
      exact ⟨x, hx, hxo, hxr, UInt64.le_trans hle (UInt64.le_of_lt hlt)⟩
  · have hbeats : ¬ c.beats b = true := by simp [RoundCollector.beats, onTip, hlt]
    rw [if_neg hbeats]
    refine ⟨h.round, h.tip, nodup, counted, h.best, fun o ho => ?_⟩
    rcases List.mem_cons.1 ho with rfl | ho
    · exact ⟨b, hb, rfl, hr, UInt64.not_lt.1 hlt⟩
    · exact h.fittest o ho

theorem mono {w' : Contest ι} (h : w.Collecting i c) (g : w.Grows w') (same : w'.ledgers i = w.ledgers i) :
    w'.Collecting i c := by
  refine ⟨?_, by rw [same]; exact h.tip, h.nodup, h.counted, ⟨g.proposed _ h.best.1, h.best.2⟩, fun o ho => ?_⟩
  · unfold chain
    rw [same]
    exact h.round
  · obtain ⟨b, hb, hrest⟩ := h.fittest o ho
    exact ⟨b, g.proposed b hb, hrest⟩

/-- With as many origins as there are nodes, every node has been seen. -/
theorem seen_of_card [Fintype ι] (h : w.Collecting i c) (fair : w.Fair) (distinct : Function.Injective w.names)
    (complete : Fintype.card ι ≤ c.received + 1) (j : ι) : w.names j ∈ c.seen := by
  have sub : c.seen.toFinset ⊆ Finset.univ.image w.names := by
    intro o ho
    obtain ⟨b, hb, rfl, -⟩ := h.fittest o (List.mem_toFinset.1 ho)
    obtain ⟨k, -, hk, -⟩ := fair.rooted b hb
    exact Finset.mem_image.2 ⟨k, Finset.mem_univ k, hk.symm⟩
  have card : (Finset.univ.image w.names).card ≤ c.seen.toFinset.card := by
    rw [Finset.card_image_of_injective _ distinct, Finset.card_univ, List.toFinset_card_of_nodup h.nodup, h.counted]
    exact complete
  have all := Finset.eq_of_subset_of_card_le sub card
  have : w.names j ∈ Finset.univ.image w.names := Finset.mem_image_of_mem _ (Finset.mem_univ j)
  rw [← all] at this
  exact List.mem_toFinset.1 this

/-- **A collector that has seen every node holds the winner of its round.** -/
theorem wins [Fintype ι] (h : w.Collecting i c) (fair : w.Fair) (distinct : Function.Injective w.names)
    (complete : Fintype.card ι ≤ c.received + 1) : w.Wins c.best := by
  refine ⟨h.best.1, fun j => ?_⟩
  obtain ⟨b, hb, ho, hr, hle⟩ := h.fittest _ (h.seen_of_card fair distinct complete j)
  exact ⟨b, hb, ho, by rw [hr, h.best.2], hle⟩

end Collecting

end Contest
end GossipNode
