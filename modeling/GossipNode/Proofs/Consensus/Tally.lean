import Mathlib.Data.Finset.Card
import Mathlib.Order.Bounds.Defs
import Mathlib.Tactic.Tauto
import GossipNode.Consensus.RoundTracker
/-!
# What a tracker has counted

A tracker keeps the confirmations of open rounds only, and drops those of closed ones.  It still behaves as if it had
kept them all: after any list of confirmations, its current round is the first one that lacks a majority in the list
(`Tracks.isLeast`), so the order of the list does not matter.  A word holds finitely many rounds, so one thing can go wrong
(`ClosesLast`): the last of them closes, and there is no round after it.
-/
namespace GossipNode

theorem SortedSet.size_eq_card {s : SortedSet Origin} {present : Finset Origin} (same : ∀ o, o ∈ s.toList ↔ o ∈ present) :
    s.size = present.card := by
  have members : s.toList.toFinset = present := by
    ext o
    rw [List.mem_toFinset, same]
  rw [← members, List.toFinset_card_of_nodup s.nodup_toList, SortedSet.length_toList]

namespace RoundTracker

variable {t : RoundTracker} {counted : List (Origin × UInt32)}

/-! ## Witnesses -/

theorem witnesses_of_not_contains {round : UInt32} (h : ¬ t.confirmed.contains round = true) : t.witnesses round = ∅ := by
  unfold witnesses
  rw [Option.not_isSome_iff_eq_none.1 h]
  rfl

theorem witnesses_insert (t : RoundTracker) (round r : UInt32) (ws : SortedSet Origin) :
    ({ t with confirmed := t.confirmed.insert round ws } : RoundTracker).witnesses r =
      if r = round then ws else t.witnesses r := by
  unfold witnesses
  rw [SortedMap.get?_insert_eq_ite]
  split <;> rfl

theorem witnesses_erase_of_ne {round r : UInt32} (h : r ≠ round) (current : UInt32) :
    ({ t with confirmed := t.confirmed.erase round, current } : RoundTracker).witnesses r = t.witnesses r := by
  unfold witnesses
  rw [SortedMap.get?_erase, if_neg (fun he => h (Std.LawfulEqCmp.eq_of_compare he).symm)]

/-! ## The invariant -/

/-- **A tracker has counted a list of confirmations**: of rounds from the current one on it knows who confirmed, and
every earlier one had a majority. -/
structure Tallies (t : RoundTracker) (counted : List (Origin × UInt32)) : Prop where
  known : ∀ r, t.current ≤ r → ∀ o, o ∈ (t.witnesses r).toList ↔ (o, r) ∈ counted
  closed : ∀ r, r < t.current → ∃ ws : List Origin, ws.Nodup ∧ t.threshold ≤ ws.length ∧ ∀ o ∈ ws, (o, r) ∈ counted
  above : ∀ r, t.confirmed.contains r = true → t.current ≤ r

/-- Between two confirmations the current round also lacks a majority. -/
structure Tracks (t : RoundTracker) (counted : List (Origin × UInt32)) : Prop extends t.Tallies counted where
  pending : (t.witnesses t.current).size < t.threshold

theorem Tracks.new {threshold : Nat} (pos : 0 < threshold) : (RoundTracker.new threshold).Tracks [] := by
  refine ⟨⟨fun r _ o => ?_, fun r hr => ?_, fun r hr => ?_⟩, pos⟩
  · constructor
    · intro h; cases h
    · intro h; cases h
  · exact absurd hr (UInt32.not_lt.2 (UInt32.zero_le))
  · cases hr

/-! ## Who has confirmed -/

/-- The distinct origins that are said to have confirmed a proposal of the round. -/
def confirmers (counted : List (Origin × UInt32)) (round : UInt32) : Finset Origin :=
  ((counted.filter (fun e => e.2 = round)).map Prod.fst).toFinset

theorem mem_confirmers {round : UInt32} {o : Origin} : o ∈ confirmers counted round ↔ (o, round) ∈ counted := by
  simp [confirmers]

/-- Some round has no majority, so not all the rounds that a word holds close. -/
def Lacking (threshold : Nat) (counted : List (Origin × UInt32)) : Prop :=
  ∃ round, (confirmers counted round).card < threshold

theorem Lacking.of_room {threshold : Nat} (pos : 0 < threshold) (room : ∀ e ∈ counted, e.2.toNat + 1 < UInt32.size) :
    Lacking threshold counted := by
  refine ⟨UInt32.ofNat (UInt32.size - 1), ?_⟩
  have none : confirmers counted (UInt32.ofNat (UInt32.size - 1)) = ∅ := by
    refine Finset.eq_empty_of_forall_notMem (fun o ho => ?_)
    exact absurd (room _ (mem_confirmers.1 ho))
      (by decide : ¬ (UInt32.ofNat (UInt32.size - 1)).toNat + 1 < UInt32.size)
  rw [none]
  exact pos

theorem Tallies.size_witnesses (h : t.Tallies counted) {round : UInt32} (hround : t.current ≤ round) :
    (t.witnesses round).size = (confirmers counted round).card :=
  SortedSet.size_eq_card (fun o => (h.known round hround o).trans mem_confirmers.symm)

theorem Tallies.le_card (h : t.Tallies counted) {round : UInt32} (hround : round < t.current) :
    t.threshold ≤ (confirmers counted round).card := by
  obtain ⟨ws, nodup, enough, hws⟩ := h.closed round hround
  rw [← List.toFinset_card_of_nodup nodup] at enough
  refine Nat.le_trans enough (Finset.card_le_card (fun o ho => ?_))
  exact mem_confirmers.2 (hws o (List.mem_toFinset.1 ho))

/-! ## Closing rounds -/

/-- Closing the current round, if there is a round after it. -/
theorem Tallies.close (h : t.Tallies counted) (next : (t.current + 1).toNat = t.current.toNat + 1)
    (enough : t.threshold ≤ (t.witnesses t.current).size) :
    ({ t with confirmed := t.confirmed.erase t.current, current := t.current + 1 } : RoundTracker).Tallies counted := by
  have hws := h.known t.current (UInt32.le_refl _)
  have split : ∀ r, t.current + 1 ≤ r ↔ t.current ≤ r ∧ r ≠ t.current := by
    intro r
    rw [UInt32.le_iff_toNat_le, UInt32.le_iff_toNat_le, next, ne_eq, ← UInt32.toNat_inj]
    omega
  refine ⟨fun r hr o => ?_, fun r hr => ?_, fun r hr => ?_⟩
  · obtain ⟨hle, hne⟩ := (split r).1 hr
    rw [witnesses_erase_of_ne hne]
    exact h.known r hle o
  · by_cases hlt : r < t.current
    · exact h.closed r hlt
    · have hr' : r = t.current := by
        rw [UInt32.lt_iff_toNat_lt] at hr hlt
        have hr'' : r.toNat < (t.current + 1).toNat := hr
        rw [next] at hr''
        exact UInt32.toNat_inj.1 (by omega)
      subst hr'
      refine ⟨_, SortedSet.nodup_toList _, ?_, fun o ho => (hws o).1 ho⟩
      rw [SortedSet.length_toList]
      exact enough
  · have hne : r ≠ t.current := by
      intro he
      subst he
      unfold SortedMap.contains at hr
      rw [SortedMap.get?_erase, if_pos Std.ReflCmp.compare_self] at hr
      cases hr
    exact (split r).2 ⟨h.above r (SortedMap.contains_of_erase hr), hne⟩

/-- **A closed round is backed** by all that have confirmed a proposal of it, and these are enough. -/
structure Backed (threshold : Nat) (counted : List (Origin × UInt32)) (c : RoundClosed) : Prop where
  nodup : c.witnesses.Nodup
  all : ∀ o, o ∈ c.witnesses ↔ o ∈ confirmers counted c.round
  enough : threshold ≤ c.witnesses.length

/-- **The rounds that close**, from the current one on and in order, and the tracker after that. -/
structure Closes (t : RoundTracker) (counted : List (Origin × UInt32)) (closed : List RoundClosed × RoundTracker) : Prop where
  tracks : closed.2.Tracks counted
  threshold : closed.2.threshold = t.threshold
  rounds : closed.1.map (fun c => c.round.toNat) = List.range' t.current.toNat closed.1.length
  current : closed.2.current.toNat = t.current.toNat + closed.1.length
  backed : ∀ c ∈ closed.1, Backed t.threshold counted c

/-- The last round that a word holds is among those that close, and every round has a majority. -/
def ClosesLast (threshold : Nat) (counted : List (Origin × UInt32)) (closed : List RoundClosed) : Prop :=
  ¬ Lacking threshold counted ∧ ∃ c ∈ closed, c.round.toNat + 1 = UInt32.size

theorem Tracks.closes_nil (h : t.Tracks counted) : t.Closes counted ([], t) := ⟨h, rfl, rfl, rfl, List.forall_mem_nil _⟩

/-- The current round closes, and then others. -/
theorem Tallies.closes_cons {closed : List RoundClosed × RoundTracker} (h : t.Tallies counted)
    (next : (t.current + 1).toNat = t.current.toNat + 1) (majority : t.threshold ≤ (t.witnesses t.current).size)
    (closes : ({ t with confirmed := t.confirmed.erase t.current, current := t.current + 1 } : RoundTracker).Closes counted
      closed) : t.Closes counted (⟨t.current, (t.witnesses t.current).toList⟩ :: closed.1, closed.2) where
  tracks := closes.tracks
  threshold := closes.threshold
  rounds := by rw [List.map_cons, closes.rounds, List.length_cons, List.range'_succ, next]
  current := by
    rw [closes.current, next, List.length_cons]
    omega
  backed c hc := by
    rcases List.mem_cons.1 hc with rfl | hc
    · refine ⟨SortedSet.nodup_toList _, fun o => ?_, ?_⟩
      · rw [mem_confirmers]
        exact h.known t.current (UInt32.le_refl _) o
      · rw [SortedSet.length_toList]
        exact majority
    · exact closes.backed c hc

/-- Nothing lies above the last round, and the rounds below the current one are closed. -/
theorem Tallies.not_lacking_of_last (h : t.Tallies counted) (last : t.current.toNat + 1 = UInt32.size)
    (majority : t.threshold ≤ (t.witnesses t.current).size) : ¬ Lacking t.threshold counted := by
  rintro ⟨r, few⟩
  rcases Nat.lt_or_ge r.toNat t.current.toNat with lt | ge
  · exact absurd few (Nat.not_lt.2 (h.le_card (UInt32.lt_iff_toNat_lt.2 lt)))
  · have below := r.toNat_lt_size
    obtain rfl : t.current = r := UInt32.toNat_inj.1 (by omega)
    rw [← h.size_witnesses (UInt32.le_refl _)] at few
    exact absurd few (Nat.not_lt.2 majority)

theorem size_witnesses_lt_of_not_contains (pos : 0 < t.threshold) {round : UInt32}
    (h : ¬ t.confirmed.contains round = true) : (t.witnesses round).size < t.threshold := by
  rw [witnesses_of_not_contains h]
  exact pos

/-- **Rounds close as long as they have a majority.**  Every round that closes uses up an entry, so the fuel lasts. -/
theorem Tallies.closeRounds {fuel : Nat} (h : t.Tallies counted) (pos : 0 < t.threshold) (enough : t.confirmed.size ≤ fuel) :
    t.Closes counted (RoundTracker.closeRounds fuel t) ∨
      ClosesLast t.threshold counted (RoundTracker.closeRounds fuel t).1 := by
  induction fuel generalizing t with
  | zero =>
    have hnone : ¬ t.confirmed.contains t.current = true := by
      intro hc
      have := SortedMap.size_erase_lt hc
      omega
    exact .inl (Tracks.closes_nil ⟨h, size_witnesses_lt_of_not_contains pos hnone⟩)
  | succ fuel ih =>
    unfold RoundTracker.closeRounds
    by_cases hclose : (t.confirmed.contains t.current && t.threshold ≤ (t.witnesses t.current).size) = true
    · rw [if_pos hclose]
      rw [Bool.and_eq_true, decide_eq_true_eq] at hclose
      obtain ⟨there, majority⟩ := hclose
      by_cases last : t.current.toNat + 1 = UInt32.size
      · exact .inr ⟨h.not_lacking_of_last last majority, _, List.mem_cons_self, last⟩
      · have next : (t.current + 1).toNat = t.current.toNat + 1 :=
          toNat_add_one (Nat.lt_of_le_of_ne t.current.toNat_lt_size last)
        have room : (t.confirmed.erase t.current).size ≤ fuel := by
          have := SortedMap.size_erase_lt there
          omega
        rcases ih (h.close next majority) pos room with closes | ⟨all, c, hc, hlast⟩
        · exact .inl (h.closes_cons next majority closes)
        · exact .inr ⟨all, c, List.mem_cons_of_mem _ hc, hlast⟩
    · rw [if_neg hclose]
      refine .inl (Tracks.closes_nil ⟨h, ?_⟩)
      by_cases hc : t.confirmed.contains t.current = true
      · rw [hc, Bool.true_and, decide_eq_true_eq] at hclose
        exact Nat.lt_of_not_le hclose
      · exact size_witnesses_lt_of_not_contains pos hc

/-- A confirmation of a round that is not closed is noted. -/
theorem Tracks.note {o : Origin} {round : UInt32} (h : t.Tracks counted) (hround : ¬ round < t.current) :
    ({ t with confirmed := t.confirmed.insert round (SortedSet.add (t.witnesses round) o) } : RoundTracker).Tallies
      (counted ++ [(o, round)]) := by
  refine ⟨fun r hr o' => ?_, fun r hr => ?_, fun r hr => ?_⟩
  · rw [witnesses_insert, List.mem_append, List.mem_singleton, Prod.mk.injEq, ← h.known r hr o']
    by_cases he : r = round
    · subst he
      rw [if_pos rfl, SortedSet.mem_toList_add]
      tauto
    · rw [if_neg he]
      tauto
  · obtain ⟨ws, hnodup, hlen, hws⟩ := h.closed r hr
    exact ⟨ws, hnodup, hlen, fun o' ho' => List.mem_append_left _ (hws o' ho')⟩
  · unfold SortedMap.contains at hr
    rw [SortedMap.get?_insert_eq_ite] at hr
    split at hr
    · rename_i he
      rw [he]
      exact UInt32.not_lt.1 hround
    · exact h.above r hr

/-- A confirmation of a closed round adds nothing. -/
theorem Tracks.drop {o : Origin} {round : UInt32} (h : t.Tracks counted) (hround : round < t.current) :
    t.Tracks (counted ++ [(o, round)]) := by
  refine ⟨⟨fun r hr o' => ?_, fun r hr => ?_, h.above⟩, h.pending⟩
  · have hne : r ≠ round := by
      rintro rfl
      exact absurd hround (UInt32.not_lt.2 hr)
    rw [h.known r hr o', List.mem_append, List.mem_singleton]
    constructor
    · exact .inl
    · rintro (hmem | he)
      · exact hmem
      · exact absurd (Prod.mk.inj he).2 hne
  · obtain ⟨ws, hnodup, hlen, hws⟩ := h.closed r hr
    exact ⟨ws, hnodup, hlen, fun o' ho' => List.mem_append_left _ (hws o' ho')⟩

/-- **One confirmation**: it closes the rounds that now have a majority, unless it closes even the last one. -/
theorem Tracks.recordConfirmation (h : t.Tracks counted) (pos : 0 < t.threshold) (o : Origin) (round : UInt32) :
    t.Closes (counted ++ [(o, round)]) (t.recordConfirmation o round) ∨
      ClosesLast t.threshold (counted ++ [(o, round)]) (t.recordConfirmation o round).1 := by
  unfold RoundTracker.recordConfirmation
  by_cases hround : round < t.current
  · rw [if_pos hround]
    exact .inl (h.drop hround).closes_nil
  · rw [if_neg hround]
    rcases (h.note hround).closeRounds pos (Nat.le_refl _) with closes | last
    · exact .inl ⟨closes.tracks, closes.threshold, closes.rounds, closes.current, closes.backed⟩
    · exact .inr last

theorem Tracks.closes {o : Origin} {round : UInt32} (h : t.Tracks counted) (pos : 0 < t.threshold)
    (lacking : Lacking t.threshold (counted ++ [(o, round)])) :
    t.Closes (counted ++ [(o, round)]) (t.recordConfirmation o round) :=
  (h.recordConfirmation pos o round).resolve_right (fun last => last.1 lacking)

/-! ## The current round -/

/-- **The current round is the first without a majority.** -/
theorem Tracks.isLeast (h : t.Tracks counted) : IsLeast {round | (confirmers counted round).card < t.threshold} t.current := by
  constructor
  · show (confirmers counted t.current).card < t.threshold
    rw [← h.size_witnesses (UInt32.le_refl _)]
    exact h.pending
  · intro round few
    exact UInt32.not_lt.1 (fun lt => absurd few (Nat.not_lt.2 (h.le_card lt)))

/-- The same, whoever is said to back a round, as long as those are the origins in the list. -/
theorem Tracks.least (h : t.Tracks counted) (backers : UInt32 → List Origin) (nodup : ∀ r, (backers r).Nodup)
    (mem : ∀ r o, o ∈ backers r ↔ (o, r) ∈ counted) :
    (backers t.current).length < t.threshold ∧ ∀ r, r < t.current → t.threshold ≤ (backers r).length := by
  have count : ∀ r, (backers r).length = (confirmers counted r).card := by
    intro r
    rw [← List.toFinset_card_of_nodup (nodup r)]
    congr 1
    ext o
    rw [List.mem_toFinset, mem, mem_confirmers]
  rw [count]
  refine ⟨h.isLeast.1, fun r hr => ?_⟩
  rw [count]
  exact h.le_card hr

end RoundTracker
end GossipNode
