import Mathlib.Algebra.Group.Nat.Defs
import GossipNode.Consensus.Majority
import GossipNode.Proofs.Consensus.Tally
/-!
# Rounds close in order

Confirmations are recorded one after another, and each call gives out the rounds that it closes.  Whatever the list, the
rounds before the current one have closed, each of them once and in order (`Recorded`).

The current round depends on who has confirmed which round, and not on when.  The witnesses of a round depend on when: they
are those who had confirmed it by the call that closed it.
-/
namespace GossipNode
namespace RoundTracker

/-- The tracker after confirmations, one after another. -/
def recordAll (t : RoundTracker) (es : List (Origin × UInt32)) : RoundTracker :=
  es.foldl (fun t e => (t.recordConfirmation e.1 e.2).2) t

/-- All that the calls give out, in order. -/
def closings (t : RoundTracker) : List (Origin × UInt32) → List RoundClosed
  | [] => []
  | e :: es => (t.recordConfirmation e.1 e.2).1 ++ (t.recordConfirmation e.1 e.2).2.closings es

variable {t : RoundTracker} {threshold : Nat} {es es' : List (Origin × UInt32)} {o : Origin} {round : UInt32}

theorem recordAll_concat : t.recordAll (es ++ [(o, round)]) = ((t.recordAll es).recordConfirmation o round).2 := by
  simp [recordAll]

theorem closings_concat :
    t.closings (es ++ [(o, round)]) = t.closings es ++ ((t.recordAll es).recordConfirmation o round).1 := by
  induction es generalizing t with
  | nil => simp [closings, recordAll]
  | cons e es ih => simp [closings, recordAll, ih]

/-! ## Who has confirmed, in any order -/

theorem confirmers_of_mem_iff (h : ∀ e, e ∈ es ↔ e ∈ es') : confirmers es = confirmers es' := by
  funext round
  ext o
  rw [mem_confirmers, mem_confirmers, h]

theorem Lacking.of_append (h : Lacking threshold (es ++ es')) : Lacking threshold es := by
  obtain ⟨round, few⟩ := h
  refine ⟨round, Nat.lt_of_le_of_lt (Finset.card_le_card (fun o ho => ?_)) few⟩
  rw [mem_confirmers] at ho ⊢
  exact List.mem_append_left _ ho

/-! ## Runs -/

/-- **What a tracker has recorded**: it has counted the list, and the rounds before its current one have closed in order. -/
structure Recorded (threshold : Nat) (es : List (Origin × UInt32)) : Prop where
  tracks : ((new threshold).recordAll es).Tracks es
  same : ((new threshold).recordAll es).threshold = threshold
  rounds : ((new threshold).closings es).map (fun c => c.round.toNat) =
    List.range ((new threshold).recordAll es).current.toNat

theorem Recorded.closes (h : Recorded threshold es)
    (closes : ((new threshold).recordAll es).Closes (es ++ [(o, round)])
      (((new threshold).recordAll es).recordConfirmation o round)) : Recorded threshold (es ++ [(o, round)]) where
  tracks := by
    rw [recordAll_concat]
    exact closes.tracks
  same := by
    rw [recordAll_concat, closes.threshold, h.same]
  rounds := by
    rw [closings_concat, recordAll_concat, List.map_append, h.rounds, closes.rounds, closes.current, List.range_add,
      List.range'_eq_map_range]

/-- As long as some round has no majority, everything is recorded. -/
theorem recorded_of_lacking (pos : 0 < threshold) (lacking : Lacking threshold es) : Recorded threshold es := by
  induction es using List.reverseRecOn with
  | nil => exact ⟨.new pos, rfl, rfl⟩
  | append_singleton es e ih =>
    have before := ih lacking.of_append
    refine before.closes (before.tracks.closes (by rw [before.same]; exact pos) ?_)
    rw [before.same]
    exact lacking

theorem isLeast_current (pos : 0 < threshold) (lacking : Lacking threshold es) :
    IsLeast {round | (confirmers es round).card < threshold} ((new threshold).recordAll es).current := by
  have recorded := recorded_of_lacking pos lacking
  have least := recorded.tracks.isLeast
  rw [recorded.same] at least
  exact least

/-- The first round that lacks a majority is the current one, in any order. -/
theorem current_of_perm (pos : 0 < threshold) (lacking : Lacking threshold es) (perm : es.Perm es') :
    ((new threshold).recordAll es').current = ((new threshold).recordAll es).current := by
  have same : confirmers es = confirmers es' := confirmers_of_mem_iff (fun e => perm.mem_iff)
  have lacking' : Lacking threshold es' := by
    rw [Lacking, ← same]
    exact lacking
  have least := isLeast_current pos lacking
  have least' := isLeast_current pos lacking'
  rw [← same] at least'
  exact UInt32.le_antisymm (least'.2 least.1) (least.2 least'.1)

/-- If the last round that a word holds has not closed, some round has no majority. -/
theorem lacking_of_closings (pos : 0 < threshold)
    (spare : ∀ c ∈ (new threshold).closings es, c.round.toNat ≠ 2 ^ 32 - 1) : Lacking threshold es := by
  induction es using List.reverseRecOn with
  | nil => exact ⟨0, pos⟩
  | append_singleton es e ih =>
    rw [closings_concat] at spare
    have before := recorded_of_lacking pos (ih (fun c hc => spare c (List.mem_append_left _ hc)))
    rcases before.tracks.recordConfirmation (by rw [before.same]; exact pos) e.1 e.2 with closes | ⟨-, c, hc, last⟩
    · have few := closes.tracks.isLeast.1
      rw [closes.threshold, before.same] at few
      exact ⟨_, few⟩
    · exact absurd (Nat.eq_sub_of_add_eq last) (spare c (List.mem_append_right _ hc))

/-- **Rounds close in order.**  Whatever is confirmed, in whatever order and however often, as long as the last round that
a word holds does not close: the current round is the first in which fewer origins than a majority have confirmed, and the
same for every order of the list; what the calls give out are the rounds before it, in order and each once; and the
witnesses of each are all origins that had confirmed it by the call that closed it, a majority at least. -/
theorem rounds_close_in_order (peers : UInt64) (low : 1 ≤ peers.toNat) (high : peers.toNat ≤ 2 ^ 64 - 2)
    (es : List (Origin × UInt32))
    (spare : ∀ c ∈ (new (majority peers.toNat)).closings es, c.round.toNat ≠ 2 ^ 32 - 1) :
    threshold? peers = .ok (majority peers.toNat) ∧
    let start := new (majority peers.toNat)
    IsLeast {round | (confirmers es round).card < majority peers.toNat} (start.recordAll es).current ∧
    (∀ es', es.Perm es' → (start.recordAll es').current = (start.recordAll es).current) ∧
    (start.closings es).map (fun c => c.round.toNat) = List.range (start.recordAll es).current.toNat ∧
    ∀ before o round after, es = before ++ (o, round) :: after →
      ∀ c ∈ ((start.recordAll before).recordConfirmation o round).1,
        Backed (majority peers.toNat) (before ++ [(o, round)]) c := by
  have pos := majority_pos peers.toNat
  have lacking := lacking_of_closings pos spare
  have room : peers.toNat + 1 < UInt64.size := Nat.lt_of_le_of_lt (Nat.succ_le_succ high) (by decide)
  refine ⟨threshold?_eq_ok low room, isLeast_current pos lacking, fun es' perm => current_of_perm pos lacking perm,
    (recorded_of_lacking pos lacking).rounds, ?_⟩
  rintro before o round after rfl
  have upTo : Lacking (majority peers.toNat) (before ++ [(o, round)]) := by
    rw [List.append_cons] at lacking
    exact lacking.of_append
  have recorded := recorded_of_lacking pos upTo.of_append
  have closes := recorded.tracks.closes (by rw [recorded.same]; exact pos) (by rw [recorded.same]; exact upTo)
  intro c hc
  have backed := closes.backed c hc
  rw [recorded.same] at backed
  exact backed

/-- Round 1 has its majority first and waits: the call that closes round 0 closes both.  A confirmation that is repeated
does not count, and one that comes late is no witness.  Turned round, the list leads to the same round. -/
theorem rounds_close_in_order_cascade :
    let es : List (Origin × UInt32) := [(⟨"a"⟩, 1), (⟨"b"⟩, 1), (⟨"a"⟩, 0), (⟨"a"⟩, 0), (⟨"c"⟩, 0), (⟨"b"⟩, 0)]
    let start := new (majority (3 : UInt64).toNat)
    (∀ c ∈ start.closings es, c.round.toNat ≠ 2 ^ 32 - 1) ∧
    start.closings es = [⟨0, [⟨"a"⟩, ⟨"c"⟩]⟩, ⟨1, [⟨"a"⟩, ⟨"b"⟩]⟩] ∧
    (start.recordAll es).current = 2 ∧ (start.recordAll es.reverse).current = 2 := by
  intro es start
  have closed : start.closings es = [⟨0, [⟨"a"⟩, ⟨"c"⟩]⟩, ⟨1, [⟨"a"⟩, ⟨"b"⟩]⟩] := by decide +kernel
  have spare : ∀ c ∈ start.closings es, c.round.toNat ≠ 2 ^ 32 - 1 := by
    rw [closed]
    decide
  obtain ⟨-, -, anyOrder, -, -⟩ := rounds_close_in_order 3 (by decide) (by decide) es spare
  have current : (start.recordAll es).current = 2 := by decide +kernel
  exact ⟨spare, closed, current, (anyOrder _ (List.reverse_perm es).symm).trans current⟩

end RoundTracker
end GossipNode
