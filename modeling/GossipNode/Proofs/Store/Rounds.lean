import Mathlib.Data.List.Nodup
import GossipNode.Proofs.Store.Logs
/-!
# Rounds in logs

The unconfirmed proposals of an origin, in the order of its log, are its proposals of rounds 0, 1, 2, and so on; that is
what `Store.proposalRound` counts (`Sound.proposalRound_eq_some_iff`).  A log that grows changes nothing about rounds.
Who confirms its proposal of a round is read off the logs alone (`Store.confirmers`).
-/
namespace GossipNode

/-- The number of the proposal that a record confirms. -/
def Record.confirmed? : Record → Option SequenceId
  | .proposal m => m.confirmed
  | _ => none

theorem Record.confirmed?_of_other {r : Record} (h : ∀ m, r ≠ .proposal m) : r.confirmed? = none := by
  cases r with
  | proposal m => exact absurd rfl (h m)
  | rumor => rfl
  | block => rfl

/-- What a proposal or a confirmation is about. -/
def Record.transaction? : Record → Option Transaction
  | .proposal m => some m.transaction
  | _ => none

namespace Store

/-- The unconfirmed proposals of an origin, that of round 0 first. -/
def proposals (s : Store) (o : Origin) : List Record := (s.log o).filter Record.isUnconfirmedProposal

/-- The origin has logged a confirmation of that number. -/
def Confirms (s : Store) (o : Origin) (id : SequenceId) : Prop := ∃ r ∈ s.log o, r.confirmed? = some id

/-- The origins that have logged a confirmation of their proposal of a round. -/
def confirmers (s : Store) (round : Nat) : List Origin :=
  s.logs.keys.filter fun o => (s.proposals o)[round]?.any fun p => (s.log o).any fun r => r.confirmed? == some p.id

/-- Every confirmation that is held is of an earlier unconfirmed proposal of its origin. -/
def RefersBack (s : Store) : Prop :=
  ∀ o, ∀ r ∈ s.log o, ∀ id, r.confirmed? = some id → id < r.id ∧ ∃ p ∈ s.proposals o, p.id = id

variable {s s' : Store} {o : Origin} {id : SequenceId} {round : UInt32}

/-! ## Places in a filtered list -/

section Places

variable {α : Type} {P : α → Bool}

theorem getElem?_filter_countP {l : List α} {k : Nat} {a : α} (h : l[k]? = some a) (ha : P a = true) :
    (l.filter P)[(l.take k).countP P]? = some a := by
  induction l generalizing k with
  | nil => cases h
  | cons b l ih =>
    cases k with
    | zero =>
      obtain rfl : b = a := Option.some.inj h
      simp [ha]
    | succ k =>
      have hl := ih (k := k) h
      by_cases hb : P b = true
      · simpa [hb] using hl
      · simpa [hb] using hl

theorem exists_of_getElem?_filter {l : List α} {n : Nat} {a : α} (h : (l.filter P)[n]? = some a) :
    ∃ k, l[k]? = some a ∧ P a = true ∧ (l.take k).countP P = n := by
  induction l generalizing n with
  | nil => cases h
  | cons b l ih =>
    by_cases hb : P b = true
    · rw [List.filter_cons_of_pos hb] at h
      cases n with
      | zero =>
        obtain rfl : b = a := Option.some.inj h
        exact ⟨0, rfl, hb, rfl⟩
      | succ n =>
        obtain ⟨k, hk, ha, hn⟩ := ih h
        exact ⟨k + 1, hk, ha, by simp [hb, hn]⟩
    · rw [List.filter_cons_of_neg hb] at h
      obtain ⟨k, hk, ha, hn⟩ := ih h
      exact ⟨k + 1, hk, ha, by simp [hb, hn]⟩

end Places

/-! ## Rounds -/

theorem proposalRound_eq {r : Record} (hr : s.get? o id = some r) (hu : r.isUnconfirmedProposal = true) :
    s.proposalRound o id =
      some (UInt32.ofNat (((s.log o).take (id.toNat - 1)).countP Record.isUnconfirmedProposal)) := by
  rw [proposalRound, hr, Option.bind_some, if_pos hu]

theorem exists_of_proposalRound (h : s.proposalRound o id = some round) :
    ∃ r, s.get? o id = some r ∧ r.isUnconfirmedProposal = true ∧
      round = UInt32.ofNat (((s.log o).take (id.toNat - 1)).countP Record.isUnconfirmedProposal) := by
  obtain ⟨r, hr, hround⟩ := Option.bind_eq_some_iff.1 h
  split at hround
  · rename_i hu
    exact ⟨r, hr, hu, (Option.some.inj hround).symm⟩
  · cases hround

theorem pos_of_get? {r : Record} (h : s.get? o id = some r) : 0 < id.toNat ∧ id.toNat ≤ (s.log o).length := by
  have h0 : id ≠ 0 := by
    rintro rfl
    cases h
  rw [get?_of_pos _ _ h0] at h
  have hlt := (List.getElem?_eq_some_iff.1 h).1
  have hpos : id.toNat ≠ 0 := fun he => h0 (UInt32.toNat_inj.1 he)
  omega

/-- **The round of a proposal stays**, however its log grows. -/
theorem proposalRound_mono (grown : s.log o <+: s'.log o) (h : s.proposalRound o id = some round) :
    s'.proposalRound o id = some round := by
  obtain ⟨r, hr, hu, hround⟩ := exists_of_proposalRound h
  have hlen := (pos_of_get? hr).2
  have same : (s'.log o).take (id.toNat - 1) = (s.log o).take (id.toNat - 1) := by
    obtain ⟨l, hl⟩ := grown
    rw [← hl, List.take_append_of_le_length (by omega)]
  rw [proposalRound_eq (get?_mono grown hr) hu, same, hround]

/-- A number of a log has the round that it will have in any longer log. -/
theorem proposalRound_of_longer (grown : s.log o <+: s'.log o) (hid : id.toNat ≤ (s.log o).length)
    (h : s'.proposalRound o id = some round) : s.proposalRound o id = some round := by
  obtain ⟨r, hr, hu, -⟩ := exists_of_proposalRound h
  have here := proposalRound_eq (get?_of_longer grown hid hr) hu
  rw [proposalRound_mono grown here] at h
  rw [here, h]

theorem toNat_proposalRound (fits : s.Fits) (h : s.proposalRound o id = some round) :
    round.toNat = ((s.log o).take (id.toNat - 1)).countP Record.isUnconfirmedProposal ∧
      round.toNat + 1 < UInt32.size := by
  obtain ⟨r, hr, -, rfl⟩ := exists_of_proposalRound h
  have hlen := pos_of_get? hr
  have hroom := fits o
  have hcount : ((s.log o).take (id.toNat - 1)).countP Record.isUnconfirmedProposal ≤ id.toNat - 1 :=
    Nat.le_trans List.countP_le_length (List.length_take_le _ _)
  rw [UInt32.toNat_ofNat_of_lt' (by omega)]
  omega

/-- **The round of a proposal is its place among the unconfirmed proposals of its origin**, counted from zero. -/
theorem Sound.proposalRound_eq_some_iff (h : s.Sound) (fits : s.Fits) :
    s.proposalRound o id = some round ↔ ∃ p, (s.proposals o)[round.toNat]? = some p ∧ p.id = id := by
  constructor
  · intro hround
    obtain ⟨p, hp, hu, -⟩ := exists_of_proposalRound hround
    refine ⟨p, ?_, (h.get?_eq_some_iff.1 hp).2⟩
    have h0 : id ≠ 0 := by
      rintro rfl
      cases hp
    rw [get?_of_pos _ _ h0] at hp
    rw [(toNat_proposalRound fits hround).1]
    exact getElem?_filter_countP hp hu
  · rintro ⟨p, hp, rfl⟩
    obtain ⟨k, hk, hu, hn⟩ := exists_of_getElem?_filter hp
    have hmem := List.mem_of_getElem? hk
    have hid := ((h.numbered o) k p hk).2
    rw [proposalRound_eq (h.get?_eq_some_iff.2 ⟨hmem, rfl⟩) hu, hid, Nat.add_sub_cancel, hn, UInt32.ofNat_toNat]

/-! ## Proposals in a log -/

theorem proposals_push (s : Store) (r : Record) (o : Origin) :
    (s.push r).proposals o =
      s.proposals o ++ if o = r.origin ∧ r.isUnconfirmedProposal = true then [r] else [] := by
  unfold proposals
  rw [log_push]
  by_cases ho : o = r.origin
  · by_cases hu : r.isUnconfirmedProposal = true <;> simp [ho, hu]
  · simp [ho]

theorem proposals_push_of_other (s : Store) {r : Record} (h : r.isUnconfirmedProposal = false) (o : Origin) :
    (s.push r).proposals o = s.proposals o := by
  rw [proposals_push, h, if_neg (fun h => nomatch h.2), List.append_nil]

theorem isUnconfirmedProposal_of_other {r : Record} (h : ∀ m, r ≠ .proposal m) : r.isUnconfirmedProposal = false := by
  cases r with
  | proposal m => exact absurd rfl (h m)
  | rumor => rfl
  | block => rfl

theorem length_proposals_le (s : Store) (o : Origin) : (s.proposals o).length ≤ (s.log o).length := List.length_filter_le _ _

/-- **The next proposal of an origin falls into the round after those that it has logged.** -/
theorem Sound.proposalRound_push (h : s.Sound) (fits : s.Fits) {r : Record} (fits' : (s.push r).Fits)
    (new : r.id = s.nextId r.origin) (hu : r.isUnconfirmedProposal = true) :
    ∃ round, (s.push r).proposalRound r.origin r.id = some round ∧ round.toNat = (s.proposals r.origin).length := by
  have hword : (UInt32.ofNat (s.proposals r.origin).length).toNat = (s.proposals r.origin).length := by
    refine UInt32.toNat_ofNat_of_lt' ?_
    have := s.length_proposals_le r.origin
    have := fits r.origin
    omega
  refine ⟨_, ((h.push fits new).proposalRound_eq_some_iff fits').2 ⟨r, ?_, rfl⟩, hword⟩
  rw [hword, proposals_push, if_pos ⟨rfl, hu⟩, List.getElem?_concat_length]

/-- **A number stands for one proposal at most.** -/
theorem Sound.nodup_proposals (h : s.Sound) (o : Origin) : ((s.proposals o).map Record.id).Nodup := by
  have numbers : ((s.log o).map (fun r => r.id.toNat)).Nodup := by
    rw [(h.numbered o).map_id]
    exact List.nodup_range'
  have ids : ((s.log o).map Record.id).Nodup := by
    refine List.Nodup.of_map UInt32.toNat ?_
    rwa [List.map_map]
  exact ids.sublist (List.filter_sublist.map _)

/-- A record that is pushed counts as a proposal of its number if it is one. -/
theorem countP_proposals_push (s : Store) (r : Record) (o : Origin) (id : SequenceId) :
    ((s.push r).proposals o).countP (fun r => r.id == id) =
      (s.proposals o).countP (fun r => r.id == id) +
        if r.isUnconfirmedProposal && (r.origin == o && r.id == id) then 1 else 0 := by
  rw [proposals_push, List.countP_append]
  by_cases hpush : o = r.origin ∧ r.isUnconfirmedProposal = true
  · obtain ⟨rfl, hu⟩ := hpush
    rw [if_pos ⟨rfl, hu⟩, List.countP_singleton, hu, beq_self_eq_true, Bool.true_and, Bool.true_and]
  · rw [if_neg hpush]
    have : (r.isUnconfirmedProposal && (r.origin == o && r.id == id)) = false := by
      grind
    rw [this]
    rfl

theorem Sound.countP_proposals_le (h : s.Sound) (o : Origin) (id : SequenceId) :
    (s.proposals o).countP (fun r => r.id == id) ≤ 1 := by
  have := List.nodup_iff_count_le_one.1 (h.nodup_proposals o) id
  rwa [List.count_eq_countP, List.countP_map] at this

theorem Sound.countP_proposals_of_mem (h : s.Sound) {r : Record} (hr : r ∈ s.proposals o) :
    (s.proposals o).countP (fun p => p.id == r.id) = 1 := by
  have once := List.count_eq_one_of_mem (h.nodup_proposals o) (List.mem_map_of_mem hr)
  rwa [List.count_eq_countP, List.countP_map] at once

theorem Sound.countP_proposals (h : s.Sound) (hround : s.proposalRound o id = some round) :
    (s.proposals o).countP (fun r => r.id == id) = 1 := by
  obtain ⟨r, hr, hu, -⟩ := exists_of_proposalRound hround
  obtain ⟨hmem, rfl⟩ := h.get?_eq_some_iff.1 hr
  exact h.countP_proposals_of_mem (List.mem_filter.2 ⟨hmem, hu⟩)

/-- The proposal of a number that is logged has a round. -/
theorem Sound.exists_proposalRound (h : s.Sound) (logged : 0 < (s.proposals o).countP (fun r => r.id == id)) :
    ∃ round, s.proposalRound o id = some round := by
  obtain ⟨r, hr, hid⟩ := List.countP_pos_iff.1 logged
  obtain ⟨hmem, hu⟩ := List.mem_filter.1 hr
  exact ⟨_, proposalRound_eq (h.get?_eq_some_iff.2 ⟨hmem, beq_iff_eq.1 hid⟩) hu⟩

/-! ## Confirmations -/

/-- How many confirmations of a proposal an origin has logged. -/
def confirmations (s : Store) (o : Origin) (id : SequenceId) : Nat := (s.log o).countP (fun r => r.confirmed? == some id)

theorem confirmations_push (s : Store) (r : Record) (o : Origin) (id : SequenceId) : (s.push r).confirmations o id =
    s.confirmations o id + if r.origin = o ∧ r.confirmed? = some id then 1 else 0 := by
  unfold confirmations
  rw [log_push]
  by_cases ho : o = r.origin
  · rw [if_pos ho, List.countP_append, List.countP_singleton]
    by_cases hid : r.confirmed? = some id
    · rw [if_pos (beq_iff_eq.2 hid), if_pos ⟨ho.symm, hid⟩]
    · rw [if_neg (fun h => hid (beq_iff_eq.1 h)), if_neg (fun h => hid h.2)]
  · rw [if_neg ho, if_neg (fun h => ho h.1.symm), Nat.add_zero]

theorem Confirms.mono (grown : s.log o <+: s'.log o) (h : s.Confirms o id) : s'.Confirms o id := by
  obtain ⟨r, hr, hid⟩ := h
  exact ⟨r, grown.subset hr, hid⟩

theorem mem_confirmers {k : Nat} :
    o ∈ s.confirmers k ↔ ∃ p, (s.proposals o)[k]? = some p ∧ s.Confirms o p.id := by
  unfold confirmers
  rw [List.mem_filter, Option.any_eq_true]
  simp only [List.any_eq_true, beq_iff_eq]
  constructor
  · rintro ⟨-, p, hp, hr⟩
    exact ⟨p, hp, hr⟩
  · rintro ⟨p, hp, r, hr, hid⟩
    refine ⟨?_, p, hp, r, hr, hid⟩
    rw [SortedMap.mem_keys]
    unfold SortedMap.contains
    cases hl : s.logs.get? o with
    | none =>
      rw [log, hl] at hr
      cases hr
    | some l => rfl

theorem nodup_confirmers (s : Store) (k : Nat) : (s.confirmers k).Nodup :=
  (SortedMap.nodup_keys s.logs).filter _

end Store
end GossipNode
