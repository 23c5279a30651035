import GossipNode.Node.Gossip
import GossipNode.Proofs.Store.Reconciliation
import GossipNode.Proofs.Text.Order
/-!
# Comparisons from both sides

What a comparison says of two vectors without zeros depends on the numbers that they show, and on nothing else: an origin
may be left out or be entered with a 1.  So vectors in sync can be put for each other.

Turned round, a comparison finds the other side ahead where this one is behind.  That is why a report that is sent to ask
for records is never answered by a report: whoever gets it has something to push (`Node.push_of_ask`).
-/
namespace GossipNode

namespace StatusVector

variable {own peer : StatusVector} {o o' : Origin}

theorem positive_of_entries (h : ∀ e ∈ own.entries, 1 ≤ e.2) : own.Positive := fun _ _ entry =>
  h _ (SortedMap.mem_entries.2 entry)

theorem lt_of_reconcile_eq_selfAhead (h : own.reconcile peer = .selfAhead o) : peer.next o < own.next o := by
  unfold reconcile at h
  split at h
  · rename_i e found
    rw [← Reconciliation.selfAhead.inj h, next_of_mem (List.mem_of_find?_eq_some found)]
    simpa using List.find?_some found
  · split at h <;> cases h

/-- No origin before the one reported is ahead. -/
theorem le_of_reconcile_eq_selfAhead (hpeer : peer.Positive) (h : own.reconcile peer = .selfAhead o)
    (before : compare o' o = .lt) : own.next o' ≤ peer.next o' := by
  unfold reconcile at h
  split at h
  · rename_i e found
    obtain rfl := Reconciliation.selfAhead.inj h
    obtain ⟨-, skipped, rest, split, notAhead⟩ := List.find?_eq_some_iff_append.1 found
    cases entry : own.get? o' with
    | none =>
      rw [next, entry]
      exact hpeer.one_le_next o'
    | some n =>
      have ascending := own.ascending
      have there := SortedMap.mem_entries.2 entry
      rw [split] at ascending there
      -- the entries from the reported one on have its key or a later one
      have early : (o', n) ∈ skipped := by
        rcases List.mem_append.1 there with early | late
        · exact early
        rcases List.mem_cons.1 late with same | late
        · rw [← same] at before
          exact absurd rfl (SortedMap.ne_of_compare_lt before)
        · have after := (List.pairwise_cons.1 (List.pairwise_append.1 ascending).2.1).1 _ late
          exact absurd rfl (SortedMap.ne_of_compare_lt (Std.TransCmp.lt_trans before after))
      rw [next, entry]
      exact UInt32.not_lt.1 (by simpa using notAhead _ early)
  · split at h <;> cases h

/-! ## The three answers -/

section Answers

variable (hown : own.Positive) (hpeer : peer.Positive)

include hown hpeer

theorem reconcile_eq_inSync_iff : own.reconcile peer = .inSync ↔ ∀ o, own.next o = peer.next o := by
  rcases reconcile_cases hown hpeer with ⟨o, he, lt⟩ | ⟨-, he, o, lt⟩ | ⟨same, he⟩
  · exact ⟨fun h => (nomatch he.symm.trans h), fun same => absurd (same o).symm (UInt32.ne_of_lt lt)⟩
  · exact ⟨fun h => (nomatch he.symm.trans h), fun same => absurd (same o) (UInt32.ne_of_lt lt)⟩
  · exact ⟨fun _ => same, fun _ => he⟩

theorem exists_reconcile_eq_selfAhead_iff : (∃ o, own.reconcile peer = .selfAhead o) ↔ ∃ o, peer.next o < own.next o := by
  constructor
  · rintro ⟨o, h⟩
    exact ⟨o, lt_of_reconcile_eq_selfAhead h⟩
  · rintro ⟨o, lt⟩
    rcases reconcile_cases hown hpeer with ⟨o', he, -⟩ | ⟨le, -⟩ | ⟨same, -⟩
    · exact ⟨o', he⟩
    · exact absurd lt (UInt32.not_lt.2 (le o))
    · exact absurd (same o).symm (UInt32.ne_of_lt lt)

theorem reconcile_eq_peerAhead_iff :
    own.reconcile peer = .peerAhead ↔ (∀ o, own.next o ≤ peer.next o) ∧ ∃ o, own.next o < peer.next o := by
  rcases reconcile_cases hown hpeer with ⟨o, he, lt⟩ | ⟨le, he, behind⟩ | ⟨same, he⟩
  · exact ⟨fun h => (nomatch he.symm.trans h), fun h => absurd lt (UInt32.not_lt.2 (h.1 o))⟩
  · exact ⟨fun _ => ⟨le, behind⟩, fun _ => he⟩
  · refine ⟨fun h => (nomatch he.symm.trans h), ?_⟩
    rintro ⟨-, o, lt⟩
    exact absurd (same o) (UInt32.ne_of_lt lt)

/-- **The origin reported** is the first that is ahead. -/
theorem reconcile_eq_selfAhead_iff : own.reconcile peer = .selfAhead o ↔
    peer.next o < own.next o ∧ ∀ o', compare o' o = .lt → own.next o' ≤ peer.next o' := by
  constructor
  · intro h
    exact ⟨lt_of_reconcile_eq_selfAhead h, fun o' => le_of_reconcile_eq_selfAhead hpeer h⟩
  · rintro ⟨lt, first⟩
    obtain ⟨o', h⟩ := (exists_reconcile_eq_selfAhead_iff hown hpeer).2 ⟨o, lt⟩
    cases order : compare o' o with
    | lt => exact absurd (lt_of_reconcile_eq_selfAhead h) (UInt32.not_lt.2 (first o' order))
    | eq => rw [← Std.LawfulEqCmp.eq_of_compare order, h]
    | gt => exact absurd lt (UInt32.not_lt.2 (le_of_reconcile_eq_selfAhead hpeer h (Std.OrientedCmp.lt_of_gt order)))

/-- **Whoever is only behind is ahead from the other side.** -/
theorem exists_selfAhead_of_peerAhead (h : own.reconcile peer = .peerAhead) : ∃ o, peer.reconcile own = .selfAhead o :=
  (exists_reconcile_eq_selfAhead_iff hpeer hown).2 ((reconcile_eq_peerAhead_iff hown hpeer).1 h).2

end Answers

/-- **Only the numbers shown count.** -/
theorem reconcile_congr {own' peer' : StatusVector} (hown : own.Positive) (hpeer : peer.Positive) (hown' : own'.Positive)
    (hpeer' : peer'.Positive) (same : ∀ o, own.next o = own'.next o) (same' : ∀ o, peer.next o = peer'.next o) :
    own'.reconcile peer' = own.reconcile peer := by
  cases h : own.reconcile peer with
  | inSync =>
    rw [reconcile_eq_inSync_iff hown hpeer] at h
    rw [reconcile_eq_inSync_iff hown' hpeer']
    exact fun o => by rw [← same, ← same', h]
  | selfAhead o =>
    rw [reconcile_eq_selfAhead_iff hown hpeer] at h
    rw [reconcile_eq_selfAhead_iff hown' hpeer']
    simpa only [← same, ← same'] using h
  | peerAhead =>
    rw [reconcile_eq_peerAhead_iff hown hpeer] at h
    rw [reconcile_eq_peerAhead_iff hown' hpeer']
    simpa only [← same, ← same'] using h

theorem inSync_equivalence :
    Equivalence (fun v w : {v : StatusVector // v.Positive} => v.1.reconcile w.1 = .inSync) where
  refl v := (reconcile_eq_inSync_iff v.2 v.2).2 (fun _ => rfl)
  symm {v w} h := by
    rw [reconcile_eq_inSync_iff v.2 w.2] at h
    exact (reconcile_eq_inSync_iff w.2 v.2).2 (fun o => (h o).symm)
  trans {u v w} h h' := by
    rw [reconcile_eq_inSync_iff u.2 v.2] at h
    rw [reconcile_eq_inSync_iff v.2 w.2] at h'
    exact (reconcile_eq_inSync_iff u.2 w.2).2 (fun o => (h o).trans (h' o))

end StatusVector

/-! ## What a node answers -/

namespace Node

/-- **A report that asks is answered by a push**, from the peer whose report it answers, and also when that has stored more
in the meantime. -/
theorem push_of_ask {s t t' : Store} (hs : s.Sound) (fs : s.Fits) (ht : t.Sound) (ft : t.Fits) (ht' : t'.Sound) (ft' : t'.Fits)
    (grown : ∀ o, t.log o <+: t'.log o) {report : StatusReport} (h : statusAnswer s t.status = .ask report) :
    ∃ r, statusAnswer t' report.toVector = .push r := by
  unfold statusAnswer at h
  split at h
  · split at h <;> cases h
  · rename_i behind
    obtain rfl := StatusAnswer.ask.inj h
    obtain ⟨-, o, lt⟩ := (StatusVector.reconcile_eq_peerAhead_iff (hs.positive fs) (ht.positive ft)).1 behind
    have lt' : s.nextId o < t'.nextId o := by
      rw [Store.nextId_lt_iff hs fs ht' ft']
      exact Nat.lt_of_lt_of_le ((Store.nextId_lt_iff hs fs ht ft o).1 lt) (grown o).length_le
    obtain ⟨o', ahead⟩ := (StatusVector.exists_reconcile_eq_selfAhead_iff (ht'.positive ft') (hs.positive fs)).2 ⟨o, lt'⟩
    obtain ⟨r, missing, -⟩ := Store.exists_missingFor ht' ft' hs fs ahead (StatusVector.lt_of_reconcile_eq_selfAhead ahead)
    refine ⟨r, ?_⟩
    have ahead' : t'.reconcile s.status = .selfAhead o' := ahead
    rw [Store.statusReport, StatusReport.toVector_ofVector, statusAnswer, ahead', missing]
  · cases h

end Node

/-- **The comparison of vectors without zeros is sound and dual.**  They are in sync if they agree on every origin; this side
is ahead if it shows more for some origin, and then the first such, by the octets of its name, is reported; otherwise the
peer is ahead.  To be in sync is an equivalence, and no comparison tells vectors in sync apart.  Where the peer is ahead,
the peer finds itself ahead; each side finds itself ahead when each shows more somewhere.  So a report that is sent in
answer to one of a leading peer makes that peer push a record. -/
theorem comparison_sound_and_dual (a b : StatusVector) (ha : a.Positive) (hb : b.Positive) :
    (a.reconcile b = .inSync ↔ ∀ o, a.next o = b.next o) ∧
    ((∃ o, a.reconcile b = .selfAhead o) ↔ ∃ o, b.next o < a.next o) ∧
    (∀ o, a.reconcile b = .selfAhead o ↔
      b.next o < a.next o ∧ ∀ o', utf8 o'.name < utf8 o.name → a.next o' ≤ b.next o') ∧
    (a.reconcile b = .peerAhead ↔ (∀ o, a.next o ≤ b.next o) ∧ ∃ o, a.next o < b.next o) ∧
    Equivalence (fun v w : {v : StatusVector // v.Positive} => v.1.reconcile w.1 = .inSync) ∧
    (∀ a' b' : StatusVector, a'.Positive → b'.Positive → a.reconcile a' = .inSync → b.reconcile b' = .inSync →
      a'.reconcile b' = a.reconcile b) ∧
    (a.reconcile b = .peerAhead → ∃ o, b.reconcile a = .selfAhead o) ∧
    ((∃ o, a.reconcile b = .selfAhead o) ∧ (∃ o, b.reconcile a = .selfAhead o) ↔
      (∃ o, b.next o < a.next o) ∧ ∃ o, a.next o < b.next o) ∧
    ∀ s t t' : Store, s.Sound → s.Fits → t.Sound → t.Fits → t'.Sound → t'.Fits → (∀ o, t.log o <+: t'.log o) →
      ∀ report, Node.statusAnswer s t.status = .ask report → ∃ r, Node.statusAnswer t' report.toVector = .push r := by
  refine ⟨StatusVector.reconcile_eq_inSync_iff ha hb, StatusVector.exists_reconcile_eq_selfAhead_iff ha hb, fun o => ?_,
    StatusVector.reconcile_eq_peerAhead_iff ha hb, StatusVector.inSync_equivalence, fun a' b' ha' hb' haa' hbb' => ?_,
    StatusVector.exists_selfAhead_of_peerAhead ha hb, ?_,
    fun s t t' hs fs ht ft ht' ft' grown report => Node.push_of_ask hs fs ht ft ht' ft' grown⟩
  · simp only [← Origin.compare_eq_lt_iff]
    exact StatusVector.reconcile_eq_selfAhead_iff ha hb
  · rw [StatusVector.reconcile_eq_inSync_iff ha ha'] at haa'
    rw [StatusVector.reconcile_eq_inSync_iff hb hb'] at hbb'
    exact StatusVector.reconcile_congr ha hb ha' hb' haa' hbb'
  · rw [StatusVector.exists_reconcile_eq_selfAhead_iff ha hb, StatusVector.exists_reconcile_eq_selfAhead_iff hb ha]

/-- Each side shows more somewhere.  An entry of 1 is no different from none, and é comes after all of ASCII. -/
theorem comparison_sound_and_dual_divided :
    let a : StatusVector := .ofList [(⟨"b"⟩, 1), (⟨"é"⟩, 9), (⟨"z"⟩, 5), (⟨"d"⟩, 2)]
    let a' : StatusVector := .ofList [(⟨"d"⟩, 2), (⟨"é"⟩, 9), (⟨"z"⟩, 5), (⟨"x"⟩, 1)]
    let b : StatusVector := .ofList [(⟨"z"⟩, 2), (⟨"d"⟩, 7)]
    a.Positive ∧ a'.Positive ∧ b.Positive ∧ a.reconcile a' = .inSync ∧ a'.reconcile a = .inSync ∧
    a.reconcile b = .selfAhead ⟨"z"⟩ ∧ a'.reconcile b = .selfAhead ⟨"z"⟩ ∧ (∃ o, b.reconcile a = .selfAhead o) := by
  intro a a' b
  have ha : a.Positive := StatusVector.positive_of_entries (by decide +kernel)
  have ha' : a'.Positive := StatusVector.positive_of_entries (by decide +kernel)
  have hb : b.Positive := StatusVector.positive_of_entries (by decide +kernel)
  obtain ⟨-, -, -, -, sync, same, -, both, -⟩ := comparison_sound_and_dual a b ha hb
  have inSync : a.reconcile a' = .inSync := by decide +kernel
  have ahead : a.reconcile b = .selfAhead ⟨"z"⟩ := by decide +kernel
  have behind : ∃ o, a.next o < b.next o := ⟨⟨"d"⟩, by decide +kernel⟩
  refine ⟨ha, ha', hb, inSync, sync.symm (x := ⟨a, ha⟩) (y := ⟨a', ha'⟩) inSync, ahead, ?_, ?_⟩
  · rw [same a' b ha' hb inSync (sync.refl ⟨b, hb⟩), ahead]
  · exact (both.2 ⟨⟨⟨"z"⟩, by decide +kernel⟩, behind⟩).2

end GossipNode
