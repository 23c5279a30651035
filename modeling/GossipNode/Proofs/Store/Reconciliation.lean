import Mathlib.Data.Finset.Card
import Mathlib.Data.List.Nodup
import GossipNode.Proofs.Store.Logs
import GossipNode.Proofs.Message.Maxima
/-!
# What the comparison of two stores says

The comparison of two vectors without zeros is a comparison of the numbers they show for each origin
(`StatusVector.reconcile_cases`).

Between sound stores a number shown is one more than the length of a log.  So a store that is ahead of a peer in some
origin holds just the record that the peer takes next, and that is the record it pushes (`Store.exists_missingFor`).
-/
namespace GossipNode

/-! ## Vectors -/

namespace StatusVector

/-- No entry is zero; an origin without an entry counts as 1. -/
def Positive (v : StatusVector) : Prop := ∀ o n, v.get? o = some n → 1 ≤ n

theorem Positive.one_le_next {v : StatusVector} (h : v.Positive) (o : Origin) : 1 ≤ v.next o := by
  unfold next
  cases hv : v.get? o with
  | none => exact UInt32.le_refl 1
  | some n => exact h o n hv

theorem next_of_mem {v : StatusVector} {e : Origin × SequenceId} (h : e ∈ v.entries) : v.next e.1 = e.2 := by
  rw [next, SortedMap.mem_entries.1 h]
  rfl

/-- If every entry is at most what another vector shows, then so is every number shown. -/
theorem next_le_of_entries {v w : StatusVector} (hw : w.Positive) (h : ∀ e ∈ v.entries, e.2 ≤ w.next e.1) (o : Origin) :
    v.next o ≤ w.next o := by
  cases hv : v.get? o with
  | none =>
    have := hw.one_le_next o
    rw [next, hv]
    exact this
  | some n =>
    have := h (o, n) (SortedMap.mem_entries.2 hv)
    rw [next, hv]
    exact this

/-- **The three answers of a comparison.** -/
theorem reconcile_cases {own peer : StatusVector} (hown : own.Positive) (hpeer : peer.Positive) :
    (∃ o, own.reconcile peer = .selfAhead o ∧ peer.next o < own.next o) ∨
    ((∀ o, own.next o ≤ peer.next o) ∧ own.reconcile peer = .peerAhead ∧ ∃ o, own.next o < peer.next o) ∨
    ((∀ o, own.next o = peer.next o) ∧ own.reconcile peer = .inSync) := by
  unfold reconcile
  cases hfind : own.entries.find? (fun e => peer.next e.1 < e.2) with
  | some e =>
    have hlt : peer.next e.1 < e.2 := by simpa using List.find?_some hfind
    rw [← next_of_mem (List.mem_of_find?_eq_some hfind)] at hlt
    exact .inl ⟨e.1, rfl, hlt⟩
  | none =>
    have hle : ∀ o, own.next o ≤ peer.next o := by
      refine next_le_of_entries hpeer (fun e he => ?_)
      have := List.find?_eq_none.1 hfind e he
      exact UInt32.not_lt.1 (by simpa using this)
    by_cases hany : peer.entries.any (fun e => own.next e.1 < e.2) = true
    · obtain ⟨e, he, hlt⟩ := List.any_eq_true.1 hany
      have hlt' : own.next e.1 < peer.next e.1 := by
        rw [next_of_mem he]
        exact of_decide_eq_true hlt
      exact .inr (.inl ⟨hle, if_pos hany, e.1, hlt'⟩)
    · have hge : ∀ o, peer.next o ≤ own.next o := by
        refine next_le_of_entries hown (fun e he => ?_)
        have hnot : ¬ own.next e.1 < e.2 := fun hlt => hany (List.any_eq_true.2 ⟨e, he, decide_eq_true hlt⟩)
        exact UInt32.not_lt.1 hnot
      exact .inr (.inr ⟨fun o => UInt32.le_antisymm (hle o) (hge o), if_neg hany⟩)

end StatusVector

/-! ## Stores -/

namespace Store

theorem Sound.positive {s : Store} (h : s.Sound) (fits : s.Fits) : s.status.Positive := by
  intro o n hn
  rw [h.inStep o] at hn
  obtain ⟨l, hl, rfl⟩ := Option.map_eq_some_iff.1 hn
  have hlog : s.log o = l := by rw [log, hl]; rfl
  have hroom := fits o
  rw [hlog] at hroom
  rw [UInt32.le_iff_toNat_le, toNat_nextAfter hroom]
  exact Nat.le_add_left 1 l.length

variable {s t : Store}

/-- **The number shown for an origin grows with its log.** -/
theorem nextId_lt_iff (hs : s.Sound) (fs : s.Fits) (ht : t.Sound) (ft : t.Fits) (o : Origin) :
    s.nextId o < t.nextId o ↔ (s.log o).length < (t.log o).length := by
  rw [UInt32.lt_iff_toNat_lt, hs.toNat_nextId fs, ht.toNat_nextId ft]
  omega

theorem length_eq_of_nextId_eq (hs : s.Sound) (fs : s.Fits) (ht : t.Sound) (ft : t.Fits) {o : Origin}
    (h : s.nextId o = t.nextId o) : (s.log o).length = (t.log o).length := by
  have := congrArg UInt32.toNat h
  rw [hs.toNat_nextId fs, ht.toNat_nextId ft] at this
  omega

/-- **A store that is ahead pushes the record that its peer takes next.** -/
theorem exists_missingFor (hs : s.Sound) (fs : s.Fits) (ht : t.Sound) (ft : t.Fits) {o : Origin}
    (h : s.reconcile t.status = .selfAhead o) (hlt : t.nextId o < s.nextId o) :
    ∃ r, s.missingFor t.status = some r ∧ r.origin = o ∧ r.id = t.nextId o ∧
      (s.log o)[(t.log o).length]? = some r := by
  have hlen : (t.log o).length < (s.log o).length := (nextId_lt_iff ht ft hs fs o).1 hlt
  obtain ⟨r, hr⟩ : ∃ r, (s.log o)[(t.log o).length]? = some r := ⟨_, List.getElem?_eq_getElem hlen⟩
  obtain ⟨horigin, hid⟩ := hs.numbered o _ _ hr
  have hnext := ht.toNat_nextId ft o
  have hne : t.nextId o ≠ 0 := by
    intro h0
    rw [h0] at hnext
    cases hnext
  have hget : s.get? o (t.nextId o) = some r := by
    rw [get?_of_pos _ _ hne, hnext, Nat.add_sub_cancel]
    exact hr
  refine ⟨r, ?_, horigin, UInt32.toNat_inj.1 (by rw [hid, hnext]), hr⟩
  rw [missingFor, h]
  exact hget

/-! ## What a store holds -/

/-- All that is held, origin by origin. -/
def records (s : Store) : List Record := s.logs.values.flatten

theorem mem_records {s : Store} {r : Record} : r ∈ s.records ↔ ∃ o, r ∈ s.log o := by
  unfold records SortedMap.values
  constructor
  · intro h
    obtain ⟨l, hl, hr⟩ := List.mem_flatten.1 h
    obtain ⟨e, he, rfl⟩ := List.mem_map.1 hl
    refine ⟨e.1, ?_⟩
    rw [log, SortedMap.mem_entries.1 he]
    exact hr
  · rintro ⟨o, hr⟩
    unfold log at hr
    cases hl : s.logs.get? o with
    | none => rw [hl] at hr; cases hr
    | some l =>
      rw [hl] at hr
      exact List.mem_flatten.2 ⟨l, List.mem_map.2 ⟨(o, l), SortedMap.mem_entries.2 hl, rfl⟩, hr⟩

theorem Numbered.nodup {o : Origin} {l : List Record} (h : Numbered o l) : l.Nodup := by
  have hids : (l.map (fun r => r.id.toNat)).Nodup := by
    rw [h.map_id]
    exact List.nodup_range'
  exact hids.of_map _

/-- **No record is held twice.** -/
theorem Sound.nodup_records (h : s.Sound) : s.records.Nodup := by
  have hlog : ∀ e ∈ s.logs.entries, s.log e.1 = e.2 := by
    intro e he
    rw [log, SortedMap.mem_entries.1 he]
    rfl
  rw [records, SortedMap.values, List.nodup_flatten, List.pairwise_map]
  constructor
  · intro l hl
    obtain ⟨e, he, rfl⟩ := List.mem_map.1 hl
    rw [← hlog e he]
    exact (h.numbered e.1).nodup
  · -- two entries have different keys, and every record of an entry has the entry's key as its origin
    refine s.logs.ascending.imp_of_mem (fun {a b} ha hb hlt r hra hrb => ?_)
    rw [← hlog a ha] at hra
    rw [← hlog b hb] at hrb
    have hab : a.1 = b.1 := ((h.numbered a.1).origin_of_mem hra).symm.trans ((h.numbered b.1).origin_of_mem hrb)
    exact SortedMap.ne_of_compare_lt hlt hab

theorem mem_records_push {s : Store} {r x : Record} : x ∈ (s.push r).records ↔ x = r ∨ x ∈ s.records := by
  rw [mem_records, mem_records]
  constructor
  · rintro ⟨o, hx⟩
    rcases mem_or_eq_of_mem_log_push hx with hx | ⟨he, -⟩
    · exact .inr ⟨o, hx⟩
    · exact .inl he
  · rintro (rfl | ⟨o, hx⟩)
    · exact ⟨x.origin, s.mem_log_push x⟩
    · exact ⟨o, (log_prefix_push s r o).subset hx⟩

theorem recordCount_eq_card {s : Store} (h : s.Sound) : s.recordCount = s.records.toFinset.card :=
  (List.toFinset_card_of_nodup h.nodup_records).symm

/-- A record with the next number is one more. -/
theorem recordCount_push {s : Store} (h : s.Sound) (fits : s.Fits) {r : Record} (hid : r.id = s.nextId r.origin) :
    (s.push r).recordCount = s.recordCount + 1 := by
  have hnew : r ∉ s.records.toFinset := by
    rw [List.mem_toFinset, mem_records]
    rintro ⟨o, hr⟩
    obtain rfl := (h.numbered o).origin_of_mem hr
    have hle := (h.numbered r.origin).id_le hr
    rw [hid, h.toNat_nextId fits] at hle
    omega
  have hinsert : (s.push r).records.toFinset = insert r s.records.toFinset := by
    ext x
    rw [List.mem_toFinset, Finset.mem_insert, List.mem_toFinset, mem_records_push]
  rw [recordCount_eq_card (h.push fits hid), hinsert, Finset.card_insert_of_notMem hnew, recordCount_eq_card h]

/-- **Sound stores with the same logs are the same.** -/
theorem Sound.eq_of_log_eq (hs : s.Sound) (ht : t.Sound) (h : ∀ o, s.log o = t.log o) : s = t := by
  have hlogs : s.logs = t.logs := by
    apply SortedMap.ext_get?
    intro o
    have := h o
    unfold log at this
    have hs' := hs.inhabited o
    have ht' := ht.inhabited o
    cases hso : s.logs.get? o with
    | none =>
      cases hto : t.logs.get? o with
      | none => rfl
      | some l =>
        rw [hso, hto] at this
        exact absurd (by rw [hto]; exact congrArg some this.symm) ht'
    | some l =>
      cases hto : t.logs.get? o with
      | none =>
        rw [hso, hto] at this
        exact absurd (by rw [hso]; exact congrArg some this) hs'
      | some l' =>
        rw [hso, hto] at this
        exact congrArg some this
  have hstatus : s.status = t.status := by
    apply SortedMap.ext_get?
    intro o
    rw [hs.inStep o, ht.inStep o, hlogs]
  cases s
  cases t
  simp_all

end Store
end GossipNode
