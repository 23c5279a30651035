import Mathlib.Data.List.Infix
import GossipNode.Store
/-!
# The logs of a store

What the operations of a store do to its logs, and the invariant that they keep: the status vector names exactly the
origins that have a log, each with the number after it, and the k-th record of a log, counted from zero, has number
k + 1 and the log's origin (`Store.Sound`).  A number is one more than a length, as a 32-bit word; `Store.Fits` says
that this sum does not overflow.
-/
namespace GossipNode
namespace Store

/-! ## The view -/

theorem log_push (s : Store) (r : Record) (o : Origin) :
    (s.push r).log o = if o = r.origin then s.log o ++ [r] else s.log o := by
  unfold push log
  rw [SortedMap.get?_insert_eq_ite]
  split
  · rename_i h; rw [h]; rfl
  · rfl

@[simp] theorem log_push_self (s : Store) (r : Record) : (s.push r).log r.origin = s.log r.origin ++ [r] := by
  rw [log_push, if_pos rfl]

theorem mem_log_push (s : Store) (r : Record) : r ∈ (s.push r).log r.origin := by
  rw [log_push_self]
  exact List.mem_append_right _ List.mem_cons_self

theorem mem_or_eq_of_mem_log_push {s : Store} {r x : Record} {o : Origin} (h : x ∈ (s.push r).log o) :
    x ∈ s.log o ∨ x = r ∧ o = r.origin := by
  rw [log_push] at h
  split at h
  · rename_i ho
    rcases List.mem_append.1 h with h | h
    · exact .inl h
    · exact .inr ⟨List.mem_singleton.1 h, ho⟩
  · exact .inl h

theorem log_prefix_push (s : Store) (r : Record) (o : Origin) : s.log o <+: (s.push r).log o := by
  rw [log_push]
  split
  · exact List.prefix_append _ _
  · exact List.prefix_rfl

/-- A number other than 0 is the place of its record. -/
theorem get?_of_pos (s : Store) (o : Origin) {id : SequenceId} (h : id ≠ 0) :
    s.get? o id = (s.log o)[id.toNat - 1]? := if_neg h

theorem get?_zero (s : Store) (o : Origin) : s.get? o 0 = none := rfl

/-- **A longer log shows the same records under the same numbers.** -/
theorem get?_mono {s s' : Store} {o : Origin} {id : SequenceId} {r : Record} (h : s.log o <+: s'.log o)
    (hr : s.get? o id = some r) : s'.get? o id = some r := by
  by_cases h0 : id = 0
  · rw [h0, get?_zero] at hr; cases hr
  · rw [get?_of_pos _ _ h0] at hr ⊢
    obtain ⟨l, hl⟩ := h
    rw [← hl, List.getElem?_append_left (List.getElem?_eq_some_iff.1 hr).1]
    exact hr

/-- A shorter log shows the same records up to its end. -/
theorem get?_of_longer {s s' : Store} {o : Origin} {id : SequenceId} {r : Record} (h : s.log o <+: s'.log o)
    (hid : id.toNat ≤ (s.log o).length) (hr : s'.get? o id = some r) : s.get? o id = some r := by
  by_cases h0 : id = 0
  · rw [h0, get?_zero] at hr; cases hr
  · rw [get?_of_pos _ _ h0] at hr ⊢
    have hpos : id.toNat ≠ 0 := fun he => h0 (UInt32.toNat_inj.1 he)
    obtain ⟨l, hl⟩ := h
    rw [← hl, List.getElem?_append_left (by omega)] at hr
    exact hr

theorem mem_log_of_get? {s : Store} {o : Origin} {id : SequenceId} {r : Record} (h : s.get? o id = some r) :
    r ∈ s.log o := by
  by_cases h0 : id = 0
  · rw [h0, get?_zero] at h; cases h
  · rw [get?_of_pos _ _ h0] at h
    exact List.mem_of_getElem? h

/-! ## Offers -/

/-- **A record is new exactly when it carries the next number**; it then goes to the end of its log. -/
theorem accept_of_eq {s : Store} {r : Record} (h : r.id = s.nextId r.origin) : s.accept r = (.new, s.push r) := by
  simp [accept, h]

theorem accept_new_iff {s : Store} {r : Record} : (s.accept r).1 = .new ↔ r.id = s.nextId r.origin := by
  constructor
  · intro h
    simp only [accept] at h
    split at h
    · cases h
    · split at h
      · cases h
      · rename_i h1 h2
        exact UInt32.le_antisymm (UInt32.not_lt.1 h2) (UInt32.not_lt.1 h1)
  · intro h
    rw [accept_of_eq h]

theorem accept_of_not_new {s : Store} {r : Record} (h : (s.accept r).1 ≠ .new) : (s.accept r).2 = s := by
  simp only [accept] at h ⊢
  split
  · rfl
  · split
    · rfl
    · rename_i h1 h2
      rw [if_neg h1, if_neg h2] at h
      exact absurd rfl h

/-- **What an offer does**: nothing, or the record with the next number goes to the end of its log. -/
theorem accept_cases (s : Store) (r : Record) :
    ((s.accept r).1 ≠ .new ∧ (s.accept r).2 = s) ∨ (r.id = s.nextId r.origin ∧ s.accept r = (.new, s.push r)) := by
  by_cases h : r.id = s.nextId r.origin
  · exact .inr ⟨h, accept_of_eq h⟩
  · have : (s.accept r).1 ≠ .new := fun hn => h (accept_new_iff.1 hn)
    exact .inl ⟨this, accept_of_not_new this⟩

theorem log_prefix_accept (s : Store) (r : Record) (o : Origin) : s.log o <+: (s.accept r).2.log o := by
  rcases s.accept_cases r with ⟨-, h⟩ | ⟨-, h⟩
  · rw [h]
  · rw [h]; exact log_prefix_push s r o

/-! ## The invariant -/

/-- Every log has a number after it. -/
def Fits (s : Store) : Prop := ∀ o, (s.log o).length + 1 < UInt32.size

theorem fits_iff {s : Store} : s.Fits ↔ ∀ e ∈ s.logs.entries, e.2.length + 1 < UInt32.size := by
  constructor
  · rintro h ⟨o, l⟩ he
    have := h o
    rwa [log, SortedMap.mem_entries.1 he] at this
  · intro h o
    unfold log
    cases hl : s.logs.get? o with
    | none => decide
    | some l => exact h (o, l) (SortedMap.mem_entries.2 hl)

instance (s : Store) : Decidable s.Fits := decidable_of_iff' _ fits_iff

theorem fits_empty : empty.Fits := by decide

/-- The k-th record, counted from zero, is number k + 1 of the origin. -/
def Numbered (o : Origin) (l : List Record) : Prop :=
  ∀ (k : Nat) (r : Record), l[k]? = some r → r.origin = o ∧ r.id.toNat = k + 1

/-- **The invariant of a store**: the two maps are in step, no log is empty, and every log is numbered. -/
structure Sound (s : Store) : Prop where
  inStep : ∀ o, s.status.get? o = (s.logs.get? o).map nextAfter
  inhabited : ∀ o, s.logs.get? o ≠ some []
  numbered : ∀ o, Numbered o (s.log o)

theorem toNat_nextAfter {l : List Record} (h : l.length + 1 < UInt32.size) : (nextAfter l).toNat = l.length + 1 :=
  UInt32.toNat_ofNat_of_lt' h

theorem Fits.of_longer {s s' : Store} (h : ∀ o, s.log o <+: s'.log o) (fits : s'.Fits) : s.Fits := fun o =>
  Nat.lt_of_le_of_lt (Nat.succ_le_succ (h o).length_le) (fits o)

namespace Numbered

variable {o : Origin} {l : List Record}

theorem nil : Numbered o [] := fun k r h => by cases h

theorem append {r : Record} (h : Numbered o l) (ho : r.origin = o) (hid : r.id.toNat = l.length + 1) :
    Numbered o (l ++ [r]) := by
  intro k x hx
  rcases Nat.lt_trichotomy k l.length with hk | hk | hk
  · rw [List.getElem?_append_left hk] at hx
    exact h k x hx
  · subst hk
    rw [List.getElem?_concat_length] at hx
    obtain rfl := Option.some.inj hx
    exact ⟨ho, hid⟩
  · rw [List.getElem?_eq_none (by simp; omega)] at hx
    cases hx

theorem origin_of_mem (h : Numbered o l) {r : Record} (hr : r ∈ l) : r.origin = o := by
  obtain ⟨k, hk⟩ := List.mem_iff_getElem?.1 hr
  exact (h k r hk).1

/-- **A record stands in the place that its number names.** -/
theorem getElem?_of_mem (h : Numbered o l) {r : Record} (hr : r ∈ l) : l[r.id.toNat - 1]? = some r := by
  obtain ⟨k, hk⟩ := List.mem_iff_getElem?.1 hr
  rw [(h k r hk).2, Nat.add_sub_cancel]
  exact hk

theorem id_pos (h : Numbered o l) {r : Record} (hr : r ∈ l) : 0 < r.id.toNat := by
  obtain ⟨k, hk⟩ := List.mem_iff_getElem?.1 hr
  rw [(h k r hk).2]
  exact Nat.succ_pos k

theorem id_le (h : Numbered o l) {r : Record} (hr : r ∈ l) : r.id.toNat ≤ l.length := by
  obtain ⟨k, hk⟩ := List.mem_iff_getElem?.1 hr
  rw [(h k r hk).2]
  exact (List.getElem?_eq_some_iff.1 hk).1

theorem map_id (h : Numbered o l) : l.map (fun r => r.id.toNat) = List.range' 1 l.length := by
  apply List.ext_getElem (by simp)
  intro k hk hk'
  rw [List.length_map] at hk
  rw [List.getElem_map, List.getElem_range', (h k _ (List.getElem?_eq_getElem hk)).2]
  omega

end Numbered

namespace Sound

variable {s : Store}

theorem empty : Sound Store.empty := ⟨fun _ => rfl, (fun _ h => nomatch h), fun _ => Numbered.nil⟩

theorem nextId_eq (h : s.Sound) (o : Origin) : s.nextId o = nextAfter (s.log o) := by
  unfold nextId StatusVector.next log
  rw [h.inStep o]
  cases s.logs.get? o <;> rfl

theorem toNat_nextId (h : s.Sound) (fits : s.Fits) (o : Origin) : (s.nextId o).toNat = (s.log o).length + 1 := by
  rw [h.nextId_eq, toNat_nextAfter (fits o)]

/-- **A record with the next number may go to the end of its log.** -/
theorem push (h : s.Sound) (fits : s.Fits) {r : Record} (hid : r.id = s.nextId r.origin) : (s.push r).Sound where
  inStep o := by
    unfold Store.push
    simp only [SortedMap.get?_insert_eq_ite]
    split
    · rfl
    · exact h.inStep o
  inhabited o := by
    unfold Store.push
    simp only [SortedMap.get?_insert_eq_ite]
    split
    · simp
    · exact h.inhabited o
  numbered o := by
    rw [log_push]
    split
    · rename_i ho
      exact (h.numbered o).append ho.symm (by rw [hid, ← ho, h.toNat_nextId fits])
    · exact h.numbered o

theorem accept (h : s.Sound) (fits : s.Fits) (r : Record) : (s.accept r).2.Sound := by
  rcases s.accept_cases r with ⟨-, he⟩ | ⟨hid, he⟩
  · rw [he]; exact h
  · rw [he]; exact h.push fits hid

/-- **The record of a number is the one in the log that carries it.** -/
theorem get?_eq_some_iff (h : s.Sound) {o : Origin} {id : SequenceId} {r : Record} :
    s.get? o id = some r ↔ r ∈ s.log o ∧ r.id = id := by
  constructor
  · intro hr
    refine ⟨mem_log_of_get? hr, ?_⟩
    by_cases h0 : id = 0
    · rw [h0, get?_zero] at hr; cases hr
    · rw [get?_of_pos _ _ h0] at hr
      have h1 : id.toNat ≠ 0 := fun he => h0 (UInt32.toNat_inj.1 he)
      have h2 := ((h.numbered o) _ _ hr).2
      exact UInt32.toNat_inj.1 (by omega)
  · rintro ⟨hr, rfl⟩
    have hpos := (h.numbered o).id_pos hr
    have h0 : r.id ≠ 0 := fun he => by rw [he] at hpos; exact Nat.lt_irrefl 0 hpos
    rw [get?_of_pos _ _ h0]
    exact (h.numbered o).getElem?_of_mem hr

/-- A number that a held record has is below the next. -/
theorem lt_nextId_of_get? (h : s.Sound) (fits : s.Fits) {o : Origin} {id : SequenceId} {r : Record}
    (hr : s.get? o id = some r) : id < s.nextId o := by
  obtain ⟨hmem, rfl⟩ := h.get?_eq_some_iff.1 hr
  have := (h.numbered o).id_le hmem
  rw [UInt32.lt_iff_toNat_lt, h.toNat_nextId fits]
  omega

theorem contains_status_iff (h : s.Sound) (o : Origin) : s.status.contains o = true ↔ s.log o ≠ [] := by
  unfold SortedMap.contains log
  rw [h.inStep o]
  have := h.inhabited o
  cases hl : s.logs.get? o with
  | none => simp
  | some l =>
    rw [hl] at this
    simpa using fun he => this (by rw [he])

end Sound

end Store
end GossipNode
