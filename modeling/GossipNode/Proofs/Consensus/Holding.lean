import Mathlib.Data.List.Nodup
import Mathlib.Data.List.Flatten
import GossipNode.Consensus.RoundGate
/-!
# What a gate holds

Nothing that is offered to a gate gets lost or doubled in it: an item is given back at once or held, and when rounds open,
what is released and what is still held are together what was held before.  Whatever is held waits for a round that is not
open yet.
-/
namespace GossipNode

/-! ## Entries of a map -/

namespace SortedMap

variable {α β : Type} [Ord α] {k : α} {v : β}

theorem nodup_entries [Std.TransOrd α] (m : SortedMap α β) : m.entries.Nodup := List.Nodup.of_map Prod.fst m.nodup_keys

variable [Std.LawfulEqOrd α]

theorem mem_entries_erase {m : SortedMap α β} {e : α × β} : e ∈ (m.erase k).entries ↔ e ∈ m.entries ∧ e.1 ≠ k := by
  unfold erase filter
  rw [List.mem_filter, bne_iff_ne, ne_eq, Std.LawfulEqCmp.compare_eq_iff_eq, eq_comm]

variable [Std.TransOrd α]

theorem perm_entries_of_get? {m : SortedMap α β} (h : m.get? k = some v) : m.entries.Perm ((k, v) :: (m.erase k).entries) := by
  have nodup : ((k, v) :: (m.erase k).entries).Nodup :=
    List.nodup_cons.2 ⟨fun hmem => (mem_entries_erase.1 hmem).2 rfl, nodup_entries _⟩
  refine (List.perm_ext_iff_of_nodup m.nodup_entries nodup).2 (fun e => ?_)
  rw [List.mem_cons, mem_entries_erase]
  constructor
  · intro he
    by_cases hk : e.1 = k
    · obtain ⟨k', v'⟩ := e
      obtain rfl : k' = k := hk
      rw [mem_entries.1 he] at h
      exact .inl (by rw [Option.some.inj h])
    · exact .inr ⟨he, hk⟩
  · rintro (rfl | ⟨he, -⟩)
    · exact mem_entries.2 h
    · exact he

theorem erase_of_get?_eq_none {m : SortedMap α β} (h : m.get? k = none) : m.erase k = m := by
  refine ext_get? (fun a => ?_)
  rw [get?_erase]
  split
  · rename_i he
    rw [← Std.LawfulEqCmp.eq_of_compare he, h]
  · rfl

theorem erase_insert (m : SortedMap α β) (k : α) (v : β) : (m.insert k v).erase k = m.erase k := by
  refine ext_get? (fun a => ?_)
  rw [get?_erase, get?_erase, get?_insert]
  split
  · rfl
  · rename_i h
    rw [if_neg (fun he => h (Std.OrientedCmp.eq_symm he))]

theorem perm_entries_insert (m : SortedMap α β) (k : α) (v : β) :
    (m.insert k v).entries.Perm ((k, v) :: (m.erase k).entries) := by
  rw [← erase_insert m k v]
  exact perm_entries_of_get? (m.get?_insert_self k v)

end SortedMap

namespace RoundGate

variable {α : Type} {g : RoundGate α} {round r : UInt32} {x y : α}

/-- All that is held, that of earlier rounds first. -/
def items (g : RoundGate α) : List α := g.held.values.flatten

/-- The item is held until the round opens. -/
def HoldsUntil (g : RoundGate α) (round : UInt32) (x : α) : Prop := ∃ l, g.held.get? round = some l ∧ x ∈ l

theorem mem_items : x ∈ g.items ↔ ∃ r, g.HoldsUntil r x := by
  unfold items SortedMap.values
  rw [List.mem_flatten]
  constructor
  · rintro ⟨l, hl, hx⟩
    obtain ⟨e, he, rfl⟩ := List.mem_map.1 hl
    exact ⟨e.1, e.2, SortedMap.mem_entries.1 he, hx⟩
  · rintro ⟨r, l, hl, hx⟩
    exact ⟨l, List.mem_map.2 ⟨(r, l), SortedMap.mem_entries.2 hl, rfl⟩, hx⟩

theorem perm_items {held : SortedMap UInt32 (List α)} {entries : List (UInt32 × List α)} (h : held.entries.Perm entries) :
    held.values.flatten.Perm (entries.map Prod.snd).flatten := (h.map Prod.snd).flatten

/-! ## Offers -/

theorem current_offer (g : RoundGate α) (round : UInt32) (x : α) : (g.offer round x).2.current = g.current := by
  unfold offer
  split <;> rfl

/-- **What is offered is given back or held.** -/
theorem perm_items_offer (g : RoundGate α) (round : UInt32) (x : α) :
    ((g.offer round x).1.toList ++ (g.offer round x).2.items).Perm (x :: g.items) := by
  unfold offer
  split
  · exact List.Perm.refl _
  · show (g.held.insert round ((g.held.get? round).getD [] ++ [x])).values.flatten.Perm (x :: g.items)
    have after := perm_items (g.held.perm_entries_insert round ((g.held.get? round).getD [] ++ [x]))
    rw [List.map_cons, List.flatten_cons] at after
    cases hold : g.held.get? round with
    | none =>
      rw [hold, SortedMap.erase_of_get?_eq_none hold] at after
      exact after
    | some l =>
      have before := perm_items (SortedMap.perm_entries_of_get? hold)
      rw [hold, Option.getD_some, List.append_assoc] at after
      exact after.trans (List.perm_middle.trans (before.symm.cons x))

/-- An item that is held was held before, or is the one that has been offered for a round to come. -/
theorem holdsUntil_of_offer (h : (g.offer round x).2.HoldsUntil r y) :
    g.HoldsUntil r y ∨ g.current < round ∧ r = round ∧ y = x := by
  unfold offer at h
  split at h
  · exact .inl h
  · rename_i later
    obtain ⟨l, hl, hy⟩ := h
    rw [SortedMap.get?_alter] at hl
    split at hl
    · rename_i hr
      obtain rfl := Option.some.inj hl
      rcases List.mem_append.1 hy with hy | hy
      · refine .inl ?_
        cases hold : g.held.get? round with
        | none => rw [hold] at hy; cases hy
        | some l => rw [hold] at hy; exact ⟨l, by rw [hr]; exact hold, hy⟩
      · exact .inr ⟨UInt32.not_le.1 later, hr, List.mem_singleton.1 hy⟩
    · exact .inl ⟨l, hl, hy⟩

/-! ## Opening rounds -/

theorem current_advanceTo (h : g.current < round) : (g.advanceTo round).2.current = round := by
  rw [advanceTo, if_neg (UInt32.not_le.2 h)]

/-- **What is released and what is still held is what was held.** -/
theorem perm_items_advanceTo (g : RoundGate α) (round : UInt32) :
    ((g.advanceTo round).1 ++ (g.advanceTo round).2.items).Perm g.items := by
  unfold advanceTo
  split
  · exact List.Perm.refl _
  · have still : ∀ e : UInt32 × List α, decide (round < e.1) = !decide (e.1 ≤ round) := fun e => by
      simp [← UInt32.not_le]
    show ((g.held.entries.filter _).map Prod.snd).flatten ++ ((g.held.entries.filter _).map Prod.snd).flatten |>.Perm _
    rw [← List.flatten_append, ← List.map_append, List.filter_congr (fun e _ => still e)]
    exact ((List.filter_append_perm _ _).map Prod.snd).flatten

/-- What is released was held until a round that opens. -/
theorem holdsUntil_of_released (h : y ∈ (g.advanceTo round).1) : ∃ r, r ≤ round ∧ g.HoldsUntil r y := by
  unfold advanceTo at h
  split at h
  · cases h
  · obtain ⟨l, hl, hy⟩ := List.mem_flatten.1 h
    obtain ⟨e, he, rfl⟩ := List.mem_map.1 hl
    obtain ⟨hmem, hr⟩ := List.mem_filter.1 he
    exact ⟨e.1, of_decide_eq_true hr, e.2, SortedMap.mem_entries.1 hmem, hy⟩

/-- What is still held was held before, until a round that stays closed. -/
theorem holdsUntil_of_advanceTo (h : (g.advanceTo round).2.HoldsUntil r y) :
    g.HoldsUntil r y ∧ (g.current < round → round < r) := by
  unfold advanceTo at h
  split at h
  · rename_i past
    exact ⟨h, fun later => absurd later (UInt32.not_lt.2 past)⟩
  · obtain ⟨l, hl, hy⟩ := h
    rw [SortedMap.get?_filter] at hl
    obtain ⟨hl, hr⟩ := Option.filter_eq_some_iff.1 hl
    exact ⟨⟨l, hl, hy⟩, fun _ => of_decide_eq_true hr⟩

end RoundGate
end GossipNode
