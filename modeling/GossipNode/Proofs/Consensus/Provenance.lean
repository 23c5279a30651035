import GossipNode.Consensus.AckCollector
import GossipNode.Consensus.RoundGate
/-!
# Where witnesses and held items come from

A collection holds its own name and the names that acknowledged, and nothing else; a gate holds what was offered to it,
and nothing else.  Both are stated for an arbitrary property of names or items: if it holds of all that is put in, it
holds of all that comes out.
-/
namespace GossipNode

/-! ## Collections -/

namespace AckCollector

/-- **What an acknowledgment does**: without an open collection nothing; else its origin becomes a witness, and with
enough witnesses the collection closes. -/
theorem recordAck_cases (c : AckCollector) (id : SequenceId) (w : Origin) :
    (c.collecting.get? id = none ∧ c.recordAck id w = (.ignored, c)) ∨
    ∃ ws, c.collecting.get? id = some ws ∧
      (((SortedSet.add ws w).size < c.threshold ∧
          c.recordAck id w = (.pending (SortedSet.add ws w).size,
            { c with collecting := c.collecting.insert id (SortedSet.add ws w) })) ∨
        (c.threshold ≤ (SortedSet.add ws w).size ∧
          c.recordAck id w = (.majority (SortedSet.add ws w).toList, { c with collecting := c.collecting.erase id }))) := by
  unfold recordAck
  cases hc : c.collecting.get? id with
  | none => exact .inl ⟨rfl, rfl⟩
  | some ws =>
    refine .inr ⟨ws, rfl, ?_⟩
    by_cases h : (SortedSet.add ws w).size < c.threshold
    · exact .inl ⟨h, if_pos h⟩
    · exact .inr ⟨Nat.le_of_not_lt h, if_neg h⟩

/-- Every open collection has the own name and only names with a property, which may depend on the proposal. -/
def Witnessed (c : AckCollector) (P : SequenceId → Origin → Prop) : Prop :=
  ∀ id ws, c.collecting.get? id = some ws → c.own ∈ SortedSet.toList ws ∧ ∀ w ∈ SortedSet.toList ws, P id w

/-- **Enough witnesses**: distinct names, the own one among them, all with a property. -/
structure Quorum (own : Origin) (threshold : Nat) (P : Origin → Prop) (ws : List Origin) : Prop where
  nodup : ws.Nodup
  own_mem : own ∈ ws
  enough : threshold ≤ ws.length
  all : ∀ w ∈ ws, P w

theorem Quorum.imp {own : Origin} {threshold : Nat} {P P' : Origin → Prop} {ws : List Origin}
    (h : Quorum own threshold P ws) (himp : ∀ w, P w → P' w) : Quorum own threshold P' ws :=
  ⟨h.nodup, h.own_mem, h.enough, fun w hw => himp w (h.all w hw)⟩

theorem Witnessed.imp {c : AckCollector} {P P' : SequenceId → Origin → Prop} (h : c.Witnessed P)
    (himp : ∀ id w, P id w → P' id w) : c.Witnessed P' := fun id ws hws =>
  ⟨(h id ws hws).1, fun w hw => himp id w ((h id ws hws).2 w hw)⟩

variable {c : AckCollector} {P : SequenceId → Origin → Prop}

theorem Witnessed.insert (h : c.Witnessed P) {id : SequenceId} {ws : SortedSet Origin}
    (hws : c.own ∈ ws.toList ∧ ∀ w ∈ ws.toList, P id w) :
    ({ c with collecting := c.collecting.insert id ws } : AckCollector).Witnessed P := by
  intro id' ws' hget
  rw [SortedMap.get?_insert_eq_ite] at hget
  split at hget
  · rename_i hid
    obtain rfl := Option.some.inj hget
    rw [hid]
    exact hws
  · exact h id' ws' hget

theorem Witnessed.erase (h : c.Witnessed P) (id : SequenceId) :
    ({ c with collecting := c.collecting.erase id } : AckCollector).Witnessed P := by
  intro id' ws' hget
  rw [SortedMap.get?_erase] at hget
  split at hget
  · cases hget
  · exact h id' ws' hget

/-- **An acknowledgment by a name with the property** keeps it, and when it makes a majority, its witnesses are
enough. -/
theorem Witnessed.recordAck (h : c.Witnessed P) {id : SequenceId} {w : Origin} (hw : P id w) :
    (c.recordAck id w).2.Witnessed P ∧ (c.recordAck id w).2.own = c.own ∧
      (c.recordAck id w).2.threshold = c.threshold ∧
      ∀ ws, (c.recordAck id w).1 = .majority ws → Quorum c.own c.threshold (P id) ws := by
  rcases c.recordAck_cases id w with ⟨-, he⟩ | ⟨ws, hws, hrest⟩
  · rw [he]
    exact ⟨h, rfl, rfl, fun _ hm => by cases hm⟩
  obtain ⟨hown, hall⟩ := h id ws hws
  have hown' : c.own ∈ (SortedSet.add ws w).toList := SortedSet.mem_toList_add.2 (.inr hown)
  have hall' : ∀ w' ∈ (SortedSet.add ws w).toList, P id w' := by
    intro w' hw'
    rcases SortedSet.mem_toList_add.1 hw' with rfl | hw'
    · exact hw
    · exact hall w' hw'
  rcases hrest with ⟨-, he⟩ | ⟨hsize, he⟩
  · rw [he]
    exact ⟨h.insert ⟨hown', hall'⟩, rfl, rfl, fun _ hm => by cases hm⟩
  · rw [he]
    refine ⟨h.erase id, rfl, rfl, fun ws' hm => ?_⟩
    obtain rfl := AckProgress.majority.inj hm
    exact ⟨SortedSet.nodup_toList _, hown', by rw [SortedSet.length_toList]; exact hsize, hall'⟩

/-- **Opening a collection** keeps the property if the own name has it. -/
theorem Witnessed.start (h : c.Witnessed P) {id : SequenceId} (hown : P id c.own) {progress : AckProgress}
    {c' : AckCollector} (hs : c.start id = .ok (progress, c')) :
    c'.Witnessed P ∧ c'.own = c.own ∧ c'.threshold = c.threshold ∧
      ∀ ws, progress = .majority ws → Quorum c.own c.threshold (P id) ws := by
  unfold AckCollector.start at hs
  split at hs
  · cases hs
  · have hopen : ({ c with collecting := c.collecting.insert id (SortedSet.ofList [c.own]) } : AckCollector).Witnessed P := by
      refine h.insert ⟨?_, fun w hw => ?_⟩
      · exact SortedSet.mem_toList_add.2 (.inl rfl)
      · rcases SortedSet.mem_toList_add.1 hw with rfl | hw
        · exact hown
        · cases hw
    have := hopen.recordAck hown
    rw [Except.ok.inj hs] at this
    exact this

end AckCollector

/-! ## Gates -/

namespace RoundGate

variable {α : Type} {g : RoundGate α} {P : α → Prop}

/-- Everything that the gate holds has a property. -/
def HoldsOnly (g : RoundGate α) (P : α → Prop) : Prop :=
  ∀ round items, g.held.get? round = some items → ∀ x ∈ items, P x

theorem HoldsOnly.imp {P' : α → Prop} (h : g.HoldsOnly P) (himp : ∀ x, P x → P' x) : g.HoldsOnly P' :=
  fun round items hi x hx => himp x (h round items hi x hx)

theorem HoldsOnly.offer (h : g.HoldsOnly P) (round : UInt32) {x : α} (hx : P x) :
    (g.offer round x).2.HoldsOnly P ∧ ∀ y ∈ (g.offer round x).1, P y := by
  unfold RoundGate.offer
  split
  · exact ⟨h, fun y hy => by obtain rfl := Option.mem_some.1 hy; exact hx⟩
  · refine ⟨fun round' items hi y hy => ?_, fun y hy => by cases hy⟩
    rw [SortedMap.get?_alter] at hi
    split at hi
    · obtain rfl := Option.some.inj hi
      rcases List.mem_append.1 hy with hy | hy
      · cases hr : g.held.get? round with
        | none => rw [hr] at hy; cases hy
        | some old => rw [hr] at hy; exact h round old hr y hy
      · rw [List.mem_singleton.1 hy]; exact hx
    · exact h round' items hi y hy

theorem HoldsOnly.advanceTo (h : g.HoldsOnly P) (round : UInt32) :
    (g.advanceTo round).2.HoldsOnly P ∧ ∀ y ∈ (g.advanceTo round).1, P y := by
  unfold RoundGate.advanceTo
  split
  · exact ⟨h, fun y hy => by cases hy⟩
  · refine ⟨fun round' items hi y hy => ?_, fun y hy => ?_⟩
    · rw [SortedMap.get?_filter] at hi
      exact h round' items (Option.filter_eq_some_iff.1 hi).1 y hy
    · obtain ⟨items, hitems, hy⟩ := List.mem_flatten.1 hy
      obtain ⟨e, he, rfl⟩ := List.mem_map.1 hitems
      exact h e.1 e.2 (SortedMap.mem_entries.1 (List.mem_filter.1 he).1) y hy

end RoundGate
end GossipNode
