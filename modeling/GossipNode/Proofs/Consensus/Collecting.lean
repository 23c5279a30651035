import GossipNode.Proofs.Consensus.Provenance
/-!
# Which collections are open

A collection is open from its start until it has a majority or is abandoned.  An acknowledgment is ignored when there is
no collection for it, and only then; it closes a collection exactly when it makes the majority.
-/
namespace GossipNode

theorem SortedMap.get?_erase_eq_ite {α β : Type} [Ord α] [Std.LawfulEqOrd α] [DecidableEq α]
    (m : SortedMap α β) (k a : α) : (m.erase k).get? a = if a = k then none else m.get? a := by
  rw [SortedMap.get?_erase]
  by_cases h : a = k
  · rw [if_pos h, if_pos (by rw [h]; exact Std.ReflCmp.compare_self)]
  · rw [if_neg h, if_neg (fun h' => h (Std.LawfulEqCmp.eq_of_compare h').symm)]

theorem SortedMap.contains_erase {α β : Type} [Ord α] [Std.LawfulEqOrd α] [Std.TransOrd α] [DecidableEq α]
    (m : SortedMap α β) (k a : α) : (m.erase k).contains a = (decide (a ≠ k) && m.contains a) := by
  unfold SortedMap.contains
  rw [SortedMap.get?_erase_eq_ite]
  by_cases h : a = k <;> simp [h]

theorem SortedMap.contains_insert {α β : Type} [Ord α] [Std.LawfulEqOrd α] [Std.TransOrd α] [DecidableEq α]
    (m : SortedMap α β) (k a : α) (v : β) : (m.insert k v).contains a = (decide (a = k) || m.contains a) := by
  unfold SortedMap.contains
  rw [SortedMap.get?_insert_eq_ite]
  by_cases h : a = k
  · rw [if_pos h, decide_eq_true h]
    rfl
  · rw [if_neg h, decide_eq_false h, Bool.false_or]

def AckProgress.isMajority : AckProgress → Bool
  | majority _ => true
  | _ => false

namespace AckCollector

variable {c c' : AckCollector} {id id' : SequenceId} {w : Origin} {progress : AckProgress}

/-- **Without a collection an acknowledgment is ignored.** -/
theorem recordAck_of_closed (h : c.isCollecting id = false) : c.recordAck id w = (.ignored, c) := by
  rcases c.recordAck_cases id w with ⟨-, he⟩ | ⟨ws, hws, -⟩
  · exact he
  · rw [isCollecting, SortedMap.contains, hws] at h
    cases h

/-- **An acknowledgment is ignored exactly when there is no collection for it.** -/
theorem recordAck_eq_ignored_iff : (c.recordAck id w).1 = .ignored ↔ c.isCollecting id = false := by
  refine ⟨fun ignored => ?_, fun closed => by rw [recordAck_of_closed closed]⟩
  rcases c.recordAck_cases id w with ⟨hnone, -⟩ | ⟨ws, -, ⟨-, he⟩ | ⟨-, he⟩⟩
  · rw [isCollecting, SortedMap.contains, hnone]
    rfl
  · rw [he] at ignored
    cases ignored
  · rw [he] at ignored
    cases ignored

/-- **An acknowledgment for an open collection** is counted, and closes it when it makes a majority. -/
theorem recordAck_of_open (h : c.isCollecting id = true) :
    (c.recordAck id w).2.isCollecting id = !(c.recordAck id w).1.isMajority := by
  rcases c.recordAck_cases id w with ⟨hnone, -⟩ | ⟨ws, -, ⟨-, he⟩ | ⟨-, he⟩⟩
  · rw [isCollecting, SortedMap.contains, hnone] at h
    cases h
  · rw [he, isCollecting, SortedMap.contains_insert, decide_eq_true rfl, Bool.true_or]
    rfl
  · rw [he, isCollecting, SortedMap.contains_erase, decide_eq_false (not_not_intro rfl), Bool.false_and]
    rfl

/-- An acknowledgment for one proposal opens and closes no collection for another. -/
theorem isCollecting_recordAck_of_ne (h : id' ≠ id) : (c.recordAck id w).2.isCollecting id' = c.isCollecting id' := by
  rcases c.recordAck_cases id w with ⟨-, he⟩ | ⟨ws, -, ⟨-, he⟩ | ⟨-, he⟩⟩
  · rw [he]
  · rw [he, isCollecting, SortedMap.contains_insert, decide_eq_false h, Bool.false_or, isCollecting]
  · rw [he, isCollecting, SortedMap.contains_erase, decide_eq_true h, Bool.true_and, isCollecting]

theorem start_of_closed (h : c.isCollecting id = false) :
    c.start id = .ok ({ c with collecting := c.collecting.insert id (SortedSet.ofList [c.own]) }.recordAck id c.own) := by
  rw [start, h, if_neg Bool.false_ne_true]

/-- **A collection that is not open can be opened**; it is open then, unless the own name is a majority. -/
theorem isCollecting_start (h : c.isCollecting id = false) : ∃ progress c', c.start id = .ok (progress, c') ∧
    c'.isCollecting id = !progress.isMajority := by
  refine ⟨_, _, start_of_closed h, recordAck_of_open ?_⟩
  rw [isCollecting, SortedMap.contains_insert, decide_eq_true rfl, Bool.true_or]

theorem isCollecting_start_of_ne (hs : c.start id = .ok (progress, c')) (h : id' ≠ id) :
    c'.isCollecting id' = c.isCollecting id' := by
  unfold start at hs
  split at hs
  · cases hs
  · rw [← show _ = c' from congrArg Prod.snd (Except.ok.inj hs), isCollecting_recordAck_of_ne h, isCollecting,
      SortedMap.contains_insert, decide_eq_false h, Bool.false_or, isCollecting]

theorem isCollecting_abandon : (c.abandon id).2.isCollecting id' = (decide (id' ≠ id) && c.isCollecting id') :=
  SortedMap.contains_erase _ _ _

end AckCollector
end GossipNode
