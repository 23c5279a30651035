import Mathlib.Algebra.Group.Nat.Defs
import GossipNode.Proofs.Consensus.Collecting
import GossipNode.Proofs.Consensus.Tally
/-!
# Witnesses of proposals

Collections are started, acknowledged and abandoned in any order, for any proposals.  To a collector these are separate
affairs: a call is answered from the collection of its own proposal and changes no other one (`call_eq`), and the calls for
other proposals might as well not have been made (`collection_filter`).

So what a collection holds is said by looking back at the calls (`OpenSince`).  It is open since a start that found none
open, if nobody has abandoned it and the own name and those that have acknowledged since are fewer than a majority.  It
gives out its witnesses at the call that makes them a majority, and one call adds one origin at most, so there are never
more of them.
-/
namespace GossipNode

/-- A set gives out its members in order. -/
theorem SortedSet.pairwise_toList {α : Type} [Ord α] (s : SortedSet α) : s.toList.Pairwise (fun a b => compare a b = .lt) :=
  List.pairwise_map.2 s.ascending

namespace AckCollector

/-! ## Calls -/

inductive Call where
  | start (id : SequenceId)
  | ack (id : SequenceId) (origin : Origin)
  | abandon (id : SequenceId)
deriving DecidableEq

inductive Answer where
  | progress (p : AckProgress)
  | refused (fault : ConsensusError)
  /-- Whether a collection was open. -/
  | abandoned (wasOpen : Bool)
deriving DecidableEq

/-- The proposal that a call is about. -/
def Call.id : Call → SequenceId
  | start id => id
  | ack id _ => id
  | abandon id => id

def call (c : AckCollector) : Call → Answer × AckCollector
  | .start id =>
    match c.start id with
    | .ok (p, c') => (.progress p, c')
    | .error fault => (.refused fault, c)
  | .ack id o => (.progress (c.recordAck id o).1, (c.recordAck id o).2)
  | .abandon id => (.abandoned (c.abandon id).1, (c.abandon id).2)

/-- The collector of a node after calls. -/
def run (own : Origin) (threshold : Nat) (calls : List Call) : AckCollector :=
  calls.foldl (fun c x => (c.call x).2) (new own threshold)

theorem run_concat (own : Origin) (threshold : Nat) (calls : List Call) (x : Call) :
    run own threshold (calls ++ [x]) = ((run own threshold calls).call x).2 := by
  simp [run]

/-! ## One collection -/

/-- What becomes of a collection with these witnesses. -/
def weigh (threshold : Nat) (ws : SortedSet Origin) : Answer × Option (SortedSet Origin) :=
  if ws.size < threshold then (.progress (.pending ws.size), some ws) else (.progress (.majority ws.toList), none)

theorem weigh_cases (threshold : Nat) (ws : SortedSet Origin) :
    weigh threshold ws = (.progress (.pending ws.size), some ws) ∨
    weigh threshold ws = (.progress (.majority ws.toList), none) := by
  unfold weigh
  split
  · exact .inl rfl
  · exact .inr rfl

/-- A call on the collection of its proposal, if one is open. -/
def advance (own : Origin) (threshold : Nat) : Call → Option (SortedSet Origin) → Answer × Option (SortedSet Origin)
  | .start id, some ws => (.refused (.alreadyCollecting id), some ws)
  | .start _, none => weigh threshold ((SortedSet.ofList [own]).add own)
  | .ack _ _, none => (.progress .ignored, none)
  | .ack _ o, some ws => weigh threshold (ws.add o)
  | .abandon _, collection => (.abandoned collection.isSome, none)

variable {c : AckCollector} {id : SequenceId} {ws : SortedSet Origin}

theorem recordAck_of_get? (h : c.collecting.get? id = some ws) (w : Origin) :
    Answer.progress (c.recordAck id w).1 = (weigh c.threshold (ws.add w)).1 ∧
    ∀ id', (c.recordAck id w).2.collecting.get? id' =
      if id' = id then (weigh c.threshold (ws.add w)).2 else c.collecting.get? id' := by
  rcases c.recordAck_cases id w with ⟨hnone, -⟩ | ⟨ws', hws', ⟨few, he⟩ | ⟨enough, he⟩⟩
  · rw [hnone] at h
    cases h
  · obtain rfl : ws' = ws := Option.some.inj (hws'.symm.trans h)
    rw [he, weigh, if_pos few]
    exact ⟨rfl, fun id' => SortedMap.get?_insert_eq_ite _ _ _ _⟩
  · obtain rfl : ws' = ws := Option.some.inj (hws'.symm.trans h)
    rw [he, weigh, if_neg (Nat.not_lt.2 enough)]
    exact ⟨rfl, fun id' => SortedMap.get?_erase_eq_ite _ _ _⟩

theorem start_of_get? (h : c.collecting.get? id = some ws) : c.start id = .error (.alreadyCollecting id) := by
  rw [start, if_pos (by rw [isCollecting, SortedMap.contains, h]; rfl)]

theorem isCollecting_eq (c : AckCollector) (id : SequenceId) : c.isCollecting id = (c.collecting.get? id).isSome := rfl

theorem isCollecting_eq_false_iff : c.isCollecting id = false ↔ c.collecting.get? id = none := by
  rw [isCollecting_eq, Option.isSome_eq_false_iff, Option.isNone_iff_eq_none]

theorem get?_eq_ite {collection : Option (SortedSet Origin)} (h : c.collecting.get? id = collection) (id' : SequenceId) :
    c.collecting.get? id' = if id' = id then collection else c.collecting.get? id' := by
  split
  · rename_i same
    rw [same, h]
  · rfl

/-- **A call does to the collection of its proposal what is to be done to it, and nothing else.** -/
theorem call_eq (c : AckCollector) (x : Call) :
    (c.call x).1 = (advance c.own c.threshold x (c.collecting.get? x.id)).1 ∧
    ∀ id, (c.call x).2.collecting.get? id =
      if id = x.id then (advance c.own c.threshold x (c.collecting.get? x.id)).2 else c.collecting.get? id := by
  cases x with
  | start id =>
    cases h : c.collecting.get? id with
    | some ws =>
      simp only [call, Call.id, advance, h, start_of_get? h, true_and]
      exact get?_eq_ite h
    | none =>
      let opened : AckCollector := { c with collecting := c.collecting.insert id (SortedSet.ofList [c.own]) }
      have there : opened.collecting.get? id = some (SortedSet.ofList [c.own]) := SortedMap.get?_insert_self _ _ _
      obtain ⟨answer, collections⟩ := recordAck_of_get? there c.own
      simp only [call, Call.id, advance, h, start_of_closed (isCollecting_eq_false_iff.2 h)]
      refine ⟨answer, fun id' => ?_⟩
      rw [collections, SortedMap.get?_insert_eq_ite]
      split
      · rfl
      · rfl
  | ack id o =>
    cases h : c.collecting.get? id with
    | some ws =>
      simp only [call, Call.id, advance, h]
      exact recordAck_of_get? h o
    | none =>
      simp only [call, Call.id, advance, h, recordAck_of_closed (isCollecting_eq_false_iff.2 h), true_and]
      exact get?_eq_ite h
  | abandon id =>
    exact ⟨rfl, fun id' => SortedMap.get?_erase_eq_ite _ _ _⟩

theorem fixed_call (c : AckCollector) (x : Call) : (c.call x).2.own = c.own ∧ (c.call x).2.threshold = c.threshold := by
  have recordAck : ∀ (c : AckCollector) id w, (c.recordAck id w).2.own = c.own ∧
      (c.recordAck id w).2.threshold = c.threshold := by
    intro c id w
    rcases c.recordAck_cases id w with ⟨-, he⟩ | ⟨ws, -, ⟨-, he⟩ | ⟨-, he⟩⟩ <;> simp [he]
  cases x with
  | start id =>
    cases closed : c.isCollecting id with
    | false =>
      simp only [call, start_of_closed closed]
      exact recordAck _ id c.own
    | true => simp [call, start, closed]
  | ack id o => exact recordAck c id o
  | abandon id => exact ⟨rfl, rfl⟩

/-! ## Runs -/

variable {own : Origin} {threshold : Nat} {calls before since : List Call} {x : Call}

theorem fixed_run (own : Origin) (threshold : Nat) (calls : List Call) :
    (run own threshold calls).own = own ∧ (run own threshold calls).threshold = threshold := by
  induction calls using List.reverseRecOn with
  | nil => exact ⟨rfl, rfl⟩
  | append_singleton calls x ih =>
    rw [run_concat, (fixed_call _ x).1, (fixed_call _ x).2]
    exact ih

/-- The collection of a proposal after calls, if one is open. -/
def collection (own : Origin) (threshold : Nat) (calls : List Call) (id : SequenceId) : Option (SortedSet Origin) :=
  (run own threshold calls).collecting.get? id

theorem isCollecting_run : (run own threshold calls).isCollecting id = (collection own threshold calls id).isSome := rfl

theorem answer_run (x : Call) : ((run own threshold calls).call x).1 =
    (advance own threshold x (collection own threshold calls x.id)).1 := by
  rw [(call_eq _ x).1, (fixed_run own threshold calls).1, (fixed_run own threshold calls).2, collection]

theorem collection_concat_self (own : Origin) (threshold : Nat) (calls : List Call) (x : Call) :
    collection own threshold (calls ++ [x]) x.id = (advance own threshold x (collection own threshold calls x.id)).2 := by
  rw [collection, run_concat, (call_eq _ x).2, if_pos rfl, (fixed_run own threshold calls).1, (fixed_run own threshold calls).2]
  rfl

theorem collection_concat_of_ne (other : x.id ≠ id) :
    collection own threshold (calls ++ [x]) id = collection own threshold calls id := by
  rw [collection, run_concat, (call_eq _ x).2, if_neg other.symm]
  rfl

/-- **The calls for other proposals make no difference.** -/
theorem collection_filter (own : Origin) (threshold : Nat) (calls : List Call) (id : SequenceId) :
    collection own threshold (calls.filter (fun x => x.id = id)) id = collection own threshold calls id := by
  induction calls using List.reverseRecOn with
  | nil => rfl
  | append_singleton calls x ih =>
    by_cases same : x.id = id
    · have kept : [x].filter (fun x => x.id = id) = [x] := by simp [same]
      subst same
      rw [List.filter_append, kept, collection_concat_self, collection_concat_self, ih]
    · have dropped : [x].filter (fun x => x.id = id) = [] := by simp [same]
      rw [List.filter_append, dropped, List.append_nil, collection_concat_of_ne same, ih]

/-! ## What the calls say -/

/-- **Who witnesses a proposal** since its collection was started: the own name, and all that have acknowledged it. -/
def witnesses (own : Origin) (id : SequenceId) (since : List Call) : Finset Origin :=
  insert own (since.filterMap fun
    | .ack id' o => if id' = id then some o else none
    | _ => none).toFinset

theorem mem_witnesses {o : Origin} : o ∈ witnesses own id since ↔ o = own ∨ .ack id o ∈ since := by
  rw [witnesses, Finset.mem_insert, List.mem_toFinset, List.mem_filterMap]
  refine or_congr_right ⟨?_, fun h => ⟨_, h, by simp⟩⟩
  rintro ⟨x, hx, hxo⟩
  cases x with
  | ack id' o' =>
    simp only [Option.ite_none_right_eq_some, Option.some.injEq] at hxo
    rw [← hxo.1, ← hxo.2]
    exact hx
  | start | abandon => cases hxo

theorem witnesses_concat_ack (own : Origin) (id : SequenceId) (since : List Call) (o : Origin) :
    witnesses own id (since ++ [.ack id o]) = insert o (witnesses own id since) := by
  ext o'
  simp only [mem_witnesses, List.mem_append, List.mem_singleton, Finset.mem_insert, Call.ack.injEq, true_and]
  -- the new name moves from the end to the front
  rw [← or_assoc, or_comm]

theorem witnesses_concat_of_ne (other : ∀ o, x ≠ .ack id o) : witnesses own id (since ++ [x]) = witnesses own id since := by
  ext o
  rw [mem_witnesses, mem_witnesses, List.mem_append, List.mem_singleton]
  exact or_congr_right ⟨fun h => h.resolve_right (fun h => other o h.symm), .inl⟩

/-- **A collection goes on** through these calls: nobody abandons it, and a majority is missing. -/
structure Unfinished (own : Origin) (threshold : Nat) (id : SequenceId) (since : List Call) : Prop where
  kept : .abandon id ∉ since
  few : (witnesses own id since).card < threshold

/-- **A collection is open since a start** that found none open. -/
structure OpenSince (own : Origin) (threshold : Nat) (id : SequenceId) (calls before since : List Call) : Prop where
  split : calls = before ++ .start id :: since
  fresh : (run own threshold before).isCollecting id = false
  unfinished : Unfinished own threshold id since

/-- **What a set of witnesses is reported as**: how many they are, or who they are when they are just enough. -/
inductive Reports (own : Origin) (threshold : Nat) (present : Finset Origin) : AckProgress → Prop where
  | pending (few : present.card < threshold) : Reports own threshold present (.pending present.card)
  | majority {ws : List Origin} (enough : present.card = threshold) (all : ∀ o, o ∈ ws ↔ o ∈ present)
    (sorted : ws.Pairwise (fun a b => compare a b = .lt)) (nodup : ws.Nodup) (own_mem : own ∈ ws)
    (length : ws.length = threshold) : Reports own threshold present (.majority ws)

/-! ## One collection against the calls -/

/-- **Witnesses are weighed**: what is answered, and the collection after that. -/
structure Weighed (own : Origin) (threshold : Nat) (present : Finset Origin) (answer : Answer)
    (after : Option (SortedSet Origin)) : Prop where
  reports : ∃ p, answer = .progress p ∧ Reports own threshold present p
  rest : ∃ ws : SortedSet Origin, (∀ o, o ∈ ws.toList ↔ o ∈ present) ∧
    after = if present.card < threshold then some ws else none

theorem Weighed.isSome_iff {present : Finset Origin} {answer : Answer} {after : Option (SortedSet Origin)}
    (h : Weighed own threshold present answer after) : after.isSome = true ↔ present.card < threshold := by
  obtain ⟨ws, -, rfl⟩ := h.rest
  split <;> simp_all

theorem weighed_weigh {present : Finset Origin} (same : ∀ o, o ∈ ws.toList ↔ o ∈ present) (own_mem : own ∈ present)
    (le : present.card ≤ threshold) : Weighed own threshold present (weigh threshold ws).1 (weigh threshold ws).2 := by
  have size := SortedSet.size_eq_card same
  rw [weigh, size]
  by_cases few : present.card < threshold
  · rw [if_pos few]
    exact ⟨⟨_, rfl, .pending few⟩, ws, same, (if_pos few).symm⟩
  · rw [if_neg few]
    have enough : present.card = threshold := Nat.le_antisymm le (Nat.le_of_not_lt few)
    refine ⟨⟨_, rfl, .majority enough same ws.pairwise_toList ws.nodup_toList ((same own).2 own_mem) ?_⟩, ws, same,
      (if_neg few).symm⟩
    rw [SortedSet.length_toList, size, enough]

theorem own_mem_witnesses : own ∈ witnesses own id since := mem_witnesses.2 (.inl rfl)

/-- **A start that finds no collection open.** -/
theorem start_weighed (pos : 0 < threshold) (fresh : (run own threshold calls).isCollecting id = false) :
    Weighed own threshold (witnesses own id []) ((run own threshold calls).call (.start id)).1
      (collection own threshold (calls ++ [.start id]) id) := by
  have none : collection own threshold calls id = none := isCollecting_eq_false_iff.1 fresh
  have after := collection_concat_self own threshold calls (.start id)
  have same : ∀ o, o ∈ ((SortedSet.ofList [own]).add own).toList ↔ o ∈ witnesses own id [] := by
    intro o
    have single : o ∈ (SortedSet.ofList [own]).toList ↔ o = own ∨ o ∈ SortedSet.toList ∅ := SortedSet.mem_toList_add
    rw [SortedSet.mem_toList_add, single, mem_witnesses, ← or_assoc, or_self]
    exact or_congr_right ⟨nofun, nofun⟩
  rw [Call.id, none] at after
  rw [answer_run, Call.id, none, after]
  exact weighed_weigh same own_mem_witnesses pos

/-- **An acknowledgment of an open collection.** -/
theorem ack_weighed (there : collection own threshold calls id = some ws)
    (same : ∀ o, o ∈ ws.toList ↔ o ∈ witnesses own id since) (few : (witnesses own id since).card < threshold) (o : Origin) :
    Weighed own threshold (witnesses own id (since ++ [.ack id o])) ((run own threshold calls).call (.ack id o)).1
      (collection own threshold (calls ++ [.ack id o]) id) := by
  have after := collection_concat_self own threshold calls (.ack id o)
  rw [Call.id, there] at after
  rw [answer_run, Call.id, there, after]
  refine weighed_weigh (fun o' => ?_) own_mem_witnesses ?_
  · rw [SortedSet.mem_toList_add, witnesses_concat_ack, Finset.mem_insert, same]
  · -- one more is no more than enough
    rw [witnesses_concat_ack]
    exact Nat.le_trans (Finset.card_insert_le _ _) few

theorem Unfinished.of_concat (h : Unfinished own threshold id (since ++ [x])) : Unfinished own threshold id since where
  kept hmem := h.kept (List.mem_append_left _ hmem)
  few := by
    refine Nat.lt_of_le_of_lt (Finset.card_le_card (fun o ho => ?_)) h.few
    rw [mem_witnesses] at ho ⊢
    exact ho.imp_right (List.mem_append_left _)

/-- A call that neither acknowledges nor abandons makes no difference to a collection. -/
theorem Unfinished.concat (h : Unfinished own threshold id since) (noAck : ∀ o, x ≠ .ack id o) (kept : x ≠ .abandon id) :
    Unfinished own threshold id (since ++ [x]) where
  kept hmem := by
    rcases List.mem_append.1 hmem with hmem | hmem
    · exact h.kept hmem
    · exact kept (List.mem_singleton.1 hmem).symm
  few := by
    rw [witnesses_concat_of_ne noAck]
    exact h.few

theorem Unfinished.ack {o : Origin} (h : Unfinished own threshold id since)
    (few : (witnesses own id (since ++ [.ack id o])).card < threshold) :
    Unfinished own threshold id (since ++ [.ack id o]) where
  kept hmem := by
    rcases List.mem_append.1 hmem with hmem | hmem
    · exact h.kept hmem
    · cases List.mem_singleton.1 hmem
  few := few

namespace OpenSince

theorem concat (h : OpenSince own threshold id calls before since) (unfinished : Unfinished own threshold id (since ++ [x])) :
    OpenSince own threshold id (calls ++ [x]) before (since ++ [x]) where
  split := by rw [h.split, List.append_assoc, List.cons_append]
  fresh := h.fresh
  unfinished := unfinished

/-- **What an open collection holds.** -/
theorem exists_collection (h : OpenSince own threshold id calls before since) :
    ∃ ws, collection own threshold calls id = some ws ∧ ∀ o, o ∈ ws.toList ↔ o ∈ witnesses own id since := by
  obtain ⟨rfl, fresh, unfinished⟩ := h
  induction since using List.reverseRecOn with
  | nil =>
    obtain ⟨ws, same, after⟩ := (start_weighed (Nat.zero_lt_of_lt unfinished.few) fresh).rest
    exact ⟨ws, by rw [after, if_pos unfinished.few], same⟩
  | append_singleton since x ih =>
    obtain ⟨ws, there, same⟩ := ih unfinished.of_concat
    rw [← List.cons_append, ← List.append_assoc]
    by_cases here : x.id = id
    · cases x with
      | start id' =>
        obtain rfl : id' = id := here
        have after := collection_concat_self own threshold (before ++ .start id' :: since) (.start id')
        rw [Call.id, there] at after
        exact ⟨ws, after, fun o => by rw [witnesses_concat_of_ne (fun _ h => by cases h), same]⟩
      | ack id' o =>
        obtain rfl : id' = id := here
        obtain ⟨ws', same', after⟩ := (ack_weighed there same unfinished.of_concat.few o).rest
        exact ⟨ws', by rw [after, if_pos unfinished.few], same'⟩
      | abandon id' =>
        obtain rfl : id' = id := here
        exact absurd (List.mem_append_right _ List.mem_cons_self) unfinished.kept
    · rw [collection_concat_of_ne here]
      refine ⟨ws, there, fun o => ?_⟩
      rw [witnesses_concat_of_ne (fun o hx => here (by rw [hx]; rfl)), same]

theorem isCollecting (h : OpenSince own threshold id calls before since) :
    (run own threshold calls).isCollecting id = true := by
  obtain ⟨ws, there, -⟩ := h.exists_collection
  rw [isCollecting_run, there]
  rfl

theorem ack_weighed (h : OpenSince own threshold id calls before since) (o : Origin) :
    Weighed own threshold (witnesses own id (since ++ [.ack id o])) ((run own threshold calls).call (.ack id o)).1
      (collection own threshold (calls ++ [.ack id o]) id) := by
  obtain ⟨ws, there, same⟩ := h.exists_collection
  exact AckCollector.ack_weighed there same h.unfinished.few o

end OpenSince

/-- **A collection that is open has been started**, and goes on since. -/
theorem exists_openSince (pos : 0 < threshold) (isOpen : (run own threshold calls).isCollecting id = true) :
    ∃ before since, OpenSince own threshold id calls before since := by
  rw [isCollecting_run] at isOpen
  induction calls using List.reverseRecOn with
  | nil => cases isOpen
  | append_singleton calls x ih =>
    by_cases here : x.id = id
    · subst here
      cases was : collection own threshold calls x.id with
      | none =>
        have after := isOpen
        rw [collection_concat_self, was] at after
        cases x with
        | start id =>
          have fresh : (run own threshold calls).isCollecting id = false := congrArg Option.isSome was
          exact ⟨calls, [], rfl, fresh, nofun, (start_weighed pos fresh).isSome_iff.1 isOpen⟩
        | ack | abandon => cases after
      | some ws =>
        obtain ⟨before, since, h⟩ := ih (by rw [was]; rfl)
        cases x with
        | start id => exact ⟨before, _, h.concat (h.unfinished.concat (fun _ h => by cases h) (fun h => by cases h))⟩
        | ack id o => exact ⟨before, _, h.concat (h.unfinished.ack ((h.ack_weighed o).isSome_iff.1 isOpen))⟩
        | abandon id =>
          rw [collection_concat_self] at isOpen
          cases isOpen
    · rw [collection_concat_of_ne here] at isOpen
      obtain ⟨before, since, h⟩ := ih isOpen
      refine ⟨before, _, h.concat (h.unfinished.concat (fun o hx => here ?_) (fun hx => here ?_))⟩
      · rw [hx]
        rfl
      · rw [hx]
        rfl

/-! ## Once for each start -/

/-- The calls with their answers. -/
def log (c : AckCollector) : List Call → List (Call × Answer)
  | [] => []
  | x :: calls => (x, (c.call x).1) :: (c.call x).2.log calls

/-- A collection is started. -/
def starts (id : SequenceId) : Call × Answer → Bool
  | (.start id', .progress _) => id' = id
  | _ => false

/-- A collection gives out its witnesses. -/
def settles (id : SequenceId) : Call × Answer → Bool
  | (x, .progress (.majority _)) => x.id = id
  | _ => false

/-- A collection is abandoned. -/
def quits (id : SequenceId) : Call × Answer → Bool
  | (.abandon id', .abandoned true) => id' = id
  | _ => false

theorem log_concat (c : AckCollector) (calls : List Call) (x : Call) :
    c.log (calls ++ [x]) = c.log calls ++ [(x, ((calls.foldl (fun c x => (c.call x).2) c).call x).1)] := by
  induction calls generalizing c with
  | nil => rfl
  | cons y calls ih => simp [log, ih]

theorem log_run_concat (own : Origin) (threshold : Nat) (calls : List Call) (x : Call) :
    (new own threshold).log (calls ++ [x]) =
      (new own threshold).log calls ++ [(x, (advance own threshold x (collection own threshold calls x.id)).1)] := by
  rw [← answer_run, log_concat]
  rfl

/-- What a call makes of a collection is seen from its answer. -/
theorem advance_accounted (own : Origin) (threshold : Nat) (x : Call) (before : Option (SortedSet Origin)) :
    let (answer, after) := advance own threshold x before
    [(x, answer)].countP (starts x.id) + before.isSome.toNat =
      [(x, answer)].countP (settles x.id) + [(x, answer)].countP (quits x.id) + after.isSome.toNat := by
  cases x with
  | start id =>
    cases before with
    | none => rcases weigh_cases threshold ((SortedSet.ofList [own]).add own) with h | h <;>
        simp [advance, h, starts, settles, quits, Call.id]
    | some ws => simp [advance, starts, settles, quits]
  | ack id o =>
    cases before with
    | none => simp [advance, starts, settles, quits]
    | some ws => rcases weigh_cases threshold (ws.add o) with h | h <;> simp [advance, h, starts, settles, quits, Call.id]
  | abandon id => cases before <;> simp [advance, starts, settles, quits, Call.id]

theorem countP_elsewhere (other : x.id ≠ id) (answer : Answer) : [(x, answer)].countP (starts id) = 0 ∧
    [(x, answer)].countP (settles id) = 0 ∧ [(x, answer)].countP (quits id) = 0 := by
  simp only [List.countP_singleton, ite_eq_right_iff, Nat.one_ne_zero, imp_false]
  refine ⟨?_, ?_, ?_⟩
  · unfold starts
    split <;> simp_all [Call.id]
  · unfold settles
    split <;> simp_all
  · unfold quits
    split <;> simp_all [Call.id]

/-- **Each start has one end**: the collection is open still, has given out its witnesses, or has been abandoned. -/
theorem starts_accounted (own : Origin) (threshold : Nat) (calls : List Call) (id : SequenceId) :
    ((new own threshold).log calls).countP (starts id) =
      ((new own threshold).log calls).countP (settles id) + ((new own threshold).log calls).countP (quits id) +
        ((run own threshold calls).isCollecting id).toNat := by
  induction calls using List.reverseRecOn with
  | nil => rfl
  | append_singleton calls x ih =>
    rw [isCollecting_run] at ih ⊢
    rw [log_run_concat]
    simp only [List.countP_append]
    by_cases here : x.id = id
    · subst here
      have step := advance_accounted own threshold x (collection own threshold calls x.id)
      rw [collection_concat_self]
      omega
    · obtain ⟨starts, settles, quits⟩ := countP_elsewhere here
        (advance own threshold x (collection own threshold calls x.id)).1
      rw [collection_concat_of_ne here]
      omega

/-- **A majority is reported exactly when it is there.**  For any number of peers that has a majority, after any calls, and
for each proposal:

- the calls for other proposals have made no difference, and will make none to any answer;
- a collection is open if it was started when none was, has not been abandoned, and a majority is missing since;
- a start is refused just if one is open, and then changes nothing; else the own name is the first witness;
- an acknowledgment is ignored just if none is open; else the answer is how many witnesses there are since the start, until
  they are a majority, and then exactly that majority, in order and with the own name in it;
- there are as many starts as collections that have reached a majority, have been abandoned, or are open. -/
theorem majority_reported_exactly (peers : UInt64) (low : 1 ≤ peers.toNat) (high : peers.toNat ≤ 2 ^ 64 - 2)
    (own : Origin) (calls : List Call) (id : SequenceId) :
    let threshold := majority peers.toNat
    let c := run own threshold calls
    let alone := run own threshold (calls.filter (fun x => x.id = id))
    threshold? peers = .ok threshold ∧
    (c.collecting.get? id = alone.collecting.get? id ∧ ∀ x, x.id = id → (c.call x).1 = (alone.call x).1) ∧
    (c.isCollecting id = true ↔ ∃ before since, OpenSince own threshold id calls before since) ∧
    (c.isCollecting id = true → c.call (.start id) = (.refused (.alreadyCollecting id), c)) ∧
    (c.isCollecting id = false →
      ∃ p, (c.call (.start id)).1 = .progress p ∧ Reports own threshold (witnesses own id []) p) ∧
    (∀ o, (c.call (.ack id o)).1 = .progress .ignored ↔ c.isCollecting id = false) ∧
    (∀ before since, OpenSince own threshold id calls before since → ∀ o, ∃ p,
      (c.call (.ack id o)).1 = .progress p ∧ Reports own threshold (witnesses own id (since ++ [.ack id o])) p) ∧
    ((new own threshold).log calls).countP (starts id) =
      ((new own threshold).log calls).countP (settles id) + ((new own threshold).log calls).countP (quits id) +
        (c.isCollecting id).toNat := by
  intro threshold c alone
  have pos : 0 < threshold := majority_pos _
  have same := collection_filter own threshold calls id
  have room : peers.toNat + 1 < UInt64.size := Nat.lt_of_le_of_lt (Nat.succ_le_succ high) (by decide)
  refine ⟨threshold?_eq_ok low room, ⟨same.symm, fun x hx => ?_⟩, ⟨exists_openSince pos, ?_⟩, fun isOpen => ?_,
    fun closed => (start_weighed pos closed).reports, fun o => ?_, fun before since h o => (h.ack_weighed o).reports,
    starts_accounted own threshold calls id⟩
  · subst hx
    rw [answer_run, answer_run, same]
  · rintro ⟨before, since, h⟩
    exact h.isCollecting
  · rw [call, start, if_pos isOpen]
  · rw [call, Answer.progress.injEq]
    exact recordAck_eq_ignored_iff

/-- With five peers, and two proposals: a majority, a late acknowledgment, and a second start, which finds a new collection. -/
theorem majority_reported_exactly_restarted :
    let own : Origin := ⟨"me"⟩
    let before : List Call := [.start 1, .ack 1 ⟨"b"⟩, .start 2, .ack 1 ⟨"d"⟩, .ack 1 ⟨"e"⟩]
    let since : List Call := [.ack 1 ⟨"c"⟩, .ack 2 ⟨"b"⟩, .ack 1 ⟨"c"⟩, .start 1, .ack 1 ⟨"me"⟩]
    let c := run own 3 (before ++ .start 1 :: since)
    OpenSince own 3 1 (before ++ .start 1 :: since) before since ∧ c.isCollecting 1 = true ∧
    c.call (.start 1) = (.refused (.alreadyCollecting 1), c) ∧
    (c.call (.ack 1 ⟨"c"⟩)).1 = .progress (.pending 2) ∧
    (c.call (.ack 1 ⟨"b"⟩)).1 = .progress (.majority [⟨"b"⟩, ⟨"c"⟩, ⟨"me"⟩]) ∧
    ((new own 3).log (before ++ .start 1 :: since)).countP (starts 1) = 2 := by
  intro own before since c
  have openSince : OpenSince own 3 1 (before ++ .start 1 :: since) before since :=
    ⟨rfl, by decide +kernel, by decide +kernel, by decide +kernel⟩
  obtain ⟨-, -, isOpen, refused, -, -, -, accounted⟩ :=
    majority_reported_exactly 5 (by decide) (by decide) own (before ++ .start 1 :: since) 1
  have collecting := isOpen.2 ⟨before, since, openSince⟩
  refine ⟨openSince, collecting, refused collecting, by decide +kernel, by decide +kernel, accounted.trans ?_⟩
  decide +kernel

end AckCollector
end GossipNode
