import Mathlib.Data.List.Induction
import Mathlib.Data.Nat.Find
import GossipNode.Proofs.Consensus.Holding
/-!
# What a gate gives back, and when

Calls to a gate offer items and open rounds, in any order, and rounds may be opened twice, in jumps, or below one that is
open.  What is held after calls can be told from the calls alone: the offers whose rounds none of them has opened, by rounds
and for each round in the order in which they were made (`Reflects`).  So every item comes back at most once, from its own
offer if its round was open by then and otherwise from the first call that opens its round (`Offer.ReturnsAt`), and it is
held in between.
-/
namespace GossipNode.RoundGate

variable {α : Type}

/-! ## Calls -/

inductive Call (α : Type) where
  | offer (round : UInt32) (item : α)
  | advance (round : UInt32)

/-- Make a call; the items that come back from it, in order. -/
def call (g : RoundGate α) : Call α → Except Overflow (List α × RoundGate α)
  | .offer round item => .ok ((g.offer round item).1.toList, (g.offer round item).2)
  | .advance round => g.advanceTo? round

/-- Make calls one after the other; what comes back from each of them. -/
def run (g : RoundGate α) : List (Call α) → Except Overflow (List (List α) × RoundGate α)
  | [] => .ok ([], g)
  | c :: calls => do
    let (back, g) ← g.call c
    let (backs, g) ← g.run calls
    return (back :: backs, g)

variable {g g' g'' : RoundGate α} {c : Call α} {calls calls' : List (Call α)} {back : List α} {backs : List (List α)}

theorem run_cons (h : g.call c = .ok (back, g')) (calls : List (Call α)) :
    g.run (c :: calls) = (g'.run calls).map (fun p => (back :: p.1, p.2)) := by
  rw [run, h]
  cases hr : g'.run calls <;> simp only [bind, Except.bind, hr] <;> rfl

theorem run_append (h : g.run calls = .ok (backs, g')) (calls' : List (Call α)) :
    g.run (calls ++ calls') = (g'.run calls').map (fun p => (backs ++ p.1, p.2)) := by
  induction calls generalizing g backs with
  | nil =>
    cases h
    cases hr : g'.run calls' <;> rw [List.nil_append, hr] <;> rfl
  | cons c calls ih =>
    cases hc : g.call c with
    | error =>
      rw [run, hc] at h
      cases h
    | ok p =>
      rw [run_cons hc] at h
      cases hr : p.2.run calls with
      | error =>
        rw [hr] at h
        cases h
      | ok q =>
        rw [hr] at h
        cases h
        rw [List.cons_append, run_cons hc, ih hr]
        cases q.2.run calls' <;> rfl

/-- The first calls answer the same without those after them. -/
theorem eq_take_of_run {n : Nat} {backs' : List (List α)} (h : g.run calls = .ok (backs, g'))
    (h' : g.run (calls.take n) = .ok (backs', g'')) (same : backs'.length = n) : backs' = backs.take n := by
  have rest := run_append h' (calls.drop n)
  rw [List.take_append_drop, h] at rest
  cases hr : g''.run (calls.drop n) with
  | error =>
    rw [hr] at rest
    cases rest
  | ok p =>
    rw [hr] at rest
    cases rest
    rw [List.take_append_of_le_length (Nat.le_of_eq same.symm), List.take_of_length_le (Nat.le_of_eq same)]

theorem run_concat {backs : List (List α)} (h : run new calls = .ok (backs, g)) (hc : g.call c = .ok (back, g')) :
    run new (calls ++ [c]) = .ok (backs ++ [back], g') := by
  rw [run_append h, run_cons hc]
  rfl

/-! ## Rounds that calls open -/

/-- The round that a call opens.  An offer opens none but round 0, which is open from the start. -/
def Call.opens : Call α → UInt32
  | .offer .. => 0
  | .advance round => round

/-- The largest round that calls have opened. -/
def opened (calls : List (Call α)) : UInt32 := calls.foldl (fun r c => max r c.opens) 0

theorem toNat_opened_concat (calls : List (Call α)) (c : Call α) :
    (opened (calls ++ [c])).toNat = max (opened calls).toNat c.opens.toNat := by
  rw [← toNat_max]
  simp [opened]

theorem opened_offer (calls : List (Call α)) (r : UInt32) (x : α) : opened (calls ++ [.offer r x]) = opened calls := by
  rw [← UInt32.toNat_inj, toNat_opened_concat]
  exact Nat.max_eq_left (Nat.zero_le _)

theorem opened_advance_of_le {r : UInt32} (h : r ≤ opened calls) : opened (calls ++ [.advance r]) = opened calls := by
  rw [← UInt32.toNat_inj, toNat_opened_concat]
  exact Nat.max_eq_left (UInt32.le_iff_toNat_le.1 h)

theorem opened_advance_of_lt {r : UInt32} (h : opened calls < r) : opened (calls ++ [.advance r]) = r := by
  rw [← UInt32.toNat_inj, toNat_opened_concat]
  exact Nat.max_eq_right (Nat.le_of_lt (UInt32.lt_iff_toNat_lt.1 h))

theorem opened_lt_iff {r : UInt32} : opened calls < r ↔ 0 < r ∧ ∀ s, .advance s ∈ calls → s < r := by
  induction calls using List.reverseRecOn with
  | nil => simp [opened]
  | append_singleton calls c ih =>
    simp only [List.mem_append, List.mem_singleton]
    cases c with
    | offer => simp [opened_offer, ih]
    | advance s =>
      rw [UInt32.lt_iff_toNat_lt, toNat_opened_concat, Nat.max_lt, ← UInt32.lt_iff_toNat_lt, ih]
      simp only [Call.opens, Call.advance.injEq, ← UInt32.lt_iff_toNat_lt]
      constructor
      · rintro ⟨⟨pos, before⟩, now⟩
        exact ⟨pos, fun s' h => h.elim (before s') (fun same => same ▸ now)⟩
      · rintro ⟨pos, all⟩
        exact ⟨⟨pos, fun s' h => all s' (.inl h)⟩, all s (.inr rfl)⟩

theorem opened_take_lt_iff {n : Nat} {r : UInt32} :
    opened (calls.take n) < r ↔ 0 < r ∧ ∀ k s, k < n → calls[k]? = some (.advance s) → s < r := by
  rw [opened_lt_iff]
  refine and_congr_right (fun _ => ⟨fun h k s before there => ?_, fun h s there => ?_⟩)
  · exact h s (List.mem_of_getElem? (i := k) (by rw [List.getElem?_take, if_pos before, there]))
  · obtain ⟨k, hk⟩ := List.mem_iff_getElem?.1 there
    rw [List.getElem?_take] at hk
    split at hk
    · rename_i before
      exact h k s before hk
    · cases hk

theorem opened_take_lt_of_le {m n : Nat} {r : UInt32} (h : m ≤ n) (closed : opened (calls.take n) < r) :
    opened (calls.take m) < r := by
  rw [opened_take_lt_iff] at closed ⊢
  exact ⟨closed.1, fun k s before => closed.2 k s (Nat.lt_of_lt_of_le before h)⟩

/-! ## Offers -/

/-- An item that is offered by the call at a position. -/
structure Offer (α : Type) where
  position : Nat
  round : UInt32
  item : α

namespace Offer

variable (e : Offer α) (calls : List (Call α))

/-- The call at the position makes the offer. -/
def MadeIn : Prop := calls[e.position]? = some (.offer e.round e.item)

/-- The order of release: by rounds, and for one round in the order in which the offers were made. -/
def Before (e f : Offer α) : Prop := e.round < f.round ∨ e.round = f.round ∧ e.position < f.position

/-- The item comes back from the call at `i`.  That is its own offer if its round was open by then, and otherwise the first
call after it that opens its round. -/
def ReturnsAt (i : Nat) : Prop :=
  if e.round ≤ opened (calls.take e.position) then i = e.position
  else e.position < i ∧ (∃ r, calls[i]? = some (.advance r) ∧ e.round ≤ r) ∧
    ∀ k r, e.position < k → k < i → calls[k]? = some (.advance r) → r < e.round

end Offer

/-- The offer that a call at a position makes, if it makes one. -/
def Call.offered (position : Nat) : Call α → Option (Offer α)
  | .offer round item => some ⟨position, round, item⟩
  | .advance _ => none

/-- The offers that calls make, in order of position. -/
def offers (calls : List (Call α)) : List (Offer α) := calls.zipIdx.filterMap (fun p => p.1.offered p.2)

theorem offers_concat (calls : List (Call α)) (c : Call α) :
    offers (calls ++ [c]) = offers calls ++ (c.offered calls.length).toList := by
  rw [offers, List.zipIdx_append, List.filterMap_append, Nat.zero_add]
  cases c <;> rfl

theorem mem_offers {e : Offer α} : e ∈ offers calls ↔ e.MadeIn calls := by
  unfold offers Offer.MadeIn
  rw [List.mem_filterMap]
  constructor
  · rintro ⟨⟨c, i⟩, hc, he⟩
    rw [List.mem_zipIdx_iff_getElem?] at hc
    cases c with
    | offer =>
      cases he
      exact hc
    | advance => cases he
  · intro made
    exact ⟨(.offer e.round e.item, e.position), List.mem_zipIdx_iff_getElem?.2 made, rfl⟩

theorem pairwise_offers (calls : List (Call α)) : (offers calls).Pairwise (fun e f => e.position < f.position) := by
  induction calls using List.reverseRecOn with
  | nil => exact List.Pairwise.nil
  | append_singleton calls c ih =>
    rw [offers_concat, List.pairwise_append]
    refine ⟨ih, ?_, fun e he f hf => ?_⟩
    · cases c with
      | offer => exact List.pairwise_singleton _ _
      | advance => exact List.Pairwise.nil
    · have made : e.position < calls.length := (List.getElem?_eq_some_iff.1 (mem_offers.1 he)).1
      cases c with
      | offer => rwa [List.mem_singleton.1 hf]
      | advance => cases hf

/-- The offers whose rounds no call has opened. -/
def waiting (calls : List (Call α)) : List (Offer α) := (offers calls).filter (fun e => opened calls < e.round)

theorem mem_waiting {e : Offer α} : e ∈ waiting calls ↔ e.MadeIn calls ∧ opened calls < e.round := by
  rw [waiting, List.mem_filter, mem_offers, decide_eq_true_eq]

/-! ## Offers by rounds -/

/-- The map has the items of a list of offers by their rounds, for each round in the order of the list. -/
def Groups (m : SortedMap UInt32 (List α)) (es : List (Offer α)) : Prop :=
  ∀ r, m.get? r = if es.filter (·.round = r) = [] then none else some ((es.filter (·.round = r)).map Offer.item)

section Groups

variable {m : SortedMap UInt32 (List α)} {es : List (Offer α)}

theorem Groups.alter (h : Groups m es) (e : Offer α) :
    Groups (m.alter e.round (fun items => items.getD [] ++ [e.item])) (es ++ [e]) := by
  intro r
  rw [SortedMap.get?_alter, List.filter_append]
  by_cases same : r = e.round
  · have items : (m.get? e.round).getD [] = (es.filter (·.round = e.round)).map Offer.item := by
      rw [h e.round]
      split
      · rename_i nothing
        rw [nothing]
        rfl
      · rfl
    simp [same, items]
  · simp [same, Ne.symm same, h r]

theorem Groups.filter (h : Groups m es) (p : UInt32 → Bool) :
    Groups (m.filter (fun r _ => p r)) (es.filter (fun e => p e.round)) := by
  intro r
  rw [SortedMap.get?_filter, h r, List.filter_filter]
  cases hp : p r with
  | true =>
    have all : es.filter (fun e => decide (e.round = r) && p e.round) = es.filter (·.round = r) :=
      List.filter_congr (fun e _ => by by_cases same : e.round = r <;> simp [same, hp])
    rw [all]
    split <;> simp [Option.filter]
  | false =>
    have nothing : es.filter (fun e => decide (e.round = r) && p e.round) = [] :=
      List.filter_eq_nil_iff.2 (fun e _ => by by_cases same : e.round = r <;> simp [same, hp])
    rw [if_pos nothing]
    split <;> simp [Option.filter]

/-- The offers of a map in the order of release. -/
def inOrder (m : SortedMap UInt32 (List α)) (es : List (Offer α)) : List (Offer α) :=
  m.keys.flatMap (fun r => es.filter (·.round = r))

theorem Groups.mem_keys_iff (h : Groups m es) {r : UInt32} : r ∈ m.keys ↔ ∃ e ∈ es, e.round = r := by
  rw [SortedMap.mem_keys, SortedMap.contains, h r]
  split
  · rename_i nothing
    refine ⟨fun absent => Bool.noConfusion absent, ?_⟩
    rintro ⟨e, he, hr⟩
    exact absurd (decide_eq_true hr) (List.filter_eq_nil_iff.1 nothing e he)
  · rename_i something
    obtain ⟨e, he⟩ := List.exists_mem_of_ne_nil _ something
    obtain ⟨hmem, hr⟩ := List.mem_filter.1 he
    exact ⟨fun _ => ⟨e, hmem, of_decide_eq_true hr⟩, fun _ => rfl⟩

theorem Groups.flatten_values (h : Groups m es) : m.values.flatten = (inOrder m es).map Offer.item := by
  have values : m.values = m.keys.map (fun r => (es.filter (·.round = r)).map Offer.item) := by
    unfold SortedMap.values SortedMap.keys
    rw [List.map_map]
    refine List.map_congr_left (fun e he => ?_)
    have entry : m.get? e.1 = some e.2 := SortedMap.mem_entries.1 he
    rw [h e.1] at entry
    split at entry
    · cases entry
    · exact (Option.some.inj entry).symm
  rw [values, inOrder, List.map_flatMap]
  rfl

theorem Groups.mem_inOrder (h : Groups m es) {e : Offer α} : e ∈ inOrder m es ↔ e ∈ es := by
  unfold inOrder
  rw [List.mem_flatMap]
  constructor
  · rintro ⟨r, -, he⟩
    exact (List.mem_filter.1 he).1
  · intro he
    exact ⟨e.round, h.mem_keys_iff.2 ⟨e, he, rfl⟩, List.mem_filter.2 ⟨he, decide_eq_true rfl⟩⟩

theorem pairwise_inOrder (m : SortedMap UInt32 (List α)) (h : es.Pairwise (fun e f => e.position < f.position)) :
    (inOrder m es).Pairwise Offer.Before := by
  refine List.pairwise_flatMap.2 ⟨fun r _ => ?_, List.pairwise_map.2 (m.ascending.imp (fun lt e he f hf => ?_))⟩
  · refine (h.filter _).imp_of_mem (fun he hf lt => .inr ⟨?_, lt⟩)
    rw [of_decide_eq_true (List.mem_filter.1 he).2, of_decide_eq_true (List.mem_filter.1 hf).2]
  · rw [← of_decide_eq_true (List.mem_filter.1 he).2, ← of_decide_eq_true (List.mem_filter.1 hf).2] at lt
    exact .inl (compareOfLessAndEq_eq_lt.1 lt)

end Groups

/-! ## Runs -/

/-- The gate is what calls make of a new one. -/
structure Reflects (g : RoundGate α) (calls : List (Call α)) : Prop where
  current : g.current = opened calls
  held : Groups g.held (waiting calls)

theorem reflects_new : Reflects (new : RoundGate α) [] := ⟨rfl, fun _ => rfl⟩

/-- The offer's item comes back from a call that is made after others. -/
def Due (calls : List (Call α)) (e : Offer α) : Call α → Prop
  | .offer round item => e = ⟨calls.length, round, item⟩ ∧ round ≤ opened calls
  | .advance round => e ∈ waiting calls ∧ e.round ≤ round

section Waiting

variable {r : UInt32}

theorem waiting_offer_of_le (h : r ≤ opened calls) (x : α) : waiting (calls ++ [.offer r x]) = waiting calls := by
  rw [waiting, offers_concat, opened_offer, List.filter_append]
  simp [Call.offered, waiting, h, UInt32.not_lt]

theorem waiting_offer_of_lt (h : opened calls < r) (x : α) :
    waiting (calls ++ [.offer r x]) = waiting calls ++ [⟨calls.length, r, x⟩] := by
  rw [waiting, offers_concat, opened_offer, List.filter_append]
  simp [Call.offered, waiting, h]

theorem waiting_advance_of_le (h : r ≤ opened calls) : waiting (calls ++ [.advance r]) = waiting calls := by
  rw [waiting, offers_concat, opened_advance_of_le h]
  simp [Call.offered, waiting]

theorem waiting_advance_of_lt (h : opened calls < r) :
    waiting (calls ++ [.advance r]) = (waiting calls).filter (fun e => r < e.round) := by
  rw [waiting, offers_concat, opened_advance_of_lt h, waiting, List.filter_filter]
  simp only [Call.offered, Option.toList_none, List.append_nil]
  refine List.filter_congr (fun e _ => ?_)
  by_cases later : r < e.round
  · simp [later, UInt32.lt_trans h later]
  · simp [later]

end Waiting

/-- **One call.** -/
theorem Reflects.call (h : Reflects g calls) (c : Call α) (fits : c.opens.toNat + 1 < UInt32.size) :
    ∃ (es : List (Offer α)) (g' : RoundGate α), g.call c = .ok (es.map Offer.item, g') ∧ Reflects g' (calls ++ [c]) ∧
      es.Pairwise Offer.Before ∧ ∀ e, e ∈ es ↔ Due calls e c := by
  cases c with
  | offer r x =>
    rw [RoundGate.call, offer, h.current]
    by_cases isOpen : r ≤ opened calls
    · refine ⟨[⟨calls.length, r, x⟩], g, by rw [if_pos isOpen]; rfl, ⟨?_, ?_⟩, List.pairwise_singleton _ _,
        fun e => ?_⟩
      · rw [opened_offer, h.current]
      · rw [waiting_offer_of_le isOpen]
        exact h.held
      · rw [List.mem_singleton, Due, and_iff_left isOpen]
    · refine ⟨[], _, by rw [if_neg isOpen]; rfl, ⟨?_, ?_⟩, List.Pairwise.nil, fun e => ?_⟩
      · rw [opened_offer]
      · rw [waiting_offer_of_lt (UInt32.not_le.1 isOpen)]
        exact h.held.alter ⟨calls.length, r, x⟩
      · exact ⟨nofun, fun due => absurd due.2 isOpen⟩
  | advance r =>
    rw [RoundGate.call, advanceTo?, h.current]
    by_cases isOpen : r ≤ opened calls
    · refine ⟨[], g, by rw [if_pos isOpen]; rfl, ⟨?_, ?_⟩, List.Pairwise.nil, fun e => ?_⟩
      · rw [opened_advance_of_le isOpen, h.current]
      · rw [waiting_advance_of_le isOpen]
        exact h.held
      · refine ⟨nofun, fun ⟨held, due⟩ => ?_⟩
        exact absurd (mem_waiting.1 held).2 (UInt32.not_lt.2 (UInt32.le_trans due isOpen))
    · have room : r.toNat + 1 < UInt32.size := fits
      have released := h.held.filter (fun r' => r' ≤ r)
      have ordered := ((pairwise_offers calls).filter (fun e => opened calls < e.round)).filter (fun e => e.round ≤ r)
      refine ⟨inOrder _ _, ⟨r, g.held.filter (fun r' _ => r < r')⟩, ?_, ⟨?_, ?_⟩, pairwise_inOrder _ ordered,
        fun e => released.mem_inOrder.trans ?_⟩
      · rw [if_neg isOpen, succ?, if_pos room, Except.map, advanceTo, h.current, if_neg isOpen, released.flatten_values]
        rfl
      · rw [opened_advance_of_lt (UInt32.not_le.1 isOpen)]
      · rw [waiting_advance_of_lt (UInt32.not_le.1 isOpen)]
        exact h.held.filter (fun r' => r < r')
      · rw [List.mem_filter, decide_eq_true_eq, Due]

/-- **Any calls.** -/
theorem reflects_run (calls : List (Call α)) (fits : ∀ c ∈ calls, c.opens.toNat + 1 < UInt32.size) :
    ∃ backs g, run new calls = .ok (backs, g) ∧ Reflects g calls ∧ backs.length = calls.length ∧
      ∀ i c, calls[i]? = some c → ∃ es : List (Offer α), backs[i]? = some (es.map Offer.item) ∧
        es.Pairwise Offer.Before ∧ ∀ e, e ∈ es ↔ Due (calls.take i) e c := by
  induction calls using List.reverseRecOn with
  | nil => exact ⟨[], new, rfl, reflects_new, rfl, nofun⟩
  | append_singleton calls c ih =>
    obtain ⟨backs, g, ran, reflects, same, answers⟩ := ih (fun c hc => fits c (List.mem_append_left _ hc))
    obtain ⟨es, g', called, reflects', ordered, due⟩ := reflects.call c (fits c (by simp))
    refine ⟨_, g', run_concat ran called, reflects', by simp [same], fun i c' hc' => ?_⟩
    rcases Nat.lt_or_ge i calls.length with before | after
    · rw [List.getElem?_append_left before] at hc'
      rw [List.getElem?_append_left (same ▸ before), List.take_append_of_le_length (Nat.le_of_lt before)]
      exact answers i c' hc'
    · rw [List.getElem?_append_right after, List.getElem?_singleton] at hc'
      split at hc'
      · rename_i last
        obtain rfl := Option.some.inj hc'
        obtain rfl : i = calls.length := by omega
        refine ⟨es, ?_, ordered, ?_⟩
        · rw [List.getElem?_append_right (by omega), same]
          simp
        · simpa using due
      · cases hc'

/-! ## Where an item comes back -/

section Returns

variable {e : Offer α} {i i' n : Nat}

/-- **An item comes back at most once.** -/
theorem Offer.ReturnsAt.unique (h : e.ReturnsAt calls i) (h' : e.ReturnsAt calls i') : i = i' := by
  unfold ReturnsAt at h h'
  split at h
  · rename_i isOpen
    rw [if_pos isOpen] at h'
    rw [h, h']
  · rename_i closed
    rw [if_neg closed] at h'
    obtain ⟨later, ⟨r, opens, reached⟩, first⟩ := h
    obtain ⟨later', ⟨r', opens', reached'⟩, first'⟩ := h'
    rcases Nat.lt_trichotomy i i' with before | same | after
    · exact absurd (first' i r later before opens) (UInt32.not_lt.2 reached)
    · exact same
    · exact absurd (first i' r' later' after opens') (UInt32.not_lt.2 reached')

/-- A round is opened after an offer for it, if it was closed then. -/
theorem lt_of_opens (made : e.MadeIn calls) (closed : opened (calls.take e.position) < e.round) {k : Nat} {r : UInt32}
    (opens : calls[k]? = some (.advance r)) (reached : e.round ≤ r) : e.position < k := by
  rcases Nat.lt_trichotomy k e.position with before | same | after
  · exact absurd ((opened_take_lt_iff.1 closed).2 k r before opens) (UInt32.not_lt.2 reached)
  · rw [same, show calls[e.position]? = _ from made] at opens
    cases opens
  · exact after

/-- **An item has come back when its round is open.** -/
theorem exists_returnsAt_iff (made : e.MadeIn calls) (before : e.position < n) :
    (∃ i < n, e.ReturnsAt calls i) ↔ e.round ≤ opened (calls.take n) := by
  constructor
  · rintro ⟨i, hi, returns⟩
    refine UInt32.not_lt.1 (fun closed => ?_)
    rw [Offer.ReturnsAt, if_neg (UInt32.not_le.2 (opened_take_lt_of_le (Nat.le_of_lt before) closed))] at returns
    obtain ⟨-, ⟨r, opens, reached⟩, -⟩ := returns
    exact absurd ((opened_take_lt_iff.1 closed).2 i r hi opens) (UInt32.not_lt.2 reached)
  · intro isOpen
    by_cases atOnce : e.round ≤ opened (calls.take e.position)
    · exact ⟨e.position, before, by rw [Offer.ReturnsAt, if_pos atOnce]⟩
    · have closed := UInt32.not_le.1 atOnce
      have opening : ∃ k, k < n ∧ ∃ r, calls[k]? = some (.advance r) ∧ e.round ≤ r := by
        by_contra never
        refine UInt32.not_lt.2 isOpen (opened_take_lt_iff.2 ⟨(opened_take_lt_iff.1 closed).1, fun k s hk opens => ?_⟩)
        exact UInt32.not_le.1 (fun reached => never ⟨k, hk, s, opens, reached⟩)
      -- the item comes back from the first of the calls that open its round
      classical
      obtain ⟨hk, r, opens, reached⟩ := Nat.find_spec opening
      refine ⟨Nat.find opening, hk, ?_⟩
      rw [Offer.ReturnsAt, if_neg atOnce]
      refine ⟨lt_of_opens made closed opens reached, ⟨r, opens, reached⟩, fun k s _ early opens' => ?_⟩
      exact UInt32.not_le.1 (fun reached' => Nat.find_min opening early ⟨Nat.lt_trans early hk, s, opens', reached'⟩)

theorem madeIn_take : e.MadeIn (calls.take n) ↔ e.MadeIn calls ∧ e.position < n := by
  unfold Offer.MadeIn
  rw [List.getElem?_take]
  split
  · rename_i before
    exact (and_iff_left before).symm
  · rename_i after
    exact ⟨nofun, fun made => absurd made.2 after⟩

theorem mem_waiting_take : e ∈ waiting (calls.take n) ↔ e.MadeIn (calls.take n) ∧ ∀ i < n, ¬ e.ReturnsAt calls i := by
  rw [mem_waiting]
  refine and_congr_right (fun made => ?_)
  obtain ⟨made, before⟩ := madeIn_take.1 made
  rw [← UInt32.not_le, ← exists_returnsAt_iff made before]
  exact ⟨fun none i hi returns => none ⟨i, hi, returns⟩, fun none ⟨i, hi, returns⟩ => none i hi returns⟩

theorem due_iff {c : Call α} (hc : calls[i]? = some c) :
    Due (calls.take i) e c ↔ e.MadeIn calls ∧ e.ReturnsAt calls i := by
  have place : (calls.take i).length = i := List.length_take_of_le (Nat.le_of_lt (List.getElem?_eq_some_iff.1 hc).1)
  cases c with
  | offer r x =>
    constructor
    · rintro ⟨rfl, isOpen⟩
      rw [place, Offer.ReturnsAt, if_pos isOpen]
      exact ⟨hc, rfl⟩
    · rintro ⟨made, returns⟩
      unfold Offer.ReturnsAt at returns
      split at returns
      · rename_i isOpen
        subst returns
        rw [show calls[e.position]? = _ from made] at hc
        cases hc
        exact ⟨by rw [place], isOpen⟩
      · obtain ⟨-, ⟨r', opens, -⟩, -⟩ := returns
        rw [hc] at opens
        cases opens
  | advance r =>
    constructor
    · rintro ⟨held, reached⟩
      obtain ⟨made, closed⟩ := mem_waiting.1 held
      obtain ⟨made, before⟩ := madeIn_take.1 made
      rw [Offer.ReturnsAt, if_neg (UInt32.not_le.2 (opened_take_lt_of_le (Nat.le_of_lt before) closed))]
      exact ⟨made, before, ⟨r, hc, reached⟩, fun k s _ early => (opened_take_lt_iff.1 closed).2 k s early⟩
    · rintro ⟨made, returns⟩
      unfold Offer.ReturnsAt at returns
      split at returns
      · rw [returns, show calls[e.position]? = _ from made] at hc
        cases hc
      · rename_i closed
        obtain ⟨before, ⟨r', opens, reached⟩, first⟩ := returns
        obtain rfl : r = r' := by
          rw [hc] at opens
          cases opens
          rfl
        have closed := UInt32.not_le.1 closed
        -- no call before this one opens the round: not before the offer, and not after it
        have still : opened (calls.take i) < e.round := by
          refine opened_take_lt_iff.2 ⟨(opened_take_lt_iff.1 closed).1, fun k s early opens' => UInt32.not_le.1 ?_⟩
          intro reached'
          have after := lt_of_opens made closed opens' reached'
          exact absurd (first k s after early opens') (UInt32.not_lt.2 reached')
        exact ⟨mem_waiting.2 ⟨madeIn_take.2 ⟨made, before⟩, still⟩, reached⟩

end Returns

/-- **Every item that is offered comes back at most once, in order, and is held until then.**  A new gate takes any calls
that do not open the last round that a word can hold.  An item comes back from its own offer, exactly if its round is at
most the largest one opened by then, or else from the first later call that opens a round at least its own.  What comes
back from one call is in ascending order of rounds, and for one round in the order of the offers.  At every moment the
gate's current round is the largest opened so far, and it holds and counts exactly the items that have not come back, all
for later rounds. -/
theorem items_return_once (calls : List (Call α)) (fits : ∀ r, .advance r ∈ calls → r.toNat + 1 < UInt32.size) :
    ∃ backs : List (List α), backs.length = calls.length ∧
      (∀ (e : Offer α) (i i' : Nat), e.ReturnsAt calls i → e.ReturnsAt calls i' → i = i') ∧
      (∀ i < calls.length, ∃ es : List (Offer α), backs[i]? = some (es.map Offer.item) ∧ es.Pairwise Offer.Before ∧
        ∀ e, e ∈ es ↔ e.MadeIn calls ∧ e.ReturnsAt calls i) ∧
      ∀ n ≤ calls.length, ∃ g, run new (calls.take n) = .ok (backs.take n, g) ∧ g.current = opened (calls.take n) ∧
        ∃ es : List (Offer α), g.items = es.map Offer.item ∧ g.heldCount = es.length ∧ es.Pairwise Offer.Before ∧
          (∀ e ∈ es, g.current < e.round) ∧
          ∀ e, e ∈ es ↔ e.MadeIn (calls.take n) ∧ ∀ i < n, ¬ e.ReturnsAt calls i := by
  have room : ∀ c ∈ calls, c.opens.toNat + 1 < UInt32.size := by
    intro c hc
    cases c with
    | offer => exact (by decide : (0 : UInt32).toNat + 1 < UInt32.size)
    | advance r => exact fits r hc
  obtain ⟨backs, g, ran, -, same, answers⟩ := reflects_run calls room
  refine ⟨backs, same, fun e i i' => Offer.ReturnsAt.unique, fun i hi => ?_, fun n hn => ?_⟩
  · obtain ⟨es, back, ordered, due⟩ := answers i _ (List.getElem?_eq_getElem hi)
    exact ⟨es, back, ordered, fun e => (due e).trans (due_iff (List.getElem?_eq_getElem hi))⟩
  · obtain ⟨backs', g', ran', reflects, same', -⟩ :=
      reflects_run (calls.take n) (fun c hc => room c (List.mem_of_mem_take hc))
    have first := eq_take_of_run ran ran' (by rw [same', List.length_take_of_le hn])
    refine ⟨g', by rw [← first, ran'], reflects.current, inOrder g'.held (waiting (calls.take n)), ?_, ?_, ?_, ?_, ?_⟩
    · exact reflects.held.flatten_values
    · rw [heldCount, reflects.held.flatten_values, List.length_map]
    · exact pairwise_inOrder _ ((pairwise_offers _).filter _)
    · intro e he
      rw [reflects.current]
      exact (mem_waiting.1 (reflects.held.mem_inOrder.1 he)).2
    · exact fun e => reflects.held.mem_inOrder.trans mem_waiting_take

/-- Two offers for one round with an earlier one between them, a call that opens nothing new, and two equal items. -/
theorem items_return_once_jump :
    let calls : List (Call String) := [.offer 3 "c", .offer 1 "a", .offer 3 "a", .advance 2, .offer 2 "b", .advance 1,
      .offer 5 "z", .advance 4]
    (∀ r, .advance r ∈ calls → r.toNat + 1 < UInt32.size) ∧
    ∃ g, run new calls = .ok ([[], [], [], ["a"], ["b"], [], [], ["c", "a"]], g) ∧ g.current = 4 ∧ g.heldCount = 1 ∧
      ∃ es : List (Offer String), es.map Offer.item = ["c", "a"] ∧ es.Pairwise Offer.Before ∧
        ∀ e, e ∈ es ↔ e.MadeIn calls ∧ e.ReturnsAt calls 7 := by
  intro calls
  have fits : ∀ r, .advance r ∈ calls → r.toNat + 1 < UInt32.size := by
    simp [calls, UInt32.size]
  obtain ⟨backs, same, -, answers, moments⟩ := items_return_once calls fits
  obtain ⟨g, ran, current, es, items, count, -⟩ := moments 8 (Nat.le_refl 8)
  obtain ⟨es', back, ordered, returns⟩ := answers 7 (by decide)
  have ran' : run new calls = .ok ([[], [], [], ["a"], ["b"], [], [], ["c", "a"]], ⟨4, _⟩) := rfl
  have same : backs.length = 8 := same
  rw [List.take_of_length_le (Nat.le_refl 8), List.take_of_length_le (Nat.le_of_eq same), ran'] at ran
  cases ran
  exact ⟨fits, _, ran', rfl, rfl, es', (Option.some.inj back).symm, ordered, returns⟩

end GossipNode.RoundGate
