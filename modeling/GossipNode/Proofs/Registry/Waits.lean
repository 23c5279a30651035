import Mathlib.Data.List.Range
import Mathlib.Data.List.Perm.Basic
import GossipNode.Proofs.Consensus.Holding
import GossipNode.Proofs.Registry.Reports
/-!
# Every wait ends once

Whoever sends a record gets a ticket and waits.  The wait ends when its notice is taken, or when its time is over: then the
holder stops looking, and next it removes the registration.  So each ticket that has been given out is at one place: it is
waited with, it is being given up, it has been heard of, or it has run out (`AckRegistry.Balanced`).

A wait that goes on has its registration or its notice, not both.  A report may come between the end of the time and the
removal; it takes the registration away and tells nobody, so no wait is counted twice.
-/
namespace GossipNode

namespace SortedMap

variable {α β γ : Type} [Ord α] [Std.LawfulEqOrd α] [Std.TransOrd α] {m : SortedMap α β} {k : α} {v : β}

theorem perm_keys_of_get? (h : m.get? k = some v) : m.keys.Perm (k :: (m.erase k).keys) :=
  (perm_entries_of_get? h).map Prod.fst

theorem perm_keys_insert (new : k ∉ m.keys) : (m.insert k v).keys.Perm (k :: m.keys) := by
  have absent : m.get? k = none := by
    rw [mem_keys, Bool.not_eq_true] at new
    exact contains_eq_false_iff.1 new
  have entries := (perm_entries_insert m k v).map Prod.fst
  rw [erase_of_get?_eq_none absent] at entries
  exact entries

theorem perm_keys_foldl_insert (key : γ → α) (value : γ → β) {l : List γ} (new : (l.map key ++ m.keys).Nodup) :
    (l.foldl (fun m x => m.insert (key x) (value x)) m).keys.Perm (l.map key ++ m.keys) := by
  induction l generalizing m with
  | nil => exact List.Perm.refl _
  | cons x l ih =>
    rw [List.map_cons, List.cons_append] at new ⊢
    obtain ⟨first, others⟩ := List.nodup_cons.1 new
    have inserted : (l.map key ++ (m.insert (key x) (value x)).keys).Perm (key x :: (l.map key ++ m.keys)) :=
      ((perm_keys_insert fun h => first (List.mem_append_right _ h)).append_left _).trans List.perm_middle
    exact (ih (inserted.nodup_iff.2 new)).trans inserted

end SortedMap

namespace AckRegistry

/-- The tickets of the registrations that someone waits with. -/
def listened (g : AckRegistry) : List Nat := (g.pending.filter Registration.listening).map Registration.ticket

/-- Of those that someone waits with, a report leaves some and notifies the others. -/
theorem perm_listened_onStatus (g : AckRegistry) (peer : PeerAddress) (v : StatusVector) (inSync : Bool) :
    g.listened.Perm ((g.onStatus peer v inSync).2.listened ++
      ((g.onStatus peer v inSync).1.filter fun s => s.1.listening).map fun s => s.1.ticket) := by
  have parted := (((g.perm_onStatus peer v inSync).filter Registration.listening).map Registration.ticket).symm
  rw [List.filter_append, List.map_append, List.filter_map, List.map_map] at parted
  exact parted.trans List.perm_append_comm

/-- **Where the tickets are** that a registry has given out. -/
structure Balanced (g : AckRegistry) (notices : SortedMap Nat Notice) (waiting leaving heard late : List Nat) : Prop where
  once : (waiting ++ leaving ++ heard ++ late).Perm (List.range g.nextTicket)
  awaited : waiting.Perm (g.listened ++ notices.keys)
  /-- Whoever has stopped looking is about to remove the registration. -/
  abandoned : ∀ r ∈ g.pending, r.listening = false → r.ticket ∈ leaving
  nodup : (g.pending.map Registration.ticket).Nodup

namespace Balanced

variable {g : AckRegistry} {notices : SortedMap Nat Notice} {waiting leaving heard late waiting' leaving' : List Nat}
  {t : Nat} {r : Registration}

theorem start : Balanced .empty ∅ [] [] [] [] := ⟨List.Perm.refl _, List.Perm.refl _, nofun, List.nodup_nil⟩

theorem perm (h : Balanced g notices waiting leaving heard late) (hw : waiting'.Perm waiting) (hl : leaving'.Perm leaving) :
    Balanced g notices waiting' leaving' heard late where
  once := (((hw.append hl).append_right _).append_right _).trans h.once
  awaited := hw.trans h.awaited
  abandoned r hr quiet := hl.mem_iff.2 (h.abandoned r hr quiet)
  nodup := h.nodup

theorem mem_waiting (h : Balanced g notices waiting leaving heard late) (hr : r ∈ g.pending) (listens : r.listening = true) :
    r.ticket ∈ waiting :=
  h.awaited.mem_iff.2 (List.mem_append_left _ (List.mem_map_of_mem (List.mem_filter.2 ⟨hr, listens⟩)))

theorem ticket_lt (h : Balanced g notices waiting leaving heard late) (hr : r ∈ g.pending) : r.ticket < g.nextTicket := by
  have held : r.ticket ∈ waiting ++ leaving ++ heard ++ late := by
    cases listens : r.listening with
    | true => simp [h.mem_waiting hr listens]
    | false => simp [h.abandoned r hr listens]
  exact List.mem_range.1 (h.once.mem_iff.1 held)

theorem nodup_open (h : Balanced g notices waiting leaving heard late) : (waiting ++ leaving).Nodup := by
  have all := h.once.nodup_iff.2 List.nodup_range
  rw [List.append_assoc] at all
  exact (List.nodup_append.1 all).1

/-- **A new wait** has the next ticket. -/
theorem register (h : Balanced g notices waiting leaving heard late) (peer : PeerAddress) (o : Origin) (id : SequenceId) :
    Balanced (g.register peer o id).2 notices (g.nextTicket :: waiting) leaving heard late where
  once := by
    simp only [AckRegistry.register, List.range_succ, List.cons_append]
    exact (h.once.cons _).trans (List.perm_append_singleton _ _).symm
  awaited := by
    simp only [AckRegistry.register, listened, List.filter_append, List.map_append, List.append_assoc]
    exact (h.awaited.cons _).trans List.perm_middle.symm
  abandoned r hr quiet := by
    rcases List.mem_append.1 hr with hr | hr
    · exact h.abandoned r hr quiet
    · rw [List.mem_singleton.1 hr] at quiet
      cases quiet
  nodup := by
    simp only [AckRegistry.register, List.map_append, List.map_singleton]
    refine List.Nodup.append h.nodup (List.nodup_singleton _) ?_
    simp only [List.disjoint_singleton, List.mem_map, not_exists, not_and]
    exact fun r hr => Nat.ne_of_lt (h.ticket_lt hr)

/-- **A report** turns registrations into notices, of those whom someone waits with; the others are gone. -/
theorem report (h : Balanced g notices waiting leaving heard late) (peer : PeerAddress) (v : StatusVector) (inSync : Bool) :
    Balanced (g.onStatus peer v inSync).2
      (((g.onStatus peer v inSync).1.filter fun s => s.1.listening).foldl (fun ns s => ns.insert s.1.ticket s.2) notices)
      waiting leaving heard late := by
  have parted := g.perm_onStatus peer v inSync
  have listened := g.perm_listened_onStatus peer v inSync
  have ticket := g.nextTicket_onStatus peer v inSync
  generalize g.onStatus peer v inSync = reported at parted listened ticket
  obtain ⟨sent, g'⟩ := reported
  dsimp only at parted listened ticket ⊢
  -- what is listened for and covered by the report moves from the registry to the notices
  have awaited : waiting.Perm
      (g'.listened ++ ((sent.filter fun s => s.1.listening).map (fun s => s.1.ticket) ++ notices.keys)) := by
    rw [← List.append_assoc]
    exact h.awaited.trans (listened.append_right _)
  have fresh := (List.nodup_append.1 (awaited.nodup_iff.1 (List.nodup_append.1 h.nodup_open).1)).2.1
  have left : g'.pending ⊆ g.pending := fun r hr => parted.mem_iff.1 (List.mem_append_right _ hr)
  have nodup := (parted.map Registration.ticket).nodup_iff.2 h.nodup
  rw [List.map_append] at nodup
  refine ⟨by rw [ticket]; exact h.once, awaited.trans (.append_left _ ?_), fun r hr => h.abandoned r (left hr),
    (List.nodup_append.1 nodup).2.1⟩
  exact (SortedMap.perm_keys_foldl_insert _ _ fresh).symm

theorem perm_heard : (waiting ++ leaving ++ (heard ++ [t]) ++ late).Perm (t :: waiting ++ leaving ++ heard ++ late) := by
  simp only [List.append_assoc, List.cons_append, List.nil_append]
  rw [List.perm_iff_count]
  intro a
  simp only [List.count_append, List.count_cons]
  omega

theorem perm_late : (waiting ++ leaving ++ heard ++ (late ++ [t])).Perm (waiting ++ (t :: leaving) ++ heard ++ late) := by
  rw [List.perm_iff_count]
  intro a
  simp only [List.count_append, List.count_cons, List.count_nil]
  omega

/-- **A notice is taken.** -/
theorem take (h : Balanced g notices (t :: waiting) leaving heard late) {notice : Notice}
    (there : notices.get? t = some notice) : Balanced g (notices.erase t) waiting leaving (heard ++ [t]) late where
  once := perm_heard.trans h.once
  awaited := by
    have keys := (SortedMap.perm_keys_of_get? there).append_left g.listened
    exact (h.awaited.trans (keys.trans List.perm_middle)).cons_inv
  abandoned := h.abandoned
  nodup := h.nodup

theorem ticket_comp_quiet (t : Nat) :
    (Registration.ticket ∘ fun r : Registration => if r.ticket = t then { r with listening := false } else r) =
      Registration.ticket := by
  funext r
  dsimp only [Function.comp]
  split <;> rfl

theorem listened_abandon (g : AckRegistry) (t : Nat) : (g.abandon t).listened = g.listened.filter (fun x => x != t) := by
  unfold listened AckRegistry.abandon
  rw [List.filter_map, List.map_map, ticket_comp_quiet, List.filter_map, List.filter_filter]
  refine congrArg _ (List.filter_congr (fun r _ => ?_))
  by_cases ht : r.ticket = t <;> simp [ht]

/-- **The time is over** and no notice has come. -/
theorem abandon (h : Balanced g notices (t :: waiting) leaving heard late) (absent : notices.contains t = false) :
    Balanced (g.abandon t) notices waiting (t :: leaving) heard late where
  once := by
    refine List.Perm.trans ?_ h.once
    simp only [List.append_assoc, List.cons_append]
    exact List.perm_middle
  awaited := by
    -- no notice has the ticket, so it is one of those that are listened for, and goes from there
    have others : ∀ x ∈ waiting, (x != t) = true := by
      have nodup := h.nodup_open
      rw [List.cons_append, List.nodup_cons] at nodup
      exact fun x hx => bne_iff_ne.2 fun he => nodup.1 (he ▸ List.mem_append_left _ hx)
    have kept : ∀ x ∈ notices.keys, (x != t) = true := fun x hx => bne_iff_ne.2 fun he => by
      rw [he, SortedMap.mem_keys, absent] at hx
      cases hx
    have awaited := h.awaited.filter (fun x => x != t)
    rw [List.filter_cons_of_neg (by simp), List.filter_eq_self.2 others, List.filter_append, List.filter_eq_self.2 kept]
      at awaited
    rw [listened_abandon]
    exact awaited
  abandoned r hr quiet := by
    obtain ⟨r', hr', rfl⟩ := List.mem_map.1 hr
    by_cases ht : r'.ticket = t
    · simp [ht]
    · rw [if_neg ht] at quiet ⊢
      exact List.mem_cons_of_mem _ (h.abandoned r' hr' quiet)
  nodup := by
    unfold AckRegistry.abandon
    rw [List.map_map, ticket_comp_quiet]
    exact h.nodup

/-- **The registration is removed**, if a report has not done so. -/
theorem cancel (h : Balanced g notices waiting (t :: leaving) heard late) :
    Balanced (g.cancel t) notices waiting leaving heard (late ++ [t]) where
  once := perm_late.trans h.once
  awaited := by
    -- whoever gives up does not wait any more, so no registration that is listened for goes
    have others : t ∉ waiting := fun ht => List.disjoint_of_nodup_append h.nodup_open ht List.mem_cons_self
    have same : (g.cancel t).listened = g.listened := by
      unfold listened AckRegistry.cancel
      rw [List.filter_filter]
      refine congrArg _ (List.filter_congr (fun r hr => ?_))
      cases listens : r.listening with
      | true =>
        have other : r.ticket ≠ t := fun ht => others (ht ▸ h.mem_waiting hr listens)
        simp [other]
      | false => simp
    rw [same]
    exact h.awaited
  abandoned r hr quiet := by
    obtain ⟨hr, ht⟩ := List.mem_filter.1 hr
    exact (List.mem_cons.1 (h.abandoned r hr quiet)).resolve_left (bne_iff_ne.1 ht)
  nodup := h.nodup.sublist (List.filter_sublist.map _)

/-! ## How many there are -/

theorem length_waiting (h : Balanced g notices waiting leaving heard late) :
    waiting.length = g.listened.length + notices.size := by
  rw [h.awaited.length_eq, List.length_append, SortedMap.keys, List.length_map]
  rfl

/-- **What has been sent is what has been notified, what has run out, and what is still open.** -/
theorem nextTicket_eq (h : Balanced g notices waiting leaving heard late) :
    g.nextTicket = heard.length + notices.size + late.length + g.listened.length + leaving.length := by
  have once := h.once.length_eq
  have waiting := h.length_waiting
  simp only [List.length_range, List.length_append] at once
  omega

/-- When no wait is being given up, someone waits with every registration. -/
theorem listened_of_leaving (h : Balanced g notices waiting [] heard late) :
    g.listened = g.pending.map Registration.ticket := by
  refine congrArg _ (List.filter_eq_self.2 (fun r hr => ?_))
  cases listens : r.listening with
  | true => rfl
  | false => cases h.abandoned r hr listens

end Balanced

end AckRegistry
end GossipNode
