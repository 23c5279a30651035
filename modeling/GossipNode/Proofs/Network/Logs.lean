import Mathlib.Logic.Function.Basic
import GossipNode.Proofs.Store.Runs
/-!
# Logs across a network

The stores of a network of nodes with distinct names.  A node makes records under its own name only, and otherwise its
store changes only through records that some node has sent out of its own.  What has been sent stays sent: it arrives
anywhere, any number of times, late, in any order, or never.

`Agreed` is the invariant: a log of a name is at most what the node of that name has of it, and nothing is held of a
name that no node has.  From it, logs of one origin never fork (`logs_agree`).
-/
namespace GossipNode
namespace LogNetwork

open Store (Fits Sound)

/-- The stores by node, and the records that have been sent. -/
structure State (ι : Type) where
  stores : ι → Store
  sent : List Record

variable {ι : Type} [DecidableEq ι]

/-- **What can happen**: a node makes a record under its name, a node sends a record that it holds, or a record that
has been sent is offered to a node. -/
inductive Step (names : ι → Origin) : State ι → State ι → Prop where
  | append (n : State ι) (i : ι) (build : SequenceId → Record)
      (honoured : ∀ id, (build id).origin = names i ∧ (build id).id = id) :
      Step names n { n with stores := Function.update n.stores i ((n.stores i).appendLocal (names i) build).2 }
  | send (n : State ι) (i : ι) (o : Origin) (r : Record) (held : r ∈ (n.stores i).log o) :
      Step names n { n with sent := r :: n.sent }
  | deliver (n : State ι) (i : ι) (r : Record) (sent : r ∈ n.sent) :
      Step names n { n with stores := Function.update n.stores i ((n.stores i).accept r).2 }

/-- **The states of a run** from empty stores.  The number after a log is a checked sum of 32-bit words: where it would
overflow there is no next state. -/
inductive Reachable (names : ι → Origin) : State ι → Prop where
  | start : Reachable names ⟨fun _ => .empty, []⟩
  | step {n n' : State ι} : Reachable names n → Step names n n' → (∀ i, (n'.stores i).Fits) → Reachable names n'

/-! ## The invariant of the stores -/

def Held (stores : ι → Store) (r : Record) : Prop := ∃ i o, r ∈ (stores i).log o

/-- **The invariant of a network's stores**: every store is sound; only names of nodes have logs; and no node has more
of a name than the node of that name. -/
structure Agreed (names : ι → Origin) (stores : ι → Store) : Prop where
  sound : ∀ i, (stores i).Sound
  named : ∀ i o, (stores i).log o ≠ [] → ∃ k, names k = o
  below : ∀ i k, (stores i).log (names k) <+: (stores k).log (names k)

theorem prefix_concat {α : Type} {l L : List α} {a : α} (h : l <+: L) (ha : L[l.length]? = some a) :
    l ++ [a] <+: L := by
  obtain ⟨t, rfl⟩ := h
  rw [List.getElem?_append_right (Nat.le_refl _), Nat.sub_self] at ha
  cases t with
  | nil => cases ha
  | cons b t =>
    obtain rfl : b = a := by simpa using ha
    exact ⟨t, by simp⟩

/-- Changing one store for a longer one keeps every log a beginning of what it becomes. -/
theorem log_prefix_update (stores : ι → Store) (i : ι) {s : Store} (h : ∀ o, (stores i).log o <+: s.log o) (j : ι)
    (o : Origin) : (stores j).log o <+: (Function.update stores i s j).log o := by
  by_cases hj : j = i
  · subst hj; rw [Function.update_self]; exact h o
  · rw [Function.update_of_ne hj]

omit [DecidableEq ι] in
theorem Held.mono {stores stores' : ι → Store} (h : ∀ i o, (stores i).log o <+: (stores' i).log o) {r : Record}
    (hr : Held stores r) : Held stores' r := by
  obtain ⟨i, o, hr⟩ := hr
  exact ⟨i, o, (h i o).subset hr⟩

namespace Agreed

variable {names : ι → Origin} {stores : ι → Store}

omit [DecidableEq ι] in
theorem start : Agreed names (fun _ => .empty) :=
  ⟨fun _ => .empty, fun _ _ h => absurd rfl h, fun _ _ => List.prefix_rfl⟩

omit [DecidableEq ι] in
/-- **A held record is held by the node that its origin names**, in the place that its number names. -/
theorem owner_holds (h : Agreed names stores) {r : Record} (hr : Held stores r) :
    ∃ k, names k = r.origin ∧ r ∈ (stores k).log r.origin := by
  obtain ⟨i, o, hr⟩ := hr
  obtain rfl := ((h.sound i).numbered o).origin_of_mem hr
  obtain ⟨k, hk⟩ := h.named i _ (List.ne_nil_of_mem hr)
  refine ⟨k, hk, ?_⟩
  have := h.below i k
  rw [hk] at this
  exact this.subset hr

omit [DecidableEq ι] in
/-- **No node takes a held record of its own name as new**: it has that record. -/
theorem not_new_of_own (h : Agreed names stores) (distinct : Function.Injective names) {k : ι}
    (fits : (stores k).Fits) {r : Record} (hr : Held stores r) (hk : r.origin = names k) :
    ((stores k).accept r).1 ≠ .new := by
  intro hn
  obtain ⟨k', hk', hm⟩ := h.owner_holds hr
  obtain rfl : k' = k := distinct (hk'.trans hk)
  have h1 := ((h.sound k').numbered _).id_le hm
  have h2 := (h.sound k').toNat_nextId fits r.origin
  rw [Store.accept_new_iff.1 hn] at h1
  omega

/-- **A record with the next number may go to the end of a log** of a name, if it goes on with what the node of that
name has. -/
theorem push (h : Agreed names stores) (distinct : Function.Injective names) {i k : ι} (fits : (stores i).Fits)
    {r : Record} (hk : names k = r.origin) (hid : r.id = (stores i).nextId r.origin)
    (goesOn : k ≠ i → (stores i).log r.origin ++ [r] <+: (stores k).log r.origin) :
    Agreed names (Function.update stores i ((stores i).push r)) where
  sound j := by
    by_cases hj : j = i
    · subst hj; rw [Function.update_self]; exact (h.sound j).push fits hid
    · rw [Function.update_of_ne hj]; exact h.sound j
  named j o hne := by
    by_cases hj : j = i
    · subst hj
      rw [Function.update_self, Store.log_push] at hne
      split at hne
      · rename_i ho; exact ⟨k, by rw [ho, hk]⟩
      · exact h.named j o hne
    · rw [Function.update_of_ne hj] at hne; exact h.named j o hne
  below j k' := by
    have grown := log_prefix_update stores i (Store.log_prefix_push (stores i) r) k' (names k')
    by_cases hj : j = i
    · subst hj
      rw [Function.update_self, Store.log_push]
      split
      · rename_i ho
        obtain rfl : k' = k := distinct (ho.trans hk.symm)
        by_cases hkj : k' = j
        · subst hkj
          rw [Function.update_self, ho, Store.log_push_self]
        · rw [ho] at grown ⊢
          exact (goesOn hkj).trans grown
      · exact (h.below j k').trans grown
    · rw [Function.update_of_ne hj]
      exact (h.below j k').trans grown

/-- **A node may make a record under its own name.** -/
theorem append (h : Agreed names stores) (distinct : Function.Injective names) {i : ι} (fits : (stores i).Fits)
    {r : Record} (ho : r.origin = names i) (hid : r.id = (stores i).nextId r.origin) :
    Agreed names (Function.update stores i ((stores i).push r)) :=
  h.push distinct fits ho.symm hid (fun hi => absurd rfl hi)

/-- **A node may be offered any record that is held somewhere.**  If it is new to the node, then its origin is another
node, whose log goes on with just this record. -/
theorem accept (h : Agreed names stores) (distinct : Function.Injective names) {i : ι} (fits : (stores i).Fits)
    {r : Record} (hr : Held stores r) : Agreed names (Function.update stores i ((stores i).accept r).2) := by
  rcases (stores i).accept_cases r with ⟨-, he⟩ | ⟨hid, he⟩
  · rw [he, Function.update_eq_self]; exact h
  obtain ⟨k, hk, hm⟩ := h.owner_holds hr
  rw [he]
  refine h.push distinct fits hk hid (fun _ => ?_)
  have below := h.below i k
  have place := ((h.sound k).numbered _).getElem?_of_mem hm
  rw [hk] at below
  rw [hid, (h.sound i).toNat_nextId fits, Nat.add_sub_cancel] at place
  exact prefix_concat below place

omit [DecidableEq ι] in
/-- **Logs of one origin never fork.** -/
theorem prefix_or_prefix (h : Agreed names stores) (o : Origin) (i j : ι) :
    (stores i).log o <+: (stores j).log o ∨ (stores j).log o <+: (stores i).log o := by
  by_cases hi : (stores i).log o = []
  · rw [hi]; exact .inl (List.nil_prefix)
  · obtain ⟨k, rfl⟩ := h.named i o hi
    exact List.prefix_or_prefix_of_prefix (h.below i k) (h.below j k)

end Agreed

/-! ## Runs -/

theorem log_prefix_step {names : ι → Origin} {n n' : State ι} (h : Step names n n') (i : ι) (o : Origin) :
    (n.stores i).log o <+: (n'.stores i).log o := by
  cases h with
  | append j build _ => exact log_prefix_update n.stores j (Store.log_prefix_push _ _) i o
  | send j o' r _ => exact List.prefix_rfl
  | deliver j r _ => exact log_prefix_update n.stores j (Store.log_prefix_accept _ r) i o

/-- **The invariant of a run**: the stores agree, and what has been sent is still held. -/
theorem agreed_of_reachable {names : ι → Origin} (distinct : Function.Injective names) {n : State ι}
    (h : Reachable names n) :
    Agreed names n.stores ∧ (∀ i, (n.stores i).Fits) ∧ ∀ r ∈ n.sent, Held n.stores r := by
  induction h with
  | start =>
    refine ⟨.start, fun _ => Store.fits_empty, fun r hr => ?_⟩
    cases hr
  | @step n n' _ step fits ih =>
    obtain ⟨agreed, room, sent⟩ := ih
    have grown : ∀ r, Held n.stores r → Held n'.stores r := fun r => Held.mono (log_prefix_step step)
    cases step with
    | append i build honoured =>
      obtain ⟨ho, hid⟩ := honoured ((n.stores i).nextId (names i))
      exact ⟨agreed.append distinct (room i) ho (by rw [hid, ho]), fits, fun r hr => grown r (sent r hr)⟩
    | send i o r held =>
      refine ⟨agreed, fits, fun r' hr' => ?_⟩
      rcases List.mem_cons.1 hr' with rfl | hr'
      · exact ⟨i, o, held⟩
      · exact sent r' hr'
    | deliver i r hr =>
      exact ⟨agreed.accept distinct (room i) (sent r hr), fits, fun r' hr' => grown r' (sent r' hr')⟩

/-- **Logs agree.**  In every state of every run: of two logs of one origin, one is a beginning of the other; every log
of a node's name is a beginning of that node's own; and no node takes as new a record of its own name that has been
sent. -/
theorem logs_agree {names : ι → Origin} (distinct : Function.Injective names) {n : State ι} (h : Reachable names n) :
    (∀ o i j, (n.stores i).log o <+: (n.stores j).log o ∨ (n.stores j).log o <+: (n.stores i).log o) ∧
    (∀ i k, (n.stores i).log (names k) <+: (n.stores k).log (names k)) ∧
    (∀ k, ∀ r ∈ n.sent, r.origin = names k → ((n.stores k).accept r).1 ≠ .new) := by
  obtain ⟨agreed, fits, sent⟩ := agreed_of_reachable distinct h
  exact ⟨agreed.prefix_or_prefix, agreed.below, fun k r hr hk => agreed.not_new_of_own distinct (fits k) (sent r hr) hk⟩

/-- Node 0 makes two records; node 1 gets the first one twice and the second one not yet. -/
theorem logs_agree_two_nodes :
    let names : Fin 2 → Origin := fun i => if i = 0 then ⟨"a"⟩ else ⟨"b"⟩
    let r : Record := .rumor ⟨⟨"a"⟩, 1, "x"⟩
    ∃ n : State (Fin 2), Function.Injective names ∧ Reachable names n ∧ r ∈ n.sent ∧
      (n.stores 0).log ⟨"a"⟩ = [r, .rumor ⟨⟨"a"⟩, 2, "x"⟩] ∧ (n.stores 1).log ⟨"a"⟩ = [r] ∧
      (n.stores 1).log (names 0) <+: (n.stores 0).log (names 0) ∧ ((n.stores 0).accept r).1 ≠ .new := by
  intro names r
  have distinct : Function.Injective names := by intro i j; revert i j; decide
  have rumor : ∀ id, (Record.rumor ⟨⟨"a"⟩, id, "x"⟩).origin = names 0 ∧ (Record.rumor ⟨⟨"a"⟩, id, "x"⟩).id = id :=
    fun _ => ⟨rfl, rfl⟩
  have h0 : Reachable names ⟨fun _ => .empty, []⟩ := .start
  have h1 := h0.step (.append _ 0 _ rumor) (by decide +kernel)
  have h2 := h1.step (.send _ 0 ⟨"a"⟩ r (by decide +kernel)) (by decide +kernel)
  have h3 := h2.step (.deliver _ 1 r List.mem_cons_self) (by decide +kernel)
  have h4 := h3.step (.append _ 0 _ rumor) (by decide +kernel)
  have h5 := h4.step (.deliver _ 1 r List.mem_cons_self) (by decide +kernel)
  have agree := logs_agree distinct h5
  exact ⟨_, distinct, h5, List.mem_cons_self, by decide +kernel, by decide +kernel, agree.2.1 1 0,
    agree.2.2 0 r List.mem_cons_self rfl⟩

end LogNetwork
end GossipNode
