import Mathlib.Algebra.BigOperators.Group.Finset.Piecewise
import Mathlib.Algebra.Order.BigOperators.Group.Finset
import GossipNode.Node.Gossip
import GossipNode.Proofs.Network.Logs
import GossipNode.Proofs.Store.Reconciliation
/-!
# Stores converge

Stores of one history meet in pairs.  In an exchange one of them reports what it has seen, and the other answers as a
node does: it pushes a record, or it reports in turn and gets a record pushed (`transfer`).  Nothing is assumed about who
meets whom.

An exchange of two stores that are out of sync moves exactly one record, to a store that takes it as new; so the number
of records held grows with every such exchange, and it is bounded by what all stores together held at the start, once
for each store.  `Spread` is what a schedule keeps: logs grow, and no log outgrows the longest it started with.
-/
namespace GossipNode
namespace Convergence

open Store (Fits Sound Call run)

variable {ι : Type}

/-! ## Exchanges -/

/-- The record that an exchange moves, and who gets it. -/
def transfer (stores : ι → Store) (i j : ι) : Option (ι × Record) :=
  match Node.statusAnswer (stores j) (stores i).statusReport.toVector with
  | .push r => some (i, r)
  | .ask report =>
    match Node.statusAnswer (stores i) report.toVector with
    | .push r => some (j, r)
    | _ => none
  | .nothing => none

/-- The second store finds the first to show just what it shows itself. -/
def InSync (stores : ι → Store) (i j : ι) : Prop := (stores j).reconcile (stores i).status = .inSync

instance (stores : ι → Store) (i j : ι) : Decidable (InSync stores i j) := inferInstanceAs (Decidable (_ = _))

variable [DecidableEq ι]

/-- The stores after the first has reported to the second. -/
def exchange (stores : ι → Store) (e : ι × ι) : ι → Store :=
  match transfer stores e.1 e.2 with
  | some (k, r) => Function.update stores k ((stores k).accept r).2
  | none => stores

/-- How many exchanges of a schedule find the two stores out of sync. -/
def outOfSync (stores : ι → Store) : List (ι × ι) → Nat
  | [] => 0
  | e :: rest => (if InSync stores e.1 e.2 then 0 else 1) + outOfSync (exchange stores e) rest

/-! ## What an answer is -/

omit [DecidableEq ι] in
theorem transfer_of_inSync {stores : ι → Store} {i j : ι} (h : InSync stores i j) : transfer stores i j = none := by
  have hanswer : Node.statusAnswer (stores j) (stores i).statusReport.toVector = .nothing := by
    rw [Store.statusReport, StatusReport.toVector_ofVector, Node.statusAnswer, show (stores j).reconcile _ = _ from h]
  rw [transfer, hanswer]

theorem statusAnswer_of_ahead {s t : Store} (hs : s.Sound) (fs : s.Fits) (ht : t.Sound) (ft : t.Fits) {o : Origin}
    (h : s.reconcile t.status = .selfAhead o) (hlt : t.nextId o < s.nextId o) :
    ∃ r, Node.statusAnswer s t.statusReport.toVector = .push r ∧ r.origin = o ∧ r.id = t.nextId o ∧
      (s.log o)[(t.log o).length]? = some r := by
  obtain ⟨r, hr, horigin, hid, hplace⟩ := Store.exists_missingFor hs fs ht ft h hlt
  refine ⟨r, ?_, horigin, hid, hplace⟩
  rw [Store.statusReport, StatusReport.toVector_ofVector, Node.statusAnswer, h, hr]

/-! ## Stores of one history -/

/-- Sound stores whose logs are beginnings of common ones. -/
structure Common (full : Origin → List Record) (stores : ι → Store) : Prop where
  sound : ∀ i, (stores i).Sound
  fits : ∀ i, (stores i).Fits
  below : ∀ i o, (stores i).log o <+: full o

/-- A record moves from one store to another that takes it next. -/
structure Moves (stores : ι → Store) (giver taker : ι) (r : Record) : Prop where
  id : r.id = (stores taker).nextId r.origin
  place : ((stores giver).log r.origin)[((stores taker).log r.origin).length]? = some r

namespace Common

variable {full : Origin → List Record} {stores : ι → Store}

omit [DecidableEq ι] in
/-- **An exchange out of sync moves a record** from one of the two stores to the other. -/
theorem exists_transfer (h : Common full stores) {i j : ι} (hsync : ¬ InSync stores i j) :
    ∃ giver taker r, (giver = j ∧ taker = i ∨ giver = i ∧ taker = j) ∧ transfer stores i j = some (taker, r) ∧
      Moves stores giver taker r := by
  have pushes {a b : ι} {o : Origin} (hahead : (stores a).reconcile (stores b).status = .selfAhead o)
      (hlt : (stores b).nextId o < (stores a).nextId o) :
      ∃ r, Node.statusAnswer (stores a) (stores b).statusReport.toVector = .push r ∧ Moves stores a b r := by
    obtain ⟨r, hr, rfl, hid, hplace⟩ :=
      statusAnswer_of_ahead (h.sound a) (h.fits a) (h.sound b) (h.fits b) hahead hlt
    exact ⟨r, hr, hid, hplace⟩
  have hpi := (h.sound i).positive (h.fits i)
  have hpj := (h.sound j).positive (h.fits j)
  rcases StatusVector.reconcile_cases hpj hpi with ⟨o, hahead, hlt⟩ | ⟨-, hbehind, o, hlt⟩ | ⟨-, hsame⟩
  · obtain ⟨r, hr, hmoves⟩ := pushes hahead hlt
    exact ⟨j, i, r, .inl ⟨rfl, rfl⟩, by rw [transfer, hr], hmoves⟩
  · have hask : Node.statusAnswer (stores j) (stores i).statusReport.toVector = .ask (stores j).statusReport := by
      rw [Store.statusReport, StatusReport.toVector_ofVector, Node.statusAnswer,
        show (stores j).reconcile _ = _ from hbehind]
    -- the first store is ahead somewhere, so to the second one's report it answers with a push
    rcases StatusVector.reconcile_cases hpi hpj with ⟨o', hahead, hlt'⟩ | ⟨hle, -⟩ | ⟨heq, -⟩
    · obtain ⟨r, hr, hmoves⟩ := pushes hahead hlt'
      exact ⟨i, j, r, .inr ⟨rfl, rfl⟩, by rw [transfer, hask]; simp only [hr], hmoves⟩
    · exact absurd hlt (UInt32.not_lt.2 (hle o))
    · rw [heq o] at hlt
      exact absurd hlt (UInt32.lt_irrefl _)
  · exact absurd hsame hsync

/-- **The stores stay stores of one history** when a record moves. -/
theorem push (h : Common full stores) {giver taker : ι} {r : Record} (hr : Moves stores giver taker r) :
    Common full (Function.update stores taker ((stores taker).push r)) := by
  obtain ⟨hid, hplace⟩ := hr
  have hlen := (List.getElem?_eq_some_iff.1 hplace).1
  refine ⟨fun k => ?_, fun k o => ?_, fun k o => ?_⟩
  · by_cases hk : k = taker
    · subst hk; rw [Function.update_self]; exact (h.sound k).push (h.fits k) hid
    · rw [Function.update_of_ne hk]; exact h.sound k
  · by_cases hk : k = taker
    · subst hk
      rw [Function.update_self, Store.log_push]
      split
      · rename_i ho
        have hroom := h.fits giver r.origin
        rw [ho, List.length_append, List.length_singleton]
        omega
      · exact h.fits k o
    · rw [Function.update_of_ne hk]; exact h.fits k o
  · by_cases hk : k = taker
    · subst hk
      rw [Function.update_self, Store.log_push]
      split
      · rename_i ho
        have hfull : (full r.origin)[((stores k).log r.origin).length]? = some r := by
          obtain ⟨t, ht⟩ := h.below giver r.origin
          rw [← ht, List.getElem?_append_left hlen]
          exact hplace
        rw [ho]
        exact LogNetwork.prefix_concat (h.below k r.origin) hfull
      · exact h.below k o
    · rw [Function.update_of_ne hk]; exact h.below k o

theorem exchange_of_transfer {i j taker : ι} {r : Record} (h : transfer stores i j = some (taker, r))
    (hid : r.id = (stores taker).nextId r.origin) :
    exchange stores (i, j) = Function.update stores taker ((stores taker).push r) := by
  rw [exchange, h]
  simp only [Store.accept_of_eq hid]

end Common

theorem exchange_of_inSync {stores : ι → Store} {i j : ι} (h : InSync stores i j) : exchange stores (i, j) = stores := by
  rw [exchange, transfer_of_inSync h]

/-! ## Schedules -/

/-- What the stores have become since a start: every log has grown, up to the longest log of the start. -/
structure Spread (start now : ι → Store) : Prop where
  grown : ∀ i o, (start i).log o <+: (now i).log o
  bounded : ∀ i o, ∃ k, (now i).log o <+: (start k).log o

variable {full : Origin → List Record} {start stores : ι → Store}

omit [DecidableEq ι] in
theorem Spread.refl (start : ι → Store) : Spread start start := ⟨fun _ _ => List.prefix_rfl, fun i _ => ⟨i, List.prefix_rfl⟩⟩

theorem Spread.push (h : Spread start stores) (common : Common full stores) {giver taker : ι} {r : Record}
    (hr : Moves stores giver taker r) : Spread start (Function.update stores taker ((stores taker).push r)) := by
  refine ⟨fun k o => (h.grown k o).trans ?_, fun k o => ?_⟩
  · exact LogNetwork.log_prefix_update stores taker (Store.log_prefix_push _ r) k o
  · by_cases hk : k = taker
    · subst hk
      rw [Function.update_self, Store.log_push]
      split
      · -- the new log is still within the giver's, and that is within one of the start
        rename_i ho
        have hlen := (List.getElem?_eq_some_iff.1 hr.place).1
        have hcompare := List.prefix_of_prefix_length_le (common.below k r.origin) (common.below giver r.origin)
          (Nat.le_of_lt hlen)
        obtain ⟨k', hk'⟩ := h.bounded giver r.origin
        rw [ho]
        exact ⟨k', (LogNetwork.prefix_concat hcompare hr.place).trans hk'⟩
      · exact h.bounded k o
    · rw [Function.update_of_ne hk]; exact h.bounded k o

/-- **One exchange** keeps the history and its spread. -/
theorem Common.exchange (common : Common full stores) (h : Spread start stores) (e : ι × ι) :
    Common full (exchange stores e) ∧ Spread start (exchange stores e) := by
  by_cases hsync : InSync stores e.1 e.2
  · rw [exchange_of_inSync hsync]
    exact ⟨common, h⟩
  · obtain ⟨giver, taker, r, -, htransfer, hmoves⟩ := common.exists_transfer hsync
    rw [Common.exchange_of_transfer htransfer hmoves.id]
    exact ⟨common.push hmoves, h.push common hmoves⟩

theorem Common.exchanges (common : Common full stores) (h : Spread start stores) (schedule : List (ι × ι)) :
    Common full (schedule.foldl Convergence.exchange stores) ∧
      Spread start (schedule.foldl Convergence.exchange stores) := by
  induction schedule generalizing stores with
  | nil => exact ⟨common, h⟩
  | cons e rest ih =>
    obtain ⟨common', h'⟩ := common.exchange h e
    exact ih common' h'

/-! ## Counting -/

variable [Fintype ι]

/-- The records that some store holds. -/
def union (stores : ι → Store) : Finset Record := Finset.univ.biUnion (fun i => (stores i).records.toFinset)

omit [DecidableEq ι] in
theorem Spread.recordCount_le (h : Spread start stores) (common : Common full stores) (i : ι) :
    (stores i).recordCount ≤ (union start).card := by
  rw [Store.recordCount_eq_card (common.sound i)]
  refine Finset.card_le_card (fun r hr => ?_)
  rw [List.mem_toFinset, Store.mem_records] at hr
  obtain ⟨o, hr⟩ := hr
  obtain ⟨k, hk⟩ := h.bounded i o
  refine Finset.mem_biUnion.2 ⟨k, Finset.mem_univ k, ?_⟩
  rw [List.mem_toFinset, Store.mem_records]
  exact ⟨o, hk.subset hr⟩

theorem Common.sum_recordCount_push (common : Common full stores) {giver taker : ι} {r : Record}
    (hr : Moves stores giver taker r) :
    ∑ i, (Function.update stores taker ((stores taker).push r) i).recordCount = ∑ i, (stores i).recordCount + 1 := by
  have hupdate : (fun i => (Function.update stores taker ((stores taker).push r) i).recordCount) =
      Function.update (fun i => (stores i).recordCount) taker ((stores taker).recordCount + 1) := by
    funext i
    by_cases hi : i = taker
    · subst hi
      rw [Function.update_self, Function.update_self, Store.recordCount_push (common.sound i) (common.fits i) hr.id]
    · rw [Function.update_of_ne hi, Function.update_of_ne hi]
  rw [hupdate, Finset.sum_update_of_mem (Finset.mem_univ taker), ← Finset.add_sum_erase _ _ (Finset.mem_univ taker),
    Finset.sdiff_singleton_eq_erase]
  omega

/-- **Every exchange out of sync makes one record more**, over all stores. -/
theorem Common.outOfSync_add_sum (common : Common full stores) (schedule : List (ι × ι)) :
    outOfSync stores schedule + ∑ i, (stores i).recordCount =
      ∑ i, (schedule.foldl Convergence.exchange stores i).recordCount := by
  induction schedule generalizing stores with
  | nil => simp [outOfSync]
  | cons e rest ih =>
    have hrest := ih (common.exchange (Spread.refl stores) e).1
    rw [List.foldl_cons, ← hrest, outOfSync]
    by_cases hsync : InSync stores e.1 e.2
    · rw [if_pos hsync, exchange_of_inSync hsync]
      omega
    · obtain ⟨giver, taker, r, -, htransfer, hmoves⟩ := common.exists_transfer hsync
      rw [if_neg hsync, Common.exchange_of_transfer htransfer hmoves.id, common.sum_recordCount_push hmoves]
      omega

/-! ## Convergence -/

omit [DecidableEq ι] [Fintype ι] in
theorem Common.eq_of_inSync (common : Common full stores) {i j : ι} (h : InSync stores i j) : stores i = stores j := by
  have hpi := (common.sound i).positive (common.fits i)
  have hpj := (common.sound j).positive (common.fits j)
  have hnext : ∀ o, (stores j).nextId o = (stores i).nextId o := by
    rcases StatusVector.reconcile_cases hpj hpi with ⟨o, hahead, -⟩ | ⟨-, hbehind, -⟩ | ⟨heq, -⟩
    · exact absurd (hahead.symm.trans h) (by intro hc; cases hc)
    · exact absurd (hbehind.symm.trans h) (by intro hc; cases hc)
    · exact heq
  refine (common.sound i).eq_of_log_eq (common.sound j) (fun o => ?_)
  have hlen := Store.length_eq_of_nextId_eq (common.sound j) (common.fits j) (common.sound i) (common.fits i) (hnext o)
  exact (List.prefix_of_prefix_length_le (common.below i o) (common.below j o) (Nat.le_of_eq hlen.symm)).eq_of_length
    hlen.symm

/-- **Stores of one history converge**, in whatever pairs they meet.  The stores are ones that calls lead to, and their
logs are beginnings of common logs.  At every point of every schedule: the logs still are; an exchange in sync changes
nothing; an exchange out of sync moves one record to one of the two stores, which takes it as new, and changes nothing
else.  The exchanges out of sync are at most as many as records are missing, and once every pair is in sync, all stores
are the same and hold, of each origin, the longest log that one of them started with. -/
theorem exchanges_converge (reached : ∀ i, ∃ cs, (∀ c ∈ cs, Call.Honoured c) ∧ (run cs).Fits ∧ start i = run cs)
    (common : ∀ i o, (start i).log o <+: full o) (schedule : List (ι × ι)) :
    let now := schedule.foldl exchange start
    (∀ i o, (now i).log o <+: full o) ∧
    (∀ i j, InSync now i j → exchange now (i, j) = now) ∧
    (∀ i j, ¬ InSync now i j → ∃ taker r, (taker = i ∨ taker = j) ∧ transfer now i j = some (taker, r) ∧
      (now taker).accept r = (.new, (now taker).push r) ∧
      exchange now (i, j) = Function.update now taker ((now taker).push r)) ∧
    outOfSync start schedule + ∑ i, (start i).recordCount ≤ Fintype.card ι * (union start).card ∧
    ((∀ i j, InSync now i j) → (∀ i j, now i = now j) ∧
      ∀ i o, (∃ k, (now i).log o = (start k).log o) ∧ ∀ k, (start k).log o <+: (now i).log o) := by
  intro now
  have first : Common full start := by
    refine ⟨fun i => ?_, fun i => ?_, common⟩
    · obtain ⟨cs, honoured, fits, hcs⟩ := reached i
      rw [hcs]
      exact Sound.empty.calls honoured fits
    · obtain ⟨cs, honoured, fits, hcs⟩ := reached i
      rw [hcs]
      exact fits
  obtain ⟨held, spread⟩ := first.exchanges (Spread.refl start) schedule
  refine ⟨held.below, fun i j => exchange_of_inSync, fun i j hsync => ?_, ?_, fun hsync => ?_⟩
  · obtain ⟨giver, taker, r, hwho, htransfer, hmoves⟩ := held.exists_transfer hsync
    refine ⟨taker, r, ?_, htransfer, Store.accept_of_eq hmoves.id, Common.exchange_of_transfer htransfer hmoves.id⟩
    rcases hwho with ⟨-, rfl⟩ | ⟨-, rfl⟩
    · exact .inl rfl
    · exact .inr rfl
  · rw [first.outOfSync_add_sum schedule, ← Nat.nsmul_eq_mul]
    exact Finset.sum_le_card_nsmul _ _ _ (fun i _ => spread.recordCount_le held i)
  · have same : ∀ i j, now i = now j := fun i j => held.eq_of_inSync (hsync i j)
    refine ⟨same, fun i o => ?_⟩
    have above : ∀ k, (start k).log o <+: (now i).log o := by
      intro k
      rw [same i k]
      exact spread.grown k o
    obtain ⟨k, hk⟩ := spread.bounded i o
    exact ⟨⟨k, hk.eq_of_length (Nat.le_antisymm hk.length_le (above k).length_le)⟩, above⟩

/-- Each of two stores is ahead of the other; both exchanges are out of sync, and then the stores are the same. -/
theorem exchanges_converge_two_stores :
    let rumor (o : Origin) : SequenceId → Record := fun id => .rumor ⟨o, id, "x"⟩
    let start : Fin 2 → Store := fun i =>
      if i = 0 then run [.append ⟨"a"⟩ (rumor ⟨"a"⟩)] else run [.append ⟨"b"⟩ (rumor ⟨"b"⟩)]
    let full : Origin → List Record := fun o => if o = ⟨"a"⟩ ∨ o = ⟨"b"⟩ then [rumor o 1] else []
    let now := [(0, 1), (0, 1)].foldl exchange start
    (∀ i, ∃ cs, (∀ c ∈ cs, Call.Honoured c) ∧ (run cs).Fits ∧ start i = run cs) ∧
      (∀ i o, (start i).log o <+: full o) ∧ outOfSync start [(0, 1), (0, 1)] = 2 ∧
      outOfSync start [(0, 1), (0, 1)] + ∑ i, (start i).recordCount ≤ Fintype.card (Fin 2) * (union start).card ∧
      (∀ i j, InSync now i j) ∧ ∀ i j, now i = now j := by
  intro rumor start full now
  have honoured : ∀ o : Origin, ∀ c ∈ [Call.append o (rumor o)], c.Honoured := by
    intro o c hc
    rw [List.mem_singleton.1 hc]
    exact fun id => ⟨rfl, rfl⟩
  have hlog : ∀ o o' : Origin, (run [.append o (rumor o)]).log o' = if o' = o then [rumor o 1] else [] :=
    fun _ _ => Store.log_push _ _ _
  have fits : ∀ o : Origin, (run [.append o (rumor o)]).Fits := by
    intro o o'
    rw [hlog]
    split
    · exact show 1 + 1 < UInt32.size by decide
    · exact show 0 + 1 < UInt32.size by decide
  have below : ∀ o o' : Origin, o = ⟨"a"⟩ ∨ o = ⟨"b"⟩ → (run [.append o (rumor o)]).log o' <+: full o' := by
    intro o o' ho
    rw [hlog]
    split
    · rename_i h
      rw [h, show full o = [rumor o 1] from if_pos ho]
    · exact List.nil_prefix
  have reached : ∀ i, ∃ cs, (∀ c ∈ cs, Call.Honoured c) ∧ (run cs).Fits ∧ start i = run cs := by
    intro i
    by_cases hi : i = 0
    · exact ⟨_, honoured ⟨"a"⟩, fits _, if_pos hi⟩
    · exact ⟨_, honoured ⟨"b"⟩, fits _, if_neg hi⟩
  have common : ∀ i o, (start i).log o <+: full o := by
    intro i o
    by_cases hi : i = 0
    · rw [show start i = _ from if_pos hi]; exact below _ o (.inl rfl)
    · rw [show start i = _ from if_neg hi]; exact below _ o (.inr rfl)
  have synced : ∀ i j, InSync now i j := by decide +kernel
  have converged := exchanges_converge reached common [(0, 1), (0, 1)]
  exact ⟨reached, common, by decide +kernel, converged.2.2.2.1, synced, (converged.2.2.2.2 synced).1⟩

end Convergence
end GossipNode
