import Mathlib.Algebra.Ring.Parity
import GossipNode.Proofs.Consensus.Closing
import GossipNode.Proofs.Consensus.Witnesses
/-!
# When two majorities overlap

A majority is half of the peers, rounded up.  Of an odd number of peers that is more than half, so two majorities have a
peer in common; of an even number it is just half, and the peers can be parted into two majorities.

Both directions are about what is reported.  Whatever is done to a collector or a tracker, the witnesses that it gives out
are distinct and a majority (`Majority`), and every set that is just a majority is given out in some run.
-/
namespace GossipNode

/-- **A majority from a set**: enough distinct members. -/
structure Majority (threshold : Nat) (peers : Finset Origin) (ws : List Origin) : Prop where
  nodup : ws.Nodup
  enough : threshold ≤ ws.length
  sub : ∀ o ∈ ws, o ∈ peers

namespace Majority

variable {threshold : Nat} {peers : Finset Origin} {ws ws₁ ws₂ : List Origin}

theorem of_quorum {own : Origin} (h : AckCollector.Quorum own threshold (fun o => o ∈ peers) ws) :
    Majority threshold peers ws := ⟨h.nodup, h.enough, h.all⟩

/-- **Majorities that are more than half overlap.** -/
theorem overlap (h₁ : Majority threshold peers ws₁) (h₂ : Majority threshold peers ws₂) (half : peers.card < 2 * threshold) :
    ∃ o ∈ ws₁, o ∈ ws₂ := by
  have sub : ∀ {ws}, Majority threshold peers ws → ws.toFinset ⊆ peers := fun h o ho => h.sub o (List.mem_toFinset.1 ho)
  have many : peers.card < ws₁.toFinset.card + ws₂.toFinset.card := by
    have enough₁ := h₁.enough
    have enough₂ := h₂.enough
    rw [List.toFinset_card_of_nodup h₁.nodup, List.toFinset_card_of_nodup h₂.nodup]
    omega
  obtain ⟨o, ho⟩ := Finset.inter_nonempty_of_card_lt_card_add_card (sub h₁) (sub h₂) many
  obtain ⟨ho₁, ho₂⟩ := Finset.mem_inter.1 ho
  exact ⟨o, List.mem_toFinset.1 ho₁, List.mem_toFinset.1 ho₂⟩

end Majority

/-! ## Collectors -/

namespace AckCollector

/-- Who acknowledges by a call.  A start acknowledges in the own name. -/
def Call.acker? (own : Origin) : Call → Option Origin
  | start _ => some own
  | ack _ o => some o
  | abandon _ => none

/-- **Witnesses that a collector can report**, if only these peers acknowledge. -/
def CanReport (own : Origin) (threshold : Nat) (peers : Finset Origin) (ws : List Origin) : Prop :=
  ∃ calls : List Call, (∀ x ∈ calls, ∀ o, x.acker? own = some o → o ∈ peers) ∧
    ∃ x, (x, .progress (.majority ws)) ∈ (new own threshold).log calls

variable {own : Origin} {threshold : Nat} {peers peers' : Finset Origin} {ws : List Origin} {c : AckCollector}

theorem CanReport.mono (h : CanReport own threshold peers ws) (sub : peers ⊆ peers') : CanReport own threshold peers' ws := by
  obtain ⟨calls, allowed, reported⟩ := h
  exact ⟨calls, fun x hx o ho => sub (allowed x hx o ho), reported⟩

/-- One call by one of the peers. -/
theorem Witnessed.call (h : c.Witnessed (fun _ o => o ∈ peers)) {x : Call} (hx : ∀ o, x.acker? c.own = some o → o ∈ peers) :
    (c.call x).2.Witnessed (fun _ o => o ∈ peers) ∧
    ∀ ws, (c.call x).1 = .progress (.majority ws) → Majority c.threshold peers ws := by
  cases x with
  | start id =>
    unfold AckCollector.call
    dsimp only
    cases hs : c.start id with
    | ok answer =>
      obtain ⟨kept, -, -, quorum⟩ := h.start (hx _ rfl) hs
      exact ⟨kept, fun ws hws => .of_quorum (quorum ws (Answer.progress.inj hws))⟩
    | error fault => exact ⟨h, nofun⟩
  | ack id o =>
    obtain ⟨kept, -, -, quorum⟩ : (c.recordAck id o).2.Witnessed (fun _ o => o ∈ peers) ∧ _ := h.recordAck (hx o rfl)
    exact ⟨kept, fun ws hws => .of_quorum (quorum ws (Answer.progress.inj hws))⟩
  | abandon id => exact ⟨h.erase id, nofun⟩

theorem Witnessed.log (h : c.Witnessed (fun _ o => o ∈ peers)) {calls : List Call}
    (allowed : ∀ x ∈ calls, ∀ o, x.acker? c.own = some o → o ∈ peers) {x : Call}
    (reported : (x, .progress (.majority ws)) ∈ c.log calls) : Majority c.threshold peers ws := by
  induction calls generalizing c with
  | nil => cases reported
  | cons y calls ih =>
    obtain ⟨kept, majority⟩ := h.call (allowed y List.mem_cons_self)
    rcases List.mem_cons.1 reported with now | later
    · exact majority ws (Prod.mk.inj now).2.symm
    · obtain ⟨own, threshold⟩ := c.fixed_call y
      rw [← threshold]
      refine ih kept (fun x hx => ?_) later
      rw [own]
      exact allowed x (List.mem_cons_of_mem _ hx)

/-- **What a collector reports is a majority.** -/
theorem CanReport.majority (h : CanReport own threshold peers ws) : Majority threshold peers ws := by
  obtain ⟨calls, allowed, x, reported⟩ := h
  have start : (new own threshold).Witnessed (fun _ o => o ∈ peers) := fun _ _ h => by cases h
  exact start.log allowed reported

/-- When all the peers are witnesses, and just enough, the answer reports a majority. -/
theorem CanReport.of_reports {calls : List Call} {x : Call} {p : AckProgress} (card : peers.card = threshold)
    (allowed : ∀ y ∈ calls ++ [x], ∀ o, y.acker? own = some o → o ∈ peers)
    (answer : ((run own threshold calls).call x).1 = .progress p) (reports : Reports own threshold peers p) :
    ∃ ws, CanReport own threshold peers ws := by
  cases reports with
  | pending few => exact absurd few (Nat.not_lt.2 (Nat.le_of_eq card.symm))
  | @majority ws =>
    refine ⟨ws, calls ++ [x], allowed, x, ?_⟩
    rw [log_concat]
    exact List.mem_append_right _ (List.mem_singleton.2 (congrArg (Prod.mk x) answer.symm))

theorem witnesses_acks (own : Origin) (id : SequenceId) (l : List Origin) :
    witnesses own id (l.map (.ack id)) = insert own l.toFinset := by
  ext o
  simp [mem_witnesses]

theorem acker_of_start_acks {l : List Origin} {id : SequenceId} {y : Call} {o : Origin}
    (hy : y ∈ Call.start id :: l.map (.ack id)) (ho : y.acker? own = some o) : o ∈ insert own l.toFinset := by
  rw [Finset.mem_insert, List.mem_toFinset]
  rcases List.mem_cons.1 hy with rfl | hy
  · exact .inl (Option.some.inj ho).symm
  · obtain ⟨w, hw, rfl⟩ := List.mem_map.1 hy
    obtain rfl : w = o := Option.some.inj ho
    exact .inr hw

/-- The last of just enough peers acknowledges: before it, the witnesses are too few. -/
theorem exists_canReport_of_last {init : List Origin} {o : Origin} (new : o ∉ insert own init.toFinset)
    (card : (insert own (init ++ [o]).toFinset).card = threshold) :
    ∃ ws, CanReport own threshold (insert own (init ++ [o]).toFinset) ws := by
  have grown : insert own init.toFinset ⊂ insert own (init ++ [o]).toFinset := by
    refine Finset.ssubset_iff_exists_subset_erase.2 ⟨o, by simp, fun o' ho' => ?_⟩
    refine Finset.mem_erase.2 ⟨fun same => new (same ▸ ho'), ?_⟩
    simp only [Finset.mem_insert, List.mem_toFinset, List.mem_append] at ho' ⊢
    exact ho'.imp_right .inl
  have few : (witnesses own 1 (init.map (.ack 1))).card < threshold := by
    rw [witnesses_acks, ← card]
    exact Finset.card_lt_card grown
  have openSince : OpenSince own threshold 1 (.start 1 :: init.map (.ack 1)) [] (init.map (.ack 1)) :=
    ⟨rfl, rfl, by simp, few⟩
  obtain ⟨p, answer, reports⟩ := (openSince.ack_weighed o).reports
  rw [← List.map_singleton, ← List.map_append, witnesses_acks] at reports
  have calls : (Call.start 1 :: init.map (.ack 1)) ++ [.ack 1 o] = .start 1 :: (init ++ [o]).map (.ack 1) := by simp
  exact CanReport.of_reports card (fun y hy o' => acker_of_start_acks (calls ▸ hy)) answer reports

/-- **Just enough peers can be reported**, if the own name is one of them: start, and let the others acknowledge. -/
theorem exists_canReport (own_mem : own ∈ peers) (card : peers.card = threshold) : ∃ ws, CanReport own threshold peers ws := by
  have pos : 0 < threshold := card ▸ Finset.card_pos.2 ⟨own, own_mem⟩
  obtain ⟨l, hl, nodup⟩ : ∃ l : List Origin, l.toFinset = peers.erase own ∧ l.Nodup :=
    ⟨_, Finset.toList_toFinset _, Finset.nodup_toList _⟩
  have whole : peers = insert own l.toFinset := by rw [hl, Finset.insert_erase own_mem]
  subst whole
  rcases List.eq_nil_or_concat' l with rfl | ⟨init, o, rfl⟩
  · have fresh : (run own threshold []).isCollecting 1 = false := rfl
    obtain ⟨p, answer, reports⟩ := (start_weighed pos fresh).reports
    exact CanReport.of_reports card (fun y hy o => acker_of_start_acks hy) answer reports
  · refine exists_canReport_of_last (fun ho => ?_) card
    have last : o ∈ (insert own (init ++ [o]).toFinset).erase own := hl ▸ by simp
    rcases Finset.mem_insert.1 ho with same | early
    · exact Finset.ne_of_mem_erase last same
    · exact (List.nodup_append.1 nodup).2.2 o (List.mem_toFinset.1 early) o (List.mem_singleton_self o) rfl

end AckCollector

/-! ## Trackers -/

namespace RoundTracker

/-- **Witnesses that a tracker can give out** with a closed round, if only these peers confirm. -/
def CanReport (threshold : Nat) (peers : Finset Origin) (ws : List Origin) : Prop :=
  ∃ es : List (Origin × UInt32), (∀ e ∈ es, e.1 ∈ peers) ∧ ∃ c ∈ (new threshold).closings es, c.witnesses = ws

/-- Only these peers have confirmed rounds that are open. -/
def Fed (t : RoundTracker) (peers : Finset Origin) : Prop := ∀ round, ∀ o ∈ (t.witnesses round).toList, o ∈ peers

variable {threshold : Nat} {peers peers' : Finset Origin} {ws : List Origin} {t : RoundTracker}

theorem CanReport.mono (h : CanReport threshold peers ws) (sub : peers ⊆ peers') : CanReport threshold peers' ws := by
  obtain ⟨es, allowed, closed⟩ := h
  exact ⟨es, fun e he => sub (allowed e he), closed⟩

theorem Fed.closeRounds (h : t.Fed peers) (fuel : Nat) :
    (RoundTracker.closeRounds fuel t).2.Fed peers ∧ (RoundTracker.closeRounds fuel t).2.threshold = t.threshold ∧
    ∀ c ∈ (RoundTracker.closeRounds fuel t).1, Majority t.threshold peers c.witnesses := by
  induction fuel generalizing t with
  | zero => exact ⟨h, rfl, List.forall_mem_nil _⟩
  | succ fuel ih =>
    unfold RoundTracker.closeRounds
    split
    · rename_i close
      rw [Bool.and_eq_true, decide_eq_true_eq] at close
      have next : ({ t with confirmed := t.confirmed.erase t.current, current := t.current + 1 } : RoundTracker).Fed peers := by
        intro round o ho
        by_cases same : round = t.current
        · rw [same] at ho
          unfold RoundTracker.witnesses at ho
          rw [SortedMap.get?_erase_eq_ite, if_pos rfl] at ho
          cases ho
        · rw [witnesses_erase_of_ne same] at ho
          exact h round o ho
      obtain ⟨fed, threshold, majority⟩ := ih next
      refine ⟨fed, threshold, fun c hc => ?_⟩
      rcases List.mem_cons.1 hc with rfl | hc
      · refine ⟨SortedSet.nodup_toList _, ?_, h t.current⟩
        rw [SortedSet.length_toList]
        exact close.2
      · exact majority c hc
    · exact ⟨h, rfl, List.forall_mem_nil _⟩

theorem Fed.recordConfirmation (h : t.Fed peers) {o : Origin} (ho : o ∈ peers) (round : UInt32) :
    (t.recordConfirmation o round).2.Fed peers ∧ (t.recordConfirmation o round).2.threshold = t.threshold ∧
    ∀ c ∈ (t.recordConfirmation o round).1, Majority t.threshold peers c.witnesses := by
  unfold RoundTracker.recordConfirmation
  split
  · exact ⟨h, rfl, List.forall_mem_nil _⟩
  · refine Fed.closeRounds (t := { t with confirmed := _ }) (fun r o' ho' => ?_) _
    rw [witnesses_insert] at ho'
    split at ho'
    · rcases SortedSet.mem_toList_add.1 ho' with rfl | ho'
      · exact ho
      · exact h round o' ho'
    · exact h r o' ho'

theorem Fed.closings (h : t.Fed peers) {es : List (Origin × UInt32)} (allowed : ∀ e ∈ es, e.1 ∈ peers) :
    ∀ c ∈ t.closings es, Majority t.threshold peers c.witnesses := by
  induction es generalizing t with
  | nil => exact List.forall_mem_nil _
  | cons e es ih =>
    obtain ⟨fed, threshold, majority⟩ := h.recordConfirmation (allowed e List.mem_cons_self) e.2
    intro c hc
    rcases List.mem_append.1 hc with hc | hc
    · exact majority c hc
    · rw [← threshold]
      exact ih fed (fun e he => allowed e (List.mem_cons_of_mem _ he)) c hc

/-- **What a tracker gives out is a majority.** -/
theorem CanReport.majority (h : CanReport threshold peers ws) : Majority threshold peers ws := by
  obtain ⟨es, allowed, c, hc, rfl⟩ := h
  have start : (new threshold).Fed peers := fun _ _ h => by cases h
  exact start.closings allowed c hc

/-- **Just enough peers can close a round.** -/
theorem exists_canReport (pos : 0 < threshold) (card : peers.card = threshold) : ∃ ws, CanReport threshold peers ws := by
  have confirmed : ∀ o round, (o, round) ∈ peers.toList.map (fun o => (o, (0 : UInt32))) ↔ o ∈ peers ∧ round = 0 := by
    intro o round
    simp [eq_comm]
  generalize peers.toList.map (fun o => (o, (0 : UInt32))) = es at confirmed
  have lacking : Lacking threshold es := by
    refine ⟨1, ?_⟩
    have none : confirmers es 1 = ∅ := by
      ext o
      rw [mem_confirmers, confirmed]
      simp
    rw [none]
    exact pos
  have first : confirmers es 0 = peers := by
    ext o
    rw [mem_confirmers, confirmed]
    simp
  -- round 0 has a majority, so it is not the current one, and has closed
  have current : ((new threshold).recordAll es).current ≠ 0 := by
    intro zero
    have few : (confirmers es ((new threshold).recordAll es).current).card < threshold := (isLeast_current pos lacking).1
    rw [zero, first, card] at few
    exact absurd few (Nat.lt_irrefl _)
  obtain ⟨c, hc⟩ : ∃ c, c ∈ (new threshold).closings es := by
    refine List.exists_mem_of_length_pos ?_
    have length := congrArg List.length (recorded_of_lacking pos lacking).rounds
    rw [List.length_map, List.length_range] at length
    rw [length]
    exact Nat.pos_of_ne_zero (fun h => current (UInt32.toNat_inj.1 h))
  exact ⟨c.witnesses, es, fun e he => ((confirmed e.1 e.2).1 he).1, c, hc, rfl⟩

end RoundTracker

/-! ## Odd and even -/

/-- An even number of peers can be parted into two majorities. -/
theorem exists_parts {peers : Finset Origin} {n : Nat} (size : peers.card = n) (pos : 1 ≤ n) (even : Even n) :
    ∃ a b : Finset Origin, a ⊆ peers ∧ b ⊆ peers ∧ Disjoint a b ∧ a.card = majority n ∧ b.card = majority n := by
  obtain ⟨m, rfl⟩ := even
  have half : majority (m + m) = m := by
    unfold majority
    omega
  obtain ⟨a, sub, card⟩ := Finset.exists_subset_card_eq (show m ≤ peers.card by omega)
  refine ⟨a, peers \ a, sub, Finset.sdiff_subset, Finset.disjoint_sdiff, by rw [half, card], ?_⟩
  rw [Finset.card_sdiff_of_subset sub, half]
  omega

theorem Majority.disjoint {a b : Finset Origin} {k : Nat} {ws₁ ws₂ : List Origin} (h₁ : Majority k a ws₁)
    (h₂ : Majority k b ws₂) (apart : Disjoint a b) : ws₁.Disjoint ws₂ := fun o ho₁ ho₂ =>
  Finset.disjoint_left.1 apart (h₁.sub o ho₁) (h₂.sub o ho₂)

/-- **Two majorities of an odd number of peers overlap.** -/
theorem Majority.overlap_of_odd {peers : Finset Origin} {n : Nat} {ws₁ ws₂ : List Origin} (size : peers.card = n) (odd : Odd n)
    (h₁ : Majority (majority n) peers ws₁) (h₂ : Majority (majority n) peers ws₂) : ∃ o ∈ ws₁, o ∈ ws₂ := by
  obtain ⟨m, rfl⟩ := odd
  refine h₁.overlap h₂ ?_
  rw [size]
  unfold majority
  omega

/-- Two peers of an even number, each of them with a majority of its own. -/
theorem AckCollector.exists_disjoint {peers : Finset Origin} {n : Nat} (size : peers.card = n) (pos : 1 ≤ n) (even : Even n) :
    ∃ own₁ own₂ ws₁ ws₂, own₁ ≠ own₂ ∧ CanReport own₁ (majority n) peers ws₁ ∧ CanReport own₂ (majority n) peers ws₂ ∧
      ws₁.Disjoint ws₂ := by
  obtain ⟨a, b, suba, subb, apart, carda, cardb⟩ := exists_parts size pos even
  obtain ⟨own₁, h₁⟩ := Finset.card_pos.1 (carda ▸ majority_pos n)
  obtain ⟨own₂, h₂⟩ := Finset.card_pos.1 (cardb ▸ majority_pos n)
  obtain ⟨ws₁, report₁⟩ := exists_canReport h₁ carda
  obtain ⟨ws₂, report₂⟩ := exists_canReport h₂ cardb
  refine ⟨own₁, own₂, ws₁, ws₂, ?_, report₁.mono suba, report₂.mono subb, report₁.majority.disjoint report₂.majority apart⟩
  rintro rfl
  exact Finset.disjoint_left.1 apart h₁ h₂

theorem RoundTracker.exists_disjoint {peers : Finset Origin} {n : Nat} (size : peers.card = n) (pos : 1 ≤ n) (even : Even n) :
    ∃ ws₁ ws₂, CanReport (majority n) peers ws₁ ∧ CanReport (majority n) peers ws₂ ∧ ws₁.Disjoint ws₂ := by
  obtain ⟨a, b, suba, subb, apart, carda, cardb⟩ := exists_parts size pos even
  obtain ⟨ws₁, report₁⟩ := exists_canReport (majority_pos n) carda
  obtain ⟨ws₂, report₂⟩ := exists_canReport (majority_pos n) cardb
  exact ⟨ws₁, ws₂, report₁.mono suba, report₂.mono subb, report₁.majority.disjoint report₂.majority apart⟩

/-- **Majorities are sure to overlap in networks of odd size, and only there.**  Of an odd number of peers, any two lists of
witnesses have a peer in common: lists that collectors report, in whatever names, and lists that trackers give out.  Of an
even number, two collectors with different own names can report lists without a common peer, and so can two trackers. -/
theorem majorities_overlap_iff_odd (n : UInt64) (low : 1 ≤ n.toNat) (high : n.toNat ≤ 2 ^ 64 - 2) (peers : Finset Origin)
    (size : peers.card = n.toNat) :
    let k := majority n.toNat
    threshold? n = .ok k ∧
    (Odd n.toNat ↔ ∀ own₁ own₂ ws₁ ws₂, AckCollector.CanReport own₁ k peers ws₁ → AckCollector.CanReport own₂ k peers ws₂ →
      ∃ o ∈ ws₁, o ∈ ws₂) ∧
    (Odd n.toNat ↔ ∀ ws₁ ws₂, RoundTracker.CanReport k peers ws₁ → RoundTracker.CanReport k peers ws₂ →
      ∃ o ∈ ws₁, o ∈ ws₂) ∧
    (Even n.toNat → ∃ own₁ own₂ ws₁ ws₂, own₁ ≠ own₂ ∧ AckCollector.CanReport own₁ k peers ws₁ ∧
      AckCollector.CanReport own₂ k peers ws₂ ∧ ws₁.Disjoint ws₂) ∧
    (Even n.toNat → ∃ ws₁ ws₂, RoundTracker.CanReport k peers ws₁ ∧ RoundTracker.CanReport k peers ws₂ ∧
      ws₁.Disjoint ws₂) := by
  intro k
  have collectors := AckCollector.exists_disjoint size low
  have trackers := RoundTracker.exists_disjoint size low
  have room : n.toNat + 1 < UInt64.size := Nat.lt_of_le_of_lt (Nat.succ_le_succ high) (by decide)
  refine ⟨threshold?_eq_ok low room, ⟨fun odd own₁ own₂ ws₁ ws₂ h₁ h₂ => ?_, fun overlap => ?_⟩,
    ⟨fun odd ws₁ ws₂ h₁ h₂ => ?_, fun overlap => ?_⟩, collectors, trackers⟩
  · exact h₁.majority.overlap_of_odd size odd h₂.majority
  · by_contra even
    obtain ⟨own₁, own₂, ws₁, ws₂, -, h₁, h₂, apart⟩ := collectors (Nat.not_odd_iff_even.1 even)
    obtain ⟨o, ho₁, ho₂⟩ := overlap own₁ own₂ ws₁ ws₂ h₁ h₂
    exact apart ho₁ ho₂
  · exact h₁.majority.overlap_of_odd size odd h₂.majority
  · by_contra even
    obtain ⟨ws₁, ws₂, h₁, h₂, apart⟩ := trackers (Nat.not_odd_iff_even.1 even)
    obtain ⟨o, ho₁, ho₂⟩ := overlap ws₁ ws₂ h₁ h₂
    exact apart ho₁ ho₂

/-- Of three peers, a has a majority with b, and c has one with b.  Four can be parted. -/
theorem majorities_overlap_iff_odd_three_and_four :
    let three : Finset Origin := {⟨"a"⟩, ⟨"b"⟩, ⟨"c"⟩}
    let four : Finset Origin := {⟨"a"⟩, ⟨"b"⟩, ⟨"c"⟩, ⟨"d"⟩}
    three.card = 3 ∧ AckCollector.CanReport ⟨"a"⟩ 2 three [⟨"a"⟩, ⟨"b"⟩] ∧ AckCollector.CanReport ⟨"c"⟩ 2 three [⟨"b"⟩, ⟨"c"⟩] ∧
    (∃ o ∈ [(⟨"a"⟩ : Origin), ⟨"b"⟩], o ∈ [(⟨"b"⟩ : Origin), ⟨"c"⟩]) ∧
    four.card = 4 ∧ ∃ ws₁ ws₂, RoundTracker.CanReport 2 four ws₁ ∧ RoundTracker.CanReport 2 four ws₂ ∧ ws₁.Disjoint ws₂ := by
  intro three four
  have a : AckCollector.CanReport ⟨"a"⟩ 2 three [⟨"a"⟩, ⟨"b"⟩] :=
    ⟨[.start 1, .ack 1 ⟨"b"⟩], by decide +kernel, .ack 1 ⟨"b"⟩, by decide +kernel⟩
  have c : AckCollector.CanReport ⟨"c"⟩ 2 three [⟨"b"⟩, ⟨"c"⟩] :=
    ⟨[.start 4, .ack 4 ⟨"b"⟩], by decide +kernel, .ack 4 ⟨"b"⟩, by decide +kernel⟩
  have size₃ : three.card = 3 := by decide +kernel
  have size₄ : four.card = 4 := by decide +kernel
  obtain ⟨-, overlap, -⟩ := majorities_overlap_iff_odd 3 (by decide) (by decide) three size₃
  obtain ⟨-, -, -, -, parted⟩ := majorities_overlap_iff_odd 4 (by decide) (by decide) four size₄
  exact ⟨size₃, a, c, overlap.1 ⟨1, rfl⟩ _ _ _ _ a c, size₄, parted ⟨2, rfl⟩⟩

end GossipNode
