import Mathlib.Order.Bounds.Defs
import GossipNode.Proofs.Store.Runs
import GossipNode.Proofs.Node.Sending
/-!
# Stamps

A proposal is placed in its round in two goes: its round is looked up in the store, and later, when other records may have
come in and other proposals have been placed, it is entered into the clock.  A placement may be made for any number, at
any time and again.  The clock still says what the log says: the round of each proposal that has been placed is its place
among the unconfirmed proposals of its origin, and the next round is the one after the latest of these
(`stamps_follow_log`).
-/
namespace GossipNode

theorem RoundClock.roundOf_record (c : RoundClock) (o o' : Origin) (id id' : SequenceId) (round : UInt32) :
    (c.record o id round).roundOf o' id' = if o' = o ∧ id' = id then some round else c.roundOf o' id' := by
  unfold RoundClock.roundOf RoundClock.record
  rw [SortedMap.get?_alter]
  by_cases ho : o' = o
  · rw [if_pos ho, Option.bind_some, SortedMap.get?_insert_eq_ite, ho]
    by_cases hid : id' = id
    · rw [if_pos hid, if_pos ⟨rfl, hid⟩]
    · rw [if_neg hid, if_neg (fun h => hid h.2)]
      cases c.stamps.get? o <;> rfl
  · rw [if_neg ho, if_neg (fun h => ho h.1)]

theorem RoundClock.toNat_nextRound_record (c : RoundClock) (o : Origin) (id : SequenceId) {round : UInt32}
    (room : round.toNat + 1 < UInt32.size) :
    ((c.record o id round).nextRound o).toNat = max (c.nextRound o).toNat (round.toNat + 1) := by
  rw [nextRound_record, if_pos rfl, toNat_max, toNat_add_one room]

namespace Store

variable {s : Store} {o : Origin} {id : SequenceId}

/-- **A number has a round exactly if it is that of an unconfirmed proposal.** -/
theorem Sound.isSome_proposalRound (h : s.Sound) :
    (s.proposalRound o id).isSome = true ↔ ∃ p ∈ s.proposals o, p.id = id := by
  constructor
  · intro defined
    obtain ⟨round, hround⟩ := Option.isSome_iff_exists.1 defined
    obtain ⟨p, hp, hu, -⟩ := exists_of_proposalRound hround
    obtain ⟨hmem, hid⟩ := h.get?_eq_some_iff.1 hp
    exact ⟨p, List.mem_filter.2 ⟨hmem, hu⟩, hid⟩
  · rintro ⟨p, hp, hid⟩
    obtain ⟨hmem, hu⟩ := List.mem_filter.1 hp
    rw [proposalRound_eq (h.get?_eq_some_iff.2 ⟨hmem, hid⟩) hu]
    rfl

theorem Sound.proposalRound_of_place (h : s.Sound) (fits : s.Fits) {k : Nat} {p : Record}
    (hp : (s.proposals o)[k]? = some p) : ∃ round, s.proposalRound o p.id = some round ∧ round.toNat = k := by
  have few : k < UInt32.size := by
    have := (List.getElem?_eq_some_iff.1 hp).1
    have := s.length_proposals_le o
    have := fits o
    omega
  have word : (UInt32.ofNat k).toNat = k := UInt32.toNat_ofNat_of_lt' few
  refine ⟨UInt32.ofNat k, (h.proposalRound_eq_some_iff fits).2 ⟨p, ?_, rfl⟩, word⟩
  rw [word]
  exact hp

/-- **The unconfirmed proposals of a log have the rounds 0, 1, 2 and so on**, in the order of the log. -/
theorem Sound.map_proposalRound (h : s.Sound) (fits : s.Fits) (o : Origin) :
    (s.proposals o).map (fun p => (s.proposalRound o p.id).map UInt32.toNat) =
      (List.range (s.proposals o).length).map some := by
  apply List.ext_getElem (by simp)
  intro k hk hk'
  rw [List.length_map] at hk
  obtain ⟨round, hround, rfl⟩ := h.proposalRound_of_place fits (List.getElem?_eq_getElem hk)
  rw [List.getElem_map, List.getElem_map, List.getElem_range, hround, Option.map_some]

/-- **What is said of the round of a held number stays**, also that it has none. -/
theorem proposalRound_of_held {s' : Store} {r : Record} (grown : s.log o <+: s'.log o) (held : s.get? o id = some r) :
    s'.proposalRound o id = s.proposalRound o id := by
  cases here : s.proposalRound o id with
  | some round => exact proposalRound_mono grown here
  | none =>
    cases later : s'.proposalRound o id with
    | none => rfl
    | some round =>
      rw [proposalRound_of_longer grown (pos_of_get? held).2 later] at here
      cases here

end Store

/-! ## Placements -/

inductive Placement where
  | call (c : Store.Call)
  | look (origin : Origin) (id : SequenceId) (purpose : RoundPurpose)
  /-- A round that has been found is entered into the clock; the first one found has number 0. -/
  | stamp (found : Nat)

/-- A node, what looks have found, and the proposals that have been placed. -/
structure Stamping where
  node : Node
  found : List Action
  placed : List (Origin × SequenceId)

namespace Stamping

def step (s : Stamping) : Placement → Stamping
  | .call c => { s with node := { s.node with store := s.node.store.call c } }
  | .look o id purpose =>
    let step := s.node.findRound o id purpose
    { s with node := step.node, found := s.found ++ step.next }
  | .stamp k =>
    match s.found[k]? with
    | some (.stampRound o id round purpose) =>
      ⟨(s.node.stampRound o id round purpose).node, s.found, s.placed ++ [(o, id)]⟩
    | _ => s

def run (n : Node) (ps : List Placement) : Stamping := ps.foldl step ⟨n, [], []⟩

def store (s : Stamping) : Store := s.node.store

def clock (s : Stamping) : RoundClock := s.node.broadcast.clock

/-- The number is above the rounds of the proposals of an origin that have been placed. -/
def Above (s : Stamping) (o : Origin) (n : Nat) : Prop :=
  ∀ id round, (o, id) ∈ s.placed → s.store.proposalRound o id = some round → round.toNat < n

/-- **The clock agrees with the log.** -/
structure Agrees (s : Stamping) : Prop where
  found : ∀ a ∈ s.found, ∃ o id round purpose, a = .stampRound o id round purpose ∧
    s.store.proposalRound o id = some round
  rounds : ∀ o id, (o, id) ∈ s.placed → ∃ round, s.store.proposalRound o id = some round
  stamps : ∀ o id, s.clock.roundOf o id = if (o, id) ∈ s.placed then s.store.proposalRound o id else none
  next : ∀ o, IsLeast {n | s.Above o n} (s.clock.nextRound o).toNat

variable {s s' : Stamping} {o : Origin} {id : SequenceId} {round : UInt32}

theorem Agrees.start {n : Node} (clock : n.broadcast.clock = .empty) :
    Agrees ⟨n, [], []⟩ where
  found _ h := nomatch h
  rounds _ _ h := nomatch h
  stamps o id := by
    unfold Stamping.clock
    rw [clock]
    rfl
  next o := by
    unfold Stamping.clock
    rw [clock]
    exact ⟨(fun _ _ h => nomatch h), fun n _ => Nat.zero_le n⟩

/-- **Records that come in change nothing of this.** -/
theorem Agrees.grow (h : s.Agrees) (grown : ∀ o, s.store.log o <+: s'.store.log o) (clock : s'.clock = s.clock)
    (found : ∀ a ∈ s'.found, a ∈ s.found ∨ ∃ o id round purpose, a = .stampRound o id round purpose ∧
      s'.store.proposalRound o id = some round) (placed : s'.placed = s.placed) : s'.Agrees := by
  have same : ∀ o id, (o, id) ∈ s.placed → s'.store.proposalRound o id = s.store.proposalRound o id := by
    intro o id hplaced
    obtain ⟨round, hround⟩ := h.rounds o id hplaced
    rw [hround, Store.proposalRound_mono (grown o) hround]
  have above : ∀ o n, s'.Above o n ↔ s.Above o n := by
    intro o n
    unfold Above
    rw [placed]
    refine forall₂_congr (fun id round => forall_congr' (fun hplaced => ?_))
    rw [same o id hplaced]
  refine ⟨fun a ha => ?_, fun o id hplaced => ?_, fun o id => ?_, fun o => ?_⟩
  · rcases found a ha with ha | ha
    · obtain ⟨o, id, round, purpose, rfl, hround⟩ := h.found a ha
      exact ⟨o, id, round, purpose, rfl, Store.proposalRound_mono (grown o) hround⟩
    · exact ha
  · rw [placed] at hplaced
    rw [same o id hplaced]
    exact h.rounds o id hplaced
  · rw [clock, h.stamps, placed]
    split
    · rename_i hplaced
      rw [same o id hplaced]
    · rfl
  · simp only [clock, above]
    exact h.next o

/-- **A stamp says what the log says.** -/
theorem Agrees.stamp (h : s.Agrees) (fits : s.store.Fits) (hround : s.store.proposalRound o id = some round)
    (store : s'.store = s.store) (clock : s'.clock = s.clock.record o id round) (found : s'.found = s.found)
    (placed : s'.placed = s.placed ++ [(o, id)]) : s'.Agrees := by
  obtain ⟨-, room⟩ := Store.toNat_proposalRound fits hround
  have mem : ∀ o' id', (o', id') ∈ s'.placed ↔ (o', id') ∈ s.placed ∨ o' = o ∧ id' = id := by
    intro o' id'
    rw [placed, List.mem_append, List.mem_singleton, Prod.mk.injEq]
  refine ⟨?_, fun o' id' hplaced => ?_, fun o' id' => ?_, fun o' => ?_⟩
  · rw [found, store]
    exact h.found
  · rw [store]
    rcases (mem o' id').1 hplaced with hplaced | ⟨rfl, rfl⟩
    · exact h.rounds o' id' hplaced
    · exact ⟨round, hround⟩
  · rw [clock, RoundClock.roundOf_record, h.stamps, store]
    by_cases here : o' = o ∧ id' = id
    · rw [if_pos here, if_pos ((mem o' id').2 (.inr here)), here.1, here.2, hround]
    · rw [if_neg here]
      simp only [mem, here, or_false]
  · rw [clock]
    by_cases ho : o' = o
    · subst ho
      obtain ⟨above, least⟩ := h.next o'
      rw [RoundClock.toNat_nextRound_record _ _ _ room]
      refine ⟨fun id' round' hplaced hround' => ?_, fun n hn => Nat.max_le.2 ⟨least fun id' round' hplaced hround' => ?_, ?_⟩⟩
      · rw [store] at hround'
        rcases (mem o' id').1 hplaced with hplaced | ⟨-, rfl⟩
        · exact Nat.lt_of_lt_of_le (above id' round' hplaced hround') (Nat.le_max_left _ _)
        · obtain rfl := Option.some.inj (hround'.symm.trans hround)
          exact Nat.le_max_right _ _
      · exact hn id' round' ((mem o' id').2 (.inl hplaced)) (by rw [store]; exact hround')
      · exact hn id round ((mem o' id).2 (.inr ⟨rfl, rfl⟩)) (by rw [store]; exact hround)
    · have above : ∀ n, s'.Above o' n ↔ s.Above o' n := by
        intro n
        simp only [Above, mem, ho, false_and, or_false, store]
      rw [RoundClock.nextRound_record, if_neg ho]
      simp only [above]
      exact h.next o'

/-! ## Runs -/

theorem core_look (s : Stamping) (o : Origin) (id : SequenceId) (purpose : RoundPurpose) :
    (s.step (.look o id purpose)).node.core = s.node.core :=
  Node.core_of_frame (s.node.frame_findRound o id purpose)

theorem log_prefix_step (s : Stamping) (p : Placement) (o : Origin) : s.store.log o <+: (s.step p).store.log o := by
  cases p with
  | call c => exact Store.log_prefix_call s.store c o
  | look o' id purpose =>
    have same : (s.step (.look o' id purpose)).store = s.store := congrArg Node.Core.store (s.core_look o' id purpose)
    rw [same]
  | stamp k =>
    unfold step
    dsimp only
    split <;> exact List.prefix_rfl

theorem log_prefix_run (ps : List Placement) (s : Stamping) (o : Origin) :
    s.store.log o <+: (ps.foldl step s).store.log o := by
  induction ps generalizing s with
  | nil => exact List.prefix_rfl
  | cons p ps ih => exact (log_prefix_step s p o).trans (ih _)

theorem sound_step (sound : s.store.Sound) (fits : s.store.Fits) {p : Placement}
    (honoured : ∀ c, p = .call c → c.Honoured) : (s.step p).store.Sound := by
  cases p with
  | call c => exact sound.call fits (honoured c rfl)
  | look o id purpose =>
    have same : (s.step (.look o id purpose)).store = s.store := congrArg Node.Core.store (s.core_look o id purpose)
    rw [same]
    exact sound
  | stamp k =>
    simp only [step]
    split <;> exact sound

theorem Agrees.step (h : s.Agrees) (fits : s.store.Fits) (p : Placement) : (s.step p).Agrees := by
  cases p with
  | call c => exact h.grow (log_prefix_step s (.call c)) rfl (fun a ha => .inl ha) rfl
  | look o id purpose =>
    have core := s.core_look o id purpose
    have store : (s.step (.look o id purpose)).store = s.store := congrArg Node.Core.store core
    refine h.grow (log_prefix_step s _) (congrArg (fun c => c.broadcast.clock) core) (fun a ha => ?_) rfl
    rcases List.mem_append.1 ha with ha | ha
    · exact .inl ha
    · cases Node.follows_findRound (List.mem_append_left _ ha) with
      | found hround => exact .inr ⟨o, id, _, purpose, rfl, by rw [store]; exact hround⟩
  | stamp k =>
    simp only [Stamping.step]
    split
    · rename_i o id round purpose hfound
      obtain ⟨_, _, _, _, he, hround⟩ := h.found _ (List.mem_of_getElem? hfound)
      obtain ⟨rfl, rfl, rfl, rfl⟩ := Action.stampRound.inj he
      exact h.stamp fits hround rfl rfl rfl rfl
    · exact h

theorem agrees_of_run {ps : List Placement} (h : s.Agrees) (sound : s.store.Sound)
    (honoured : ∀ c, .call c ∈ ps → c.Honoured) (fits : (ps.foldl Stamping.step s).store.Fits) :
    (ps.foldl Stamping.step s).Agrees ∧ (ps.foldl Stamping.step s).store.Sound := by
  induction ps generalizing s with
  | nil => exact ⟨h, sound⟩
  | cons p ps ih =>
    have room : s.store.Fits := Store.Fits.of_longer (log_prefix_run (p :: ps) s) fits
    have sound' := sound_step sound room (p := p) (fun c hc => honoured c (hc ▸ List.mem_cons_self))
    exact ih (h.step room p) sound' (fun c hc => honoured c (List.mem_cons_of_mem _ hc)) fits

/-- Once the last proposal of an origin has been placed, the next round is the number of its proposals. -/
theorem Agrees.nextRound_of_last (h : s.Agrees) (sound : s.store.Sound) (fits : s.store.Fits) {p : Record}
    (last : (s.store.proposals o).getLast? = some p) (placed : (o, p.id) ∈ s.placed) :
    (s.clock.nextRound o).toNat = (s.store.proposals o).length := by
  obtain ⟨above, least⟩ := h.next o
  refine Nat.le_antisymm (least fun id round _ hround => ?_) ?_
  · obtain ⟨q, hq, -⟩ := (sound.proposalRound_eq_some_iff fits).1 hround
    exact (List.getElem?_eq_some_iff.1 hq).1
  · rw [List.getLast?_eq_getElem?] at last
    obtain ⟨round, hround, hlast⟩ := sound.proposalRound_of_place fits last
    have below := above p.id round placed hround
    omega

/-- **Stamps follow the log.**  Whatever records a store takes and makes, and whatever is placed meanwhile, in whatever
order and however often: the numbers that have a round are those of unconfirmed proposals, which have the rounds 0, 1, 2
and so on in the order of their log, and what is said of a held number stays for good.  The clock has this round for each
proposal that has been placed and none for any other number; its next round is the least above all that have been placed,
so it is the number of proposals once the last one has been; and entering a round never overflows. -/
theorem stamps_follow_log {n : Node} (store : n.store = .empty) (clock : n.broadcast.clock = .empty)
    (ps : List Placement) (honoured : ∀ c, .call c ∈ ps → c.Honoured) (fits : (run n ps).store.Fits) :
    let s := run n ps
    (∀ o id, (s.store.proposalRound o id).isSome = true ↔ ∃ p ∈ s.store.proposals o, p.id = id) ∧
    (∀ o, (s.store.proposals o).map (fun p => (s.store.proposalRound o p.id).map UInt32.toNat) =
      (List.range (s.store.proposals o).length).map some) ∧
    (∀ o id r, s.store.get? o id = some r →
      ∀ later : List Placement, (later.foldl step s).store.proposalRound o id = s.store.proposalRound o id) ∧
    (∀ o id, (o, id) ∈ s.placed →
      ∃ round, s.store.proposalRound o id = some round ∧ s.clock.roundOf o id = some round) ∧
    (∀ o id, (o, id) ∉ s.placed → s.clock.roundOf o id = none) ∧
    (∀ o, IsLeast {n | s.Above o n} (s.clock.nextRound o).toNat) ∧
    (∀ o p, (s.store.proposals o).getLast? = some p → (o, p.id) ∈ s.placed →
      (s.clock.nextRound o).toNat = (s.store.proposals o).length) ∧
    (∀ o id round, s.store.proposalRound o id = some round →
      s.clock.record? o id round = .ok (s.clock.record o id round)) := by
  intro s
  have empty : (Stamping.mk n [] []).store.Sound := by
    unfold Stamping.store
    rw [store]
    exact .empty
  obtain ⟨agrees, sound⟩ : s.Agrees ∧ s.store.Sound := agrees_of_run (.start clock) empty honoured fits
  refine ⟨fun o id => sound.isSome_proposalRound, sound.map_proposalRound fits, fun o id r held later => ?_,
    fun o id placed => ?_, fun o id other => ?_, agrees.next, fun o p => agrees.nextRound_of_last sound fits,
    fun o id round hround => ?_⟩
  · exact Store.proposalRound_of_held (log_prefix_run later s o) held
  · obtain ⟨round, hround⟩ := agrees.rounds o id placed
    refine ⟨round, hround, ?_⟩
    rw [agrees.stamps, if_pos placed]
    exact hround
  · rw [agrees.stamps, if_neg other]
  · unfold RoundClock.record? succ?
    rw [if_pos (Store.toNat_proposalRound fits hround).2]
    rfl

/-- The later of two proposals is placed first, when a rumor and a confirmation have come in between; then the earlier one
twice, by what was looked up before the later one was there. -/
theorem stamps_follow_log_out_of_order :
    let a : Origin := ⟨"a"⟩
    let proposal (id : SequenceId) (confirmed : Option SequenceId) : Placement :=
      .call (.accept (.proposal ⟨a, id, confirmed, Word256.zero, ⟨"t", 1, []⟩, none⟩))
    let ps : List Placement := [proposal 1 none, .look a 1 .confirm, .call (.accept (.rumor ⟨a, 2, "x"⟩)),
      proposal 3 (some 1), proposal 4 none, .look a 4 .confirm, .look a 3 .confirm, .stamp 1, .stamp 0, .stamp 0]
    ∃ n, n.store = .empty ∧ n.broadcast.clock = .empty ∧ (∀ c, .call c ∈ ps → c.Honoured) ∧ (run n ps).store.Fits ∧
      (run n ps).placed = [(a, 4), (a, 1), (a, 1)] ∧ (run n ps).clock.roundOf a 1 = some 0 ∧
      (run n ps).clock.roundOf a 4 = some 1 ∧ (run n ps).clock.roundOf a 3 = none ∧
      ((run n ps).clock.nextRound a).toNat = 2 := by
  intro a proposal ps
  have honoured : ∀ c, .call c ∈ ps → c.Honoured := by
    intro c hc
    simp only [ps, proposal, List.mem_cons, Placement.call.injEq, reduceCtorEq, List.not_mem_nil, or_false, false_or] at hc
    rcases hc with rfl | rfl | rfl | rfl <;> trivial
  obtain ⟨n, new⟩ : ∃ n, Node.new {} ⟨"A"⟩ .ambient .acceptAll = .ok n := ⟨_, rfl⟩
  have played : ∀ n ∈ (Node.new {} ⟨"A"⟩ .ambient .acceptAll).toOption, (run n ps).store.Fits ∧
      (run n ps).placed = [(a, 4), (a, 1), (a, 1)] ∧ (run n ps).store.proposalRound a 1 = some 0 ∧
      (run n ps).store.proposalRound a 4 = some 1 ∧
      ((run n ps).store.proposals a).length = 2 ∧
      ((run n ps).store.proposals a).getLast?.map Record.id = some 4 := by decide +kernel
  obtain ⟨fits, placed, first, second, count, latest⟩ := played n (by rw [new]; rfl)
  have core := Node.core_new new
  have store : n.store = .empty := congrArg Node.Core.store core
  have clock : n.broadcast.clock = .empty := congrArg (fun c => c.broadcast.clock) core
  obtain ⟨-, -, -, stamped, unplaced, -, last, -⟩ := stamps_follow_log store clock ps honoured fits
  obtain ⟨p, hlast, hid⟩ := Option.map_eq_some_iff.1 latest
  have isPlaced (id : SequenceId) : (a, id) ∈ (run n ps).placed ↔ id = 4 ∨ id = 1 := by
    simp [placed]
  obtain ⟨zero, hzero, early⟩ := stamped a 1 ((isPlaced 1).2 (.inr rfl))
  obtain ⟨one, hone, late⟩ := stamped a 4 ((isPlaced 4).2 (.inl rfl))
  rw [first] at hzero
  rw [second] at hone
  refine ⟨n, store, clock, honoured, fits, placed, early.trans hzero.symm, late.trans hone.symm, ?_, ?_⟩
  · exact unplaced a 3 (fun h => absurd ((isPlaced 3).1 h) (by decide))
  · rw [last a p hlast ((isPlaced p.id).2 (.inl hid)), count]

end Stamping
end GossipNode
