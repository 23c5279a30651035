import Mathlib.Order.Bounds.Basic
import GossipNode.Proofs.Consensus.Tally
import GossipNode.Proofs.Network.Commits
import GossipNode.Proofs.Node.Counting
import GossipNode.Proofs.Store.Reconciliation
/-!
# Rounds follow the logs

The round of a node is counted confirmation by confirmation, in the order in which they come in; own ones are counted
another way than those of others, some are dropped as late and some are held for rounds to come.  None of this shows in
the end: once no confirmation waits to be counted, the round is the least one that lacks a majority in the logs
(`rounds_agree`).

The invariant of a run (`Machine.Tallied`) is about a list that no node keeps, that of all that has been counted.
-/
namespace GossipNode
namespace Machine

variable {m m' : Machine} {e : Event} {out : List Packet} {a : Action}

/-! ## What is still to be done -/

/-- A task is still to take the action. -/
def Todo (m : Machine) (a : Action) : Prop := ∃ script ∈ m.tasks, a ∈ script

/-- **What a turn does to the tasks.**  In an action, everything but the action stays to be done, with what follows from
it; a request may start something; else nothing starts, and only a shutdown ends anything. -/
inductive TasksChange (m : Machine) (e : Event) (m' : Machine) : Prop where
  | acted {now : Nat} {a : Action} {step : Step} (taken : m.Todo a) (perform : step ∈ m.node.perform now a)
      (node : m'.node = step.node) (known : ∀ a', m'.Todo a' → m.Todo a' ∨ a' ∈ step.todo)
      (next : ∀ a' ∈ step.next, m'.Todo a') (left : ∀ a', m.Todo a' → a' ≠ a → m'.Todo a')
  | answered {q : Request} (node : m'.node = (m.node.answer q).node)
      (known : ∀ a', m'.Todo a' → m.Todo a' ∨ a' ∈ (m.node.answer q).todo) (left : ∀ a', m.Todo a' → m'.Todo a')
  | other {inbox : List (PeerAddress × Packet)} (core : m'.node.core = { m.node.core with inbox })
      (known : ∀ a', m'.Todo a' → m.Todo a') (left : e ≠ .shutdown → ∀ a', m.Todo a' → m'.Todo a')

theorem tasksChange_of_turn (h : m.Turn e out m') : m.TasksChange e m' := by
  cases h with
  | @act n before after a script now step h =>
    refine .acted ⟨a :: script, List.mem_append_right _ List.mem_cons_self, List.mem_cons_self⟩ h rfl ?_ ?_ ?_
    · rintro a' ⟨script', hs, ha'⟩
      rcases List.mem_append.1 hs with hs | hs
      · rcases List.mem_append.1 hs with hs | hs
        · exact .inl ⟨script', List.mem_append_left _ hs, ha'⟩
        · rcases List.mem_cons.1 hs with rfl | hs
          · rcases List.mem_append.1 ha' with ha' | ha'
            · exact .inr (List.mem_append_left _ ha')
            · exact .inl ⟨a :: script, List.mem_append_right _ List.mem_cons_self, List.mem_cons_of_mem _ ha'⟩
          · exact .inl ⟨script', List.mem_append_right _ (List.mem_cons_of_mem _ hs), ha'⟩
      · exact .inr (Step.mem_todo_of_started hs ha')
    · intro a' ha'
      refine ⟨step.next ++ script, ?_, List.mem_append_left _ ha'⟩
      exact List.mem_append_left _ (List.mem_append_right _ List.mem_cons_self)
    · rintro a' ⟨script', hs, ha'⟩ hne
      rcases List.mem_append.1 hs with hs | hs
      · exact ⟨script', List.mem_append_left _ (List.mem_append_left _ hs), ha'⟩
      · rcases List.mem_cons.1 hs with rfl | hs
        · rcases List.mem_cons.1 ha' with rfl | ha'
          · exact absurd rfl hne
          · refine ⟨step.next ++ script, ?_, List.mem_append_right _ ha'⟩
            exact List.mem_append_left _ (List.mem_append_right _ List.mem_cons_self)
        · exact ⟨script', List.mem_append_left _ (List.mem_append_right _ (List.mem_cons_of_mem _ hs)), ha'⟩
  | @call n tasks q =>
    refine .answered (q := q) rfl ?_ ?_
    · rintro a' ⟨script, hs, ha'⟩
      rcases List.mem_append.1 hs with hs | hs
      · exact .inl ⟨script, hs, ha'⟩
      · rcases List.mem_cons.1 hs with rfl | hs
        · exact .inr (List.mem_append_left _ ha')
        · exact .inr (Step.mem_todo_of_started hs ha')
    · rintro a' ⟨script, hs, ha'⟩
      exact ⟨script, List.mem_append_left _ hs, ha'⟩
  | arrive h => exact .other (congrArg Node.Frame.core (Node.frame_arrive h)) (fun _ ha => ha) (fun _ _ ha => ha)
  | closeInbox => exact .other rfl (fun _ ha => ha) (fun _ _ ha => ha)
  | @shutdown n tasks left hleft =>
    refine .other (Node.core_of_frame n.frame_shutdown) ?_ (fun hne => absurd rfl hne)
    rintro a' ⟨script, hs, ha'⟩
    exact ⟨script, hleft.subset hs, ha'⟩

/-! ## What waits to be counted -/

/-- No confirmation waits to be counted. -/
def Settled (m : Machine) : Prop := ∀ script ∈ m.tasks, ∀ a ∈ script, a.Counts = false

instance (m : Machine) : Decidable m.Settled :=
  inferInstanceAs (Decidable (∀ script ∈ m.tasks, ∀ a ∈ script, a.Counts = false))

/-- A shutdown ends no task with a confirmation that waits to be counted. -/
def KeepsCounting (m : Machine) (e : Event) (m' : Machine) : Prop :=
  match e with
  | .shutdown => ∀ script ∈ m.tasks, (∃ a ∈ script, a.Counts = true) → script ∈ m'.tasks
  | _ => True

instance (m : Machine) (e : Event) (m' : Machine) : Decidable (m.KeepsCounting e m') :=
  match e with
  | .shutdown =>
    inferInstanceAs (Decidable (∀ script ∈ m.tasks, (∃ a ∈ script, a.Counts = true) → script ∈ m'.tasks))
  | .act _ | .call _ | .arrive .. | .closeInbox => isTrue trivial

def Waits (m : Machine) (o : Origin) (id : SequenceId) (round : UInt32) : Prop := ∃ a, m.Todo a ∧ a.Pending o id round

theorem Waits.mono {o : Origin} {id : SequenceId} {round : UInt32} (h : m.Waits o id round)
    (left : ∀ a, m.Todo a → a.Counts = true → m'.Todo a) : m'.Waits o id round := by
  obtain ⟨a, ha, hp⟩ := h
  exact ⟨a, left a ha hp.counts, hp⟩

theorem Settled.not_waits (h : m.Settled) {o : Origin} {id : SequenceId} {round : UInt32} : ¬ m.Waits o id round := by
  rintro ⟨a, ⟨script, hs, ha⟩, hp⟩
  have hcounts := h script hs a ha
  rw [hp.counts] at hcounts
  cases hcounts

/-! ## The invariant -/

/-- **What a machine has counted**: a list of origins and rounds, each of them for a confirmation in the store; and every
confirmation in the store, if it is of an earlier proposal, is in the list or waits. -/
structure Tallied (threshold : Nat) (m : Machine) (counted : List (Origin × UInt32)) : Prop where
  sound : m.node.store.Sound
  fits : m.node.store.Fits
  threshold : m.node.broadcast.tracker.threshold = threshold
  tracks : m.node.broadcast.tracker.Tracks counted
  placed : ∀ a, m.Todo a → a.Placed m.node.store m.node.name
  justified : ∀ e ∈ counted, ∃ id, m.node.store.Confirms e.1 id ∧ m.node.store.proposalRound e.1 id = some e.2
  complete : ∀ o, ∀ r ∈ m.node.store.log o, ∀ id round, r.confirmed? = some id → id < r.id →
    m.node.store.proposalRound o id = some round → (o, round) ∈ counted ∨ m.Waits o id round

variable {threshold : Nat} {counted counted' : List (Origin × UInt32)}

theorem room_of_justified {s : Store} (fits : s.Fits)
    (h : ∀ e ∈ counted, ∃ id, s.Confirms e.1 id ∧ s.proposalRound e.1 id = some e.2) :
    ∀ e ∈ counted, e.2.toNat + 1 < UInt32.size := by
  intro e he
  obtain ⟨id, -, hround⟩ := h e he
  exact (Store.toNat_proposalRound fits hround).2

namespace Tallied

theorem justified_mono (h : m.Tallied threshold counted)
    (grown : ∀ o, m.node.store.log o <+: m'.node.store.log o) :
    ∀ e ∈ counted, ∃ id, m'.node.store.Confirms e.1 id ∧ m'.node.store.proposalRound e.1 id = some e.2 := by
  intro e he
  obtain ⟨id, hc, hround⟩ := h.justified e he
  exact ⟨id, hc.mono (grown e.1), Store.proposalRound_mono (grown e.1) hround⟩

/-- **Nothing is missed** in a turn, if what waited waits on or has been counted, and what is new waits. -/
theorem complete_turn (h : m.Tallied threshold counted) (grown : ∀ o, m.node.store.log o <+: m'.node.store.log o)
    (sub : counted ⊆ counted')
    (keeps : ∀ o id round, m.node.store.proposalRound o id = some round → m.Waits o id round →
      (o, round) ∈ counted' ∨ m'.Waits o id round)
    (fresh : ∀ o, ∀ r ∈ m'.node.store.log o, r ∉ m.node.store.log o → ∀ id round, r.confirmed? = some id →
      m'.node.store.proposalRound o id = some round → m'.Waits o id round) :
    ∀ o, ∀ r ∈ m'.node.store.log o, ∀ id round, r.confirmed? = some id → id < r.id →
      m'.node.store.proposalRound o id = some round → (o, round) ∈ counted' ∨ m'.Waits o id round := by
  intro o r hr id round hid hlt hround
  by_cases old : r ∈ m.node.store.log o
  · have hle := (h.sound.numbered o).id_le old
    rw [UInt32.lt_iff_toNat_lt] at hlt
    have before := Store.proposalRound_of_longer (grown o) (by omega) hround
    rcases h.complete o r old id round hid (UInt32.lt_iff_toNat_lt.2 hlt) before with hc | hw
    · exact .inl (sub hc)
    · exact keeps o id round before hw
  · exact .inr (fresh o r hr old id round hid hround)

theorem sound_turn (h : m.Tallied threshold counted) (turn : m.Turn e out m') : m'.node.store.Sound := by
  have change := storeChange_of_turn turn
  generalize m'.node.store = s at change
  cases change with
  | same => exact h.sound
  | accepted sender r script task offers id => exact h.sound.push h.fits id
  | made r origin id => exact h.sound.push h.fits id

end Tallied

end Machine

/-- What an action counts. -/
def Action.counted : Action → List (Origin × UInt32)
  | .countConfirmation o round => [(o, round)]
  | _ => []

namespace Node

theorem tracks_of_perform {n : Node} {now : Nat} {a : Action} {step : Step} {counted : List (Origin × UInt32)}
    (h : step ∈ n.perform now a) (tracks : n.broadcast.tracker.Tracks counted) (pos : 0 < n.broadcast.tracker.threshold)
    (room : ∀ e ∈ counted ++ a.counted, e.2.toNat + 1 < UInt32.size) :
    step.node.broadcast.tracker.Tracks (counted ++ a.counted) ∧
      step.node.broadcast.tracker.threshold = n.broadcast.tracker.threshold := by
  by_cases counts : ∃ o round, a = .countConfirmation o round
  · obtain ⟨o, round, rfl⟩ := counts
    rw [List.mem_singleton.1 h, tracker_countConfirmation]
    have closes := tracks.closes pos (.of_room pos room)
    exact ⟨closes.tracks, closes.threshold⟩
  · have other : ∀ o round, a ≠ .countConfirmation o round := fun o round ha => counts ⟨o, round, ha⟩
    have none : a.counted = [] := by
      unfold Action.counted
      split
      · exact absurd rfl (other _ _)
      · rfl
    rw [(tracker_of_perform h).2 other, none, List.append_nil]
    exact ⟨tracks, rfl⟩

end Node

namespace Machine
namespace Tallied

variable {m m' : Machine} {e : Event} {out : List Packet} {threshold : Nat} {counted : List (Origin × UInt32)}

theorem justified_counted (h : m.Tallied threshold counted) {a : Action} (placed : a.Placed m.node.store m.node.name)
    (grown : ∀ o, m.node.store.log o <+: m'.node.store.log o) : ∀ e ∈ counted ++ a.counted,
      ∃ id, m'.node.store.Confirms e.1 id ∧ m'.node.store.proposalRound e.1 id = some e.2 := by
  intro e he
  rcases List.mem_append.1 he with he | he
  · exact h.justified_mono grown e he
  · unfold Action.counted at he
    split at he
    · rw [List.mem_singleton.1 he]
      obtain ⟨id, hc, hround⟩ := placed
      exact ⟨id, hc.mono (grown _), Store.proposalRound_mono (grown _) hround⟩
    · cases he

/-- **An action** counts what it has to count. -/
theorem acted (h : m.Tallied threshold counted) (pos : 0 < threshold) (turn : m.Turn e out m')
    (fits : m'.node.store.Fits) {now : Nat} {a : Action} {step : Step} (taken : m.Todo a)
    (perform : step ∈ m.node.perform now a) (node : m'.node = step.node)
    (known : ∀ a', m'.Todo a' → m.Todo a' ∨ a' ∈ step.todo) (next : ∀ a' ∈ step.next, m'.Todo a')
    (left : ∀ a', m.Todo a' → a' ≠ a → m'.Todo a') : m'.Tallied threshold (counted ++ a.counted) := by
  have change := storeChange_of_turn turn
  have grown := change.log_prefix
  have placed := h.placed a taken
  have justified := h.justified_counted placed grown
  obtain ⟨tracks, same⟩ := Node.tracks_of_perform perform h.tracks (by rw [h.threshold]; exact pos)
    (room_of_justified fits justified)
  refine ⟨h.sound_turn turn, fits, ?_, ?_, fun a' ha' => ?_, justified, ?_⟩
  · rw [node, same, h.threshold]
  · rw [node]
    exact tracks
  · rw [node, (Node.tracker_of_perform perform).1]
    rcases known a' ha' with ha' | ha'
    · exact (h.placed a' ha').mono (Node.log_prefix_of_perform perform)
    · exact Node.placed_of_perform perform placed ha'
  · refine h.complete_turn grown (List.subset_append_left _ _) ?_ ?_
    · rintro o id round hround ⟨a', ha', hp⟩
      by_cases hne : a' = a
      · subst hne
        rcases Node.pending_of_perform perform placed hp hround with ⟨a'', hmem, hp''⟩ | rfl
        · exact .inr ⟨a'', next a'' hmem, hp''⟩
        · exact .inl (List.mem_append_right _ List.mem_cons_self)
      · exact .inr ⟨a', left a' ha' hne, hp⟩
    · intro o r hr new id round hid hround
      rw [node] at hr hround
      obtain ⟨a', hmem, hp⟩ := Node.pending_of_new perform placed hr new hid hround
      exact ⟨a', next a' hmem, hp⟩

/-- **A request** makes no confirmation. -/
theorem answered (h : m.Tallied threshold counted) (turn : m.Turn e out m') (fits : m'.node.store.Fits) {q : Request}
    (node : m'.node = (m.node.answer q).node) (known : ∀ a', m'.Todo a' → m.Todo a' ∨ a' ∈ (m.node.answer q).todo)
    (left : ∀ a', m.Todo a' → m'.Todo a') : m'.Tallied threshold counted := by
  have change := storeChange_of_turn turn
  have grown := change.log_prefix
  have kept : m'.node.name = m.node.name ∧ m'.node.broadcast.tracker = m.node.broadcast.tracker := by
    rw [node]
    rcases m.node.frame_answer q with he | ⟨r, -, -, -, he⟩ <;>
      exact ⟨congrArg (fun f => f.core.name) he, congrArg (fun f => f.core.broadcast.tracker) he⟩
  refine ⟨h.sound_turn turn, fits, by rw [kept.2, h.threshold], by rw [kept.2]; exact h.tracks, fun a' ha' => ?_,
    h.justified_mono grown, ?_⟩
  · rw [kept.1]
    rcases known a' ha' with ha' | ha'
    · exact (h.placed a' ha').mono grown
    · exact Node.placed_of_answer ha' _
  · refine h.complete_turn grown (List.Subset.refl _) ?_ ?_
    · exact fun o id round _ hw => .inr (hw.mono (fun a' ha' _ => left a' ha'))
    · intro o r hr new id round hid _
      rw [node] at hr
      rcases m.node.store_answer q with hs | ⟨r', -, -, hr', hs⟩
      · rw [hs] at hr
        exact absurd hr new
      · rw [hs] at hr
        rcases Store.mem_or_eq_of_mem_log_push hr with hr | ⟨rfl, -⟩
        · exact absurd hr new
        · cases r with
          | proposal c => exact absurd rfl (hr' c)
          | rumor => cases hid
          | block => cases hid

/-- **One turn** counts at most one confirmation more. -/
theorem turn (h : m.Tallied threshold counted) (pos : 0 < threshold) (turn : m.Turn e out m')
    (keep : m.KeepsCounting e m') (fits : m'.node.store.Fits) : ∃ counted', m'.Tallied threshold counted' := by
  cases tasksChange_of_turn turn with
  | acted taken perform node known next left => exact ⟨_, h.acted pos turn fits taken perform node known next left⟩
  | answered node known left => exact ⟨_, h.answered turn fits node known left⟩
  | @other inbox core known left =>
    have change := storeChange_of_turn turn
    have grown := change.log_prefix
    have store : m'.node.store = m.node.store := congrArg Node.Core.store core
    have name : m'.node.name = m.node.name := congrArg Node.Core.name core
    have tracker : m'.node.broadcast.tracker = m.node.broadcast.tracker := congrArg (fun c => c.broadcast.tracker) core
    refine ⟨counted, h.sound_turn turn, fits, by rw [tracker, h.threshold], by rw [tracker]; exact h.tracks,
      fun a' ha' => ?_, h.justified_mono grown, ?_⟩
    · rw [name]
      exact (h.placed a' (known a' ha')).mono grown
    · refine h.complete_turn grown (List.Subset.refl _) (fun o id round _ hw => .inr (hw.mono ?_)) ?_
      · intro a' ha' hcounts
        by_cases shut : e = .shutdown
        · subst shut
          obtain ⟨script, hs, hmem⟩ := ha'
          exact ⟨script, keep script hs ⟨a', hmem, hcounts⟩, hmem⟩
        · exact left shut a' ha'
      · intro o r hr new
        rw [store] at hr
        exact absurd hr new

theorem start {c : Config} (fresh : m.Fresh c) : m.Tallied (majority c.peerCount.toNat) [] := by
  obtain ⟨address, random, auth, now, hnew, htasks⟩ := fresh
  have core := Node.core_new hnew
  have store : m.node.store = .empty := congrArg Node.Core.store core
  have tracker : m.node.broadcast.tracker = .new (majority c.peerCount.toNat) :=
    congrArg (fun c => c.broadcast.tracker) core
  refine ⟨by rw [store]; exact .empty, by rw [store]; exact Store.fits_empty, by rw [tracker]; rfl, ?_, ?_,
    fun e he => (by cases he), fun o r hr => ?_⟩
  · rw [tracker]
    exact .new (Nat.le_max_right _ _)
  · rintro a ⟨script, hs, ha⟩
    rw [htasks] at hs
    obtain ⟨t, ht, rfl⟩ := List.mem_map.1 hs
    rcases script_of_task ht with h | h | h | h | ⟨_, h⟩ | ⟨_, h⟩ <;>
    · rw [h] at ha
      rw [List.mem_singleton.1 ha]
      trivial
  · rw [store] at hr
    cases hr

/-! ## Rounds and logs -/

/-- **Once nothing waits, what has been counted is what the logs say.** -/
theorem mem_confirmers_iff (h : m.Tallied threshold counted) (settled : m.Settled) (refers : m.node.store.RefersBack)
    (round : UInt32) (o : Origin) : o ∈ m.node.store.confirmers round.toNat ↔ (o, round) ∈ counted := by
  rw [Store.mem_confirmers]
  constructor
  · rintro ⟨p, hp, r, hr, hid⟩
    have hround := (h.sound.proposalRound_eq_some_iff h.fits).2 ⟨p, hp, rfl⟩
    rcases h.complete o r hr p.id round hid (refers o r hr p.id hid).1 hround with hc | hw
    · exact hc
    · exact absurd hw settled.not_waits
  · intro hc
    obtain ⟨id, hconfirms, hround⟩ := h.justified _ hc
    obtain ⟨p, hp, rfl⟩ := (h.sound.proposalRound_eq_some_iff h.fits).1 hround
    exact ⟨p, hp, hconfirms⟩

theorem isLeast_round (h : m.Tallied threshold counted) (settled : m.Settled) (refers : m.node.store.RefersBack) :
    IsLeast {r : Nat | (m.node.store.confirmers r).length < threshold} m.node.round.toNat := by
  obtain ⟨lacks, above⟩ := h.tracks.least (fun round => m.node.store.confirmers round.toNat)
    (fun round => m.node.store.nodup_confirmers round.toNat) (h.mem_confirmers_iff settled refers)
  rw [h.threshold] at lacks above
  refine ⟨lacks, fun r hr => ?_⟩
  -- a round below the current one is a word as well, and it has a majority
  by_contra hlt
  have hword : (UInt32.ofNat r).toNat = r :=
    UInt32.toNat_ofNat_of_lt' (Nat.lt_trans (Nat.lt_of_not_le hlt) m.node.round.toNat_lt)
  have hbelow : UInt32.ofNat r < m.node.round := by
    rw [UInt32.lt_iff_toNat_lt, hword]
    exact Nat.lt_of_not_le hlt
  have henough := above _ hbelow
  rw [hword] at henough
  exact absurd hr (Nat.not_lt.2 henough)

end Tallied

variable {m m' : Machine} {c c' : Config}

theorem tallied_of_run (run : Run KeepsCounting c m) : ∃ counted, m.Tallied (majority c.peerCount.toNat) counted := by
  induction run with
  | start fresh => exact ⟨[], .start fresh⟩
  | turn _ turn keep fits ih =>
    obtain ⟨counted, tallied⟩ := ih
    exact tallied.turn (Nat.le_max_right _ _) turn keep fits

/-- **Rounds agree.**  Two nodes, or one node in two runs, with as many peers: if they hold the same logs, in which every
confirmation is of an earlier unconfirmed proposal of its origin, and no confirmation waits to be counted at either, then
they are in the same round, in whatever order they came by what they hold.  It is the least round for which the logs show
confirmations of fewer origins than a majority. -/
theorem rounds_agree (run : Run KeepsCounting c m) (run' : Run KeepsCounting c' m') (peers : c.peerCount = c'.peerCount)
    (logs : ∀ o, m.node.store.log o = m'.node.store.log o) (refers : m.node.store.RefersBack) (settled : m.Settled)
    (settled' : m'.Settled) :
    m.node.round = m'.node.round ∧
      IsLeast {r : Nat | (m.node.store.confirmers r).length < majority c.peerCount.toNat} m.node.round.toNat := by
  obtain ⟨counted, tallied⟩ := tallied_of_run run
  obtain ⟨counted', tallied'⟩ := tallied_of_run run'
  have stores : m.node.store = m'.node.store := tallied.sound.eq_of_log_eq tallied'.sound logs
  have least := tallied.isLeast_round settled refers
  have least' := tallied'.isLeast_round settled' (by rw [← stores]; exact refers)
  rw [← stores, ← peers] at least'
  exact ⟨UInt32.toNat_inj.1 (least.unique least'), least⟩

/-- One node proposes, has its majority at once and confirms; another one gets both records from a peer. -/
theorem rounds_agree_own_and_accepted :
    let config (name : String) : Config := { name, peers := [], antiEntropyPeriod := 0, peerCount := 1 }
    let proposal : Proposal := ⟨⟨"a"⟩, 1, none, Word256.zero, ⟨"t", 0, []⟩, none⟩
    let confirmation : Proposal := ⟨⟨"a"⟩, 2, some 1, Word256.zero, ⟨"t", 0, []⟩, none⟩
    ∃ m m' : Machine, Run KeepsCounting (config "a") m ∧ Run KeepsCounting (config "b") m' ∧
      (config "a").peerCount = (config "b").peerCount ∧ (∀ o, m.node.store.log o = m'.node.store.log o) ∧
      m.node.store.log ⟨"a"⟩ = [.proposal proposal, .proposal confirmation] ∧ m.node.store.RefersBack ∧ m.Settled ∧
      m'.Settled ∧ m.node.round = 1 ∧ m.node.round = m'.node.round ∧
      IsLeast {r : Nat | (m.node.store.confirmers r).length < majority (config "a").peerCount.toNat} 1 := by
  intro config proposal confirmation
  let act (task : Nat) : Nat × Event := (task, .act 0)
  let own : List (Nat × Event) :=
    (0, .call (.propose proposal.transaction)) :: (List.replicate 6 (act 3) ++ List.replicate 4 (act 4))
  let accepted : List (Nat × Event) :=
    [(0, .arrive ⟨"A"⟩ (.proposal proposal)), act 1] ++ List.replicate 7 (act 3) ++
    [(0, .arrive ⟨"A"⟩ (.proposal confirmation)), act 1] ++ List.replicate 7 (act 5)
  let store : Store := (Store.empty.push (.proposal proposal)).push (.proposal confirmation)
  have played : ((start? (config "a") ⟨"A"⟩ .acceptAll).bind (play? KeepsCounting own)).map
      (fun m => (m.node.store, decide m.Settled, m.node.round)) = some (store, true, 1) := by decide +kernel
  have played' : ((start? (config "b") ⟨"B"⟩ .acceptAll).bind (play? KeepsCounting accepted)).map
      (fun m => (m.node.store, decide m.Settled)) = some (store, true) := by decide +kernel
  obtain ⟨m, hm, hstate⟩ := Option.map_eq_some_iff.1 played
  obtain ⟨m', hm', hstate'⟩ := Option.map_eq_some_iff.1 played'
  obtain ⟨hstore, hrest⟩ := Prod.mk.inj hstate
  obtain ⟨hsettled, hround⟩ := Prod.mk.inj hrest
  obtain ⟨hstore', hsettled'⟩ := Prod.mk.inj hstate'
  have logs : ∀ o, m.node.store.log o = m'.node.store.log o := fun o => by rw [hstore, hstore']
  have log : ∀ o, m.node.store.log o =
      if o = ⟨"a"⟩ then [.proposal proposal, .proposal confirmation] else [] := by
    intro o
    rw [hstore, Store.log_push, Store.log_push]
    by_cases h : o = ⟨"a"⟩
    · rw [h]; rfl
    · rw [if_neg h]
      exact (if_neg h).trans (if_neg h)
  have refers : m.node.store.RefersBack := by
    intro o r hr id hid
    unfold Store.proposals
    rw [log] at hr ⊢
    split at hr
    · rename_i ho
      rw [if_pos ho]
      rcases List.mem_cons.1 hr with rfl | hr
      · cases hid
      · rw [List.mem_singleton.1 hr] at hid ⊢
        obtain rfl := Option.some.inj hid
        exact ⟨by decide, .proposal proposal, List.mem_cons_self, rfl⟩
    · cases hr
  have run := run_of_start? hm
  have run' := run_of_start? hm'
  have agree := rounds_agree run run' rfl logs refers (of_decide_eq_true hsettled) (of_decide_eq_true hsettled')
  refine ⟨m, m', run, run', rfl, logs, by rw [log]; exact if_pos rfl, refers, of_decide_eq_true hsettled,
    of_decide_eq_true hsettled', hround, agree.1, ?_⟩
  have least := agree.2
  rw [hround] at least
  exact least

end Machine
end GossipNode
