import Mathlib.Data.List.Flatten
import GossipNode.Proofs.Network.Rounds
import GossipNode.Proofs.Network.Schedules
import GossipNode.Proofs.Node.Changes
/-!
# Histories

A history is a run together with what its tasks have done: every action that has been taken, with the node before it and
the step by which it was taken, the first one first.  It says what a state alone no longer shows, that something was done
once, or before something else.  Every run has a history, and a history of a run is one (`Run.history`, `History.run`).

A turn is told in terms of the scripts that are left, up to their order (`Machine.Move`); so what is counted over all
that tasks are still to do changes by what the one action leaves to be done (`Move.actions`).
-/
namespace GossipNode

/-- What the tasks that a node starts with wait for. -/
def Action.Standing : Action → Bool
  | .applyRoute | .receive | .publish | .takeProposal | .awaitPush _ | .awaitHeartbeat _ => true
  | _ => false

/-- An action that a task has taken: the node before it, and the step by which it was taken. -/
structure Deed where
  node : Node
  action : Action
  step : Step

/-- A record of the own name comes in from elsewhere and is new. -/
def Deed.TakesOwn (d : Deed) : Prop :=
  ∃ sender r, d.action = .accept sender r ∧ d.step.node.store = d.node.store.push r ∧ r.origin = d.node.name

/-- A record of the own name is offered by a peer. -/
def Deed.offersOwn (d : Deed) : Bool :=
  match d.action with
  | .accept _ r => r.origin == d.node.name
  | _ => false

/-- **Where no record of the own name is offered, none is taken.** -/
theorem Deed.not_takesOwn {deeds : List Deed} (h : deeds.any offersOwn = false) : ∀ d ∈ deeds, ¬ d.TakesOwn := by
  rintro d hd ⟨sender, r, ha, -, ho⟩
  have offers := List.any_eq_false.1 h d hd
  rw [offersOwn, ha] at offers
  exact offers (beq_iff_eq.2 ho)

namespace Machine

variable {m m' : Machine} {e : Event} {out : List Packet} {c : Config} {events : List Event} {deeds : List Deed} {d : Deed}
  {allowed allowed' : Machine → Event → Machine → Prop}

/-! ## One turn -/

/-- **What a turn does to the scripts**, up to their order, and the deed that it is, if it is one. -/
inductive Move (m : Machine) : Event → List Deed → Machine → Prop where
  | acted {now : Nat} {a : Action} {step : Step} {script : List Action} {others : List (List Action)} {m' : Machine}
      (perform : step ∈ m.node.perform now a) (taken : m.tasks.Perm ((a :: script) :: others)) (node : m'.node = step.node)
      (left : m'.tasks.Perm ((step.next ++ script) :: (others ++ step.started))) :
    Move m (.act now) [⟨m.node, a, step⟩] m'
  | answered {q : Request} {m' : Machine} (node : m'.node = (m.node.answer q).node)
      (left : m'.tasks.Perm ((m.node.answer q).next :: (m.node.answer q).started ++ m.tasks)) : Move m (.call q) [] m'
  | arrived {n : Node} {room : Nat} {sender : PeerAddress} {p : Packet} (arrive : m.node.arrive room sender p = some n) :
    Move m (.arrive sender p) [] ⟨n, m.tasks⟩
  | closed : Move m .closeInbox [] ⟨{ m.node with inboxOpen := false }, m.tasks⟩
  | stopped {left : List (List Action)} (sub : left.Sublist m.tasks) : Move m .shutdown [] ⟨m.node.shutdown, left⟩

theorem Move.of_act {n : Node} {before after : List (List Action)} {a : Action} {script : List Action} {now : Nat}
    {step : Step} (perform : step ∈ n.perform now a) :
    Move ⟨n, before ++ (a :: script) :: after⟩ (.act now) [⟨n, a, step⟩]
      ⟨step.node, before ++ (step.next ++ script) :: after ++ step.started⟩ := by
  refine @Move.acted _ now a step script (before ++ after) _ perform List.perm_middle rfl ?_
  simp only [List.append_assoc, List.cons_append]
  exact List.perm_middle

/-! ## Histories -/

/-- **A run and what its tasks have done.** -/
inductive History (allowed : Machine → Event → Machine → Prop) (c : Config) : List Deed → Machine → Prop where
  | start {m : Machine} (fresh : m.Fresh c) : History allowed c [] m
  | act {n : Node} {before after : List (List Action)} {a : Action} {script : List Action} {now : Nat} {step : Step}
      {deeds : List Deed} (h : History allowed c deeds ⟨n, before ++ (a :: script) :: after⟩)
      (perform : step ∈ n.perform now a)
      (ok : allowed ⟨n, before ++ (a :: script) :: after⟩ (.act now)
        ⟨step.node, before ++ (step.next ++ script) :: after ++ step.started⟩)
      (fits : step.node.store.Fits) :
    History allowed c (deeds ++ [⟨n, a, step⟩]) ⟨step.node, before ++ (step.next ++ script) :: after ++ step.started⟩
  | other {m m' : Machine} {e : Event} {out : List Packet} {deeds : List Deed} (h : History allowed c deeds m)
      (turn : m.Turn e out m') (idle : ∀ now, e ≠ .act now) (ok : allowed m e m') (fits : m'.node.store.Fits) :
    History allowed c deeds m'

theorem History.run (h : History allowed c deeds m) : Run allowed c m := by
  induction h with
  | start fresh => exact .start fresh
  | act _ perform ok fits ih => exact ih.turn (.act perform) ok fits
  | other _ turn _ ok fits ih => exact ih.turn turn ok fits

theorem Run.history (h : Run allowed c m) : ∃ deeds, History allowed c deeds m := by
  induction h with
  | start fresh => exact ⟨[], .start fresh⟩
  | turn _ turn ok fits ih =>
    obtain ⟨deeds, history⟩ := ih
    cases turn with
    | act perform => exact ⟨_, history.act perform ok fits⟩
    | call q => exact ⟨deeds, history.other (.call q) (fun _ h => nomatch h) ok fits⟩
    | arrive h => exact ⟨deeds, history.other (.arrive h) (fun _ h => nomatch h) ok fits⟩
    | closeInbox => exact ⟨deeds, history.other .closeInbox (fun _ h => nomatch h) ok fits⟩
    | shutdown h => exact ⟨deeds, history.other (.shutdown h) (fun _ h => nomatch h) ok fits⟩

/-- **A run with everything that has happened in it**, and what its tasks have done. -/
inductive Chronicle (allowed : Machine → Event → Machine → Prop) (c : Config) :
    List Event → List Deed → Machine → Prop where
  | start {m : Machine} (fresh : m.Fresh c) : Chronicle allowed c [] [] m
  | act {n : Node} {before after : List (List Action)} {a : Action} {script : List Action} {now : Nat} {step : Step}
      {events : List Event} {deeds : List Deed}
      (h : Chronicle allowed c events deeds ⟨n, before ++ (a :: script) :: after⟩) (perform : step ∈ n.perform now a)
      (ok : allowed ⟨n, before ++ (a :: script) :: after⟩ (.act now)
        ⟨step.node, before ++ (step.next ++ script) :: after ++ step.started⟩)
      (fits : step.node.store.Fits) :
    Chronicle allowed c (events ++ [.act now]) (deeds ++ [⟨n, a, step⟩])
      ⟨step.node, before ++ (step.next ++ script) :: after ++ step.started⟩
  | other {m m' : Machine} {e : Event} {out : List Packet} {events : List Event} {deeds : List Deed}
      (h : Chronicle allowed c events deeds m) (turn : m.Turn e out m') (idle : ∀ now, e ≠ .act now) (ok : allowed m e m')
      (fits : m'.node.store.Fits) : Chronicle allowed c (events ++ [e]) deeds m'

theorem Chronicle.history (h : Chronicle allowed c events deeds m) : History allowed c deeds m := by
  induction h with
  | start fresh => exact .start fresh
  | act _ perform ok fits ih => exact ih.act perform ok fits
  | other _ turn idle ok fits ih => exact ih.other turn idle ok fits

theorem History.chronicle (h : History allowed c deeds m) : ∃ events, Chronicle allowed c events deeds m := by
  induction h with
  | start fresh => exact ⟨[], .start fresh⟩
  | act _ perform ok fits ih =>
    obtain ⟨events, chronicle⟩ := ih
    exact ⟨_, chronicle.act perform ok fits⟩
  | other _ turn idle ok fits ih =>
    obtain ⟨events, chronicle⟩ := ih
    exact ⟨_, chronicle.other turn idle ok fits⟩

/-- **What holds at the start and after every move holds all along**, with all that holds of any run. -/
theorem Chronicle.induct {P : List Event → List Deed → Machine → Prop} (h : Chronicle allowed c events deeds m)
    (start : ∀ m : Machine, m.Fresh c → P [] [] m)
    (move : ∀ {events : List Event} {deeds more : List Deed} {m m' : Machine} {e : Event},
      Chronicle allowed c events deeds m → P events deeds m → m.Move e more m' → allowed m e m' → m'.node.store.Fits →
      P (events ++ [e]) (deeds ++ more) m') : P events deeds m := by
  induction h with
  | start fresh => exact start _ fresh
  | act h perform ok fits ih => exact move h ih (.of_act perform) ok fits
  | @other m m' e out events deeds h turn idle ok fits ih =>
    rw [← List.append_nil deeds]
    cases turn with
    | @act _ _ _ _ _ now => exact absurd rfl (idle now)
    | call q => exact move h ih (.answered rfl List.perm_append_comm) ok fits
    | arrive arrive => exact move h ih (.arrived arrive) ok fits
    | closeInbox => exact move h ih .closed ok fits
    | shutdown sub => exact move h ih (.stopped sub) ok fits

theorem History.induct {P : List Deed → Machine → Prop} (h : History allowed c deeds m)
    (start : ∀ m : Machine, m.Fresh c → P [] m)
    (move : ∀ {deeds more : List Deed} {m m' : Machine} {e : Event}, History allowed c deeds m → P deeds m → m.Move e more m' →
      allowed m e m' → m'.node.store.Fits → P (deeds ++ more) m') : P deeds m := by
  obtain ⟨events, chronicle⟩ := h.chronicle
  exact chronicle.induct (P := fun _ deeds m => P deeds m) start (fun h ih => move h.history ih)

/-- **Every deed of a history was done after the history of those before it.** -/
theorem History.past (h : History allowed c deeds m) {before after : List Deed} (split : deeds = before ++ d :: after) :
    ∃ m m' now, History allowed c before m ∧ m.Move (.act now) [d] m' ∧ allowed m (.act now) m' ∧ m'.node.store.Fits := by
  induction h generalizing after with
  | start => exact absurd split.symm (by simp)
  | @act n left right a script now step deeds h perform ok fits ih =>
    rcases List.eq_nil_or_concat' after with rfl | ⟨after, last, rfl⟩
    · obtain ⟨rfl, hlast⟩ := List.append_inj' split rfl
      obtain rfl := (List.cons.inj hlast).1
      exact ⟨_, _, now, h, .of_act perform, ok, fits⟩
    · rw [← List.cons_append, ← List.append_assoc] at split
      exact ih (List.append_inj' split rfl).1
  | other _ _ _ _ _ ih => exact ih split

/-- **Every deed of a history is a step of its action.** -/
theorem History.performed (h : History allowed c deeds m) (hd : d ∈ deeds) :
    ∃ now, d.step ∈ d.node.perform now d.action := by
  obtain ⟨before, after, split⟩ := List.append_of_mem hd
  obtain ⟨_, _, now, -, move, -, -⟩ := h.past split
  cases move with
  | acted perform => exact ⟨now, perform⟩

/-! ## What a shutdown leaves -/

/-- **A shutdown changes nothing for the tasks that it leaves**: with the tasks that it ended they are those of a run in
which none was ended.  So what is known of such runs holds of the node and of the tasks left. -/
theorem Run.uncut (h : Run allowed c m) : ∃ tasks, m.tasks.Sublist tasks ∧ Run KeepsCounting c ⟨m.node, tasks⟩ := by
  induction h with
  | @start m fresh => exact ⟨m.tasks, List.Sublist.refl _, .start fresh⟩
  | turn _ turn _ fits ih =>
    obtain ⟨tasks, sub, run⟩ := ih
    cases turn with
    | @act n before after a script now step perform =>
      -- the script stands among the uncut tasks as well, with more of them on either side
      obtain ⟨before', rest, rfl, hbefore, hrest⟩ := List.append_sublist_iff.1 sub
      obtain ⟨between, after', rfl, hmem, hafter⟩ := List.cons_sublist_iff.1 hrest
      obtain ⟨left, right, rfl⟩ := List.append_of_mem hmem
      rw [show before' ++ (left ++ (a :: script) :: right ++ after') =
        (before' ++ left) ++ (a :: script) :: (right ++ after') by simp] at run
      refine ⟨_, ?_, run.turn (.act perform) trivial fits⟩
      have hbefore : before.Sublist (before' ++ left) := hbefore.trans (List.sublist_append_left _ _)
      have hafter : after.Sublist (right ++ after') := hafter.trans (List.sublist_append_right _ _)
      exact (hbefore.append (hafter.cons_cons _)).append (List.Sublist.refl _)
    | @call n _ q =>
      exact ⟨_, sub.append (List.Sublist.refl _), run.turn (.call q) trivial fits⟩
    | arrive arrive => exact ⟨tasks, sub, run.turn (.arrive arrive) trivial fits⟩
    | closeInbox => exact ⟨tasks, sub, run.turn .closeInbox trivial fits⟩
    | shutdown left =>
      exact ⟨tasks, left.trans sub, run.turn (.shutdown (List.Sublist.refl _)) (fun _ h _ => h) fits⟩

/-! ## What is known of every run -/

section Known

variable {a : Action}

theorem Todo.of_sublist {tasks : List (List Action)} (h : m.Todo a) (sub : m.tasks.Sublist tasks) :
    Machine.Todo ⟨m.node, tasks⟩ a := by
  obtain ⟨script, hs, ha⟩ := h
  exact ⟨script, sub.subset hs, ha⟩

theorem Run.tallied (h : Run allowed c m) : ∃ tasks counted, m.tasks.Sublist tasks ∧
    Machine.Tallied (majority c.peerCount.toNat) ⟨m.node, tasks⟩ counted := by
  obtain ⟨tasks, sub, run⟩ := h.uncut
  obtain ⟨counted, tallied⟩ := tallied_of_run run
  exact ⟨tasks, counted, sub, tallied⟩

theorem Run.sound (h : Run allowed c m) : m.node.store.Sound := by
  obtain ⟨_, _, -, tallied⟩ := h.tallied
  exact tallied.sound

theorem Run.fits (h : Run allowed c m) : m.node.store.Fits := by
  obtain ⟨_, _, -, tallied⟩ := h.tallied
  exact tallied.fits

/-- What a task is about to do carries what the store says. -/
theorem Run.placed (h : Run allowed c m) (ha : m.Todo a) : a.Placed m.node.store m.node.name := by
  obtain ⟨_, _, sub, tallied⟩ := h.tallied
  exact tallied.placed a (ha.of_sublist sub)

/-- **No round is the last one that a word holds**, so closing rounds moves the current one on. -/
theorem Run.advances (h : Run allowed c m) (ha : m.Todo a) : m.node.Advances a := by
  rintro o round rfl
  obtain ⟨_, _, sub, tallied⟩ := h.tallied
  have placed := tallied.placed _ (ha.of_sublist sub)
  have same : ∀ o, m.node.store.log o <+: m.node.store.log o := fun _ => List.prefix_rfl
  have justified := tallied.justified_counted placed same
  have pos : 0 < m.node.broadcast.tracker.threshold := by
    rw [tallied.threshold]
    exact Nat.le_max_right _ _
  exact (tallied.tracks.closes pos (.of_room pos (room_of_justified tallied.fits justified))).current

end Known

end Machine

namespace Node

/-- **What happens to the core of a node without an action**: a packet comes in, or a record that is no proposal is made
here at a caller's request. -/
inductive IdleChange (n : Node) : Core → Prop where
  | heard (inbox : List (PeerAddress × Packet)) : IdleChange n { n.core with inbox }
  | posted {r : Record} (origin : r.origin = n.name) (id : r.id = n.store.nextId r.origin) (other : ∀ m, r ≠ .proposal m) :
    IdleChange n { n.core with store := n.store.push r }

namespace IdleChange

variable {n : Node} {core : Core}

theorem name_eq (h : n.IdleChange core) : core.name = n.name := by cases h <;> rfl

theorem config_eq (h : n.IdleChange core) : core.config = n.config := by cases h <;> rfl

theorem broadcast_eq (h : n.IdleChange core) : core.broadcast = n.broadcast := by cases h <;> rfl

theorem log_prefix (h : n.IdleChange core) (o : Origin) : n.store.log o <+: core.store.log o := by
  cases h with
  | heard => exact List.prefix_rfl
  | posted => exact Store.log_prefix_push _ _ o

theorem proposals_eq (h : n.IdleChange core) (o : Origin) : core.store.proposals o = n.store.proposals o := by
  cases h with
  | heard => rfl
  | posted _ _ other => exact Store.proposals_push_of_other _ (Store.isUnconfirmedProposal_of_other other) o

end IdleChange
end Node

namespace Machine

variable {m m' : Machine} {e : Event} {c : Config} {events : List Event} {deeds : List Deed}
  {allowed : Machine → Event → Machine → Prop} {a : Action}

theorem Move.idle (h : m.Move e [] m') : m.node.IdleChange m'.node.core := by
  cases h with
  | @answered q _ node left =>
    rw [node]
    rcases m.node.frame_answer q with he | ⟨r, origin, id, other, he⟩
    · rw [Node.core_of_frame he]
      exact .heard m.node.inbox
    · rw [show (m.node.answer q).node.core = _ from congrArg Node.Frame.core he]
      exact .posted origin id other
  | arrived arrive =>
    rw [show Node.core _ = _ from congrArg Node.Frame.core (Node.frame_arrive arrive)]
    exact .heard _
  | closed => exact .heard m.node.inbox
  | stopped sub =>
    rw [Node.core_of_frame m.node.frame_shutdown]
    exact .heard m.node.inbox

theorem Move.queue_of_idle (h : m.Move e [] m') : m'.node.proposalQueue = m.node.proposalQueue := by
  cases h with
  | @answered q _ node left => rw [node]; exact congrArg Node.Desk.queue (m.node.desk_answer q)
  | arrived arrive => exact congrArg (fun b => b.desk.queue) (Node.backdrop_arrive arrive)
  | closed => rfl
  | stopped sub => exact congrArg (fun b => b.desk.queue) m.node.backdrop_shutdown

/-- **A node keeps its name and its configuration.** -/
theorem Run.kept (h : Run allowed c m) : m.node.name = c.origin ∧ m.node.config = c := by
  obtain ⟨deeds, history⟩ := h.history
  refine history.induct (P := fun _ m => m.node.name = c.origin ∧ m.node.config = c) ?_ ?_
  · rintro m ⟨_, _, _, _, hnew, -⟩
    have core := Node.core_new hnew
    exact ⟨congrArg Node.Core.name core, congrArg Node.Core.config core⟩
  · intro deeds more m m' e _ ih move _ _
    cases more with
    | nil => exact ⟨move.idle.name_eq.trans ih.1, move.idle.config_eq.trans ih.2⟩
    | cons d more =>
      cases move with
      | acted perform taken node left =>
        obtain ⟨name, config⟩ := Node.kept_of_perform perform
        rw [node]
        exact ⟨name.trans ih.1, config.trans ih.2⟩

/-! ## What is left to be done -/

/-- All that the tasks are still to do. -/
def actions (m : Machine) : List Action := m.tasks.flatten

theorem mem_actions : a ∈ m.actions ↔ m.Todo a := List.mem_flatten

/-- **A node starts with nothing to do but to wait.** -/
theorem Fresh.standing (fresh : m.Fresh c) (ha : m.Todo a) : a.Standing = true := by
  obtain ⟨_, _, _, _, -, htasks⟩ := fresh
  obtain ⟨script, hs, ha⟩ := ha
  rw [htasks] at hs
  obtain ⟨t, ht, rfl⟩ := List.mem_map.1 hs
  rcases script_of_task ht with h | h | h | h | ⟨_, h⟩ | ⟨_, h⟩ <;>
  · rw [h] at ha
    rw [List.mem_singleton.1 ha]
    rfl

theorem todo_of_taken {script : List Action} {others : List (List Action)} (taken : m.tasks.Perm ((a :: script) :: others)) :
    m.Todo a := ⟨a :: script, taken.mem_iff.2 List.mem_cons_self, List.mem_cons_self⟩

/-- What is to be done after an action was to be done before, or follows from the action. -/
theorem todo_of_left {step : Step} {script : List Action} {others : List (List Action)} {a' : Action}
    (taken : m.tasks.Perm ((a :: script) :: others))
    (left : m'.tasks.Perm ((step.next ++ script) :: (others ++ step.started))) (ha : m'.Todo a') :
    m.Todo a' ∨ a' ∈ step.todo := by
  obtain ⟨script', hs, ha⟩ := ha
  rcases List.mem_cons.1 (left.mem_iff.1 hs) with rfl | hs
  · rcases List.mem_append.1 ha with ha | ha
    · exact .inr (List.mem_append_left _ ha)
    · exact .inl ⟨a :: script, taken.mem_iff.2 List.mem_cons_self, List.mem_cons_of_mem _ ha⟩
  · rcases List.mem_append.1 hs with hs | hs
    · exact .inl ⟨script', taken.mem_iff.2 (List.mem_cons_of_mem _ hs), ha⟩
    · exact .inr (Step.mem_todo_of_started hs ha)

theorem Move.todo_of_idle (h : m.Move e [] m') (ha : m'.Todo a) : m.Todo a ∨ ∃ q, a ∈ (m.node.answer q).todo := by
  obtain ⟨script, hs, ha⟩ := ha
  cases h with
  | @answered q _ node left =>
    rcases List.mem_append.1 (left.mem_iff.1 hs) with hs | hs
    · rcases List.mem_cons.1 hs with rfl | hs
      · exact .inr ⟨q, List.mem_append_left _ ha⟩
      · exact .inr ⟨q, Step.mem_todo_of_started hs ha⟩
    · exact .inl ⟨script, hs, ha⟩
  | arrived | closed => exact .inl ⟨script, hs, ha⟩
  | stopped sub => exact .inl ⟨script, sub.subset hs, ha⟩

/-- **What is left to be done after an action**: the action goes, and what it leaves comes. -/
theorem perm_acted {step : Step} {script : List Action} {others : List (List Action)}
    (taken : m.tasks.Perm ((a :: script) :: others))
    (left : m'.tasks.Perm ((step.next ++ script) :: (others ++ step.started))) :
    m.actions.Perm (a :: (script ++ others.flatten)) ∧
      m'.actions.Perm (step.next ++ step.started.flatten ++ (script ++ others.flatten)) := by
  refine ⟨taken.flatten, left.flatten.trans ?_⟩
  rw [List.flatten_cons, List.flatten_append, List.append_assoc, List.append_assoc]
  refine List.Perm.append_left _ ?_
  rw [← List.append_assoc]
  exact List.perm_append_comm

theorem countP_acted {step : Step} {script : List Action} {others : List (List Action)}
    (taken : m.tasks.Perm ((a :: script) :: others))
    (left : m'.tasks.Perm ((step.next ++ script) :: (others ++ step.started))) (p : Action → Bool) :
    m'.actions.countP p + (if p a then 1 else 0) =
      m.actions.countP p + (step.next ++ step.started.flatten).countP p := by
  obtain ⟨before, after⟩ := perm_acted taken left
  have before := before.countP_eq p
  have after := after.countP_eq p
  rw [List.countP_cons] at before
  rw [List.countP_append] at after
  omega

/-- Without an action nothing is added but what a request begins, and only a shutdown takes anything away. -/
theorem Move.actions_of_idle (h : m.Move e [] m') :
    (∃ begun, m'.actions.Perm (begun ++ m.actions) ∧ ∀ a ∈ begun, ∃ q, a ∈ (m.node.answer q).todo) ∨
    e = .shutdown ∧ m'.tasks.Sublist m.tasks := by
  cases h with
  | @answered q _ node left =>
    refine .inl ⟨((m.node.answer q).next :: (m.node.answer q).started).flatten, ?_, fun a ha => ⟨q, ?_⟩⟩
    · rw [actions, actions, ← List.flatten_append]
      exact left.flatten
    · obtain ⟨script, hs, ha⟩ := List.mem_flatten.1 ha
      rcases List.mem_cons.1 hs with rfl | hs
      · exact List.mem_append_left _ ha
      · exact Step.mem_todo_of_started hs ha
  | arrived | closed => exact .inl ⟨[], List.Perm.refl _, (fun _ h => nomatch h)⟩
  | stopped sub => exact .inr ⟨rfl, sub⟩

theorem Move.countP_of_idle (h : m.Move e [] m') {p : Action → Bool}
    (begun : ∀ q, ∀ a ∈ (m.node.answer q).todo, p a = false) :
    m'.actions.countP p = m.actions.countP p ∨ e = .shutdown ∧ m'.tasks.Sublist m.tasks := by
  rcases h.actions_of_idle with ⟨new, added, hnew⟩ | stopped
  · have none : new.countP p = 0 := by
      refine List.countP_eq_zero.2 (fun a ha => ?_)
      obtain ⟨q, ha⟩ := hnew a ha
      rw [begun q a ha]
      exact Bool.false_ne_true
    exact .inl (by rw [added.countP_eq p, List.countP_append, none, Nat.zero_add])
  · exact .inr stopped

/-! ## Histories by schedule -/

/-- What is done in the turn in which this happens. -/
def deed? (m : Machine) (task : Nat) : Event → List Deed
  | .act now =>
    match m.tasks[task]? with
    | some (a :: _) => ((m.node.perform now a).head?.map (fun step => ⟨m.node, a, step⟩)).toList
    | _ => []
  | _ => []

theorem deed?_act {n : Node} {tasks : List (List Action)} {task now : Nat} {a : Action} {script : List Action} {step : Step}
    (next : tasks[task]? = some (a :: script)) (first : (n.perform now a).head? = some step) :
    Machine.deed? ⟨n, tasks⟩ task (.act now) = [⟨n, a, step⟩] := by
  simp [deed?, next, first]

theorem chronicle_of_next? {task : Nat} {out : List Packet} (h : Chronicle allowed c events deeds m)
    (hnext : m.next? task e = some (out, m')) (ok : allowed m e m') (fits : m'.node.store.Fits) :
    Chronicle allowed c (events ++ [e]) (deeds ++ m.deed? task e) m' := by
  have turn := turn_of_next? hnext
  cases e with
  | act now =>
    obtain ⟨n, tasks⟩ := m
    simp only [next?] at hnext
    split at hnext
    · rename_i a script ht
      obtain ⟨step, hstep, he⟩ := Option.map_eq_some_iff.1 hnext
      obtain ⟨rfl, rfl⟩ := Prod.mk.inj he
      rw [deed?_act ht hstep]
      have act := @Chronicle.act allowed c n (tasks.take task) (tasks.drop (task + 1)) a script now step events deeds
      rw [← eq_take_append_drop ht] at act
      exact act h (List.mem_of_mem_head? hstep) ok fits
    · cases hnext
  | call | arrive | closeInbox | shutdown =>
    rw [show m.deed? task _ = [] from rfl, List.append_nil]
    exact h.other turn (fun _ h => by cases h) ok fits

/-- The history that a schedule leads to, with all turns allowed. -/
def playDeeds? (allowed : Machine → Event → Machine → Prop) [∀ m e m', Decidable (allowed m e m')] :
    List (Nat × Event) → List Deed × Machine → Option (List Deed × Machine)
  | [], x => some x
  | (task, e) :: moves, (deeds, m) =>
    (m.next? task e).bind fun x =>
      if allowed m e x.2 ∧ x.2.node.store.Fits then playDeeds? allowed moves (deeds ++ m.deed? task e, x.2) else none

theorem chronicle_of_playDeeds? [∀ m e m', Decidable (allowed m e m')] {moves : List (Nat × Event)} {deeds' : List Deed}
    (h : Chronicle allowed c events deeds m) (hplay : playDeeds? allowed moves (deeds, m) = some (deeds', m')) :
    Chronicle allowed c (events ++ moves.map Prod.snd) deeds' m' := by
  induction moves generalizing events deeds m with
  | nil =>
    obtain ⟨rfl, rfl⟩ := Prod.mk.inj (Option.some.inj hplay)
    rw [List.map_nil, List.append_nil]
    exact h
  | cons move moves ih =>
    obtain ⟨⟨out, m''⟩, hnext, hrest⟩ := Option.bind_eq_some_iff.1 hplay
    split at hrest
    · rename_i ok
      have chronicle := ih (chronicle_of_next? h hnext ok.1 ok.2) hrest
      rw [List.append_assoc] at chronicle
      exact chronicle
    · cases hrest

/-- **A schedule leads to a history**, with what is seen at its end. -/
theorem chronicle_of_start? [∀ m e m', Decidable (allowed m e m')] {address : PeerAddress} {auth : Authenticator}
    {moves : List (Nat × Event)} {β : Type} {view : List Deed × Machine → β} {seen : β}
    (h : ((start? c address auth).bind (fun m => playDeeds? allowed moves ([], m))).map view = some seen) :
    ∃ deeds m, Chronicle allowed c (moves.map Prod.snd) deeds m ∧ view (deeds, m) = seen := by
  obtain ⟨⟨deeds, m⟩, hplayed, hview⟩ := Option.map_eq_some_iff.1 h
  obtain ⟨first, hstart, hplay⟩ := Option.bind_eq_some_iff.1 hplayed
  exact ⟨deeds, m, chronicle_of_playDeeds? (.start (fresh_of_start? hstart)) hplay, hview⟩

theorem history_of_start? [∀ m e m', Decidable (allowed m e m')] {address : PeerAddress} {auth : Authenticator}
    {moves : List (Nat × Event)} {β : Type} {view : List Deed × Machine → β} {seen : β}
    (h : ((start? c address auth).bind (fun m => playDeeds? allowed moves ([], m))).map view = some seen) :
    ∃ deeds m, History allowed c deeds m ∧ view (deeds, m) = seen := by
  obtain ⟨deeds, m, chronicle, hview⟩ := chronicle_of_start? h
  exact ⟨deeds, m, chronicle.history, hview⟩

end Machine
end GossipNode
