import Mathlib.Data.List.Nodup
import Mathlib.Tactic.Choose
import GossipNode.Proofs.Network.Actions
import GossipNode.Proofs.Network.Schedules
/-!
# Commits are backed by a majority

The run-long invariant of a network of machines, `Network.Grounded`: the stores agree, every machine and every packet
that has been sent is grounded, and behind every confirmation in a node's own log there is a proposal of the node that
enough nodes hold.  One turn of a machine keeps it, whatever happens in the turn; `Network.commits_are_backed` says
what it means for the stores.
-/
namespace GossipNode

variable {ι : Type} {w : Scene ι} {i : ι}

/-! ## Requests -/

namespace Node

variable {n : Node}

/-- What is routed and acknowledges nothing carries no record either. -/
theorem grounded_of_routed {p : Packet} {d : Origin} (hd : p.destination? = some d) (hp : ∀ a, p ≠ .ack a) :
    p.Grounded w := by
  cases p with
  | ack a => exact absurd rfl (hp a)
  | rumor | status | searchRequest | proposal | block => cases hd
  | _ => exact fun _ hr => nomatch hr

theorem leads_originate {p : Packet} (hp : ∀ a, p ≠ .ack a) : (n.originate p).2.Leads w i := by
  unfold originate
  split
  · exact leads_rest _
  · rename_i d hd
    split
    · unfold deliverHere
      split
      · exact leads_rest _
      · rename_i a
        exact absurd rfl (hp a)
      · exact leads_rest _
    · exact leads_forward (grounded_of_routed hd hp) d

/-- **No request leaves the ground**, unless acknowledgments are handed in. -/
theorem grounded_answer {q : Request} (hs : (n.answer q).node.store = w.stores i) (core : n.core.Grounded w i)
    (hq : ∀ p a, q = .sendRouted p → p ≠ .ack a) : (n.answer q).Grounded w i := by
  cases q with
  | postRumor text => exact grounded_postRumor core hs
  | sendPrivate d text =>
    exact ⟨leads_originate (fun _ h => nomatch h), by rw [answer, sendPrivate, core_of_frame (frame_originate _ _)]; exact core⟩
  | sendRouted p =>
    exact ⟨leads_originate (fun a => hq p a rfl), by rw [answer, core_of_frame (frame_originate _ _)]; exact core⟩
  | propose tx => exact ⟨leads_proceed_one _ trivial, core⟩
  | giveUpCall call => exact ⟨leads_rest _, core⟩
  | submitBallot t b =>
    exact ⟨⟨(leads_openTopic t).next, (leads_openTopic t).effects⟩, by rw [answer, core_of_frame (frame_submitBallot _ _ _)]; exact core⟩
  | addPeer p =>
    refine ⟨leads_rest _, ?_⟩
    rw [answer, rest, core_of_frame (frame_learnPeer _ _)]
    exact core

/-- **What a request may do to the store**: put in a record of the own name that confirms nothing. -/
theorem store_answer (n : Node) (q : Request) : (n.answer q).node.store = n.store ∨
    ∃ r, r.origin = n.name ∧ r.id = n.store.nextId r.origin ∧ (∀ m, r ≠ .proposal m) ∧
      (n.answer q).node.store = n.store.push r := by
  rcases n.frame_answer q with he | ⟨r, origin, id, hr, he⟩
  · exact .inl (congrArg (fun f => f.core.store) he)
  · exact .inr ⟨r, origin, id, hr, congrArg (fun f => f.core.store) he⟩

end Node

/-! ## Machines -/

namespace Machine

variable {m m' : Machine} {e : Event} {out : List Packet}

/-- A machine rests on a scene: its node and all that its tasks are about to do. -/
structure Grounded (w : Scene ι) (i : ι) (m : Machine) : Prop where
  node : m.node.core.Grounded w i
  tasks : ∀ script ∈ m.tasks, ∀ a ∈ script, a.Grounded w i

theorem Grounded.mono {w' : Scene ι} (h : m.Grounded w i) (g : w.Grows w') : m.Grounded w' i :=
  ⟨h.node.mono g, fun script hs a ha => (h.tasks script hs a ha).mono g⟩

theorem grounded_started {s : Step} (h : s.Leads w i) : ∀ script ∈ s.started, ∀ a ∈ script, a.Grounded w i := by
  intro script hs
  unfold Step.started at hs
  split at hs
  · cases hs
  · obtain ⟨e, he, hes⟩ := List.mem_filterMap.1 hs
    cases e with
    | spawn name script' =>
      obtain rfl := Option.some.inj hes
      exact h.effects _ he
    | send receiver p => cases hes
    | signal s => cases hes

theorem grounded_sent {s : Step} (h : s.Leads w i) : ∀ p ∈ s.sent, p.Grounded w := by
  intro p hp
  obtain ⟨e, he, hep⟩ := List.mem_filterMap.1 hp
  cases e with
  | send receiver p' =>
    obtain rfl := Option.some.inj hep
    exact h.effects _ he
  | spawn name script => cases hep
  | signal s => cases hep

/-- **No turn leaves the ground**, if what arrives is grounded.  The scene is the one after the turn. -/
theorem grounded_of_turn (h : m.Turn e out m') (hs : m'.node.store = w.stores i) (sound : (w.stores i).Sound)
    (g : m.Grounded w i) (arrives : ∀ sender p, e = .arrive sender p → p.Grounded w)
    (asks : ∀ p a, e = .call (.sendRouted p) → p ≠ .ack a) : m'.Grounded w i ∧ ∀ p ∈ out, p.Grounded w := by
  cases h with
  | @act n before after a script now step h =>
    have ha : a.Grounded w i :=
      g.tasks (a :: script) (List.mem_append_right _ List.mem_cons_self) a List.mem_cons_self
    have hstep := n.grounded_of_perform h hs sound g.node ha
    refine ⟨⟨hstep.node, fun s hs a' ha' => ?_⟩, grounded_sent hstep.toLeads⟩
    rcases List.mem_append.1 hs with hs | hs
    · rcases List.mem_append.1 hs with hs | hs
      · exact g.tasks s (List.mem_append_left _ hs) a' ha'
      · rcases List.mem_cons.1 hs with rfl | hs
        · rcases List.mem_append.1 ha' with ha' | ha'
          · exact hstep.next a' ha'
          · exact g.tasks (a :: script) (List.mem_append_right _ List.mem_cons_self) a' (List.mem_cons_of_mem _ ha')
        · exact g.tasks s (List.mem_append_right _ (List.mem_cons_of_mem _ hs)) a' ha'
    · exact grounded_started hstep.toLeads s hs a' ha'
  | @call n tasks q =>
    have hstep : (n.answer q).Grounded w i := n.grounded_answer hs g.node (fun p a hq => asks p a (by rw [hq]))
    refine ⟨⟨hstep.node, fun s hs a' ha' => ?_⟩, grounded_sent hstep.toLeads⟩
    rcases List.mem_append.1 hs with hs | hs
    · exact g.tasks s hs a' ha'
    · rcases List.mem_cons.1 hs with rfl | hs
      · exact hstep.next a' ha'
      · exact grounded_started hstep.toLeads s hs a' ha'
  | @arrive n n' tasks room sender p h =>
    refine ⟨⟨?_, g.tasks⟩, fun _ hp => nomatch hp⟩
    have core : n'.core = { n.core with inbox := n.inbox ++ [(sender, p)] } :=
      congrArg Node.Frame.core (Node.frame_arrive h)
    rw [core]
    refine { g.node with inbox := fun e he => ?_ }
    rcases List.mem_append.1 he with he | he
    · exact g.node.inbox e he
    · rw [List.mem_singleton.1 he]; exact arrives sender p rfl
  | closeInbox => exact ⟨⟨g.node, g.tasks⟩, fun _ hp => nomatch hp⟩
  | @shutdown n tasks left h =>
    refine ⟨⟨?_, fun s hs => g.tasks s (h.subset hs)⟩, fun _ hp => nomatch hp⟩
    rw [Node.core_of_frame n.frame_shutdown]
    exact g.node

/-- **What a turn may do to the store**: nothing; or it puts in a record with the next number, which a task was about
to offer or which is of the own name; and it confirms only what a task was about to confirm. -/
inductive StoreChange (m : Machine) : Store → Prop where
  | same : StoreChange m m.node.store
  | accepted (sender : PeerAddress) (r : Record) (script : List Action) (task : script ∈ m.tasks)
      (offers : .accept sender r ∈ script) (id : r.id = m.node.store.nextId r.origin) :
      StoreChange m (m.node.store.push r)
  | made (r : Record) (origin : r.origin = m.node.name) (id : r.id = m.node.store.nextId r.origin)
      (confirms : ∀ c p, r = .proposal c → c.confirmed = some p →
        ∃ script ∈ m.tasks, ∃ round clock, .storeConfirmation p round c.transaction clock ∈ script) :
      StoreChange m (m.node.store.push r)

theorem storeChange_of_turn (h : m.Turn e out m') : m.StoreChange m'.node.store := by
  cases h with
  | @act n before after a script now step h =>
    have task : a :: script ∈ before ++ (a :: script) :: after := List.mem_append_right _ List.mem_cons_self
    generalize hs : step.node.store = s'
    have change := n.storeChange_of_perform h
    rw [hs] at change
    cases change with
    | same => exact .same
    | accepted sender r id => exact .accepted sender r _ task List.mem_cons_self id
    | made _ r origin id confirms =>
      refine .made r origin id (fun c p hr hp => ?_)
      obtain ⟨round, clock, rfl⟩ := confirms c p hr hp
      exact ⟨_, task, round, clock, List.mem_cons_self⟩
  | @call n tasks q =>
    rcases n.store_answer q with hs | ⟨r, origin, id, hr, hs⟩
    · exact hs ▸ .same
    · exact hs ▸ .made r origin id (fun c p hc _ => absurd hc (hr c))
  | @arrive n n' tasks room sender p h =>
    have : n'.store = n.store := congrArg (fun f => f.core.store) (Node.frame_arrive h)
    exact this ▸ .same
  | closeInbox => exact .same
  | @shutdown n tasks left h =>
    have : n.shutdown.store = n.store := congrArg (fun f => f.core.store) n.frame_shutdown
    exact this ▸ .same

theorem StoreChange.log_prefix {s : Store} (h : m.StoreChange s) (o : Origin) : m.node.store.log o <+: s.log o := by
  cases h with
  | same => exact List.prefix_rfl
  | accepted | made => exact Store.log_prefix_push _ _ o

/-! ### Machines that have just been started -/

theorem script_of_task {c : Config} {now : Nat} {t : String × List Action} (ht : t ∈ Node.tasks c now) :
    t.2 = [.applyRoute] ∨ t.2 = [.receive] ∨ t.2 = [.publish] ∨ t.2 = [.takeProposal] ∨
      (∃ tick, t.2 = [.awaitPush tick]) ∨ ∃ tick, t.2 = [.awaitHeartbeat tick] := by
  have one : ∀ {p : Prop} [Decidable p] {x : String × List Action}, t ∈ (if p then [] else [x]) → t = x := by
    intro p _ x hx
    split at hx
    · cases hx
    · exact List.mem_singleton.1 hx
  have strict : ∀ {p : Prop} [Decidable p] {x : String × List Action}, t ∈ (if p then [x] else []) → t = x := by
    intro p _ x hx
    split at hx
    · exact List.mem_singleton.1 hx
    · cases hx
  simp only [Node.tasks, List.mem_append] at ht
  rcases ht with ((ht | ht) | ht) | ht
  · rcases List.mem_cons.1 ht with rfl | ht
    · exact .inl rfl
    rcases List.mem_cons.1 ht with rfl | ht
    · exact .inr (.inl rfl)
    obtain rfl := List.mem_singleton.1 ht
    exact .inr (.inr (.inl rfl))
  · obtain rfl := strict ht
    exact .inr (.inr (.inr (.inl rfl)))
  · obtain rfl := one ht
    exact .inr (.inr (.inr (.inr (.inl ⟨_, rfl⟩))))
  · obtain rfl := one ht
    exact .inr (.inr (.inr (.inr (.inr ⟨_, rfl⟩))))

theorem grounded_of_task {c : Config} {now : Nat} {t : String × List Action} (ht : t ∈ Node.tasks c now) :
    ∀ a ∈ t.2, a.Grounded w i := by
  intro a ha
  rcases script_of_task ht with h | h | h | h | ⟨_, h⟩ | ⟨_, h⟩ <;>
  · rw [h] at ha
    rw [List.mem_singleton.1 ha]
    trivial

/-- **A machine that has just been started** holds nothing, and its quorum is the majority of its peers. -/
theorem grounded_of_fresh {c : Config} (h : m.Fresh c) (name : w.names i = c.origin)
    (quorum : w.quorum i = majority c.peerCount.toNat) : m.Grounded w i ∧ m.node.store = .empty := by
  obtain ⟨address, random, auth, now, hnew, htasks⟩ := h
  have core := Node.core_new hnew
  refine ⟨⟨?_, fun script hs a ha => ?_⟩, congrArg Node.Core.store core⟩
  · rw [core]
    refine ⟨name.symm, name.symm, quorum.symm, fun _ _ h => (nomatch h), fun _ _ h => (nomatch h), fun _ h => (nomatch h),
      fun _ h => (nomatch h)⟩
  · rw [htasks] at hs
    obtain ⟨t, ht, rfl⟩ := List.mem_map.1 hs
    exact grounded_of_task ht a ha

end Machine

/-! ## Networks -/

namespace Network

open LogNetwork (Agreed)

/-- The scene of a network whose nodes run under these configurations. -/
def scene (configs : ι → Config) (net : Network ι) : Scene ι :=
  ⟨fun i => (configs i).origin, fun i => majority (configs i).peerCount.toNat, net.stores⟩

/-- **The invariant of a run.** -/
structure Grounded (configs : ι → Config) (net : Network ι) : Prop where
  agreed : Agreed (fun i => (configs i).origin) net.stores
  room : ∀ i, (net.stores i).Fits
  machines : ∀ i, (net.machines i).Grounded (net.scene configs) i
  sent : ∀ p ∈ net.sent, p.Grounded (net.scene configs)
  commits : ∀ i c p, .proposal c ∈ (net.stores i).log (configs i).origin → c.confirmed = some p →
    (net.scene configs).Decided i p c.transaction ∧ p < c.id

variable {configs : ι → Config} {net net' : Network ι}

theorem Grounded.start (fresh : ∀ i, (net.machines i).Fresh (configs i)) (sent : net.sent = []) :
    net.Grounded configs := by
  have machines : ∀ i, (net.machines i).Grounded (net.scene configs) i ∧ (net.machines i).node.store = .empty :=
    fun i => Machine.grounded_of_fresh (fresh i) rfl rfl
  have stores : net.stores = fun _ => .empty := funext (fun i => (machines i).2)
  refine ⟨by rw [stores]; exact .start, by rw [stores]; exact fun _ => Store.fits_empty, fun i => (machines i).1,
    fun p hp => ?_, fun i c p hc => ?_⟩
  · rw [sent] at hp; cases hp
  · rw [stores] at hc; cases hc

variable [DecidableEq ι]

theorem stores_update (net : Network ι) (i : ι) (m : Machine) (out : List Packet) :
    (⟨Function.update net.machines i m, out⟩ : Network ι).stores = Function.update net.stores i m.node.store := by
  funext j
  unfold stores
  by_cases hj : j = i
  · subst hj; simp
  · simp [hj]

theorem Grounded.agreed_update (distinct : Function.Injective (fun i => (configs i).origin)) (h : net.Grounded configs)
    {i : ι} {s : Store} (change : (net.machines i).StoreChange s) :
    Agreed (fun i => (configs i).origin) (Function.update net.stores i s) := by
  cases change with
  | same =>
    rw [show (net.machines i).node.store = net.stores i from rfl, Function.update_eq_self]
    exact h.agreed
  | accepted sender r script task offers id =>
    have held : LogNetwork.Held net.stores r := (h.machines i).tasks script task _ offers
    have := h.agreed.accept distinct (h.room i) held
    rw [show (net.stores i).accept r = _ from Store.accept_of_eq id] at this
    exact this
  | made r origin id _ => exact h.agreed.append distinct (h.room i) (origin.trans (h.machines i).node.name) id

omit [DecidableEq ι] in
/-- **What a node has in its own log has been decided**, also after a change.  A record of its own that it is offered
is never new to it. -/
theorem Grounded.commits_change (distinct : Function.Injective (fun i => (configs i).origin)) (h : net.Grounded configs)
    {i : ι} {s : Store} (change : (net.machines i).StoreChange s) {c : Proposal} {p : SequenceId}
    (hc : .proposal c ∈ s.log (configs i).origin) (hp : c.confirmed = some p) :
    (net.scene configs).Decided i p c.transaction ∧ p < c.id := by
  cases change with
  | same => exact h.commits i c p hc hp
  | accepted sender r script task offers id =>
    have held : LogNetwork.Held net.stores r := (h.machines i).tasks script task _ offers
    rcases Store.mem_or_eq_of_mem_log_push hc with hc | ⟨-, ho⟩
    · exact h.commits i c p hc hp
    · exact absurd (Store.accept_new_iff.2 id) (h.agreed.not_new_of_own distinct (h.room i) held ho.symm)
  | made r origin id confirms =>
    have name : r.origin = (configs i).origin := origin.trans (h.machines i).node.name
    rw [← name, Store.log_push_self] at hc
    rcases List.mem_append.1 hc with hc | hc
    · rw [name] at hc
      exact h.commits i c p hc hp
    · have hr : r = .proposal c := (List.mem_singleton.1 hc).symm
      obtain ⟨script, task, round, clock, hmem⟩ := confirms c p hr hp
      have decided : (net.scene configs).Decided i p c.transaction := (h.machines i).tasks script task _ hmem
      refine ⟨decided, ?_⟩
      obtain ⟨_, ⟨m, rfl, -, -, hget⟩, rfl, -⟩ := decided
      have below := (h.agreed.sound i).lt_nextId_of_get? (h.room i) hget
      rw [name, hr] at id
      rw [show c.id = (net.stores i).nextId (configs i).origin from id]
      exact below

/-- **One turn keeps the invariant.** -/
theorem Grounded.step (distinct : Function.Injective (fun i => (configs i).origin)) (h : net.Grounded configs)
    (step : Step net net') (room : ∀ i, (net'.stores i).Fits) : net'.Grounded configs := by
  obtain ⟨turn, allowed⟩ := step
  rename_i i e out m
  have change := Machine.storeChange_of_turn turn
  -- the scene after the turn is named first: the node's step is grounded in what its own store has become
  generalize hnet : (⟨Function.update net.machines i m, out ++ net.sent⟩ : Network ι) = net' at room ⊢
  have stores : net'.stores = Function.update net.stores i m.node.store := by rw [← hnet, stores_update]
  have grows : (net.scene configs).Grows (net'.scene configs) := by
    refine ⟨rfl, rfl, fun j o => ?_⟩
    rw [scene, scene, stores]
    exact LogNetwork.log_prefix_update net.stores i change.log_prefix j o
  have agreed : Agreed (fun i => (configs i).origin) net'.stores := by
    rw [stores]; exact h.agreed_update distinct change
  have here : m.node.store = net'.stores i := by rw [stores, Function.update_self]
  have turned : m.Grounded (net'.scene configs) i ∧ ∀ p ∈ out, p.Grounded (net'.scene configs) := by
    refine Machine.grounded_of_turn turn here (agreed.sound i) ((h.machines i).mono grows) ?_ ?_
    · rintro sender p rfl
      exact (h.sent p allowed).mono grows
    · rintro p a rfl
      exact allowed a
  refine ⟨agreed, room, fun j => ?_, fun p hp => ?_, fun j c p hc hp => ?_⟩
  · rw [← hnet]
    by_cases hj : j = i
    · subst hj; simpa [hnet] using turned.1
    · simpa [hnet, hj] using (h.machines j).mono grows
  · rw [← hnet] at hp
    rcases List.mem_append.1 hp with hp | hp
    · exact turned.2 p hp
    · exact (h.sent p hp).mono grows
  · rw [stores] at hc
    have before : (net.scene configs).Decided j p c.transaction ∧ p < c.id := by
      by_cases hj : j = i
      · subst hj
        rw [Function.update_self] at hc
        exact h.commits_change distinct change hc hp
      · rw [Function.update_of_ne hj] at hc
        exact h.commits j c p hc hp
    exact ⟨before.1.mono grows, before.2⟩

theorem grounded_of_reachable (distinct : Function.Injective (fun i => (configs i).origin))
    (h : Reachable configs net) : net.Grounded configs := by
  induction h with
  | start fresh sent => exact .start fresh sent
  | step _ step room ih => exact ih.step distinct step room

omit [DecidableEq ι] in
/-- **The names of a quorum are the names of nodes that hold the proposal**, and it is the same proposal everywhere. -/
theorem Grounded.holders (distinct : Function.Injective (fun i => (configs i).origin)) (h : net.Grounded configs)
    {i : ι} {id : SequenceId} {r : Record} (hr : (net.stores i).get? (configs i).origin id = some r)
    (backed : (net.scene configs).Backed i id) :
    ∃ holders : List ι, holders.Nodup ∧ i ∈ holders ∧ majority (configs i).peerCount.toNat ≤ holders.length ∧
      ∀ k ∈ holders, (net.stores k).get? (configs i).origin id = some r := by
  obtain ⟨ws, quorum⟩ := backed
  choose holder named holds using quorum.all
  refine ⟨ws.attach.map (fun x => holder x.1 x.2), ?_, ?_, ?_, fun k hk => ?_⟩
  · refine quorum.nodup.attach.map (fun x y hxy => ?_)
    apply Subtype.ext
    rw [← named x.1 x.2, ← named y.1 y.2]
    exact congrArg (fun i => (configs i).origin) hxy
  · exact List.mem_map.2 ⟨⟨_, quorum.own_mem⟩, List.mem_attach _ _, distinct (named _ quorum.own_mem)⟩
  · rw [List.length_map, List.length_attach]
    exact quorum.enough
  · obtain ⟨x, -, rfl⟩ := List.mem_map.1 hk
    obtain ⟨m, hm, -⟩ := holds x.1 x.2
    have same := Store.get?_mono (h.agreed.below _ i) hm
    rw [show (net.stores i).get? (configs i).origin id = some r from hr] at same
    rw [Option.some.inj same]
    exact hm

/-- **Commits are backed by a majority.**  Whoever holds a confirmation: its origin is a node, which has proposed the
same transaction under the number that is confirmed, a number below the confirmation's; whoever holds the confirmation
holds the proposal; and so does a majority of distinct nodes, the proposer among them. -/
theorem commits_are_backed (distinct : Function.Injective (fun i => (configs i).origin)) (h : Reachable configs net)
    {j : ι} {o : Origin} {c : Proposal} {p : SequenceId} (hc : .proposal c ∈ (net.stores j).log o)
    (hp : c.confirmed = some p) :
    ∃ (i : ι) (m : Proposal), (configs i).origin = c.origin ∧ m.confirmed = none ∧ m.transaction = c.transaction ∧
      p < c.id ∧ (net.stores j).get? c.origin p = some (.proposal m) ∧
      ∃ holders : List ι, holders.Nodup ∧ i ∈ holders ∧ majority (configs i).peerCount.toNat ≤ holders.length ∧
        ∀ k ∈ holders, (net.stores k).get? c.origin p = some (.proposal m) := by
  have inv := grounded_of_reachable distinct h
  obtain ⟨i, hi, hown⟩ := inv.agreed.owner_holds ⟨j, o, hc⟩
  obtain rfl : o = c.origin := (((inv.agreed.sound j).numbered o).origin_of_mem hc).symm
  replace hi : (configs i).origin = c.origin := hi
  obtain ⟨decided, below⟩ := inv.commits i c p (by rw [hi]; exact hown) hp
  obtain ⟨_, ⟨m, rfl, hm, htx, hget⟩, rfl, backed⟩ := decided
  have holders := inv.holders distinct hget backed
  refine ⟨i, m, hi, hm, htx, below, ?_, by rw [← hi]; exact holders⟩
  -- the log of whoever holds the confirmation goes past the proposal
  have hle := ((inv.agreed.sound j).numbered c.origin).id_le hc
  have hlt := UInt32.lt_iff_toNat_lt.1 below
  have known := inv.agreed.below j i
  rw [hi] at known
  refine Store.get?_of_longer known ?_ (by rw [← hi]; exact hget)
  exact Nat.le_trans (Nat.le_of_lt hlt) hle

/-- Node 0 proposes among three peers, one of which never takes part; node 1 acknowledges, and node 0 confirms. -/
theorem commits_are_backed_two_of_three :
    let config (name peer : String) : Config := { name, peers := [peer], peerCount := 3, antiEntropyPeriod := 0 }
    let configs : Fin 2 → Config := fun i => if i = 0 then config "a" "B" else config "b" "A"
    let proposal : Proposal := ⟨⟨"a"⟩, 1, none, Word256.zero, ⟨"t", 0, []⟩, none⟩
    let confirmation : Proposal := ⟨⟨"a"⟩, 2, some 1, Word256.zero, ⟨"t", 0, []⟩, none⟩
    ∃ net : Network (Fin 2), Function.Injective (fun i => (configs i).origin) ∧ Reachable configs net ∧
      .proposal confirmation ∈ (net.stores 0).log ⟨"a"⟩ ∧
      ∃ holders : List (Fin 2), holders.Nodup ∧ 2 ≤ holders.length ∧
        ∀ k ∈ holders, (net.stores k).get? ⟨"a"⟩ 1 = some (.proposal proposal) := by
  intro config configs proposal confirmation
  let act (i : Fin 2) (task : Nat) : Move (Fin 2) := ⟨i, task, .act 0⟩
  let moves : List (Move (Fin 2)) :=
    [⟨0, 0, .call (.propose proposal.transaction)⟩] ++ List.replicate 6 (act 0 3) ++ [act 0 4, act 0 5, act 0 5] ++
    [⟨1, 0, .arrive ⟨"A"⟩ (.proposal proposal)⟩, act 1 1] ++ List.replicate 6 (act 1 3) ++
    [⟨0, 0, .arrive ⟨"B"⟩ (.ack ⟨⟨"b"⟩, 1, ⟨"a"⟩, 10⟩)⟩, act 0 1, act 0 6, act 0 6, act 0 4, act 0 4, act 0 4]
  have distinct : Function.Injective (fun i => (configs i).origin) := by intro i j; revert i j; decide +kernel
  have played : (run? configs (fun i => if i = 0 then ⟨"A"⟩ else ⟨"B"⟩) .acceptAll moves).map
      (fun net => (net.stores 0).log ⟨"a"⟩) = some [.proposal proposal, .proposal confirmation] := by decide +kernel
  obtain ⟨net, hnet, hlog⟩ := Option.map_eq_some_iff.1 played
  have reachable := reachable_of_run? hnet
  have held : .proposal confirmation ∈ (net.stores 0).log ⟨"a"⟩ := by
    rw [hlog]; exact List.mem_cons_of_mem _ List.mem_cons_self
  obtain ⟨i, m, hi, -, -, -, hget, holders, nodup, -, enough, all⟩ := commits_are_backed distinct reachable held rfl
  have same : (net.stores 0).get? ⟨"a"⟩ 1 = some (.proposal proposal) := by
    rw [Store.get?_of_pos _ _ (by decide), hlog]; rfl
  rw [show confirmation.origin = ⟨"a"⟩ from rfl, same] at hget
  obtain rfl := Record.proposal.inj (Option.some.inj hget)
  have three : ∀ i, (configs i).peerCount = 3 := by decide +kernel
  rw [three i] at enough
  exact ⟨net, distinct, reachable, held, holders, nodup, enough, all⟩

end Network
end GossipNode
