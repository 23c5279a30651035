import GossipNode.Proofs.Network.Histories
import GossipNode.Proofs.Node.Relaying
/-!
# What a node has from others has arrived

A task handles only packets that have arrived, offers only records that they carry, and forwards them with a hop less;
and the records of other origins in the store are records that were offered (`Machine.Run.heard`).  So what is known of
every packet that arrives is known of all this.

Packets arrive in datagrams.  So all of it can be sent again: a record that was accepted can be passed on, and a packet
for others can be forwarded (`Machine.passes_on_what_decodes`).
-/
namespace GossipNode

theorem Record.toPacket_of_ofPacket? {p : Packet} {r : Record} (h : Record.ofPacket? p = some r) : r.toPacket = p := by
  cases p with
  | rumor | proposal | block => obtain rfl := Option.some.inj h; rfl
  | _ => cases h

/-- The record that a round is looked up for. -/
def RoundPurpose.record? : RoundPurpose → Option Record
  | .collect _ r _ => some r
  | _ => none

/-- The record that a task is spreading, pushing or having acknowledged. -/
def Action.record? : Action → Option Record
  | .passOn _ r _ | .settle _ _ _ (.push r) | .chooseTarget r _ | .sendRecord r _ | .awaitNotice r .. | .giveUp r ..
  | .startCollection _ r .. | .drive r .. | .awaitMajority r .. | .checkRound r .. => some r
  | .findRound _ _ purpose | .stampRound _ _ _ purpose => purpose.record?
  | _ => none

variable {known : Packet → Prop} {name : Origin}

/-- The record is of this origin, or came in a packet of this kind. -/
def Record.Known (known : Packet → Prop) (name : Origin) (r : Record) : Prop := r.origin ≠ name → known r.toPacket

/-- Whatever a task is about to do with something from others, it does with a packet of this kind. -/
def Action.Heard (known : Packet → Prop) (name : Origin) : Action → Prop
  | .handle _ p => known p
  | .accept _ r => known r.toPacket
  | .forward _ p => ∃ q, known q ∧ p = q.spendHop.2
  | .feed b => ∃ a : BlockAnnouncement, a.block = b ∧ known (.block a)
  | a => ∀ r ∈ a.record?, r.Known known name

theorem Record.known_of_own {r : Record} (h : r.origin = name) : r.Known known name := fun foreign => absurd h foreign

theorem Record.forall_known_of_own {r : Record} (h : r.origin = name) : ∀ r' ∈ some r, r'.Known known name := by
  intro r' hr
  obtain rfl := Option.some.inj hr
  exact Record.known_of_own h

namespace Node

variable {n : Node} {a a' : Action} {now : Nat} {step : Step}

theorem heard_afterStamp {c : Config} {o : Origin} {id : SequenceId} {round : UInt32} {purpose : RoundPurpose}
    (h : ∀ r ∈ purpose.record?, r.Known known name) : (afterStamp c o id round purpose).Heard known name := by
  cases purpose with
  | acknowledge via =>
    simp only [afterStamp]
    split <;> exact fun _ hr => nomatch hr
  | confirm => exact fun _ hr => nomatch hr
  | collect call r tx => exact h

/-- What is pushed to a peer is in the store. -/
theorem mem_log_of_statusAnswer {s : Store} {v : StatusVector} {r : Record} (h : statusAnswer s v = .push r) :
    ∃ o, r ∈ s.log o := by
  unfold statusAnswer at h
  split at h
  · split at h
    · rename_i o ho _ r' hr
      obtain rfl := StatusAnswer.push.inj h
      unfold Store.missingFor at hr
      rw [ho] at hr
      exact ⟨o, Store.mem_log_of_get? hr⟩
    · cases h
  · cases h
  · cases h

theorem heard_settle (sound : n.store.Sound) (foreign : ∀ o, o ≠ n.name → ∀ r ∈ n.store.log o, known r.toPacket)
    (sender : PeerAddress) (v : StatusVector) (inSync : Bool) :
    (Action.settle sender v inSync (statusAnswer n.store v)).Heard known n.name := by
  cases h : statusAnswer n.store v with
  | push r =>
    obtain ⟨o, hr⟩ := mem_log_of_statusAnswer h
    obtain rfl := (sound.numbered o).origin_of_mem hr
    intro r' hr'
    obtain rfl := Option.some.inj hr'
    exact fun other => foreign _ other r hr
  | ask own => exact fun _ hr => nomatch hr
  | nothing => exact fun _ hr => nomatch hr

/-- What is published is of the own name. -/
theorem heard_of_publish (h : step ∈ n.publish) (ha : a ∈ step.todo) : a.Heard known n.name := by
  simp only [publish] at h
  split at h
  · cases h
  · rw [List.mem_singleton.1 h] at ha
    rcases List.mem_cons.1 ha with rfl | ha
    · intro r hr
      cases hr
    · obtain rfl := List.mem_singleton.1 ha
      exact Record.forall_known_of_own rfl

/-- **What follows on something that was heard was heard.** -/
theorem heard_of_perform (h : step ∈ n.perform now a) (ha' : a' ∈ step.todo) (sound : n.store.Sound)
    (inbox : ∀ x ∈ n.inbox, known x.2) (foreign : ∀ o, o ≠ n.name → ∀ r ∈ n.store.log o, known r.toPacket)
    (ha : a.Heard known n.name) : a'.Heard known n.name := by
  by_cases publishes : a = .publish
  · subst a
    exact heard_of_publish h ha'
  cases follows_of_perform h ha' with
  | dispatch arrived => exact inbox _ arrived
  | forward => exact ⟨_, ha, rfl⟩
  | offer hr => rw [← Record.toPacket_of_ofPacket? hr] at ha; exact ha
  | feed new => exact ⟨_, rfl, ha⟩
  | passOn new report =>
    intro r hr _
    obtain rfl := Option.some.inj hr
    exact ha
  | settle => exact heard_settle sound foreign _ _ _
  | stamped => exact heard_afterStamp ha
  | heartbeat | findOwn | spreadConfirmation => exact Record.forall_known_of_own rfl
  | publish | spreadBlock => exact absurd rfl publishes
  | spread | push | sendRecord | awaitNotice | goOn | giveUp | goOnWithout | found | drive | awaitMajority
  | spreadProposal | checkRound | insist | spreadAgain | insistInRound | spreadInRound => exact ha
  | _ => exact fun _ hr => nomatch hr

theorem Begins.heard {q : Request} (h : n.Begins q a) : a.Heard known n.name := by
  cases h with
  | spread text => exact Record.forall_known_of_own rfl
  | _ => exact fun _ hr => nomatch hr

/-- No action puts anything into the inbox. -/
theorem inbox_of_perform (h : step ∈ n.perform now a) : ∀ x ∈ step.node.inbox, x ∈ n.inbox := by
  by_cases receives : a = .receive
  · subst a
    simp only [perform, receive] at h
    split at h
    · split at h
      · cases h
      · rw [List.mem_singleton.1 h]; exact fun _ hx => hx
    · rename_i sender p inbox hin
      rw [List.mem_singleton.1 h, hin]
      exact fun _ hx => List.mem_cons_of_mem _ hx
  · have same : ∀ core, n.CoreChange a core → core.inbox = n.inbox := by
      intro core change
      cases change with
      | received inbox => exact absurd rfl receives
      | _ => rfl
    rw [show step.node.inbox = n.inbox from same _ (coreChange_of_perform h)]
    exact fun _ hx => hx

end Node

namespace Machine

variable {m m' : Machine} {e : Event} {c : Config} {deeds : List Deed} {d : Deed}

/-- The packet that arrives. -/
def Event.packet? : Event → Option Packet
  | .arrive _ p => some p
  | _ => none

/-- Only such packets arrive. -/
def HearsOnly (known : Packet → Prop) (_ : Machine) (e : Event) (_ : Machine) : Prop := ∀ p ∈ e.packet?, known p

instance [DecidablePred known] (m : Machine) (e : Event) (m' : Machine) : Decidable (HearsOnly known m e m') :=
  inferInstanceAs (Decidable (∀ p ∈ e.packet?, known p))

theorem Run.mono {allowed allowed' : Machine → Event → Machine → Prop} (h : Run allowed c m)
    (imp : ∀ {m e m'}, allowed m e m' → allowed' m e m') : Run allowed' c m := by
  induction h with
  | start fresh => exact .start fresh
  | turn _ turn ok fits ih => exact ih.turn turn (imp ok) fits

/-- **What is known of all that a node has from others.** -/
structure Heard (known : Packet → Prop) (m : Machine) : Prop where
  inbox : ∀ x ∈ m.node.inbox, known x.2
  todo : ∀ a, m.Todo a → a.Heard known m.node.name
  foreign : ∀ o, o ≠ m.node.name → ∀ r ∈ m.node.store.log o, known r.toPacket

theorem Heard.start (fresh : m.Fresh c) : m.Heard known := by
  have todo : ∀ a, m.Todo a → a.Heard known m.node.name := by
    intro a ha
    have standing := fresh.standing ha
    cases a with
    | applyRoute | receive | publish | takeProposal | awaitPush | awaitHeartbeat => exact fun _ hr => nomatch hr
    | _ => cases standing
  obtain ⟨_, _, _, _, hnew, -⟩ := fresh
  have core := Node.core_new hnew
  refine ⟨fun x hx => ?_, todo, fun o _ r hr => ?_⟩
  · rw [show m.node.inbox = [] from congrArg Node.Core.inbox core] at hx
    cases hx
  · rw [show m.node.store = .empty from congrArg Node.Core.store core] at hr
    cases hr

/-- A record of another origin that is in the store after an action was there before, or was offered. -/
theorem Heard.foreign_of_perform (h : m.Heard known) {a : Action} {now : Nat} {step : Step}
    (perform : step ∈ m.node.perform now a) (ha : m.Todo a) {o : Origin} (foreign : o ≠ m.node.name) {r : Record}
    (hr : r ∈ step.node.store.log o) : known r.toPacket := by
  have change := Node.storeChange_of_perform perform
  generalize step.node.store = s at change hr
  cases change with
  | same => exact h.foreign o foreign r hr
  | accepted sender r' id =>
    rcases Store.mem_or_eq_of_mem_log_push hr with hr | ⟨rfl, -⟩
    · exact h.foreign o foreign r hr
    · exact h.todo _ ha
  | made a r' origin id confirms =>
    rcases Store.mem_or_eq_of_mem_log_push hr with hr | ⟨-, ho⟩
    · exact h.foreign o foreign r hr
    · exact absurd (ho.trans origin) foreign

/-- A request puts nothing into the inbox, and only records of the own name into the store. -/
theorem Heard.answer (h : m.Heard known) (q : Request) :
    (∀ x ∈ (m.node.answer q).node.inbox, known x.2) ∧ (m.node.answer q).node.name = m.node.name ∧
      ∀ o, o ≠ m.node.name → ∀ r ∈ (m.node.answer q).node.store.log o, known r.toPacket := by
  rcases m.node.frame_answer q with he | ⟨r, origin, -, -, he⟩
  · have core := Node.core_of_frame he
    refine ⟨?_, congrArg Node.Core.name core, ?_⟩
    · rw [show (m.node.answer q).node.inbox = m.node.inbox from congrArg Node.Core.inbox core]
      exact h.inbox
    · rw [show (m.node.answer q).node.store = m.node.store from congrArg Node.Core.store core]
      exact h.foreign
  · have core : (m.node.answer q).node.core = { m.node.core with store := m.node.store.push r } :=
      congrArg Node.Frame.core he
    refine ⟨?_, congrArg Node.Core.name core, fun o foreign r' hr => ?_⟩
    · rw [show (m.node.answer q).node.inbox = m.node.inbox from congrArg Node.Core.inbox core]
      exact h.inbox
    · rw [show (m.node.answer q).node.store = m.node.store.push r from congrArg Node.Core.store core] at hr
      rcases Store.mem_or_eq_of_mem_log_push hr with hr | ⟨-, ho⟩
      · exact h.foreign o foreign r' hr
      · exact absurd (ho.trans origin) foreign

theorem Heard.move (h : m.Heard known) (sound : m.node.store.Sound) (move : m.Move e deeds m')
    (ok : HearsOnly known m e m') : m'.Heard known := by
  cases move with
  | @acted now a step script others m' perform taken node left =>
    have ha := todo_of_taken taken
    have name : m'.node.name = m.node.name := by rw [node]; exact (Node.kept_of_perform perform).1
    refine ⟨fun x hx => ?_, fun a' ha' => ?_, fun o foreign r hr => ?_⟩
    · rw [node] at hx
      exact h.inbox x (Node.inbox_of_perform perform x hx)
    · rw [name]
      rcases todo_of_left taken left ha' with old | new
      · exact h.todo a' old
      · exact Node.heard_of_perform perform new sound h.inbox h.foreign (h.todo a ha)
    · rw [name] at foreign
      rw [node] at hr
      exact h.foreign_of_perform perform ha foreign hr
  | @answered q m' node left =>
    obtain ⟨inbox, name, foreign⟩ := h.answer q
    refine ⟨by rw [node]; exact inbox, fun a ha => ?_, by rw [node, name]; exact foreign⟩
    rw [node, name]
    rcases (Move.answered node left).todo_of_idle ha with old | ⟨q, begun⟩
    · exact h.todo a old
    · exact (Node.begins_of_answer begun).heard
  | @arrived n room sender p arrive =>
    have core : n.core = { m.node.core with inbox := m.node.inbox ++ [(sender, p)] } :=
      congrArg Node.Frame.core (Node.frame_arrive arrive)
    have name : n.name = m.node.name := congrArg Node.Core.name core
    refine ⟨fun x hx => ?_, by rw [name]; exact h.todo, ?_⟩
    · rw [show n.inbox = m.node.inbox ++ [(sender, p)] from congrArg Node.Core.inbox core] at hx
      rcases List.mem_append.1 hx with hx | hx
      · exact h.inbox x hx
      · rw [List.mem_singleton.1 hx]
        exact ok p rfl
    · rw [name, show n.store = m.node.store from congrArg Node.Core.store core]
      exact h.foreign
  | closed => exact ⟨h.inbox, h.todo, h.foreign⟩
  | @stopped left sub =>
    have core := Node.core_of_frame m.node.frame_shutdown
    have name : m.node.shutdown.name = m.node.name := congrArg Node.Core.name core
    refine ⟨?_, fun a ⟨script, hs, ha⟩ => by rw [name]; exact h.todo a ⟨script, sub.subset hs, ha⟩, ?_⟩
    · rw [show m.node.shutdown.inbox = m.node.inbox from congrArg Node.Core.inbox core]
      exact h.inbox
    · rw [name, show m.node.shutdown.store = m.node.store from congrArg Node.Core.store core]
      exact h.foreign

/-- **Whatever a node has from others has arrived.** -/
theorem History.heard (h : History (HearsOnly known) c deeds m) : m.Heard known :=
  h.induct (P := fun _ m => m.Heard known) (fun _ => .start) (fun past ih move ok _ => ih.move past.run.sound move ok)

theorem Run.heard (h : Run (HearsOnly known) c m) : m.Heard known := by
  obtain ⟨deeds, history⟩ := h.history
  exact history.heard

/-- **Whatever was done with something from others was done with what had arrived.** -/
theorem History.heard_of_mem (h : History (HearsOnly known) c deeds m) (hd : d ∈ deeds) :
    d.action.Heard known c.origin := by
  obtain ⟨before, after, split⟩ := List.append_of_mem hd
  obtain ⟨m, m', now, past, move, -, -⟩ := h.past split
  rw [← past.run.kept.1]
  cases move with
  | acted perform taken node left => exact past.heard.todo _ (todo_of_taken taken)

/-! ## The theorem -/

/-- **Whatever decodes can be passed on.**  Every packet of a datagram has a datagram that is not longer and decodes to it;
it is the canonical one, that of the same packet only; and a routed packet that has spent a hop does not need more room
either.  So in every run of a node whose packets come in datagrams, each record that is offered, each packet that is
forwarded, each record of another origin that is sent and each one in the store has a datagram; and what is forwarded does
leave unless no hop is known for it, and what is sent leaves as it is. -/
theorem passes_on_what_decodes :
    (∀ b p, Wire.decode b = .ok p →
      (∃ b', Wire.encode p = .ok b' ∧ b'.length ≤ b.length ∧ Wire.decode b' = .ok p ∧
        (∀ r, Record.ofPacket? p = some r → Wire.encode r.toPacket = .ok b') ∧
        ∀ d q, Wire.decode d = .ok q → (Wire.encode q = .ok b' ↔ q = p)) ∧
      (p.hopLimit?.isSome = true → ∃ b', Wire.encode p.spendHop.2 = .ok b' ∧ b'.length ≤ b.length)) ∧
    ∀ c deeds m, History (HearsOnly Wire.Decoded) c deeds m →
      (∀ d ∈ deeds, ∀ sender r, d.action = .accept sender r → Wire.Sendable r.toPacket) ∧
      (∀ d ∈ deeds, ∀ destination p, d.action = .forward destination p →
        Wire.Sendable p ∧ d.node.Forwards destination p d.step) ∧
      (∀ d ∈ deeds, ∀ r peer, d.action = .sendRecord r peer → r.origin ≠ c.origin →
        Wire.Sendable r.toPacket ∧ d.step.effects = [.send peer r.toPacket]) ∧
      ∀ o, o ≠ c.origin → ∀ r ∈ m.node.store.log o, Wire.Sendable r.toPacket := by
  refine ⟨fun b p h => ⟨?_, fun _ => Wire.encode_of_decode h (Wire.Format.length_write_spendHop p)⟩, ?_⟩
  · obtain ⟨b', encoded, short⟩ := Wire.encode_of_decode h (Nat.le_refl _)
    refine ⟨b', encoded, short, Wire.decode_of_encode encoded, fun r hr => ?_, fun d q _ => ⟨fun hq => ?_, ?_⟩⟩
    · rw [Record.toPacket_of_ofPacket? hr]
      exact encoded
    · have back := Wire.decode_of_encode hq
      rw [Wire.decode_of_encode encoded] at back
      exact (Except.ok.inj back).symm
    · rintro rfl
      exact encoded
  · intro c deeds m history
    refine ⟨fun d hd sender r ha => ?_, fun d hd destination p ha => ?_, fun d hd r peer ha other => ?_,
      fun o other r hr => ?_⟩
    · have heard := history.heard_of_mem hd
      rw [ha] at heard
      exact Wire.decoded_iff.1 heard
    · have heard := history.heard_of_mem hd
      obtain ⟨now, perform⟩ := history.performed hd
      rw [ha] at heard perform
      obtain ⟨q, hq, rfl⟩ := heard
      refine ⟨(Wire.decoded_iff.1 hq).spendHop, ?_⟩
      rw [List.mem_singleton.1 perform]
      exact d.node.forward_cases destination _
    · have heard := history.heard_of_mem hd
      obtain ⟨now, perform⟩ := history.performed hd
      rw [ha] at heard perform
      refine ⟨Wire.decoded_iff.1 (heard r rfl other), ?_⟩
      rw [List.mem_singleton.1 perform]
      rfl
    · rw [← history.run.kept.1] at other
      exact Wire.decoded_iff.1 (history.heard.foreign o other r hr)

/-- A private message whose kind, text and hop limit have counts in wider forms than they need is relayed towards its
destination, which has shown a route, and a rumor is passed on. -/
theorem passes_on_what_decodes_wide_forms :
    let config : Config := { name := "b", peers := ["C"], antiEntropyPeriod := 0, peerCount := 3 }
    let wide : Bytes := [1, 251, 2, 0, 1, 97, 0, 252, 1, 0, 0, 0, 120, 1, 99, 253, 251, 0, 0, 0, 0, 0, 0, 0]
    let message : Packet := .private_ ⟨⟨"a"⟩, 0, "x", ⟨"c"⟩, 251⟩
    let rumor : Record := .rumor ⟨⟨"a"⟩, 1, "news"⟩
    ∃ deeds m, History (HearsOnly Wire.Decoded) config deeds m ∧ Wire.decode wide = .ok message ∧
      (∃ b, Wire.encode message = .ok b ∧ b.length = 12 ∧ Wire.decode b = .ok message) ∧
      (∃ b, Wire.encode message.spendHop.2 = .ok b ∧ b.length ≤ wide.length) ∧
      (∃ d ∈ deeds, d.action = .forward ⟨"c"⟩ message.spendHop.2 ∧ Wire.Sendable message.spendHop.2 ∧
        d.node.Forwards ⟨"c"⟩ message.spendHop.2 d.step ∧ d.step.effects = [.send ⟨"C"⟩ message.spendHop.2]) ∧
      (∃ d ∈ deeds, d.action = .sendRecord rumor ⟨"C"⟩ ∧ Wire.Sendable rumor.toPacket ∧
        d.step.effects = [.send ⟨"C"⟩ rumor.toPacket]) ∧
      rumor ∈ m.node.store.log ⟨"a"⟩ := by
  intro config wide message rumor
  let arrives (task turns : Nat) (sender : PeerAddress) (p : Packet) : List (Nat × Event) :=
    [(0, .arrive sender p), (1, .act 0)] ++ List.replicate turns (task, .act 0)
  let moves : List (Nat × Event) :=
    arrives 3 4 ⟨"C"⟩ (.rumor ⟨⟨"c"⟩, 1, ""⟩) ++ [(0, .act 0)] ++ arrives 5 2 ⟨"A"⟩ message ++
      arrives 6 4 ⟨"A"⟩ rumor.toPacket ++ [(7, .act 0), (7, .act 0)]
  have played : ((start? config ⟨"B"⟩ .acceptAll).bind (fun m => playDeeds? (HearsOnly Wire.Decoded) moves ([], m))).map
      (fun x => (x.1.any (fun d => d.action == .forward ⟨"c"⟩ message.spendHop.2 &&
        d.step.effects == [.send ⟨"C"⟩ message.spendHop.2]),
        x.1.any (fun d => d.action == .sendRecord rumor ⟨"C"⟩), x.2.node.store.log ⟨"a"⟩)) = some (true, true, [rumor]) := by
    decide +kernel
  obtain ⟨deeds, m, history, hstate⟩ := history_of_start? played
  simp only [Prod.mk.injEq, List.any_eq_true, Bool.and_eq_true, beq_iff_eq] at hstate
  obtain ⟨⟨d, hd, hforward, left⟩, ⟨d', hd', hsend⟩, hlog⟩ := hstate
  have decoded : Wire.decode wide = .ok message := by decide +kernel
  have canonical : Wire.encode message = .ok [1, 2, 1, 97, 0, 1, 120, 1, 99, 251, 251, 0] :=
    Wire.encode_eq_ok_iff.2 ⟨by decide +kernel, by decide +kernel⟩
  obtain ⟨passed, run⟩ := passes_on_what_decodes
  obtain ⟨⟨b', encoded, -, back, -⟩, relayed⟩ := passed wide message decoded
  rw [canonical] at encoded
  obtain rfl := Except.ok.inj encoded
  obtain ⟨-, forwarded, sent, -⟩ := run config deeds m history
  obtain ⟨sendable, forwards⟩ := forwarded d hd _ _ hforward
  exact ⟨deeds, m, history, decoded, ⟨_, canonical, rfl, back⟩, relayed rfl, ⟨d, hd, hforward, sendable, forwards, left⟩,
    ⟨d', hd', hsend, sent d' hd' _ _ hsend (by decide)⟩, by rw [hlog]; exact List.mem_singleton_self _⟩

end Machine
end GossipNode
