import Mathlib.Logic.Relation
import Mathlib.Data.Fintype.Basic
import GossipNode.Proofs.Network.Arrivals
import GossipNode.Proofs.Node.Ballots
import GossipNode.Proofs.Wire.Sizes
/-!
# What a node has to send can be sent

A node stores a record before it is known to have a datagram, so one that is too long stays in the store and is never
sent.  What keeps records short enough are limits on what comes in: each text, transaction and ballot is short enough
for the largest record that may be made of it, and records come from origins whose full report has a datagram
(`Config.Within`).  Within these limits every record in the store has a datagram, and so has the status report
(`Machine.Fitting`).
-/
namespace GossipNode

/-! ## Limits -/

/-- The ballot that a block announcement carries, and the topic of the block. -/
def Packet.ballot? : Packet → Option (String × Ballot)
  | .block a => a.block.ballot.map (fun b => (a.block.topic, b))
  | _ => none

namespace Config

variable (c : Config) (names : List Origin)

/-- The largest clock that an own proposal may show. -/
def largestClock : Option StatusReport := if c.strictRounds then some (.full names) else none

def AllowsText (text : String) : Prop := Wire.Sendable (.largestRumor c.origin text)

def AllowsTransaction (tx : Transaction) : Prop := Wire.Sendable (.largestProposal c.origin tx (c.largestClock names))

def AllowsBallot (topic : String) (b : Ballot) : Prop := Wire.Sendable (.largestBlock c.origin topic b)

instance (text : String) : Decidable (c.AllowsText text) := inferInstanceAs (Decidable (Wire.Sendable _))

instance (tx : Transaction) : Decidable (c.AllowsTransaction names tx) := inferInstanceAs (Decidable (Wire.Sendable _))

instance (topic : String) (b : Ballot) : Decidable (c.AllowsBallot topic b) :=
  inferInstanceAs (Decidable (Wire.Sendable _))

/-- A packet came in a datagram; if it is a record it is of one of these origins, and its ballot is short enough for an own
block. -/
def Expects (p : Packet) : Prop :=
  Wire.Decoded p ∧ (∀ r ∈ Record.ofPacket? p, r.origin ∈ names) ∧ ∀ x ∈ p.ballot?, c.AllowsBallot x.1 x.2

instance (p : Packet) : Decidable (c.Expects names p) :=
  inferInstanceAs (Decidable (_ ∧ (∀ r ∈ Record.ofPacket? p, _) ∧ ∀ x ∈ p.ballot?, _))

/-- **Within limits**: what arrives is expected, and callers hand in nothing that is too long. -/
def Within (_ : Machine) (e : Machine.Event) (_ : Machine) : Prop :=
  match e with
  | .arrive _ p => c.Expects names p
  | .call (.postRumor text) => c.AllowsText text
  | .call (.propose tx) => c.AllowsTransaction names tx
  | .call (.submitBallot topic b) => c.AllowsBallot topic b
  | _ => True

instance (m : Machine) (e : Machine.Event) (m' : Machine) : Decidable (c.Within names m e m') :=
  match e with
  | .arrive _ p => inferInstanceAs (Decidable (c.Expects names p))
  | .call (.postRumor text) => inferInstanceAs (Decidable (c.AllowsText text))
  | .call (.propose tx) => inferInstanceAs (Decidable (c.AllowsTransaction names tx))
  | .call (.submitBallot topic b) => inferInstanceAs (Decidable (c.AllowsBallot topic b))
  | .call (.sendPrivate ..) | .call (.sendRouted _) | .call (.giveUpCall _) | .call (.addPeer _) | .act _ | .closeInbox
  | .shutdown => isTrue trivial

end Config

/-! ## Transactions and clocks -/

def RoundPurpose.transaction? : RoundPurpose → Option Transaction
  | .collect _ _ tx => some tx
  | _ => none

/-- The transaction that a task is about to propose, or to confirm. -/
def Action.transaction? : Action → Option Transaction
  | .propose _ tx | .awaitRound _ tx | .awaitRoundChange _ _ tx | .startProposal _ tx | .storeProposal _ tx _
  | .startCollection _ _ _ tx | .drive _ _ tx _ | .awaitMajority _ _ tx _ | .checkRound _ _ tx _ | .confirm _ _ tx
  | .storeConfirmation _ _ tx _ => some tx
  | .findRound _ _ purpose | .stampRound _ _ _ purpose => purpose.transaction?
  | _ => none

/-- The clock that goes into the record that a task is about to make. -/
def Action.clock? : Action → Option StatusReport
  | .storeProposal _ _ clock | .storeConfirmation _ _ _ clock => clock
  | _ => none

/-- A report that an own proposal may show. -/
def Config.AllowsClock (c : Config) (names : List Origin) (report : StatusReport) : Prop :=
  c.strictRounds = true ∧
    (Wire.Format.statusReport.write report).length ≤ (Wire.Format.statusReport.write (.full names)).length

/-- What a task is about to propose is short enough, with the clock that it shows. -/
structure Action.Allowed (c : Config) (names : List Origin) (a : Action) : Prop where
  transaction : ∀ tx ∈ a.transaction?, c.AllowsTransaction names tx
  clock : ∀ report ∈ a.clock?, c.AllowsClock names report

theorem Authenticator.length_tag_prove_le (auth : Authenticator) (nonce : Word256) :
    (auth.prove nonce).tag.length ≤ 32 := by
  cases auth with
  | sharedSecret secret => exact Nat.le_of_eq (Word256.length_octets _)
  | acceptAll | rejectAll => exact Nat.zero_le _

variable {c : Config} {names : List Origin}

theorem Action.Allowed.of_none {a : Action} (ht : a.transaction? = none) (hc : a.clock? = none) :
    a.Allowed c names := by
  constructor
  · intro tx h
    rw [ht] at h
    cases h
  · intro report h
    rw [hc] at h
    cases h

theorem Config.AllowsClock.length_le {clock : Option StatusReport} (h : ∀ report ∈ clock, c.AllowsClock names report) :
    (Wire.Format.statusReport.option.write clock).length ≤
      (Wire.Format.statusReport.option.write (c.largestClock names)).length := by
  refine Wire.Format.length_option_le (fun report hr => ?_)
  obtain ⟨strict, short⟩ := h report hr
  exact ⟨.full names, by rw [largestClock, if_pos strict]; rfl, short⟩

namespace Node

variable {n : Node} {a a' : Action} {now : Nat} {step : Step}

theorem allowed_afterStamp {o : Origin} {id : SequenceId} {round : UInt32} {purpose : RoundPurpose}
    (h : Action.Allowed c names (.stampRound o id round purpose)) : (afterStamp n.config o id round purpose).Allowed c names := by
  cases purpose with
  | acknowledge via =>
    simp only [afterStamp]
    split <;> exact .of_none rfl rfl
  | confirm => exact .of_none rfl rfl
  | collect call r tx =>
    refine ⟨h.transaction, fun _ hr => ?_⟩
    cases hr

/-- **What follows on something allowed is allowed**, if what is queued is, and what the clock shows. -/
theorem Follows.allowed (h : n.Follows a a') (ha : a.Allowed c names)
    (queue : ∀ x ∈ n.proposalQueue, c.AllowsTransaction names x.2)
    (clock : ∀ report ∈ n.vectorClock, c.AllowsClock names report) : a'.Allowed c names := by
  cases h with
  | storeProposal | storeConfirmation => exact ⟨ha.transaction, clock⟩
  | @awaitRound call tx queued =>
    refine ⟨fun tx' htx => ?_, fun _ hr => nomatch hr⟩
    rw [← show tx = tx' from Option.some.inj htx]
    exact queue (call, tx) queued
  | stamped => exact allowed_afterStamp ha
  | startNow | startInRound | awaitRoundChange | roundChanged | findOwn | found | drive | confirmNow | awaitMajority
  | confirm | checkRound | insist | insistInRound => exact ⟨ha.transaction, fun _ hr => nomatch hr⟩
  | settle | passOn | forward | learn => exact .of_none rfl rfl
  | _ => exact .of_none rfl rfl

/-! ## The store and its report -/

theorem statusReport_le_full {s : Store} (sound : s.Sound) (few : names.length < UInt64.size)
    (origins : ∀ o, s.log o ≠ [] → o ∈ names) :
    (Wire.Format.statusReport.write s.statusReport).length ≤ (Wire.Format.statusReport.write (.full names)).length := by
  have keys : s.statusReport.want.map StatusEntry.identifier = s.status.keys := by
    simp only [Store.statusReport, StatusReport.ofVector, List.map_map]
    rfl
  refine Wire.Format.length_statusReport_le_full few (by rw [keys]; exact s.status.nodup_keys) (fun e he => ?_)
  have key : e.identifier ∈ s.status.keys := by rw [← keys]; exact List.mem_map_of_mem he
  exact origins _ ((sound.contains_status_iff _).1 (SortedMap.mem_keys.1 key))

/-- A record that is made of what is allowed has a datagram. -/
theorem Makes.sendable {r : Record} (h : n.Makes a r) (name : n.name = c.origin) (ha : a.Allowed c names)
    (stocked : n.Stocked c.AllowsBallot) (member : c.origin ∈ names) (status : Wire.Sendable (.status (.full names))) :
    r.origin = c.origin ∧ Wire.Sendable r.toPacket := by
  cases h with
  | heartbeat =>
    refine ⟨name, status.of_le ?_⟩
    rw [name]
    exact (Wire.Format.length_rumor_le _ _ _).trans (Wire.Format.length_heartbeat_le member)
  | proposal | confirmation =>
    refine ⟨name, (ha.transaction _ rfl).of_le ?_⟩
    rw [← name]
    exact Wire.Format.length_proposal_le _ _ _ _ _ (Config.AllowsClock.length_le ha.clock)
  | @announcement b waits =>
    obtain ⟨origin, ballot, hb, allowed⟩ := stocked.candidates b waits
    refine ⟨name, allowed.of_le ?_⟩
    rw [← name]
    exact Wire.Format.length_block_le (m := ⟨n.name, _, b, _⟩) origin hb (Authenticator.length_tag_prove_le _ _)

end Node

namespace Machine

variable {m m' : Machine} {e : Event} {deeds : List Deed}

/-- **The invariant of a run within limits.** -/
structure Fitting (c : Config) (names : List Origin) (m : Machine) : Prop where
  records : ∀ o, ∀ r ∈ m.node.store.log o, o ∈ names ∧ Wire.Sendable r.toPacket
  stocked : m.node.Stocked c.AllowsBallot
  queue : ∀ x ∈ m.node.proposalQueue, c.AllowsTransaction names x.2
  todo : ∀ a, m.Todo a → a.Allowed c names

theorem Fitting.start (fresh : m.Fresh c) : m.Fitting c names := by
  have todo : ∀ a, m.Todo a → a.Allowed c names := by
    intro a ha
    have standing := fresh.standing ha
    cases a with
    | applyRoute | receive | publish | takeProposal | awaitPush | awaitHeartbeat => exact .of_none rfl rfl
    | _ => cases standing
  obtain ⟨_, _, _, _, hnew, -⟩ := fresh
  have core := Node.core_new hnew
  refine ⟨fun o r hr => ?_, ⟨fun t b hb => ?_, fun x hx => ?_⟩, fun x hx => ?_, todo⟩
  · rw [show m.node.store = .empty from congrArg Node.Core.store core] at hr
    cases hr
  · rw [show m.node.topic t = Topic.new t from congrArg Node.Site.topic (Node.site_new hnew t)] at hb
    cases hb
  · rw [show m.node.candidates = [] from congrArg Node.Site.candidates (Node.site_new hnew "")] at hx
    cases hx
  · rw [show m.node.proposalQueue = [] from congrArg Node.Desk.queue (Node.desk_new hnew)] at hx
    cases hx

/-- A record that has one of these origins and a datagram may go into the store. -/
theorem Fitting.records_push (h : m.Fitting c names) {r : Record} (origin : r.origin ∈ names)
    (sendable : Wire.Sendable r.toPacket) : ∀ o, ∀ x ∈ (m.node.store.push r).log o, o ∈ names ∧ Wire.Sendable x.toPacket := by
  intro o x hx
  rcases Store.mem_or_eq_of_mem_log_push hx with hx | ⟨rfl, rfl⟩
  · exact h.records o x hx
  · exact ⟨origin, sendable⟩

section Perform

variable {a : Action} {now : Nat} {step : Step}

theorem Fitting.records_of_perform (h : m.Fitting c names) (heard : m.Heard (c.Expects names)) (name : m.node.name = c.origin)
    (member : c.origin ∈ names) (status : Wire.Sendable (.status (.full names))) (perform : step ∈ m.node.perform now a)
    (ha : m.Todo a) : ∀ o, ∀ r ∈ step.node.store.log o, o ∈ names ∧ Wire.Sendable r.toPacket := by
  rcases Node.store_of_perform perform with he | ⟨sender, r, rfl, he⟩ | ⟨r, makes, he⟩
  · rw [he]
    exact h.records
  · rw [he]
    obtain ⟨decoded, origins, -⟩ : c.Expects names r.toPacket := heard.todo _ ha
    exact h.records_push (origins r r.ofPacket?_toPacket) (Wire.decoded_iff.1 decoded)
  · rw [he]
    obtain ⟨origin, sendable⟩ := makes.sendable name (h.todo a ha) h.stocked member status
    exact h.records_push (by rw [origin]; exact member) sendable

theorem Fitting.queue_of_perform (h : m.Fitting c names) (perform : step ∈ m.node.perform now a) (ha : m.Todo a) :
    ∀ x ∈ step.node.proposalQueue, c.AllowsTransaction names x.2 := by
  by_cases takes : a = .takeProposal
  · subst a
    simp only [Node.perform, Node.takeProposal] at perform
    split at perform
    · cases perform
    · rename_i call tx queue hq
      rw [List.mem_singleton.1 perform]
      exact fun x hx => h.queue x (by rw [hq]; exact List.mem_cons_of_mem _ hx)
  by_cases calls : ∃ call tx, a = .propose call tx
  · obtain ⟨call, tx, rfl⟩ := calls
    have allowed := (h.todo _ ha).transaction tx rfl
    rw [List.mem_singleton.1 perform]
    unfold Node.propose
    split
    · exact h.queue
    split
    · rw [show ((m.node.reply call _).rest).node.proposalQueue = m.node.proposalQueue from
        congrArg (fun b => b.desk.queue) (m.node.backdrop_reply call _)]
      exact h.queue
    · intro x hx
      rcases List.mem_append.1 hx with hx | hx
      · exact h.queue x hx
      · rw [List.mem_singleton.1 hx]
        exact allowed
  · rw [show step.node.proposalQueue = m.node.proposalQueue from
      congrArg Node.Desk.queue (Node.desk_of_perform perform (fun call tx he => calls ⟨call, tx, he⟩) takes)]
    exact h.queue

theorem Fitting.clock (h : m.Fitting c names) (config : m.node.config = c) (sound : m.node.store.Sound)
    (status : Wire.Sendable (.status (.full names))) : ∀ report ∈ m.node.vectorClock, c.AllowsClock names report := by
  intro report hr
  unfold Node.vectorClock at hr
  split at hr
  · rename_i strict
    obtain rfl := Option.some.inj hr
    refine ⟨by rw [← config]; exact strict, Node.statusReport_le_full sound status.few (fun o ho => ?_)⟩
    obtain ⟨r, hr⟩ := List.exists_mem_of_ne_nil _ ho
    exact (h.records o r hr).1
  · cases hr

end Perform

/-- **No request that is within limits breaks them.** -/
theorem Fitting.answer (h : m.Fitting c names) (name : m.node.name = c.origin) (member : c.origin ∈ names) {q : Request}
    (within : c.Within names m (.call q) m') :
    (∀ o, ∀ r ∈ (m.node.answer q).node.store.log o, o ∈ names ∧ Wire.Sendable r.toPacket) ∧
      (m.node.answer q).node.Stocked c.AllowsBallot ∧
      (∀ a ∈ (m.node.answer q).todo, a.Allowed c names) := by
  have same : (m.node.answer q).node.frame = m.node.frame →
      ∀ o, ∀ r ∈ (m.node.answer q).node.store.log o, o ∈ names ∧ Wire.Sendable r.toPacket := by
    intro frame
    rw [show (m.node.answer q).node.store = m.node.store from congrArg (fun f => f.core.store) frame]
    exact h.records
  have begun : ∀ a ∈ (m.node.answer q).todo, a.Allowed c names := by
    intro a ha
    cases Node.begins_of_answer ha with
    | propose tx => exact ⟨fun tx' htx => by rw [← Option.some.inj htx]; exact within, fun _ hr => nomatch hr⟩
    | _ => exact .of_none rfl rfl
  refine ⟨?_, ?_, begun⟩
  · cases q with
    | postRumor text =>
      refine h.records_push (r := .rumor ⟨m.node.name, m.node.store.nextId m.node.name, text⟩) ?_ ?_
      · exact name ▸ member
      · refine Wire.Sendable.of_le (show c.AllowsText text from within) ?_
        rw [← name]
        exact Wire.Format.length_rumor_le _ _ _
    | sendPrivate d text => exact same (m.node.frame_originate _)
    | sendRouted p => exact same (m.node.frame_originate p)
    | submitBallot t b => exact same (m.node.frame_submitBallot t b)
    | addPeer p => exact same (m.node.frame_learnPeer p)
    | propose tx => exact same rfl
    | giveUpCall call => exact same rfl
  · cases q with
    | postRumor text | propose tx | giveUpCall call => exact h.stocked.of_shelf rfl
    | sendPrivate d text => exact h.stocked.of_shelf (congrArg Node.Backdrop.shelf (m.node.backdrop_originate _))
    | sendRouted p => exact h.stocked.of_shelf (congrArg Node.Backdrop.shelf (m.node.backdrop_originate p))
    | addPeer p => exact h.stocked.of_shelf (congrArg Node.Backdrop.shelf (m.node.backdrop_learnPeer p))
    | submitBallot t b => exact h.stocked.submitBallot within

theorem Fitting.move (h : m.Fitting c names) (run : Run (HearsOnly (c.Expects names)) c m) (member : c.origin ∈ names)
    (status : Wire.Sendable (.status (.full names))) (move : m.Move e deeds m') (within : c.Within names m e m') :
    m'.Fitting c names := by
  obtain ⟨name, config⟩ := run.kept
  have heard := run.heard
  cases move with
  | @acted now a step script others m' perform taken node left =>
    have ha := todo_of_taken taken
    refine ⟨by rw [node]; exact h.records_of_perform heard name member status perform ha, ?_,
      by rw [node]; exact h.queue_of_perform perform ha, fun a' ha' => ?_⟩
    · rw [node]
      refine Node.stocked_of_perform perform h.stocked (fun x hx b hb => ?_)
      subst a
      obtain ⟨announcement, rfl, -, -, ballots⟩ := heard.todo _ ha
      exact ballots (announcement.block.topic, b) (Option.map_eq_some_iff.2 ⟨b, hb, rfl⟩)
    · rcases todo_of_left taken left ha' with old | new
      · exact h.todo a' old
      · exact (Node.follows_of_perform perform new).allowed (h.todo a ha) h.queue (h.clock config run.sound status)
  | @answered q m' node left =>
    obtain ⟨records, stocked, begun⟩ := h.answer name member within
    refine ⟨by rw [node]; exact records, by rw [node]; exact stocked, ?_, fun a ha => ?_⟩
    · rw [node, show (m.node.answer q).node.proposalQueue = m.node.proposalQueue from
        congrArg Node.Desk.queue (m.node.desk_answer q)]
      exact h.queue
    · obtain ⟨script, hs, ha⟩ := ha
      rcases List.mem_append.1 (left.mem_iff.1 hs) with hs | hs
      · rcases List.mem_cons.1 hs with rfl | hs
        · exact begun a (List.mem_append_left _ ha)
        · exact begun a (Step.mem_todo_of_started hs ha)
      · exact h.todo a ⟨script, hs, ha⟩
  | @arrived n room sender p arrive =>
    have store : n.store = m.node.store := congrArg (fun f => f.core.store) (Node.frame_arrive arrive)
    have backdrop := Node.backdrop_arrive arrive
    have queue : n.proposalQueue = m.node.proposalQueue := congrArg (fun b => b.desk.queue) backdrop
    exact ⟨by rw [store]; exact h.records, h.stocked.of_shelf (congrArg Node.Backdrop.shelf backdrop),
      by rw [queue]; exact h.queue, h.todo⟩
  | closed => exact ⟨h.records, h.stocked.of_shelf rfl, h.queue, h.todo⟩
  | @stopped left sub =>
    have store : m.node.shutdown.store = m.node.store := congrArg (fun f => f.core.store) m.node.frame_shutdown
    have backdrop := m.node.backdrop_shutdown
    have queue : m.node.shutdown.proposalQueue = m.node.proposalQueue := congrArg (fun b => b.desk.queue) backdrop
    exact ⟨by rw [store]; exact h.records, h.stocked.of_shelf (congrArg Node.Backdrop.shelf backdrop),
      by rw [queue]; exact h.queue, fun a ⟨script, hs, ha⟩ => h.todo a ⟨script, sub.subset hs, ha⟩⟩

/-- **Within limits every record in the store has a datagram.** -/
theorem Run.fitting (h : Run (c.Within names) c m) (member : c.origin ∈ names)
    (status : Wire.Sendable (.status (.full names))) : m.Fitting c names := by
  obtain ⟨deeds, history⟩ := h.history
  refine history.induct (P := fun _ m => m.Fitting c names) (fun _ => .start) (fun past ih move within _ => ?_)
  refine ih.move (past.run.mono ?_) member status move within
  intro m e m' within p hp
  cases e with
  | arrive sender p' =>
    obtain rfl := Option.some.inj hp
    exact within
  | _ => cases hp

/-- **Within limits the status report has a datagram.** -/
theorem Run.status_sendable (h : Run (c.Within names) c m) (member : c.origin ∈ names)
    (status : Wire.Sendable (.status (.full names))) : Wire.Sendable (.status m.node.store.statusReport) := by
  refine status.of_le (Nat.succ_le_succ (Node.statusReport_le_full h.sound status.few (fun o ho => ?_)))
  obtain ⟨r, hr⟩ := List.exists_mem_of_ne_nil _ ho
  exact ((h.fitting member status).records o r hr).1

end Machine

/-! ## Records that have no datagram -/

namespace Network

open Relation (ReflTransGen)

variable {ι : Type} [DecidableEq ι]

/-- **A step of a network whose packets travel in datagrams**: what has no datagram does not arrive. -/
inductive Carries (net : Network ι) : Network ι → Prop where
  | turn {i : ι} {e : Machine.Event} {out : List Packet} {m : Machine} (h : (net.machines i).Turn e out m)
      (allowed : net.Allows e) (sendable : ∀ p ∈ e.packet?, Wire.Sendable p)
      (fits : ∀ j, ((⟨Function.update net.machines i m, out ++ net.sent⟩ : Network ι).stores j).Fits) :
    Carries net ⟨Function.update net.machines i m, out ++ net.sent⟩

/-- The states of a run of such steps. -/
def Carried (configs : ι → Config) (net : Network ι) : Prop :=
  ∃ first : Network ι, (∀ i, (first.machines i).Fresh (configs i)) ∧ first.sent = [] ∧ ReflTransGen Carries first net

variable {configs : ι → Config} {net net' : Network ι}

theorem Carried.trans (h : Carried configs net) (later : ReflTransGen Carries net net') : Carried configs net' := by
  obtain ⟨first, fresh, sent, before⟩ := h
  exact ⟨first, fresh, sent, before.trans later⟩

theorem Carried.reachable (h : Carried configs net) : Reachable configs net := by
  obtain ⟨first, fresh, sent, steps⟩ := h
  induction steps with
  | refl => exact .start fresh sent
  | tail _ step ih =>
    obtain ⟨turn, allowed, -, fits⟩ := step
    exact ih.step (.turn turn allowed) fits

/-- **Each machine of such a network hears only what has a datagram.** -/
theorem Carried.run (h : Carried configs net) (i : ι) : Machine.Run (Machine.HearsOnly Wire.Sendable) (configs i) (net.machines i) := by
  obtain ⟨first, fresh, sent, steps⟩ := h
  induction steps with
  | refl => exact .start (fresh i)
  | @tail net _ _ step ih =>
    obtain @⟨j, e, out, m, turn, allowed, sendable, fits⟩ := step
    by_cases hi : i = j
    · subst hi
      have fits := fits i
      simp only [stores, Function.update_self] at fits ⊢
      exact ih.turn turn sendable fits
    · simpa only [Function.update_of_ne hi] using ih

/-- A log stays what it was, as far as it went. -/
theorem log_prefix_of_carries (later : ReflTransGen Carries net net') (i : ι) (o : Origin) :
    (net.stores i).log o <+: (net'.stores i).log o := by
  induction later with
  | refl => exact List.prefix_rfl
  | @tail net _ _ step ih =>
    obtain @⟨j, e, out, m, turn, -, -, -⟩ := step
    rw [stores_update]
    have grows := Machine.StoreChange.log_prefix (Machine.storeChange_of_turn turn)
    exact ih.trans (LogNetwork.log_prefix_update net.stores j grows i o)

/-- **A record without a datagram never leaves its node**: no other node gets as far as its number. -/
theorem Carried.nextId_le (distinct : Function.Injective (fun i => (configs i).origin)) (h : Carried configs net) {i j : ι}
    (other : j ≠ i) {r : Record} (hr : r ∈ (net.stores i).log (configs i).origin) (long : ¬ Wire.Sendable r.toPacket) :
    (net.stores j).nextId (configs i).origin ≤ r.id := by
  have grounded := grounded_of_reachable distinct h.reachable
  have run := h.run j
  have foreign : (configs i).origin ≠ (net.machines j).node.name := by
    rw [run.kept.1]
    exact fun same => other (distinct same).symm
  by_contra further
  -- a log that goes further holds the record, as the node of its name does
  have place := ((grounded.agreed.sound i).get?_eq_some_iff).2 ⟨hr, rfl⟩
  have reaches : r.id.toNat ≤ ((net.stores j).log (configs i).origin).length := by
    have := (grounded.agreed.sound j).toNat_nextId (grounded.room j) (configs i).origin
    have := UInt32.lt_iff_toNat_lt.1 (UInt32.not_le.1 further)
    omega
  have held := Store.get?_of_longer (grounded.agreed.below j i) reaches place
  exact long (run.heard.foreign _ foreign r (Store.mem_log_of_get? held))

/-- **All later records of its origin are premature everywhere else.** -/
theorem Carried.premature (distinct : Function.Injective (fun i => (configs i).origin)) (h : Carried configs net) {i j : ι}
    (other : j ≠ i) {r : Record} (hr : r ∈ (net.stores i).log (configs i).origin) (long : ¬ Wire.Sendable r.toPacket)
    {r' : Record} (origin : r'.origin = (configs i).origin) (later : r.id < r'.id) :
    (net.stores j).accept r' = (.premature, net.stores j) := by
  have behind := h.nextId_le distinct other hr long
  have skips : (net.stores j).nextId r'.origin < r'.id := by
    rw [origin]
    exact Std.lt_of_le_of_lt behind later
  unfold Store.accept
  rw [if_neg (Std.not_lt.2 (Std.le_of_lt skips)), if_pos skips]

/-! ## Schedules -/

theorem carries_of_next? [Fintype ι] {move : Move ι} (h : net.next? move = some net')
    (sendable : ∀ p ∈ move.event.packet?, Wire.Sendable p) : Carries net net' := by
  unfold next? at h
  split at h
  · rename_i allowed
    obtain ⟨⟨out, m⟩, hturn, hfits⟩ := Option.bind_eq_some_iff.1 h
    dsimp only at hfits
    split at hfits
    · rename_i fits
      obtain rfl := Option.some.inj hfits
      exact .turn (Machine.turn_of_next? hturn) allowed sendable fits
    · cases hfits
  · cases h

/-- **A schedule in which only packets with datagrams arrive** leads on to a state of such a run. -/
theorem carries_of_play [Fintype ι] {moves : List (Move ι)} (h : net.play moves = some net')
    (sendable : ∀ move ∈ moves, ∀ p ∈ move.event.packet?, Wire.Sendable p) : ReflTransGen Carries net net' := by
  induction moves generalizing net with
  | nil => obtain rfl := Option.some.inj h; exact .refl
  | cons move moves ih =>
    obtain ⟨net'', hnext, hrest⟩ := Option.bind_eq_some_iff.1 h
    have first := carries_of_next? hnext (sendable move List.mem_cons_self)
    exact .head first (ih hrest (fun move hm => sendable move (List.mem_cons_of_mem _ hm)))

theorem carried_of_start? {addresses : ι → PeerAddress} {auth : Authenticator} [Fintype ι]
    (h : start? configs addresses auth = some net) : Carried configs net := by
  unfold start? at h
  split at h
  · rename_i hsome
    obtain rfl := Option.some.inj h
    exact ⟨_, fun i => Machine.fresh_of_start? (Option.some_get (hsome i)).symm, rfl, .refl⟩
  · cases h

/-! ## The theorem -/

/-- **What a node has to send can be sent, within limits**: if what arrives and what callers hand in keeps to them, every
record in the store and the status report have datagrams.  Without limits a record may be stored that has none, and then
its origin is cut off for good: no other node ever takes that record or a later one of its origin. -/
theorem sendable_within_limits (configs : ι → Config) :
    (∀ (c : Config) (names : List Origin) (m : Machine), Machine.Run (c.Within names) c m → c.origin ∈ names →
      Wire.Sendable (.status (.full names)) →
      (∀ o, ∀ r ∈ m.node.store.log o, Wire.Sendable r.toPacket) ∧ Wire.Sendable (.status m.node.store.statusReport)) ∧
    ∀ net : Network ι, Function.Injective (fun i => (configs i).origin) → Carried configs net →
      ∀ i, ∀ r ∈ (net.stores i).log (configs i).origin, ¬ Wire.Sendable r.toPacket →
      ∀ later, ReflTransGen Carries net later → ∀ j, j ≠ i →
        (later.stores j).nextId (configs i).origin ≤ r.id ∧
        ∀ r', r'.origin = (configs i).origin → r.id < r'.id → (later.stores j).accept r' = (.premature, later.stores j) := by
  constructor
  · intro c names m run member status
    exact ⟨fun o r hr => ((run.fitting member status).records o r hr).2, run.status_sendable member status⟩
  · intro net distinct carried i r hr long later steps j other
    have still := (log_prefix_of_carries steps i _).subset hr
    have carried := carried.trans steps
    exact ⟨carried.nextId_le distinct other still long,
      fun r' origin above => carried.premature distinct other still long origin above⟩

set_option maxRecDepth 40000 in
/-- A node makes records of all kinds within limits; another stores a proposal whose hash of 9216 octets has no datagram,
and the rumor that it posts next reaches its peer and is premature there. -/
theorem sendable_within_limits_and_without :
    let config : Config :=
      { name := "a", peers := ["B"], antiEntropyPeriod := 0, heartbeatPeriod := 1000, peerCount := 3, strictRounds := true }
    let configs : Fin 2 → Config := fun i => if i = 0 then
      { name := "a", peers := ["B"], antiEntropyPeriod := 0 } else { name := "b", peers := ["A"], antiEntropyPeriod := 0 }
    let long : Record := .proposal ⟨⟨"a"⟩, 1, none, Word256.zero, ⟨"t", 1, List.replicate 9216 7⟩, none⟩
    let next : Record := .rumor ⟨⟨"a"⟩, 2, "next"⟩
    (∃ m, Machine.Run (config.Within [⟨"a"⟩, ⟨"b"⟩]) config m ∧
      (m.node.store.log ⟨"a"⟩).map Record.kind = ["block", "proposal", "heartbeat", "rumor"] ∧
      (∀ o, ∀ r ∈ m.node.store.log o, Wire.Sendable r.toPacket) ∧ Wire.Sendable (.status m.node.store.statusReport)) ∧
    ∃ net later : Network (Fin 2), Carried configs net ∧ long ∈ (net.stores 0).log ⟨"a"⟩ ∧ ¬ Wire.Sendable long.toPacket ∧
      ReflTransGen Carries net later ∧ next ∈ (later.stores 0).log ⟨"a"⟩ ∧
      (later.stores 1).accept next = (.premature, later.stores 1) := by
  intro config configs long next
  let turns (task count : Nat) : List (Nat × Machine.Event) := List.replicate count (task, .act 0)
  let block : Packet := .block ⟨⟨"b"⟩, 1, Block.candidate genesisHash ⟨"v", "h", "w"⟩ 5 1 ⟨"b"⟩ "topic", ⟨Word256.zero, []⟩⟩
  let moves : List (Nat × Machine.Event) :=
    [(0, .arrive ⟨"B"⟩ block), (1, .act 0)] ++ turns 5 5 ++ turns 6 1 ++ turns 2 1 ++
    [(0, .call (.propose ⟨"t", 1, [7]⟩))] ++ turns 8 1 ++ turns 3 4 ++ turns 4 1 ++ [(0, .call (.postRumor "news"))]
  have played : ((Machine.start? config ⟨"A"⟩ .acceptAll).bind (Machine.play? (config.Within [⟨"a"⟩, ⟨"b"⟩]) moves)).map
      (fun m => (m.node.store.log ⟨"a"⟩).map Record.kind) = some ["block", "proposal", "heartbeat", "rumor"] := by
    decide +kernel
  have distinct : Function.Injective (fun i => (configs i).origin) := by intro i j; revert i j; decide +kernel
  let act (i : Fin 2) (task : Nat) : Move (Fin 2) := ⟨i, task, .act 0⟩
  let stores : List (Move (Fin 2)) := ⟨0, 0, .call (.propose ⟨"t", 1, List.replicate 9216 7⟩)⟩ :: List.replicate 3 (act 0 3)
  let posts : List (Move (Fin 2)) :=
    [⟨0, 0, .call (.postRumor "next")⟩, act 0 5, act 0 5, ⟨1, 0, .arrive ⟨"A"⟩ next.toPacket⟩, act 1 1] ++
    List.replicate 3 (act 1 3)
  have started : (((start? configs (fun i => if i = 0 then ⟨"A"⟩ else ⟨"B"⟩) .acceptAll).bind (play stores)).bind
      (fun net => (net.play posts).map (fun later => ((net.stores 0).log ⟨"a"⟩, (later.stores 0).log ⟨"a"⟩)))) =
      some ([long], [long, next]) := by decide +kernel
  have sendable := sendable_within_limits configs
  constructor
  · obtain ⟨m, hm, hkinds⟩ := Option.map_eq_some_iff.1 played
    have run := Machine.run_of_start? hm
    obtain ⟨records, status⟩ := sendable.1 config [⟨"a"⟩, ⟨"b"⟩] m run (by decide) (by decide +kernel)
    exact ⟨m, run, hkinds, records, status⟩
  · obtain ⟨net, hnet, hrest⟩ := Option.bind_eq_some_iff.1 started
    obtain ⟨later, hlater, hlogs⟩ := Option.map_eq_some_iff.1 hrest
    obtain ⟨first, hfirst, hstores⟩ := Option.bind_eq_some_iff.1 hnet
    obtain ⟨hlog, hlog'⟩ := Prod.mk.inj hlogs
    have carried := (carried_of_start? hfirst).trans (carries_of_play hstores (by decide))
    have steps := carries_of_play hlater (by decide +kernel)
    have held : long ∈ (net.stores 0).log ⟨"a"⟩ := by rw [hlog]; exact List.mem_singleton_self _
    have unsendable : ¬ Wire.Sendable long.toPacket := by decide +kernel
    obtain ⟨-, premature⟩ := sendable.2 net distinct carried 0 long held unsendable later steps 1 (by decide)
    exact ⟨net, later, carried, held, unsendable, steps, by rw [hlog']; exact List.mem_cons_of_mem _ List.mem_cons_self,
      premature next rfl (by decide)⟩

end Network

/-! ## A rumor that is too long -/

theorem utf8ByteSize_pushn (s : String) (c : Char) (n : Nat) :
    (s.pushn c n).utf8ByteSize = s.utf8ByteSize + n * c.utf8Size := by
  induction n with
  | zero => simp [String.pushn, Nat.repeat]
  | succ n ih =>
    have step : s.pushn c (n + 1) = (s.pushn c n).push c := rfl
    rw [step, String.utf8ByteSize_push, ih, Nat.succ_mul]
    omega

/-- A rumor whose text takes all the octets of a datagram has none. -/
theorem encode_rumor_of_long {m : Rumor} (long : Wire.maxSize ≤ m.text.utf8ByteSize) :
    Wire.encode (.rumor m) = .error (.tooLarge 9217) := by
  have octets : (utf8 m.text).length = m.text.utf8ByteSize := rfl
  have long' : Wire.maxSize < (Wire.Format.packet.write (.rumor m)).length + 1 := by
    simp only [Wire.Format.packet, Wire.Format.writePacket, Wire.Format.rumor, Wire.Format.iso, Wire.Format.seq,
      Wire.Format.text, List.length_cons, List.length_append]
    omega
  exact if_pos long'

namespace Machine

/-- **A rumor is stored whatever its length.** -/
theorem run_of_posted {config : Config} {address : PeerAddress} {auth : Authenticator} {first : Machine}
    (h : start? config address auth = some first) (text : String) :
    ∃ m, Run (HearsOnly Wire.Decoded) config m ∧ .rumor ⟨config.origin, 1, text⟩ ∈ m.node.store.log config.origin := by
  have fresh := fresh_of_start? h
  have run : Run (HearsOnly Wire.Decoded) config first := .start fresh
  have name := run.kept.1
  obtain ⟨_, _, _, _, hnew, -⟩ := fresh
  have empty : first.node.store = .empty := congrArg Node.Core.store (Node.core_new hnew)
  have store : (first.node.answer (.postRumor text)).node.store = Store.empty.push (.rumor ⟨config.origin, 1, text⟩) := by
    show first.node.store.push (.rumor ⟨first.node.name, first.node.store.nextId first.node.name, text⟩) = _
    rw [name, empty]
    rfl
  have fits : (Store.empty.push (.rumor ⟨config.origin, 1, text⟩)).Fits := by
    intro o
    have none : Store.empty.log o = [] := rfl
    rw [Store.log_push, none]
    split
    · exact show 2 < UInt32.size by decide
    · exact show 1 < UInt32.size by decide
  refine ⟨_, run.turn (.call (.postRumor text)) (fun _ h => nomatch h) (by rw [store]; exact fits), ?_⟩
  rw [store]
  exact Store.mem_log_push _ (.rumor ⟨config.origin, 1, text⟩)

/-- A rumor of 9216 octets is posted: it has its number, and has no datagram. -/
theorem posted_rumor_too_long :
    let config : Config := { name := "node0", peers := ["10.0.0.2:5000"], peerCount := 2 }
    ∃ m r, Run (HearsOnly Wire.Decoded) config m ∧ r ∈ m.node.store.log config.origin ∧
      r = .rumor ⟨config.origin, 1, String.pushn "" 'x' 9216⟩ ∧ Wire.encode r.toPacket = .error (.tooLarge 9217) := by
  intro config
  have starts : (start? config ⟨"10.0.0.1:5000"⟩ .acceptAll).isSome = true := by decide +kernel
  obtain ⟨first, hfirst⟩ := Option.isSome_iff_exists.1 starts
  obtain ⟨m, run, held⟩ := run_of_posted hfirst (String.pushn "" 'x' 9216)
  refine ⟨m, _, run, held, rfl, encode_rumor_of_long ?_⟩
  rw [utf8ByteSize_pushn]
  decide

end Machine
end GossipNode
