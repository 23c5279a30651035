import Mathlib.Order.Bounds.Basic
import GossipNode.Proofs.Network.Histories
/-!
# Which nodes start

A configuration that passes its checks leaves one thing that a node cannot start with: the largest count of peers, whose
successor is no word.  Under any other the node starts, and every majority it counts to is the least number that is half
of its peers (`valid_configurations_start`).

A timer may have any period but zero.  The tasks that wait by a timer are started only if their period is not zero, or
wait by the one period that is checked; no action leads from one timer to another.
-/
namespace GossipNode

/-- **The least half**: a majority is the least positive number whose double makes up all peers. -/
theorem isLeast_majority (n : Nat) : IsLeast {k : Nat | 1 ≤ k ∧ n ≤ 2 * k} (majority n) := by
  refine ⟨⟨Nat.le_max_right _ _, ?_⟩, fun k hk => ?_⟩
  · have : (n + 1) / 2 ≤ majority n := Nat.le_max_left _ _
    omega
  · obtain ⟨positive, half⟩ := hk
    exact Nat.max_le.2 ⟨by omega, positive⟩

/-- The sum behind a majority is made before it is halved. -/
theorem wordMajority?_eq_overflow {peers : UInt64} (last : peers.toNat + 1 = UInt64.size) :
    wordMajority? peers = .error ⟨⟩ := if_neg (by omega)

theorem Config.validate_eq_ok_iff {c : Config} : c.validate = .ok () ↔
    c.name ≠ "" ∧ c.peerCount ≠ 0 ∧ c.mongerContinue.inUnitInterval = true ∧ c.hopLimit ≠ 0 ∧ c.stubbornTimeout ≠ 0 := by
  unfold validate
  split_ifs <;> simp_all

/-! ## Timers -/

/-- The period of the timer by which a task waits, in milliseconds. -/
def Action.period? (c : Config) : Action → Option UInt64
  | .awaitPush _ => some c.antiEntropyPeriod
  | .awaitHeartbeat _ => some c.heartbeatPeriod
  | .drive .. | .awaitMajority .. | .checkRound .. => some c.stubbornTimeout
  | _ => none

theorem period?_afterStamp (c c' : Config) (o : Origin) (id : SequenceId) (round : UInt32) (purpose : RoundPurpose) :
    (Node.afterStamp c' o id round purpose).period? c = none := by
  cases purpose with
  | acknowledge via =>
    simp only [Node.afterStamp]
    split <;> rfl
  | confirm | collect => rfl

/-- **One timer does not lead to another**: what follows an action waits by the same period, or by the one at which
proposals are sent again. -/
theorem Node.Follows.period? {n : Node} {c : Config} {a a' : Action} {p : UInt64} (h : n.Follows a a')
    (hp : a'.period? c = some p) : a.period? c = some p ∨ p = c.stubbornTimeout := by
  cases h with
  | awaitPush | awaitHeartbeat => exact .inl hp
  | drive | awaitMajority | checkRound | insist | insistInRound => exact .inr (Option.some.inj hp).symm
  | stamped => rw [period?_afterStamp] at hp; cases hp
  | _ => cases hp

theorem Node.Begins.period? {n : Node} {c : Config} {q : Request} {a : Action} (h : n.Begins q a) : a.period? c = none := by
  cases h <;> rfl

/-- **The timers that a node starts with**: each of them has a period, and is due at once or after one period. -/
theorem timer_of_task {c : Config} {now : Nat} {t : String × List Action} {a : Action} (ht : t ∈ Node.tasks c now)
    (ha : a ∈ t.2) :
    a.period? c = none ∧ a.deadline? = none ∨
      ∃ p tick, a.period? c = some p ∧ p ≠ 0 ∧ a.deadline? = some tick ∧ (tick = now ∨ tick = now + p.toNat) := by
  have periodic {p : UInt64} {name : String} {first : Action}
      (h : t ∈ if p = 0 then [] else [(name, [first])]) : p ≠ 0 ∧ a = first := by
    split at h
    · cases h
    · obtain rfl := List.mem_singleton.1 h
      exact ⟨‹_›, List.mem_singleton.1 ha⟩
  simp only [Node.tasks, List.mem_append] at ht
  rcases ht with ((ht | ht) | ht) | ht
  · simp only [List.mem_cons, List.not_mem_nil, or_false] at ht
    rcases ht with rfl | rfl | rfl <;>
    · obtain rfl := List.mem_singleton.1 ha
      exact .inl ⟨rfl, rfl⟩
  · split at ht
    · obtain rfl := List.mem_singleton.1 ht
      obtain rfl := List.mem_singleton.1 ha
      exact .inl ⟨rfl, rfl⟩
    · cases ht
  · obtain ⟨positive, rfl⟩ := periodic ht
    exact .inr ⟨_, _, rfl, positive, rfl, .inr rfl⟩
  · obtain ⟨positive, rfl⟩ := periodic ht
    exact .inr ⟨_, _, rfl, positive, rfl, .inl rfl⟩

namespace Machine

variable {m : Machine} {c : Config} {allowed : Machine → Event → Machine → Prop}

/-- **No timer of a run has the period zero.** -/
theorem Run.period_ne_zero (h : Run allowed c m) {a : Action} {p : UInt64} (ha : m.Todo a) (hp : a.period? c = some p) :
    p ≠ 0 := by
  obtain ⟨deeds, history⟩ := h.history
  -- the configuration has been checked where the run began
  suffices c.stubbornTimeout ≠ 0 ∧ ∀ a, m.Todo a → ∀ p, a.period? c = some p → p ≠ 0 from this.2 a ha p hp
  refine history.induct (P := fun _ m =>
    c.stubbornTimeout ≠ 0 ∧ ∀ a, m.Todo a → ∀ p, a.period? c = some p → p ≠ 0) ?_ ?_
  · rintro m ⟨_, _, _, now, hnew, htasks⟩
    obtain ⟨valid, -⟩ := Node.checks_of_new hnew
    refine ⟨(Config.validate_eq_ok_iff.1 valid).2.2.2.2, fun a ha p hp => ?_⟩
    obtain ⟨script, hs, ha⟩ := ha
    rw [htasks] at hs
    obtain ⟨t, ht, rfl⟩ := List.mem_map.1 hs
    rcases timer_of_task ht ha with ⟨none, -⟩ | ⟨p', _, hp', positive, -⟩
    · rw [none] at hp; cases hp
    · rw [hp'] at hp
      obtain rfl := Option.some.inj hp
      exact positive
  · rintro deeds more m m' e - ⟨stubborn, ih⟩ move - -
    refine ⟨stubborn, fun a ha p hp => ?_⟩
    cases more with
    | nil =>
      rcases move.todo_of_idle ha with ha | ⟨q, ha⟩
      · exact ih a ha p hp
      · rw [(Node.begins_of_answer ha).period?] at hp; cases hp
    | cons d more =>
      cases move with
      | acted perform taken node left =>
        rcases todo_of_left taken left ha with ha | ha
        · exact ih a ha p hp
        · rcases (Node.follows_of_perform perform ha).period? hp with hp | rfl
          · exact ih _ (todo_of_taken taken) p hp
          · exact stubborn

end Machine

/-! ## Starting -/

/-- **A configuration that passes its checks starts a node**, with the least majorities, unless its count of peers is the
largest word.  The timers that the node starts with are due within a word of milliseconds, and no timer of any of its
runs has the period zero. -/
theorem valid_configurations_start {c : Config} (valid : c.validate = .ok ()) (address : PeerAddress)
    (random : RandomSource) (auth : Authenticator) :
    (c.peerCount.toNat + 1 < UInt64.size → ∃ k n, wordMajority? c.peerCount = .ok k ∧
      IsLeast {k : Nat | 1 ≤ k ∧ c.peerCount.toNat ≤ 2 * k} k ∧ Node.new c address random auth = .ok n ∧
      n.broadcast.acks.threshold = k ∧ n.broadcast.tracker.threshold = k) ∧
    (c.peerCount.toNat + 1 = UInt64.size → wordMajority? c.peerCount = .error ⟨⟩ ∧
      Node.new c address random auth = .error (.overflow ⟨⟩)) ∧
    (∀ now, ∀ t ∈ Node.tasks c now, ∀ a ∈ t.2, ∀ tick, a.deadline? = some tick →
      now ≤ tick ∧ tick < now + UInt64.size) ∧
    ∀ allowed m, Machine.Run allowed c m → ∀ a, m.Todo a → ∀ p, a.period? c = some p → p ≠ 0 := by
  obtain ⟨-, positive, -⟩ := Config.validate_eq_ok_iff.1 valid
  refine ⟨fun room => ?_, fun last => ?_, fun now t ht a ha tick htick => ?_,
    fun allowed m run a ha p hp => run.period_ne_zero ha hp⟩
  · have word := wordMajority?_eq_ok room
    have made : ∃ n, Node.new c address random auth = .ok n := by
      unfold Node.new
      rw [valid, threshold?_eq positive, word]
      exact ⟨_, rfl⟩
    obtain ⟨n, hn⟩ := made
    have core := Node.core_new hn
    exact ⟨_, n, word, isLeast_majority _, hn, congrArg (fun k => k.broadcast.acks.threshold) core,
      congrArg (fun k => k.broadcast.tracker.threshold) core⟩
  · have word := wordMajority?_eq_overflow last
    refine ⟨word, ?_⟩
    unfold Node.new
    rw [valid, threshold?_eq positive, word]
    rfl
  · rcases timer_of_task ht ha with ⟨-, none⟩ | ⟨p, due, -, -, hdue, within⟩
    · rw [none] at htick; cases htick
    · rw [hdue] at htick
      obtain rfl := Option.some.inj htick
      have := p.toNat_lt_size
      rcases within with rfl | rfl <;> omega

/-- One of five nodes with strict rounds and both timers: three of them are a majority, the timers are due in time, and
the node runs. -/
theorem five_peers_start_with_timers :
    let config : Config :=
      { name := "a", peers := ["127.0.0.1:5001", "127.0.0.1:5002", "127.0.0.1:5003", "127.0.0.1:5004"], peerCount := 5,
        strictRounds := true, antiEntropyPeriod := 500, heartbeatPeriod := 2000 }
    config.validate = .ok () ∧ config.peerCount.toNat + 1 < UInt64.size ∧
      (∀ t ∈ Node.tasks config 7, ∀ a ∈ t.2, ∀ tick, a.deadline? = some tick → 7 ≤ tick ∧ tick < 7 + UInt64.size) ∧
      ∃ n, Node.new config ⟨"127.0.0.1:5000"⟩ .ambient (.sharedSecret (utf8 openNetworkSecret)) = .ok n ∧
        n.broadcast.acks.threshold = 3 ∧ n.broadcast.tracker.threshold = 3 ∧
        ∃ m, Machine.Run Machine.KeepsCounting config m ∧ m.node = n ∧ m.Todo (.awaitPush 507) ∧ m.Todo (.awaitHeartbeat 7) ∧
          ∀ a, m.Todo a → ∀ p, a.period? config = some p → p ≠ 0 := by
  intro config
  have valid : config.validate = .ok () := by decide
  obtain ⟨starts, -, due, periods⟩ := valid_configurations_start valid ⟨"127.0.0.1:5000"⟩ .ambient
    (.sharedSecret (utf8 openNetworkSecret))
  obtain ⟨k, n, word, -, hn, acks, tracker⟩ := starts (by decide)
  obtain rfl : 3 = k := Except.ok.inj ((by decide : wordMajority? 5 = .ok 3).symm.trans word)
  let m : Machine := ⟨n, (Node.tasks config 7).map Prod.snd⟩
  have push : [Action.awaitPush 507] ∈ (Node.tasks config 7).map Prod.snd := by decide
  have heartbeat : [Action.awaitHeartbeat 7] ∈ (Node.tasks config 7).map Prod.snd := by decide
  have run : Machine.Run Machine.KeepsCounting config m := .start ⟨_, _, _, 7, hn, rfl⟩
  exact ⟨valid, by decide, due 7, n, hn, acks, tracker, m, run, rfl, ⟨_, push, List.mem_singleton_self _⟩,
    ⟨_, heartbeat, List.mem_singleton_self _⟩, periods _ m run⟩

/-- **The largest count of peers passes all checks, and no node starts with it**, although it has a majority. -/
theorem largest_peer_count_overflows :
    ({ peerCount := 18446744073709551615 } : Config).validate = .ok () ∧
      IsLeast {k : Nat | 1 ≤ k ∧ 18446744073709551615 ≤ 2 * k} 9223372036854775808 ∧
      wordMajority? 18446744073709551615 = .error ⟨⟩ ∧
      Node.new { peerCount := 18446744073709551615 } ⟨"127.0.0.1:5000"⟩ .ambient
        (.sharedSecret (utf8 openNetworkSecret)) = .error (.overflow ⟨⟩) := by
  have valid : ({ peerCount := 18446744073709551615 } : Config).validate = .ok () := by decide
  have word : wordMajority? 18446744073709551615 = .error ⟨⟩ := by decide
  refine ⟨valid, isLeast_majority 18446744073709551615, word, ?_⟩
  unfold Node.new
  rw [valid, threshold?_eq (by decide), word]
  rfl

end GossipNode
