import GossipNode.Proofs.Node.Routes
import GossipNode.Proofs.Network.Journeys
/-!
# How far a routed packet gets

A packet that starts with some hops is sent no more often than that, whatever the tables say and however they change, and
it meets at most one fate.  While tables stay as they are and nothing is lost it goes along the next hops towards its
destination, and is delivered where it first comes to the destination if its hops last that long
(`Journey.routed_packets_arrive`).
-/
namespace GossipNode
namespace Journey

variable {ι : Type}

/-! ## Every datagram takes a hop -/

section Bounds

variable {p : Packet} {d : Origin} {h : UInt32} {nodes : ι → Node} {j j' : Journey ι} {x x' : Spot ι} {k : Nat}
  {out : List Flight} {es : List (Handling ι)}

theorem toNat_sub_one {g : UInt32} (left : 1 < g) : (g - 1).toNat + 1 = g.toNat ∧ 1 < g.toNat := by
  have more : 1 < g.toNat := UInt32.lt_iff_toNat_lt.1 left
  have pred : (g - 1).toNat = g.toNat - 1 := UInt32.toNat_sub_of_le g 1 (UInt32.le_of_lt left)
  exact ⟨by omega, more⟩

theorem Passage.sound (move : Passage p d nodes x out es x') (sound : x.Sound p h) : x'.Sound p h := by
  cases move with
  | arrives place up => exact ⟨sound.1, sound.2.1⟩
  | spent away left fates =>
    obtain ⟨pred, more⟩ := toNat_sub_one left
    have le := UInt32.le_iff_toNat_le.1 sound.2
    exact ⟨UInt32.le_iff_toNat_le.2 (by show 1 ≤ _; omega), UInt32.le_iff_toNat_le.2 (by omega)⟩
  | left hop datagram fates => exact ⟨sound.1, sound.2, datagram⟩
  | delivered home settled fates =>
    rcases settled with ⟨-, rfl⟩ | ⟨a, -, rfl⟩ <;> trivial
  | _ => trivial

/-- **Every datagram takes a hop, and every move brings the end nearer**; and only at the end has the packet a fate. -/
theorem Passage.spends (move : Passage p d nodes x out es x') (sound : x.Sound p h) :
    out.length + x'.budget ≤ x.budget ∧ x'.moves + 1 ≤ x.moves ∧
      (es.flatMap Handling.fates).length + x'.isOpen.toNat ≤ x.isOpen.toNat := by
  cases move with
  | @arrives f g i place up =>
    have positive : 1 ≤ g.toNat := UInt32.le_iff_toNat_le.1 sound.1
    refine ⟨by simp [Spot.budget], ?_, by simp [Spot.isOpen]⟩
    simp only [Spot.moves]
    omega
  | @refused f g i down =>
    have positive : 1 ≤ g.toNat := UInt32.le_iff_toNat_le.1 sound.1
    refine ⟨Nat.zero_le _, ?_, by simp [Spot.isOpen]⟩
    simp only [Spot.moves]
    omega
  | @delivered i sender g x home settled fates =>
    have positive : 1 ≤ g.toNat := UInt32.le_iff_toNat_le.1 sound.1
    rcases settled with ⟨-, rfl⟩ | ⟨a, -, rfl⟩
    all_goals
      refine ⟨Nat.zero_le _, ?_, by simp [Spot.isOpen, fates]⟩
      simp only [Spot.moves]
      omega
  | @spent i sender g e away left fates =>
    obtain ⟨pred, more⟩ := toNat_sub_one left
    refine ⟨?_, ?_, by simp [Spot.isOpen, fates]⟩
    · simp only [Spot.budget, List.length_nil]
      omega
    · simp only [Spot.moves]
      omega
  | @expired i sender g e away spent fates =>
    have positive : 1 ≤ g.toNat := UInt32.le_iff_toNat_le.1 sound.1
    refine ⟨Nat.zero_le _, ?_, by simp [Spot.isOpen, fates]⟩
    simp only [Spot.moves]
    omega
  | @left i f g e hop datagram fates =>
    have positive : 1 ≤ g.toNat := UInt32.le_iff_toNat_le.1 sound.1
    refine ⟨?_, Nat.le_refl _, by simp [Spot.isOpen, fates]⟩
    simp only [Spot.budget, List.length_singleton]
    omega
  | missed none fates => exact ⟨Nat.zero_le _, by simp [Spot.moves], by simp [Spot.isOpen, fates]⟩
  | counted fates => exact ⟨Nat.zero_le _, Nat.le_refl _, by simp [Spot.isOpen, fates]⟩

/-- **What holds of the packet at every spot**, after so many moves. -/
structure Bounded (p : Packet) (d : Origin) (h : UInt32) (k : Nat) (j : Journey ι) (x : Spot ι) : Prop where
  there : j.At p d x
  sound : x.Sound p h
  sent : j.sent.length + x.budget ≤ h.toNat
  moves : k + x.moves ≤ 3 * h.toNat + 1
  fates : j.fates.length + x.isOpen.toNat ≤ 1

theorem Bounded.goes (b : Bounded p d h k j x) (move : Goes p d j x j' x' out es) : Bounded p d h (k + 1) j' x' := by
  obtain ⟨budget, moves, fates⟩ := move.passage.spends b.sound
  refine ⟨move.there, move.passage.sound b.sound, ?_, ?_, ?_⟩
  · have := b.sent
    rw [move.sent, List.length_append]
    omega
  · have := b.moves
    omega
  · have := b.fates
    rw [move.fates, List.length_append]
    omega

theorem Bounded.disturbed (b : Bounded p d h k j x) (change : Disturbed j j') : ∃ x', Bounded p d h k j' x' := by
  obtain ⟨there, sound, sent, moves, fates⟩ := b
  cases change with
  | @mk nodes flights tasks flying doing =>
    rw [there.flights] at flying
    rw [there.tasks] at doing
    have same : flights = x.flights ∧ tasks = x.tasks p d ∨ flights = [] ∧ tasks = [] := by
      cases x with
      | flying f g =>
        rcases List.sublist_singleton.1 flying with hf | hf
        · exact .inr ⟨hf, List.sublist_nil.1 doing⟩
        · exact .inl ⟨hf, List.sublist_nil.1 doing⟩
      | gone => exact .inr ⟨List.sublist_nil.1 flying, List.sublist_nil.1 doing⟩
      | handling | forwarding | counting =>
        rcases List.sublist_singleton.1 doing with ht | ht
        · exact .inr ⟨List.sublist_nil.1 flying, ht⟩
        · exact .inl ⟨List.sublist_nil.1 flying, ht⟩
    rcases same with ⟨rfl, rfl⟩ | ⟨rfl, rfl⟩
    · exact ⟨x, ⟨rfl, rfl⟩, sound, sent, moves, fates⟩
    · exact ⟨.gone, ⟨rfl, rfl⟩, trivial, Nat.le_trans (Nat.le_add_right _ _) sent, Nat.le_trans (Nat.le_add_right _ _) moves,
        Nat.le_trans (Nat.le_add_right _ _) fates⟩

theorem bounded_ready {i : ι} (routed : p.route? = some (d, h)) (positive : 1 ≤ h) :
    Bounded p d h 0 (ready nodes i p d) (.forwarding i h) where
  there := at_ready routed
  sound := ⟨positive, UInt32.le_refl h⟩
  sent := by simp [ready, Spot.budget]
  moves := by simp [Spot.moves]
  fates := by simp [ready, Journey.fates, Spot.isOpen]

section Runs

variable [DecidableEq ι] {i : ι}

theorem bounded_of_reach (routed : p.route? = some (d, h)) (fits : Wire.Sendable p) (positive : 1 ≤ h)
    (away : (nodes i).name ≠ d) (reach : Reach Disturbed (originated nodes i p) k j) :
    ∃ x, Bounded p d h (k + 1) j x := by
  induction reach with
  | start =>
    -- Sending the packet off is a move too, the first one.
    obtain ⟨x', out, es, goes⟩ := goes_originated routed fits away
    exact ⟨x', (bounded_ready routed positive).goes goes⟩
  | advance _ move ih =>
    obtain ⟨x, b⟩ := ih
    obtain ⟨x', out, es, goes⟩ := move.goes b.there b.sound routed fits
    exact ⟨x', b.goes goes⟩
  | other _ change ih =>
    obtain ⟨x, b⟩ := ih
    exact b.disturbed change

end Runs

end Bounds

/-! ## Along the next hops -/

/-- Following the next hops towards a destination leads here, after so many hops. -/
inductive Leads (nodes : ι → Node) (d : Origin) (i : ι) : Nat → ι → Prop where
  | here : Leads nodes d i 0 i
  | on {k : Nat} {m m' : ι} : Leads nodes d i k m → (nodes m).routes.nextHop d = .ok (nodes m').address →
      Leads nodes d i (k + 1) m'

/-- Fewer hops than these do not lead to the destination. -/
def Elsewhere (nodes : ι → Node) (d : Origin) (i : ι) (k : Nat) : Prop :=
  ∀ l < k, ∀ m, Leads nodes d i l m → (nodes m).name ≠ d

/-- The next hops lead to the destination first after so many hops. -/
structure Finds (nodes : ι → Node) (d : Origin) (i : ι) (k : Nat) (m : ι) : Prop where
  leads : Leads nodes d i k m
  home : (nodes m).name = d
  first : Elsewhere nodes d i k

/-- Every table shows nodes of the network, the nodes are at distinct addresses, and all are up. -/
structure Wired (nodes : ι → Node) (d : Origin) : Prop where
  addresses : Function.Injective (fun m => (nodes m).address)
  hops : ∀ m hop, (nodes m).routes.nextHop d = .ok hop → ∃ m', (nodes m').address = hop
  up : ∀ m, (nodes m).down = false

/-- The packet was handed over at this node, as it was then, to the observers or to be counted. -/
def HandedOver (j : Journey ι) (m : ι) (q : Packet) : Prop :=
  j.fates = [(m, .delivered)] ∧
    ∃ e ∈ j.log, e.place = m ∧ e.step = e.node.deliverHere q ∧ e.step.HandsOver e.node q

def Counted (j : Journey ι) (m : ι) (a : Ack) : Prop := ∃ e ∈ j.log, e.place = m ∧ e.step = e.node.countAck a

/-- The packet was handed over at this node, and counted if it was an acknowledgment. -/
def DeliveredAs (j : Journey ι) (m : ι) (q : Packet) : Prop :=
  j.HandedOver m q ∧ ∀ a, q = .ack a → j.Counted m a

def arriving (p : Packet) (h : UInt32) (k : Nat) : Packet := p.withHopLimit (.ofNat (h.toNat - (k - 1)))

section Course

variable {p : Packet} {d : Origin} {h : UInt32} {nodes : ι → Node} {i m m' : ι} {j j' : Journey ι} {x x' : Spot ι}
  {k l : Nat} {out : List Flight} {es : List (Handling ι)}

theorem Leads.unique (wired : Wired nodes d) (way : Leads nodes d i k m) (way' : Leads nodes d i k m') : m = m' := by
  induction way generalizing m' with
  | here => cases way'; rfl
  | on _ hop ih =>
    cases way' with
    | on before' hop' =>
      rw [← ih before', hop] at hop'
      exact wired.addresses (Except.ok.inj hop')

/-- A way goes on from each of its nodes but the last. -/
theorem Leads.goes_on (way : Leads nodes d i k m) (lt : l < k) :
    ∃ m' hop, Leads nodes d i l m' ∧ (nodes m').routes.nextHop d = .ok hop := by
  induction way with
  | here => exact absurd lt (Nat.not_lt_zero l)
  | @on k m m' before hop ih =>
    rcases Nat.lt_succ_iff_lt_or_eq.1 lt with lt | rfl
    · exact ih lt
    · exact ⟨m, _, before, hop⟩

theorem Elsewhere.one (away : (nodes i).name ≠ d) : Elsewhere nodes d i 1 := by
  intro l lt m leads
  obtain rfl := Nat.lt_one_iff.1 lt
  cases leads
  exact away

theorem Elsewhere.succ (wired : Wired nodes d) (h : Elsewhere nodes d i k) (way : Leads nodes d i k m)
    (away : (nodes m).name ≠ d) : Elsewhere nodes d i (k + 1) := by
  intro l lt m' way'
  rcases Nat.lt_succ_iff_lt_or_eq.1 lt with lt | rfl
  · exact h l lt m' way'
  · rw [← way.unique wired way']
    exact away

/-- Where the way ends, it leads nowhere else. -/
theorem Elsewhere.of_end (wired : Wired nodes d) (h : Elsewhere nodes d i (k + 1)) (way : Leads nodes d i k m)
    (none : ∀ hop, (nodes m).routes.nextHop d ≠ .ok hop) (n : Nat) : Elsewhere nodes d i n := by
  intro l _ m' way'
  rcases Nat.lt_or_ge k l with lt | le
  · obtain ⟨m'', hop, way'', known⟩ := way'.goes_on lt
    rw [← way.unique wired way''] at known
    exact absurd known (none hop)
  · exact h l (Nat.lt_succ_of_le le) m' way'

/-- The packet was handed over where the next hops lead to the destination first, after so many hops. -/
structure Reached (nodes : ι → Node) (i : ι) (p : Packet) (d : Origin) (h : UInt32) (j : Journey ι) (k : Nat) (m : ι) :
    Prop where
  positive : 1 ≤ k
  le : k ≤ h.toNat
  finds : Finds nodes d i k m
  handed : j.HandedOver m (arriving p h k)

/-- What has become of a packet whose journey is over. -/
inductive Settled (nodes : ι → Node) (i : ι) (p : Packet) (d : Origin) (h : UInt32) (j : Journey ι) : Prop where
  | delivered {k : Nat} {m : ι} (reached : Reached nodes i p d h j k m)
      (counted : ∀ a, arriving p h k = .ack a → j.Counted m a) : Settled nodes i p d h j
  | dropped {m : ι} (fate : j.fates = [(m, .hopLimitDrop)] ∨ j.fates = [(m, .routingMiss)])
      (elsewhere : Elsewhere nodes d i (h.toNat + 1)) : Settled nodes i p d h j

/-- How far the packet has come, at each spot. -/
def Progress (nodes : ι → Node) (i : ι) (p : Packet) (d : Origin) (h : UInt32) (j : Journey ι) : Spot ι → Prop
  | .flying f g => j.fates = [] ∧ j.sent.length + g.toNat = h.toNat + 1 ∧ Elsewhere nodes d i j.sent.length ∧
      ∃ m, (nodes m).address = f.receiver ∧ Leads nodes d i j.sent.length m
  | .handling m _ g => j.fates = [] ∧ j.sent.length + g.toNat = h.toNat + 1 ∧ Elsewhere nodes d i j.sent.length ∧
      Leads nodes d i j.sent.length m
  | .forwarding m g => j.fates = [] ∧ j.sent.length + g.toNat = h.toNat ∧ Elsewhere nodes d i (j.sent.length + 1) ∧
      Leads nodes d i j.sent.length m
  | .counting m a => ∃ k, Reached nodes i p d h j k m ∧ arriving p h k = .ack a
  | .gone => Settled nodes i p d h j

/-- **What holds of the packet at every spot while the way stays as it is.** -/
structure OnCourse (nodes : ι → Node) (i : ι) (p : Packet) (d : Origin) (h : UInt32) (j : Journey ι) (x : Spot ι) :
    Prop where
  there : j.At p d x
  sound : x.Sound p h
  way : ∀ m, (nodes m).SameWay d (j.nodes m)
  progress : Progress nodes i p d h j x

/-- What comes after the delivery shows no other fate. -/
theorem Reached.of_silent (r : Reached nodes i p d h j k m) (log : j'.log = j.log ++ es)
    (silent : es.flatMap Handling.fates = []) : Reached nodes i p d h j' k m := by
  obtain ⟨positive, le, finds, fate, e, he, handed⟩ := r
  refine ⟨positive, le, finds, ?_, e, ?_, handed⟩
  · rw [fates, log, List.flatMap_append, silent, List.append_nil]
    exact fate
  · rw [log]
    exact List.mem_append_left _ he

theorem arriving_eq {g : UInt32} (le : g ≤ h) (hops : k + g.toNat = h.toNat + 1) : arriving p h k = p.withHopLimit g := by
  have le := UInt32.le_iff_toNat_le.1 le
  have left : h.toNat - (k - 1) = g.toNat := by omega
  rw [arriving, left, UInt32.ofNat_toNat]

theorem Progress.goes (wired : Wired nodes d) (on : OnCourse nodes i p d h j x) (move : Goes p d j x j' x' out es) :
    Progress nodes i p d h j' x' := by
  obtain ⟨-, sound, way, progress⟩ := on
  have fates := move.fates
  have sent := congrArg List.length move.sent
  rw [List.length_append] at sent
  obtain ⟨passage, -, -, log, -⟩ := move
  cases passage with
  | @arrives f g m place up =>
    -- The node at that address is the one that the way leads to, as addresses are distinct.
    obtain ⟨undecided, hops, elsewhere, m', address, leads⟩ := progress
    rw [(way m).address, ← address] at place
    obtain rfl := wired.addresses place
    refine ⟨by rw [fates, undecided]; rfl, ?_⟩
    rw [sent]
    exact ⟨hops, elsewhere, leads⟩
  | @refused f g m down =>
    rw [(way m).up, wired.up m] at down
    cases down
  | @delivered m sender g x home settled fate =>
    obtain ⟨undecided, hops, elsewhere, leads⟩ := progress
    rw [(way m).name] at home
    have le := UInt32.le_iff_toNat_le.1 sound.2
    have positive : 1 ≤ g.toNat := UInt32.le_iff_toNat_le.1 sound.1
    have here := arriving_eq (p := p) sound.2 hops
    have reached : Reached nodes i p d h j' j.sent.length m := by
      let e : Handling ι := ⟨m, j.nodes m, (j.nodes m).deliverHere (p.withHopLimit g)⟩
      refine ⟨by omega, by omega, ⟨leads, home, elsewhere⟩, ?_, e, ?_, rfl, ?_⟩
      · rw [fates, undecided, List.flatMap_singleton, fate]
        rfl
      · rw [log]
        exact List.mem_append_right _ (List.mem_singleton_self _)
      · rw [here]
        exact ⟨rfl, (j.nodes m).handsOver_deliverHere _⟩
    rw [← here] at settled
    rcases settled with ⟨other, rfl⟩ | ⟨a, isAck, rfl⟩
    · exact .delivered reached fun a isAck => absurd isAck (other a)
    · exact ⟨_, reached, isAck⟩
  | @spent m sender g e away left fate =>
    obtain ⟨undecided, hops, elsewhere, leads⟩ := progress
    obtain ⟨pred, -⟩ := toNat_sub_one left
    rw [(way m).name] at away
    refine ⟨by rw [fates, undecided, List.flatMap_singleton, fate]; rfl, ?_⟩
    rw [sent, List.length_nil, Nat.add_zero]
    exact ⟨by omega, elsewhere.succ wired leads away, leads⟩
  | @expired m sender g e away spent fate =>
    obtain ⟨undecided, hops, elsewhere, leads⟩ := progress
    rw [(way m).name] at away
    have last : j.sent.length = h.toNat := by
      have most : g.toNat ≤ 1 := UInt32.le_iff_toNat_le.1 spent
      have least : 1 ≤ g.toNat := UInt32.le_iff_toNat_le.1 sound.1
      omega
    refine .dropped (m := m) (.inl ?_) ?_
    · rw [fates, undecided, List.flatMap_singleton, fate]
      rfl
    · rw [← last]
      exact elsewhere.succ wired leads away
  | @left m f g e hop datagram fate =>
    obtain ⟨undecided, hops, elsewhere, leads⟩ := progress
    rw [(way m).hop] at hop
    obtain ⟨m', address⟩ := wired.hops m _ hop
    rw [← address] at hop
    refine ⟨by rw [fates, undecided, List.flatMap_singleton, fate]; rfl, ?_⟩
    rw [sent, List.length_singleton]
    exact ⟨by omega, elsewhere, m', address, leads.on hop⟩
  | @missed m g e none fate =>
    obtain ⟨undecided, hops, elsewhere, leads⟩ := progress
    refine .dropped (m := m) (.inr ?_) (elsewhere.of_end wired leads (by rw [← (way m).hop]; exact none) _)
    rw [fates, undecided, List.flatMap_singleton, fate]
    rfl
  | @counted m a fate =>
    obtain ⟨k, reached, isAck⟩ := progress
    refine .delivered (reached.of_silent log (by rw [List.flatMap_singleton, fate])) fun a' isAck' => ?_
    obtain rfl : a = a' := Packet.ack.inj (isAck.symm.trans isAck')
    refine ⟨⟨m, j.nodes m, (j.nodes m).countAck a⟩, ?_, rfl, rfl⟩
    rw [log]
    exact List.mem_append_right _ (List.mem_singleton_self _)

theorem OnCourse.goes (wired : Wired nodes d) (on : OnCourse nodes i p d h j x) (move : Goes p d j x j' x' out es) :
    OnCourse nodes i p d h j' x' where
  there := move.there
  sound := move.passage.sound on.sound
  way m := (on.way m).trans (move.way m)
  progress := Progress.goes wired on move

theorem OnCourse.undisturbed (on : OnCourse nodes i p d h j x) (change : Undisturbed d j j') :
    OnCourse nodes i p d h j' x := by
  obtain ⟨there, sound, way, progress⟩ := on
  cases change with
  | mk same =>
    -- What is meant by progress looks at what has been sent and at the log, and these stay.
    refine ⟨⟨there.flights, there.tasks⟩, sound, fun m => (way m).trans (same m), ?_⟩
    cases x with
    | flying | handling | forwarding => exact progress
    | counting m a =>
      obtain ⟨k, reached, isAck⟩ := progress
      exact ⟨k, reached.of_silent (List.append_nil _).symm rfl, isAck⟩
    | gone =>
      cases progress with
      | delivered reached counted => exact .delivered (reached.of_silent (List.append_nil _).symm rfl) counted
      | dropped fate elsewhere => exact .dropped fate elsewhere

theorem onCourse_ready (routed : p.route? = some (d, h)) (positive : 1 ≤ h) (away : (nodes i).name ≠ d) :
    OnCourse nodes i p d h (ready nodes i p d) (.forwarding i h) where
  there := at_ready routed
  sound := ⟨positive, UInt32.le_refl h⟩
  way _ := .refl d _
  progress := ⟨rfl, Nat.zero_add _, .one away, .here⟩

section Runs

variable [DecidableEq ι]

theorem onCourse_of_reach (wired : Wired nodes d) (routed : p.route? = some (d, h)) (fits : Wire.Sendable p)
    (positive : 1 ≤ h) (away : (nodes i).name ≠ d) (reach : Reach (Undisturbed d) (originated nodes i p) k j) :
    ∃ x, OnCourse nodes i p d h j x := by
  induction reach with
  | start =>
    obtain ⟨x', out, es, goes⟩ := goes_originated routed fits away
    exact ⟨x', (onCourse_ready routed positive away).goes wired goes⟩
  | advance _ move ih =>
    obtain ⟨x, on⟩ := ih
    obtain ⟨x', out, es, goes⟩ := move.goes on.there on.sound routed fits
    exact ⟨x', on.goes wired goes⟩
  | other _ change ih =>
    obtain ⟨x, on⟩ := ih
    exact ⟨x, on.undisturbed change⟩

theorem exists_advance {a : Action} {s : Step} (alone : j.tasks = [] ++ [(i, [a])])
    (perform : s ∈ (j.nodes i).perform 0 a) : ∃ j', j.Advance j' := ⟨_, .act alone perform⟩

/-- Until it rests the packet can get on. -/
theorem OnCourse.advance (on : OnCourse nodes i p d h j x) (busy : ¬ j.Resting) :
    ∃ j', j.Advance j' := by
  obtain ⟨there, sound, way, progress⟩ := on
  obtain ⟨flights, tasks⟩ := there
  cases x with
  | flying f g =>
    obtain ⟨-, -, -, m, address, -⟩ := progress
    have alone : j.flights = [] ++ [f] := flights
    exact ⟨_, .arrive alone ((way m).address.trans address) (Wire.decode_of_encode sound.2.2)
      (List.mem_singleton_self _)⟩
  | handling | forwarding | counting => exact exists_advance tasks (List.mem_singleton_self _)
  | gone => exact absurd ⟨flights, tasks⟩ busy

/-- **The journey comes to rest**, however far it has come. -/
theorem exists_resting (wired : Wired nodes d) (routed : p.route? = some (d, h)) (fits : Wire.Sendable p)
    (positive : 1 ≤ h) (away : (nodes i).name ≠ d) {n : Nat} (room : 3 * h.toNat ≤ k + n)
    (reach : Reach (Undisturbed d) (originated nodes i p) k j) :
    ∃ k' j', Reach (Undisturbed d) (originated nodes i p) k' j' ∧ j'.Resting := by
  -- The induction is on the moves that are left; after the last of them there would be one too many.
  induction n generalizing k j with
  | zero =>
    refine ⟨k, j, reach, Classical.byContradiction fun busy => ?_⟩
    obtain ⟨x, on⟩ := onCourse_of_reach wired routed fits positive away reach
    obtain ⟨j', move⟩ := on.advance busy
    obtain ⟨x', b⟩ := bounded_of_reach routed fits positive away ((reach.advance move).mono Undisturbed.disturbed)
    have most := b.moves
    omega
  | succ n ih =>
    by_cases rest : j.Resting
    · exact ⟨k, j, reach, rest⟩
    obtain ⟨x, on⟩ := onCourse_of_reach wired routed fits positive away reach
    obtain ⟨j', move⟩ := on.advance rest
    exact ih (by omega) (reach.advance move)

end Runs

theorem Finds.unique (wired : Wired nodes d) (finds : Finds nodes d i k m) (finds' : Finds nodes d i l m') :
    k = l ∧ m = m' := by
  rcases Nat.lt_trichotomy k l with lt | rfl | lt
  · exact absurd finds.home (finds'.first k lt m finds.leads)
  · exact ⟨rfl, finds.leads.unique wired finds'.leads⟩
  · exact absurd finds'.home (finds.first l lt m' finds'.leads)

end Course

/-! ## The theorem -/

section Theorem

variable [DecidableEq ι] {nodes : ι → Node} {i : ι} {p : Packet} {d : Origin} {h : UInt32}

/-- **A routed packet gets as far as its hops last.**  Let a node send a packet for another one, with at least one hop.
Whatever the tables show and however they change, and whatever is lost: it is sent at most as often as it has hops, it is
delivered at most once, and its journey ends.  If the way stays as it is and nothing is lost, it gets on until its journey
is over; then it has been delivered exactly if the next hops lead to the destination within its hops, and it was handed
over there with as many hops fewer as it was passed on; otherwise one node has dropped it, and counted that once. -/
theorem routed_packets_arrive (routed : p.route? = some (d, h)) (fits : Wire.Sendable p) (positive : 1 ≤ h)
    (away : (nodes i).name ≠ d) :
    (∀ k j, Reach Disturbed (originated nodes i p) k j →
      j.sent.length ≤ h.toNat ∧ j.fates.length ≤ 1 ∧ k ≤ 3 * h.toNat) ∧
    (Wired nodes d → ∀ k j, Reach (Undisturbed d) (originated nodes i p) k j →
      (¬ j.Resting → ∃ j', j.Advance j') ∧
      (j.Resting →
        ((∃ k m, 1 ≤ k ∧ k ≤ h.toNat ∧ Leads nodes d i k m ∧ (nodes m).name = d) ↔
          ∃ m, (nodes m).name = d ∧ j.fates = [(m, .delivered)]) ∧
        (∀ k m, k ≤ h.toNat → Finds nodes d i k m → j.DeliveredAs m (arriving p h k)) ∧
        ((∀ k m, 1 ≤ k → k ≤ h.toNat → Leads nodes d i k m → (nodes m).name ≠ d) →
          ∃ m, j.fates = [(m, .hopLimitDrop)] ∨ j.fates = [(m, .routingMiss)]))) := by
  refine ⟨fun k j reach => ?_, fun wired k j reach => ?_⟩
  · obtain ⟨x, b⟩ := bounded_of_reach routed fits positive away reach
    have sent := b.sent
    have moves := b.moves
    have fates := b.fates
    exact ⟨by omega, by omega, by omega⟩
  obtain ⟨x, on⟩ := onCourse_of_reach wired routed fits positive away reach
  refine ⟨on.advance, fun rest => ?_⟩
  obtain rfl := on.there.eq_gone rest
  have settled : Settled nodes i p d h j := on.progress
  cases settled with
  | @delivered k m reached counted =>
    obtain ⟨least, le, finds, handed⟩ := reached
    refine ⟨⟨fun _ => ⟨m, finds.home, handed.1⟩, fun _ => ⟨k, m, least, le, finds.leads, finds.home⟩⟩, ?_, ?_⟩
    · intro k' m' _ finds'
      obtain ⟨rfl, rfl⟩ := finds.unique wired finds'
      exact ⟨handed, counted⟩
    · exact fun elsewhere => absurd finds.home (elsewhere k m least le finds.leads)
  | @dropped m fate elsewhere =>
    refine ⟨⟨?_, ?_⟩, ?_, fun _ => ⟨m, fate⟩⟩
    · rintro ⟨k, m', -, le, leads, home⟩
      exact absurd home (elsewhere k (Nat.lt_succ_of_le le) m' leads)
    · rintro ⟨m', -, delivered⟩
      rcases fate with fate | fate <;> rw [fate] at delivered <;> cases delivered
    · intro k m' le finds
      exact absurd finds.home (elsewhere k (Nat.lt_succ_of_le le) m' finds.leads)

end Theorem

/-- From a over b to c, and from c on to a: two hops are enough, and one is not. -/
theorem routed_packets_arrive_after_two_hops :
    let c : Origin := ⟨"c"⟩
    let message (h : UInt32) : Packet := .private_ ⟨⟨"a"⟩, 0, "x", c, h⟩
    ∃ nodes : Fin 3 → Node, (nodes 0).name ≠ c ∧ Wired nodes c ∧ Finds nodes c 0 2 2 ∧
      (∃ k j, Reach (Undisturbed c) (originated nodes 0 (message 2)) k j ∧ j.Resting ∧ j.sent.length ≤ 2 ∧
        j.DeliveredAs 2 (message 1)) ∧
      ∃ k j, Reach (Undisturbed c) (originated nodes 0 (message 1)) k j ∧ j.Resting ∧ j.sent.length ≤ 1 ∧
        ∃ m, j.fates = [(m, .hopLimitDrop)] ∨ j.fates = [(m, .routingMiss)] := by
  intro c message
  let addresses : Fin 3 → PeerAddress := fun m => [⟨"A"⟩, ⟨"B"⟩, ⟨"C"⟩][m]
  let config (name : String) : Config := { name, peers := [], peerCount := 3 }
  let nodes : Fin 3 → Node := fun m =>
    { (Node.new (config (["a", "b", "c"][m])) (addresses m) .ambient .acceptAll).toOption.get
        (by revert m; decide +kernel) with routes := .apply .empty ⟨c, addresses (m + 1), false⟩ }
  have away : (nodes 0).name ≠ c := by decide +kernel
  have at_ : ∀ m, (nodes m).address = addresses m := by decide +kernel
  have next : ∀ m, (nodes m).routes.nextHop c = .ok (nodes (m + 1)).address := by
    simp only [RoutingTable.nextHop_eq_ok_iff]
    decide +kernel
  have wired : Wired nodes c := by
    refine ⟨?_, fun m hop known => ⟨m + 1, ?_⟩, by decide +kernel⟩
    · intro m m'
      revert m m'
      decide +kernel
    · rw [next] at known
      exact Except.ok.inj known
  have b : Leads nodes c 0 1 1 := .on .here (next 0)
  have finds : Finds nodes c 0 2 2 :=
    ⟨.on b (next 1), by decide +kernel, .succ wired (.one away) b (by decide +kernel)⟩
  obtain ⟨bound, course⟩ := routed_packets_arrive (p := message 2) rfl (by decide +kernel) (by decide) away
  obtain ⟨bound', course'⟩ := routed_packets_arrive (p := message 1) rfl (by decide +kernel) (by decide) away
  refine ⟨nodes, away, wired, finds, ?_, ?_⟩
  · obtain ⟨k, j, reach, rest⟩ := exists_resting wired (p := message 2) rfl (by decide +kernel) (by decide) away
      (Nat.le_add_left 6 0) .start
    exact ⟨k, j, reach, rest, (bound k j (reach.mono Undisturbed.disturbed)).1,
      ((course wired k j reach).2 rest).2.1 2 2 (by decide) finds⟩
  · obtain ⟨k, j, reach, rest⟩ := exists_resting wired (p := message 1) rfl (by decide +kernel) (by decide) away
      (Nat.le_add_left 3 0) .start
    refine ⟨k, j, reach, rest, (bound' k j (reach.mono Undisturbed.disturbed)).1, ?_⟩
    refine ((course' wired k j reach).2 rest).2.2 fun k' m least le leads => ?_
    obtain rfl : k' = 1 := Nat.le_antisymm le least
    rw [leads.unique wired b]
    decide +kernel

end Journey
end GossipNode
