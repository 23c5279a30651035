import GossipNode.Proofs.Network.Courses
/-!
# How a record walks from peer to peer

A task that spreads a record sends it to one peer, waits for the report of that peer, and then goes on or ends.  Which
peers it sends to, when it goes on, when it draws a coin and what it leaves in the registry is read off its course
(`Walk`).  Whatever else happens to the node meanwhile: reports come or do not, peers become known, other tasks send.

An action of such a task is one of four, with six kinds of steps (`Walk.Stride`); all is shown of these, and along a
course by induction.
-/
namespace GossipNode

/-! ## What is seen of a walk -/

/-- How the wait for a report ends. -/
inductive Ending where
  | noticed (x : Notice)
  | late
deriving DecidableEq

/-- The peer shows just this record and is otherwise in sync, or it does not report in time. -/
def Ending.encourages (r : Record) : Ending → Bool
  | noticed x => x.inSync && x.nextId.toNat == r.id.toNat + 1
  | late => true

/-- The wait that an action finds ended: for the report of which peer, and how. -/
def Node.ending? (n : Node) : Action → Option (PeerAddress × Ending)
  | .awaitNotice _ p ticket _ => (n.notices.get? ticket).map fun x => (p, .noticed x)
  | .giveUp _ p _ => some (p, .late)
  | _ => none

/-- The coin that a node draws if it draws one, and the source of randomness after it. -/
def Node.coin (n : Node) : Bool × RandomSource := n.random.flip n.config.mongerContinue

/-- The peers that a step sends something to. -/
def Step.receivers (s : Step) : List PeerAddress :=
  s.effects.filterMap fun
    | .send p _ => some p
    | _ => none

namespace Walk

/-- A walk starts with a given peer, or with any known peer outside a list. -/
inductive Start where
  | target (p : PeerAddress)
  | outside (excluded : List PeerAddress)

def Start.effect (r : Record) : Start → Effect
  | target p => .push r p
  | outside excluded => .spread r excluded

/-- The script of the task that spreads a record. -/
def Start.script (r : Record) (start : Start) : List Action := (start.effect r).script?.getD []

/-- The peers that a node may send to first. -/
def Start.Finds (n : Node) : Start → PeerAddress → Prop
  | target p, q => q = p
  | outside excluded, q => q ∈ n.peers.all ∧ q ∉ excluded

/-- The peers that have been sent something, each with the node that sent it. -/
def sendings (deeds : List Deed) : List (PeerAddress × Node) :=
  deeds.flatMap fun d => d.step.receivers.map fun p => (p, d.node)

/-- The waits that have ended. -/
def endings (deeds : List Deed) : List (PeerAddress × Ending) := deeds.filterMap fun d => d.node.ending? d.action

/-- What it takes to go on after a wait for the report of a peer: its ending, the coin, and another peer that is known
when the next one is chosen. -/
def MayGoOn (r : Record) (d : Deed) (after : List Deed) (p : PeerAddress) (ending : Ending) : Prop :=
  ending.encourages r = true ∧ d.node.coin.1 = true ∧ ∃ d' ∈ after.head?, ∃ q ∈ d'.node.peers.all, q ≠ p

end Walk

open Walk in
/-- **A walk**: what the task that spreads a record has done, with the node after that and what is left of its script. -/
structure Walk (r : Record) (start : Start) (deeds : List Deed) (n : Node) (script : List Action) : Prop where
  /-- Nothing but the record is sent, and no task is started. -/
  sends : ∀ d ∈ deeds, ∀ e ∈ d.step.effects, ∃ p, e = .send p r.toPacket
  /-- The first peer is the given one, or a known one outside the list. -/
  first : ∀ x ∈ (sendings deeds).head?, start.Finds x.2 x.1
  /-- Every later peer is known then, and is neither the one before nor the node itself. -/
  next : (sendings deeds).IsChain fun x y => y.1 ∈ y.2.peers.all ∧ y.1 ≠ x.1 ∧ y.1 ≠ y.2.address
  /-- A wait that has ended is that for the report of the peer sent to last; one coin is drawn if its ending encourages to
  go on, and none otherwise.  Only where it may go on, the walk does; if it has ended, it has gone on there. -/
  goesOn : ∀ before d after p ending, deeds = before ++ d :: after → d.node.ending? d.action = some (p, ending) →
    (sendings before).map Prod.fst = (endings before).map Prod.fst ++ [p] ∧
    d.step.node.random = (if ending.encourages r then d.node.coin.2 else d.node.random) ∧
    (sendings after ≠ [] → MayGoOn r d after p ending) ∧ (script = [] → MayGoOn r d after p ending → sendings after ≠ [])
  /-- Nothing else draws a coin; of randomness, there is but the choice of a peer. -/
  coins : ∀ d ∈ deeds, d.node.ending? d.action = none → d.step.node.random = d.node.random ∨
    ∃ excluded, d.step.node.random = (d.node.peers.randomExcluding excluded d.node.random).2
  /-- If it has ended, every wait has, and it has sent the record if there was anyone to send it to. -/
  ended : script = [] → (sendings deeds).map Prod.fst = (endings deeds).map Prod.fst ∧
    (sendings deeds ≠ [] ↔ ∃ d ∈ deeds.head?, ∃ q, start.Finds d.node q)
  /-- If it has ended, no registration that it has made is left. -/
  gone : script = [] → ∀ d ∈ deeds, ∀ t ∈ d.step.node.acks.registered, t ∉ d.node.acks.registered →
    t ∉ n.acks.registered
  /-- If it has not ended, it can go on from some time on, whatever that brings. -/
  able : ∀ a ∈ script, ∃ time, ∀ now, time ≤ now → n.perform now a ≠ []

/-! ## Choosing a peer -/

namespace PeerSet

variable {s : PeerSet} {excluded : List PeerAddress} {p : PeerAddress}

theorem mem_eligible : p ∈ s.eligible excluded ↔ p ∈ s.all ∧ p ∉ excluded := by
  simp [eligible]

/-- **The choice is one of the peers outside the list**, if there is one. -/
theorem randomExcluding_cases (s : PeerSet) (excluded : List PeerAddress) (random : RandomSource) :
    (∃ p, (s.randomExcluding excluded random).1 = some p ∧ p ∈ s.all ∧ p ∉ excluded) ∨
      (s.randomExcluding excluded random).1 = none ∧ ∀ p ∈ s.all, p ∈ excluded := by
  unfold randomExcluding RandomSource.pick
  dsimp only
  by_cases none : (s.eligible excluded).length = 0
  · rw [if_pos none]
    refine .inr ⟨rfl, fun p hp => ?_⟩
    by_contra outside
    rw [List.length_eq_zero_iff] at none
    exact List.ne_nil_of_mem (mem_eligible.2 ⟨hp, outside⟩) none
  · rw [if_neg none]
    have bound := Nat.mod_lt random.next.1.toNat (Nat.pos_of_ne_zero none)
    exact .inl ⟨_, List.getElem?_eq_getElem bound, mem_eligible.1 (List.getElem_mem bound)⟩

end PeerSet

/-! ## The steps of a walk -/

/-- The peer whose report a task waits for. -/
def Action.asked? : Action → Option PeerAddress
  | awaitNotice _ p _ _ => some p
  | giveUp _ p _ => some p
  | _ => none

namespace Walk

variable {r : Record} {n n' : Node} {a : Action} {now : Nat} {step : Step} {script script' : List Action} {deeds : List Deed}
  {d : Deed} {p : PeerAddress} {ending : Ending}

theorem sendings_cons (d : Deed) (deeds : List Deed) :
    sendings (d :: deeds) = d.step.receivers.map (fun p => (p, d.node)) ++ sendings deeds := List.flatMap_cons

theorem endings_cons (d : Deed) (deeds : List Deed) :
    endings (d :: deeds) = (d.node.ending? d.action).toList ++ endings deeds := by
  unfold endings
  cases h : d.node.ending? d.action <;> simp [h]

/-- The scripts of a walk. -/
inductive Walking (r : Record) : List Action → Prop where
  | choosing (excluded : List PeerAddress) : Walking r [.chooseTarget r excluded]
  | sending (p : PeerAddress) : Walking r [.sendRecord r p]
  | waiting (p : PeerAddress) (ticket deadline : Nat) : Walking r [.awaitNotice r p ticket deadline]
  | leaving (p : PeerAddress) (ticket : Nat) : Walking r [.giveUp r p ticket]
  | ended : Walking r []

/-- What an ending leads to. -/
def conclude (n : Node) (r : Record) (p : PeerAddress) (ending : Ending) : Step :=
  let (heads, random) := n.random.flip n.config.mongerContinue
  ⟨{ n with random := if ending.encourages r then random else n.random },
    if ending.encourages r && heads then [.chooseTarget r [p]] else [], []⟩

/-- **A step of a walk**, by what is found and what is done. -/
inductive Stride (r : Record) (n : Node) : Action → Step → Prop where
  | chosen {excluded : List PeerAddress} {q : PeerAddress} (known : q ∈ n.peers.all) (outside : q ∉ excluded) :
    Stride r n (.chooseTarget r excluded)
      ⟨{ n with random := (n.peers.randomExcluding excluded n.random).2 }, [.sendRecord r q], []⟩
  | alone {excluded : List PeerAddress} (none : ∀ q ∈ n.peers.all, q ∈ excluded) :
    Stride r n (.chooseTarget r excluded) ⟨{ n with random := (n.peers.randomExcluding excluded n.random).2 }, [], []⟩
  | sent {p : PeerAddress} {deadline : Nat} : Stride r n (.sendRecord r p)
      ⟨{ n with acks := (n.acks.register p r.origin r.id).2
                metrics := { n.metrics with mongersSent := n.metrics.mongersSent + 1 } },
        [.awaitNotice r p n.acks.nextTicket deadline], [.send p r.toPacket]⟩
  | noticed {p : PeerAddress} {ticket deadline : Nat} {x : Notice} (there : n.notices.get? ticket = some x) :
    Stride r n (.awaitNotice r p ticket deadline)
      (conclude { n with notices := n.notices.erase ticket } r p (.noticed x))
  | late {p : PeerAddress} {ticket deadline : Nat} (absent : n.notices.contains ticket = false) :
    Stride r n (.awaitNotice r p ticket deadline) ⟨{ n with acks := n.acks.abandon ticket }, [.giveUp r p ticket], []⟩
  | gaveUp {p : PeerAddress} {ticket : Nat} : Stride r n (.giveUp r p ticket)
      (conclude { n with acks := n.acks.cancel ticket
                         metrics := { n.metrics with mongerTimeouts := n.metrics.mongerTimeouts + 1 } } r p .late)

theorem conclude_of_encourages (n : Node) (r : Record) (p : PeerAddress) (h : ending.encourages r = true) :
    conclude n r p ending = n.flipToGoOn r p := by
  unfold conclude Node.flipToGoOn
  rw [h]
  generalize n.random.flip n.config.mongerContinue = coin
  obtain ⟨heads, random⟩ := coin
  cases heads <;> rfl

theorem conclude_of_not_encourages (n : Node) (r : Record) (p : PeerAddress) (h : ending.encourages r = false) :
    conclude n r p ending = n.rest := by
  unfold conclude
  rw [h]
  rfl

theorem next_conclude (n : Node) (r : Record) (p : PeerAddress) (ending : Ending) :
    (conclude n r p ending).next = [.chooseTarget r [p]] ∨ (conclude n r p ending).next = [] := by
  unfold conclude
  dsimp only
  split
  · exact .inl rfl
  · exact .inr rfl

/-- Below the last number, one more is one more. -/
theorem showsOnly_eq (hid : r.id.toNat + 1 < UInt32.size) (x : Notice) :
    Node.showsOnly r x = (Ending.noticed x).encourages r := by
  unfold Node.showsOnly Ending.encourages
  rw [← toNat_add_one hid]
  congr 1
  rw [Bool.eq_iff_iff, beq_iff_eq, beq_iff_eq, UInt32.toNat_inj]

/-- **Every step of a walking task is a stride.** -/
theorem Walking.stride (hid : r.id.toNat + 1 < UInt32.size) (walking : Walking r (a :: script))
    (perform : step ∈ n.perform now a) : script = [] ∧ Stride r n a step := by
  cases walking with
  | choosing excluded =>
    refine ⟨rfl, ?_⟩
    rw [List.mem_singleton.1 perform, Node.chooseTarget]
    rcases n.peers.randomExcluding_cases excluded n.random with ⟨q, chosen, known, outside⟩ | ⟨chosen, none⟩
    · dsimp only
      rw [chosen]
      exact .chosen known outside
    · dsimp only
      rw [chosen]
      exact .alone none
  | sending p =>
    rw [List.mem_singleton.1 perform]
    exact ⟨rfl, .sent⟩
  | waiting p ticket deadline =>
    refine ⟨rfl, ?_⟩
    simp only [Node.perform, Node.awaitNotice, List.mem_append, Option.mem_toList, Option.map_eq_some_iff] at perform
    rcases perform with ⟨x, there, rfl⟩ | elapsed
    · have noticed : Stride r n (.awaitNotice r p ticket deadline) _ := .noticed there
      rw [showsOnly_eq hid]
      cases encourages : (Ending.noticed x).encourages r with
      | true =>
        rw [conclude_of_encourages _ r p encourages] at noticed
        exact noticed
      | false =>
        rw [conclude_of_not_encourages _ r p encourages] at noticed
        exact noticed
    · split at elapsed
      · rename_i due
        rw [← Option.some.inj elapsed]
        exact .late due.2
      · cases elapsed
  | leaving p ticket =>
    have encourages : Ending.late.encourages r = true := rfl
    rw [List.mem_singleton.1 perform, Node.giveUp, ← conclude_of_encourages _ r p encourages]
    exact ⟨rfl, .gaveUp⟩

theorem Walking.of_stride (stride : Stride r n a step) : Walking r step.next := by
  have concluded (n : Node) (p : PeerAddress) (ending : Ending) : Walking r (conclude n r p ending).next := by
    rcases next_conclude n r p ending with next | next <;> rw [next]
    · exact .choosing [p]
    · exact .ended
  cases stride with
  | chosen => exact .sending _
  | sent => exact .waiting _ _ _
  | late => exact .leaving _ _
  | alone => exact .ended
  | noticed | gaveUp => exact concluded _ _ _

theorem ending?_awaitNotice (n : Node) (r : Record) (p : PeerAddress) (ticket deadline : Nat) :
    n.ending? (.awaitNotice r p ticket deadline) = (n.notices.get? ticket).map fun x => (p, .noticed x) := rfl

/-- An ending draws one coin if it encourages to go on, and the walk goes on with heads. -/
theorem Stride.concludes (stride : Stride r n a step) (h : n.ending? a = some (p, ending)) :
    a.asked? = some p ∧ step.node.random = (if ending.encourages r then n.coin.2 else n.random) ∧
      step.next = if ending.encourages r && n.coin.1 then [.chooseTarget r [p]] else [] := by
  cases stride with
  | chosen | alone | sent => cases h
  | noticed there =>
    rw [ending?_awaitNotice, there] at h
    cases h
    exact ⟨rfl, rfl, rfl⟩
  | late absent =>
    rw [ending?_awaitNotice, SortedMap.contains_eq_false_iff.1 absent] at h
    cases h
  | gaveUp =>
    cases h
    exact ⟨rfl, rfl, rfl⟩

/-- Without an ending no coin is drawn. -/
theorem Stride.random (stride : Stride r n a step) (h : n.ending? a = none) :
    step.node.random = n.random ∨ ∃ excluded, step.node.random = (n.peers.randomExcluding excluded n.random).2 := by
  cases stride with
  | chosen | alone => exact .inr ⟨_, rfl⟩
  | sent | late => exact .inl rfl
  | noticed there =>
    rw [ending?_awaitNotice, there] at h
    cases h
  | gaveUp => cases h

/-- A task that is not waiting for a report begins to wait when it sends; a wait goes on or ends. -/
theorem Stride.asked (stride : Stride r n a step) : [a].filterMap Action.asked? ++ step.receivers =
    (n.ending? a).toList.map Prod.fst ++ step.next.filterMap Action.asked? := by
  have concluded (n : Node) (p : PeerAddress) (ending : Ending) :
      (conclude n r p ending).next.filterMap Action.asked? = [] := by
    rcases next_conclude n r p ending with next | next <;> rw [next] <;> rfl
  cases stride with
  | chosen | alone | sent => rfl
  | noticed there =>
    rw [ending?_awaitNotice, there, concluded]
    rfl
  | late absent =>
    rw [ending?_awaitNotice, SortedMap.contains_eq_false_iff.1 absent]
    rfl
  | gaveUp =>
    rw [concluded]
    rfl

theorem Stride.effects (stride : Stride r n a step) : ∀ e ∈ step.effects, ∃ p, e = .send p r.toPacket := by
  intro e he
  cases stride with
  | sent => exact ⟨_, List.mem_singleton.1 he⟩
  | _ => cases he

/-- Only sending makes a registration, under the next ticket. -/
theorem Stride.registered {t : Nat} (stride : Stride r n a step) (made : t ∈ step.node.acks.registered)
    (new : t ∉ n.acks.registered) :
    t = n.acks.nextTicket ∧ ∃ p deadline, step.next = [.awaitNotice r p t deadline] := by
  cases stride with
  | @sent p deadline =>
    dsimp only at made
    rw [AckRegistry.registered_register, List.mem_append, List.mem_singleton] at made
    obtain rfl := made.resolve_left new
    exact ⟨rfl, p, deadline, rfl⟩
  | chosen | alone | noticed => exact absurd made new
  | @late p ticket => exact absurd (n.acks.registered_abandon ticket ▸ made) new
  | @gaveUp p ticket =>
    have made : t ∈ (n.acks.cancel ticket).registered := made
    rw [AckRegistry.registered_cancel] at made
    exact absurd (List.mem_filter.1 made).1 new

/-- **A walking task can go on** from some time on. -/
theorem Walking.able (walking : Walking r script) : ∀ a ∈ script, ∃ time, ∀ now, time ≤ now → n.perform now a ≠ [] := by
  intro a ha
  cases walking with
  | choosing | sending | leaving =>
    obtain rfl := List.mem_singleton.1 ha
    exact ⟨0, fun now _ => List.cons_ne_nil _ _⟩
  | waiting p ticket deadline =>
    obtain rfl := List.mem_singleton.1 ha
    refine ⟨deadline, fun now due => ?_⟩
    simp only [Node.perform, Node.awaitNotice]
    cases there : n.notices.get? ticket with
    | some x => simp
    | none => simp [SortedMap.contains, there, due]
  | ended => cases ha

/-- The peers that a script may send to next. -/
def Finds (n : Node) : List Action → PeerAddress → Prop
  | [.chooseTarget _ excluded], q => q ∈ n.peers.all ∧ q ∉ excluded
  | [.sendRecord _ p], q => q = p
  | [.awaitNotice _ p _ _], q => q ∈ n.peers.all ∧ q ≠ p
  | [.giveUp _ p _], q => q ∈ n.peers.all ∧ q ≠ p
  | _, _ => False

/-- Without a sending, whom a walk may send to is among those it might have sent to before. -/
theorem Stride.finds {m : Node} {q : PeerAddress} (stride : Stride r n a step) (silent : step.receivers = [])
    (grows : step.node.peers.all ⊆ m.peers.all) (h : Finds m step.next q) : Finds m [a] q := by
  have concluded (n : Node) (p : PeerAddress) (ending : Ending) (h : Finds m (conclude n r p ending).next q) :
      q ∈ m.peers.all ∧ q ≠ p := by
    rcases next_conclude n r p ending with next | next <;> rw [next] at h
    · exact ⟨h.1, List.ne_of_not_mem_cons h.2⟩
    · cases h
  cases stride with
  | chosen known outside =>
    obtain rfl : q = _ := h
    exact ⟨grows known, outside⟩
  | alone => cases h
  | sent => cases silent
  | late => exact h
  | noticed | gaveUp => exact concluded _ _ _ h

/-! ## How it starts -/

theorem Walking.of_start (start : Start) : Walking r (start.script r) := by
  cases start with
  | target p => exact .sending p
  | outside excluded => exact .choosing excluded

theorem finds_script {q : PeerAddress} (start : Start) : Finds n (start.script r) q ↔ start.Finds n q := by
  cases start <;> exact Iff.rfl

theorem asked_script (start : Start) : (start.script r).filterMap Action.asked? = [] := by
  cases start <;> rfl

/-! ## Along a walk -/

theorem mem_sendings {x : PeerAddress × Node} (hx : x ∈ sendings deeds) : ∃ d ∈ deeds, x.2 = d.node := by
  obtain ⟨d, hd, hx⟩ := List.mem_flatMap.1 hx
  obtain ⟨p, -, rfl⟩ := List.mem_map.1 hx
  exact ⟨d, hd, rfl⟩

section

variable (hid : r.id.toNat + 1 < UInt32.size)

include hid

/-- **A walking task only makes strides.** -/
theorem strides (h : Course n script deeds n' script') (walking : Walking r script) :
    Walking r script' ∧ ∀ d ∈ deeds, Stride r d.node d.action d.step := by
  induction h with
  | here => exact ⟨walking, List.forall_mem_nil _⟩
  | act perform _ ih =>
    obtain ⟨rfl, stride⟩ := walking.stride hid perform
    rw [List.append_nil] at ih
    obtain ⟨last, others⟩ := ih (.of_stride stride)
    exact ⟨last, List.forall_mem_cons.2 ⟨stride, others⟩⟩
  | meanwhile _ _ _ ih => exact ih walking

/-- **Each sending has its ending before the next**, but for the last one. -/
theorem sendings_eq (h : Course n script deeds n' script') (walking : Walking r script) :
    script.filterMap Action.asked? ++ (sendings deeds).map Prod.fst =
      (endings deeds).map Prod.fst ++ script'.filterMap Action.asked? := by
  induction h with
  | here => exact List.append_nil _
  | @act n _ a _ _ _ step ds perform _ ih =>
    obtain ⟨rfl, stride⟩ := walking.stride hid perform
    rw [List.append_nil] at ih
    have ih := ih (.of_stride stride)
    have receivers : (step.receivers.map fun p => (p, n)).map Prod.fst = step.receivers := by
      rw [List.map_map]
      exact List.map_id _
    rw [sendings_cons, endings_cons, List.map_append, List.map_append, receivers, ← List.append_assoc, stride.asked,
      List.append_assoc, ih, List.append_assoc]
  | meanwhile _ _ _ ih => exact ih walking

/-- **A walk goes from peer to peer**: to those that its script may send to, then always to another one. -/
theorem sendings_chain (h : Course n script deeds n' script') (walking : Walking r script) (tidy : n.books.Tidy) :
    (∀ x ∈ (sendings deeds).head?, Finds x.2 script x.1) ∧
      (sendings deeds).IsChain fun x y => y.1 ∈ y.2.peers.all ∧ y.1 ≠ x.1 ∧ y.1 ≠ y.2.address := by
  induction h with
  | here => exact ⟨fun _ hx => absurd hx (Option.not_mem_none _), .nil⟩
  | @act n _ a _ _ _ step ds perform rest ih =>
    obtain ⟨rfl, stride⟩ := walking.stride hid perform
    obtain ⟨tidy', -⟩ := Node.tidy_of_perform perform tidy
    rw [List.append_nil] at ih rest
    obtain ⟨first, chain⟩ := ih (.of_stride stride) tidy'
    -- whoever is sent to later is known to a node that is in order
    have later (x : PeerAddress × Node) (hx : x ∈ sendings ds) :
        x.2.books.Tidy ∧ step.node.books.Grows x.2.books := by
      obtain ⟨d, hd, hx⟩ := mem_sendings hx
      rw [hx]
      exact rest.tidy_of_mem tidy' hd
    rw [sendings_cons]
    by_cases silent : step.receivers = []
    · rw [silent]
      exact ⟨fun x hx => stride.finds silent (later x (List.mem_of_mem_head? hx)).2.peers (first x hx), chain⟩
    · cases stride with
      | @sent p =>
        refine ⟨fun x hx => ?_, List.isChain_cons.2 ⟨fun x hx => ?_, chain⟩⟩
        · obtain rfl := Option.some.inj hx
          rfl
        · obtain ⟨known, other⟩ := first x hx
          refine ⟨known, other, fun own => ?_⟩
          rw [own] at known
          exact (later x (List.mem_of_mem_head? hx)).1.other known
      | _ => exact absurd rfl silent
  | meanwhile tidy' _ _ ih => exact ih walking tidy'

/-- A task that sends to a peer has sent to it when it ends. -/
theorem sendings_of_ended (h : Course n [.sendRecord r p] deeds n' []) :
    sendings deeds ≠ [] := by
  obtain ⟨m, step, rest, now, rfl, perform, -⟩ := h.first_of_ended
  obtain ⟨-, stride⟩ := (Walking.sending p).stride hid perform
  cases stride
  exact List.cons_ne_nil _ _

/-- **The search for a peer** ends with a sending if there is one to find. -/
theorem search {excluded : List PeerAddress}
    (h : Course n [.chooseTarget r excluded] deeds n' script') :
    (sendings deeds ≠ [] → ∃ d ∈ deeds.head?, ∃ q ∈ d.node.peers.all, q ∉ excluded) ∧
      (script' = [] → (∃ d ∈ deeds.head?, ∃ q ∈ d.node.peers.all, q ∉ excluded) → sendings deeds ≠ []) := by
  rcases h.first_of_cons with ⟨rfl, -⟩ | ⟨m, step, rest, now, rfl, perform, after⟩
  · exact ⟨fun some => absurd rfl some, fun _ ⟨_, hd, _⟩ => nomatch hd⟩
  obtain ⟨-, stride⟩ := (Walking.choosing excluded).stride hid perform
  rw [List.append_nil] at after
  cases stride with
  | @chosen _ q known outside =>
    refine ⟨fun _ => ⟨_, rfl, q, known, outside⟩, ?_⟩
    rintro rfl -
    rw [sendings_cons]
    exact List.append_ne_nil_of_right_ne_nil _ (sendings_of_ended hid after)
  | alone none =>
    obtain ⟨rfl, -⟩ := after.eq_nil
    refine ⟨fun some => absurd rfl some, ?_⟩
    rintro - ⟨d, hd, q, known, outside⟩
    obtain rfl := Option.some.inj hd
    exact absurd (none q known) outside

/-- **A wait that has ended has no registration any more**, whichever way it has ended. -/
theorem registered_of_ended {ticket deadline : Nat}
    (h : Course n [.awaitNotice r p ticket deadline] deeds n' []) (tidy : n.books.Tidy)
    (given : ticket < n.acks.nextTicket) : ticket ∉ n'.acks.registered := by
  obtain ⟨m, step, rest, now, rfl, perform, after⟩ := h.first_of_ended
  obtain ⟨-, stride⟩ := (Walking.waiting p ticket deadline).stride hid perform
  obtain ⟨tidy', before⟩ := h.tidy_of_mem tidy List.mem_cons_self
  obtain ⟨tidy'', first⟩ := Node.tidy_of_perform perform tidy'
  rw [List.append_nil] at after
  cases stride with
  | @noticed _ _ _ x there =>
    have noticed := tidy'.noticed ticket (SortedMap.mem_keys.2 (Option.isSome_of_eq_some there))
    exact (first.trans (after.tidy tidy'').2).gone noticed.1 noticed.2
  | late =>
    obtain ⟨m', step', rest', now', rfl, perform', after'⟩ := after.first_of_ended
    obtain ⟨-, stride'⟩ := (Walking.leaving p ticket).stride hid perform'
    obtain ⟨tidy₁, meanwhile⟩ := after.tidy_of_mem tidy'' List.mem_cons_self
    obtain ⟨tidy₂, second⟩ := Node.tidy_of_perform perform' tidy₁
    have given' := Nat.lt_of_lt_of_le given (((before.trans first).trans meanwhile).trans second).nextTicket
    refine (after'.tidy tidy₂).2.gone given' ?_
    cases stride'
    show ticket ∉ (m'.acks.cancel ticket).registered
    rw [AckRegistry.registered_cancel]
    simp

/-- **When a wait has ended**: what has been done before, the coin, and whether the walk goes on. -/
theorem goesOn_of_ending {before after : List Deed}
    (h : Course n script (before ++ d :: after) n' script') (walking : Walking r script)
    (fresh : script.filterMap Action.asked? = []) (hd : d.node.ending? d.action = some (p, ending)) :
    (sendings before).map Prod.fst = (endings before).map Prod.fst ++ [p] ∧
      d.step.node.random = (if ending.encourages r then d.node.coin.2 else d.node.random) ∧
      (sendings after ≠ [] → MayGoOn r d after p ending) ∧
      (script' = [] → MayGoOn r d after p ending → sendings after ≠ []) := by
  obtain ⟨now, rest, first, perform, last⟩ := h.split
  obtain ⟨rfl, stride⟩ := (strides hid first walking).1.stride hid perform
  obtain ⟨asked, random, next⟩ := stride.concludes hd
  have sent := sendings_eq hid first walking
  rw [fresh, List.nil_append, List.filterMap_cons_some asked, List.filterMap_nil] at sent
  refine ⟨sent, random, ?_⟩
  rw [List.append_nil, next] at last
  have others (m : Node) : (∃ q ∈ m.peers.all, q ∉ [p]) ↔ ∃ q ∈ m.peers.all, q ≠ p := by simp
  by_cases goes : (ending.encourages r && d.node.coin.1) = true
  · rw [if_pos goes] at last
    rw [Bool.and_eq_true] at goes
    obtain ⟨found, finds⟩ := search hid last
    simp only [others] at found finds
    exact ⟨fun some => ⟨goes.1, goes.2, found some⟩, fun ends ⟨_, _, others⟩ => finds ends others⟩
  · rw [if_neg goes] at last
    obtain ⟨rfl, -⟩ := last.eq_nil
    exact ⟨fun some => absurd rfl some, fun _ may => absurd (Bool.and_eq_true_iff.2 ⟨may.1, may.2.1⟩) goes⟩

/-- **A walk that has ended has sent the record**, if there was anyone to send it to. -/
theorem sendings_ne_nil_iff {start : Start} (h : Course n (start.script r) deeds n' []) :
    sendings deeds ≠ [] ↔ ∃ d ∈ deeds.head?, ∃ q, start.Finds d.node q := by
  cases start with
  | target p =>
    refine ⟨fun _ => ?_, fun _ => sendings_of_ended hid h⟩
    obtain ⟨m, step, rest, now, rfl, -, -⟩ := h.first_of_ended
    exact ⟨_, rfl, p, rfl⟩
  | outside excluded =>
    obtain ⟨found, finds⟩ := search hid h
    exact ⟨found, finds rfl⟩

/-- **No registration of a walk that has ended is left.** -/
theorem registered_of_walk (h : Course n script deeds n' []) (walking : Walking r script) (tidy : n.books.Tidy)
    (hd : d ∈ deeds) {t : Nat} (made : t ∈ d.step.node.acks.registered) (new : t ∉ d.node.acks.registered) :
    t ∉ n'.acks.registered := by
  obtain ⟨tidy', -⟩ := h.tidy_of_mem tidy hd
  obtain ⟨before, after, rfl⟩ := List.append_of_mem hd
  obtain ⟨now, rest, first, perform, last⟩ := h.split
  obtain ⟨rfl, stride⟩ := (strides hid first walking).1.stride hid perform
  obtain ⟨tidy'', -⟩ := Node.tidy_of_perform perform tidy'
  obtain ⟨rfl, p, deadline, next⟩ := stride.registered made new
  rw [next] at last
  exact registered_of_ended hid last tidy'' (tidy''.given _ made)

end

end Walk

/-! ## The theorem -/

open Walk in
/-- **A record walks from peer to peer.**  Whatever the record, the peers, the source of randomness and the reports are,
and whatever else happens to the node meanwhile: the task that spreads the record sends it to the peer that it is given,
or to a known peer outside its list; then always to a known peer other than the last.  It sends again exactly when the
wait for a report runs out or the report shows just this record, and the one coin drawn for that comes up heads, and
another peer is known.  A coin is drawn in these two cases only.  When the task ends, none of its registrations is left.

In every run of a machine each such task takes such a course (`Machine.course_of_later`), from books that are in order
(`Machine.Run.tidy`). -/
theorem walks_from_peer_to_peer {r : Record} (hid : r.id.toNat + 1 < UInt32.size) {start : Start} {n₀ n : Node}
    {deeds : List Deed} {script : List Action} (tidy : n₀.books.Tidy) (h : Course n₀ (start.script r) deeds n script) :
    Walk r start deeds n script where
  sends d hd := ((strides hid h (.of_start start)).2 d hd).effects
  first x hx := (finds_script start).1 ((sendings_chain hid h (.of_start start) tidy).1 x hx)
  next := (sendings_chain hid h (.of_start start) tidy).2
  goesOn before d after p ending hdeeds hd := by
    rw [hdeeds] at h
    exact goesOn_of_ending hid h (.of_start start) (asked_script start) hd
  coins d hd := ((strides hid h (.of_start start)).2 d hd).random
  ended := by
    rintro rfl
    have sent := sendings_eq hid h (.of_start start)
    rw [asked_script] at sent
    exact ⟨sent.trans (List.append_nil _), sendings_ne_nil_iff hid h⟩
  gone := by
    rintro rfl d hd t made new
    exact registered_of_walk hid h (.of_start start) tidy hd made new
  able := (strides hid h (.of_start start)).1.able

open Walk Course in
/-- The first peer shows just the record and is in sync, and heads come up; a third peer becomes known meanwhile.  The
second does not report in time, and tails come up. -/
theorem walks_from_peer_to_peer_noticed_and_late :
    let r : Record := .rumor ⟨⟨"a"⟩, 1, "one"⟩
    ∃ n₀ deeds n, n₀.books.Tidy ∧ Course n₀ ((Start.outside []).script r) deeds n [] ∧
      (sendings deeds).map Prod.fst = [⟨"B"⟩, ⟨"C"⟩] ∧
      endings deeds = [(⟨"B"⟩, .noticed ⟨2, true⟩), (⟨"C"⟩, .late)] ∧ n.peers.all = [⟨"B"⟩, ⟨"C"⟩, ⟨"D"⟩] ∧
      Walk r (.outside []) deeds n [] := by
  intro r
  let config : Config := { name := "a", peers := ["B", "C"], antiEntropyPeriod := 0 }
  let random : RandomSource := .scripted ⟨[0], List.cons_ne_nil _ _, 0, [true, false]⟩
  let report (n : Node) : Node := (n.settle ⟨"B"⟩ (SortedMap.ofList [(⟨"a"⟩, 2)]) true .nothing).node
  let beats : List Beat := [.act 0, .act 0, .meanwhile (fun n => n.learnPeer ⟨"D"⟩), .meanwhile report,
    .act 0, .act 0, .act 0, .act 1000000000000, .act 0]
  have played : ((Node.new config ⟨"A"⟩ random .acceptAll).toOption.bind fun n₀ =>
      (play? beats n₀ ((Start.outside []).script r)).map fun x =>
        (x.2.2, (sendings x.1).map Prod.fst, endings x.1, x.2.1.peers.all)) =
      some ([], [⟨"B"⟩, ⟨"C"⟩], [(⟨"B"⟩, .noticed ⟨2, true⟩), (⟨"C"⟩, .late)], [⟨"B"⟩, ⟨"C"⟩, ⟨"D"⟩]) := by
    decide +kernel
  obtain ⟨n₀, new, played⟩ := Option.bind_eq_some_iff.1 played
  obtain ⟨⟨deeds, n, script⟩, played, seen⟩ := Option.map_eq_some_iff.1 played
  simp only [Prod.mk.injEq] at seen
  obtain ⟨rfl, hsendings, hendings, hpeers⟩ := seen
  have tidy : n₀.books.Tidy := by
    cases hnew : Node.new config ⟨"A"⟩ random .acceptAll with
    | error e => rw [hnew] at new; cases new
    | ok n' =>
      rw [hnew] at new
      obtain rfl := Option.some.inj new
      exact Machine.Fresh.tidy (m := ⟨n', _⟩) ⟨_, _, _, 0, hnew, rfl⟩
  have course := course_of_play? played
  exact ⟨n₀, deeds, n, tidy, course, hsendings, hendings, hpeers, walks_from_peer_to_peer (by decide) tidy course⟩

end GossipNode
