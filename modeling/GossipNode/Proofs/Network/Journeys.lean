import Mathlib.Logic.Function.Basic
import GossipNode.Proofs.Network.Machines
import GossipNode.Proofs.Node.Relaying
/-!
# The journey of a routed packet

One routed packet is followed through a network: its datagrams, the tasks that have it, and what each step with it shows of
its fate.  The nodes do whatever else they do meanwhile; datagrams may be late and lost, and tables may change between
any two steps.  Datagrams are not duplicated.

At any time the packet is at one spot, in a datagram or with a task, and from there it goes on along a `Passage`
(`Advance.goes`).  Everything about the journey is read off the passages.
-/
namespace GossipNode

structure Flight where
  sender : PeerAddress
  receiver : PeerAddress
  datagram : Bytes
deriving DecidableEq, Repr

def Effect.flight? (sender : PeerAddress) : Effect → Option Flight
  | send receiver p => (Wire.encode p).toOption.map (⟨sender, receiver, ·⟩)
  | _ => none

def Step.flights (s : Step) : List Flight := s.effects.filterMap (Effect.flight? s.node.address)

/-- A step that a node took with the packet. -/
structure Handling (ι : Type) where
  place : ι
  node : Node
  step : Step

def Handling.fates {ι : Type} (e : Handling ι) : List (ι × Fate) := (e.step.fates e.node).map (e.place, ·)

/-- A packet on its way: the nodes, its datagrams under way, the tasks that have it, all datagrams of it that have been
sent, and all steps that have been taken with it. -/
structure Journey (ι : Type) where
  nodes : ι → Node
  flights : List Flight
  tasks : List (ι × List Action)
  sent : List Flight
  log : List (Handling ι)

namespace Journey

variable {ι : Type}

/-- What has become of the packet, and where. -/
def fates (j : Journey ι) : List (ι × Fate) := j.log.flatMap Handling.fates

def Resting (j : Journey ι) : Prop := j.flights = [] ∧ j.tasks = []

/-- Anything may happen meanwhile to the nodes and their tables, and what has the packet may be lost. -/
inductive Disturbed : Journey ι → Journey ι → Prop where
  | mk {j : Journey ι} {nodes : ι → Node} {flights : List Flight} {tasks : List (ι × List Action)}
      (flying : flights.Sublist j.flights) (doing : tasks.Sublist j.tasks) :
      Disturbed j { j with nodes, flights, tasks }

/-- Anything may happen meanwhile that leaves the way to the destination as it is, and nothing is lost. -/
inductive Undisturbed (d : Origin) : Journey ι → Journey ι → Prop where
  | mk {j : Journey ι} {nodes : ι → Node} (way : ∀ m, (j.nodes m).SameWay d (nodes m)) :
      Undisturbed d j { j with nodes }

theorem Undisturbed.disturbed {d : Origin} {j j' : Journey ι} (h : Undisturbed d j j') : Disturbed j j' := by
  cases h with
  | mk => exact .mk (List.Sublist.refl _) (List.Sublist.refl _)

section Runs

variable [DecidableEq ι]

/-- A step of a task that goes on with this script. -/
def take (j : Journey ι) (i : ι) (script : List Action) (s : Step) : Journey ι where
  nodes := Function.update j.nodes i s.node
  flights := j.flights ++ s.flights
  tasks := j.tasks ++ (((s.next ++ script) :: s.started).filter (!·.isEmpty)).map (i, ·)
  sent := j.sent ++ s.flights
  log := j.log ++ [⟨i, j.nodes i, s⟩]

def originated (nodes : ι → Node) (i : ι) (p : Packet) : Journey ι :=
  take ⟨nodes, [], [], [], []⟩ i [] ((nodes i).originate p).2

/-- **The packet gets on**: a datagram arrives and is taken from the inbox, or a task takes its next action. -/
inductive Advance : Journey ι → Journey ι → Prop where
  -- The loop that takes packets from the inbox goes on for others; the task that it starts has this one.
  | arrive {j : Journey ι} {before after : List Flight} {f : Flight} {i : ι} {p : Packet} {s : Step}
      (flying : j.flights = before ++ f :: after) (place : (j.nodes i).address = f.receiver)
      (read : Wire.decode f.datagram = .ok p)
      (taken : s ∈ { j.nodes i with inbox := (f.sender, p) :: (j.nodes i).inbox : Node }.receive) :
      Advance j { j with nodes := Function.update j.nodes i s.node
                         flights := before ++ after
                         tasks := j.tasks ++ s.started.map (i, ·) }
  | act {j : Journey ι} {before after : List (ι × List Action)} {i : ι} {a : Action} {script : List Action} {now : Nat}
      {s : Step} (doing : j.tasks = before ++ (i, a :: script) :: after) (perform : s ∈ (j.nodes i).perform now a) :
      Advance j ({ j with tasks := before ++ after }.take i script s)

/-- **What a journey can come to** in so many moves, with what may happen meanwhile. -/
inductive Reach (meanwhile : Journey ι → Journey ι → Prop) (first : Journey ι) : Nat → Journey ι → Prop where
  | start : Reach meanwhile first 0 first
  | advance {k : Nat} {j j' : Journey ι} : Reach meanwhile first k j → j.Advance j' → Reach meanwhile first (k + 1) j'
  | other {k : Nat} {j j' : Journey ι} : Reach meanwhile first k j → meanwhile j j' → Reach meanwhile first k j'

theorem Reach.mono {meanwhile meanwhile' : Journey ι → Journey ι → Prop} {first j : Journey ι} {k : Nat}
    (imp : ∀ {j j'}, meanwhile j j' → meanwhile' j j') (h : Reach meanwhile first k j) : Reach meanwhile' first k j := by
  induction h with
  | start => exact .start
  | advance _ move ih => exact ih.advance move
  | other _ change ih => exact ih.other (imp change)

end Runs

/-! ## Spots -/

/-- Where the packet is, with the hops it has left there. -/
inductive Spot (ι : Type) where
  | flying (f : Flight) (g : UInt32)
  | handling (i : ι) (sender : PeerAddress) (g : UInt32)
  | forwarding (i : ι) (g : UInt32)
  /-- It was an acknowledgment, and has been delivered. -/
  | counting (i : ι) (a : Ack)
  | gone

namespace Spot

def flights : Spot ι → List Flight
  | flying f _ => [f]
  | _ => []

def tasks (p : Packet) (d : Origin) : Spot ι → List (ι × List Action)
  | handling i sender g => [(i, [.handle sender (p.withHopLimit g)])]
  | forwarding i g => [(i, [.forward d (p.withHopLimit g)])]
  | counting i a => [(i, [.countAck a])]
  | _ => []

/-- The packet still has this many hops, at least one and no more than it had. -/
def Sound (p : Packet) (h : UInt32) : Spot ι → Prop
  | flying f g => 1 ≤ g ∧ g ≤ h ∧ Wire.encode (p.withHopLimit g) = .ok f.datagram
  | handling _ _ g | forwarding _ g => 1 ≤ g ∧ g ≤ h
  | _ => True

/-- How often it can still be sent. -/
def budget : Spot ι → Nat
  | flying _ g | handling _ _ g => g.toNat - 1
  | forwarding _ g => g.toNat
  | _ => 0

/-- How many moves it can still make. -/
def moves : Spot ι → Nat
  -- for each hop the datagram arrives, the packet is handled, and it is forwarded
  | flying _ g => 3 * g.toNat
  | handling _ _ g => 3 * g.toNat - 1
  | forwarding _ g => 3 * g.toNat + 1
  | counting .. => 1
  | gone => 0

def isOpen : Spot ι → Bool
  | flying .. | handling .. | forwarding .. => true
  | _ => false

end Spot

structure At (p : Packet) (d : Origin) (j : Journey ι) (x : Spot ι) : Prop where
  flights : j.flights = x.flights
  tasks : j.tasks = x.tasks p d

theorem At.eq_gone {p : Packet} {d : Origin} {j : Journey ι} {x : Spot ι} (h : j.At p d x) (rest : j.Resting) :
    x = .gone := by
  obtain ⟨flights, tasks⟩ := rest
  rw [h.flights] at flights
  rw [h.tasks] at tasks
  cases x with
  | gone => rfl
  | flying => cases flights
  | _ => cases tasks

def ready (nodes : ι → Node) (i : ι) (p : Packet) (d : Origin) : Journey ι := ⟨nodes, [], [(i, [.forward d p])], [], []⟩

theorem at_ready {p : Packet} {d : Origin} {h : UInt32} {nodes : ι → Node} {i : ι} (routed : p.route? = some (d, h)) :
    (ready nodes i p d).At p d (.forwarding i h) := by
  refine ⟨rfl, ?_⟩
  rw [ready, Spot.tasks, Packet.withHopLimit_of_route routed]

/-- **The ways from spot to spot**, with the datagrams that are sent and the steps that are taken. -/
inductive Passage (p : Packet) (d : Origin) (nodes : ι → Node) :
    Spot ι → List Flight → List (Handling ι) → Spot ι → Prop where
  | arrives {f : Flight} {g : UInt32} {i : ι} (place : (nodes i).address = f.receiver) (up : (nodes i).down = false) :
    Passage p d nodes (.flying f g) [] [] (.handling i f.sender g)
  | refused {f : Flight} {g : UInt32} {i : ι} (down : (nodes i).down = true) :
    Passage p d nodes (.flying f g) [] [] .gone
  | delivered {i : ι} {sender : PeerAddress} {g : UInt32} {x : Spot ι} (home : (nodes i).name = d)
      (settled : (∀ a, p.withHopLimit g ≠ .ack a) ∧ x = .gone ∨ ∃ a, p.withHopLimit g = .ack a ∧ x = .counting i a)
      (fates : Handling.fates ⟨i, nodes i, (nodes i).deliverHere (p.withHopLimit g)⟩ = [(i, .delivered)]) :
    Passage p d nodes (.handling i sender g) [] [⟨i, nodes i, (nodes i).deliverHere (p.withHopLimit g)⟩] x
  | spent {i : ι} {sender : PeerAddress} {g : UInt32} {e : Handling ι} (away : (nodes i).name ≠ d) (left : 1 < g)
      (fates : e.fates = []) : Passage p d nodes (.handling i sender g) [] [e] (.forwarding i (g - 1))
  | expired {i : ι} {sender : PeerAddress} {g : UInt32} {e : Handling ι} (away : (nodes i).name ≠ d) (spent : g ≤ 1)
      (fates : e.fates = [(i, .hopLimitDrop)]) : Passage p d nodes (.handling i sender g) [] [e] .gone
  | left {i : ι} {f : Flight} {g : UInt32} {e : Handling ι} (hop : (nodes i).routes.nextHop d = .ok f.receiver)
      (datagram : Wire.encode (p.withHopLimit g) = .ok f.datagram) (fates : e.fates = []) :
    Passage p d nodes (.forwarding i g) [f] [e] (.flying f g)
  | missed {i : ι} {g : UInt32} {e : Handling ι} (none : ∀ hop, (nodes i).routes.nextHop d ≠ .ok hop)
      (fates : e.fates = [(i, .routingMiss)]) : Passage p d nodes (.forwarding i g) [] [e] .gone
  | counted {i : ι} {a : Ack} (fates : Handling.fates ⟨i, nodes i, (nodes i).countAck a⟩ = []) :
    Passage p d nodes (.counting i a) [] [⟨i, nodes i, (nodes i).countAck a⟩] .gone

structure Goes (p : Packet) (d : Origin) (j : Journey ι) (x : Spot ι) (j' : Journey ι) (x' : Spot ι)
    (out : List Flight) (es : List (Handling ι)) : Prop where
  passage : Passage p d j.nodes x out es x'
  there : j'.At p d x'
  sent : j'.sent = j.sent ++ out
  log : j'.log = j.log ++ es
  way : ∀ m, (j.nodes m).SameWay d (j'.nodes m)

/-! ## The moves of the packet -/

theorem eq_of_singleton_split {α : Type} {before after : List α} {a b : α} (h : [b] = before ++ a :: after) :
    before = [] ∧ a = b ∧ after = [] := by
  rcases List.append_eq_singleton_iff.1 h.symm with ⟨hbefore, hrest⟩ | ⟨-, hrest⟩
  · obtain ⟨rfl, rfl⟩ := List.cons.inj hrest
    exact ⟨hbefore, rfl, rfl⟩
  · cases hrest

theorem eq_of_task_split {before after : List (ι × List Action)} {i i' : ι} {a a' : Action} {script : List Action}
    (h : [(i', [a'])] = before ++ (i, a :: script) :: after) :
    before = [] ∧ i = i' ∧ a = a' ∧ script = [] ∧ after = [] := by
  obtain ⟨hbefore, heq, hafter⟩ := eq_of_singleton_split h
  obtain ⟨hi, hscript⟩ := Prod.mk.inj heq
  obtain ⟨ha, hrest⟩ := List.cons.inj hscript
  exact ⟨hbefore, hi, ha, hrest, hafter⟩

section Moves

variable [DecidableEq ι] {p : Packet} {d : Origin} {h : UInt32} {j j' : Journey ι} {x x' : Spot ι}

theorem goes_of_take {i : ι} {s : Step} (passage : Passage p d j.nodes x s.flights [⟨i, j.nodes i, s⟩] x')
    (idle : j.flights = []) (flights : s.flights = x'.flights) (started : s.started = [])
    (next : ([s.next].filter (!·.isEmpty)).map (i, ·) = x'.tasks p d) (way : (j.nodes i).SameWay d s.node) :
    Goes p d j x ({ j with tasks := [] }.take i [] s) x' s.flights [⟨i, j.nodes i, s⟩] where
  passage := passage
  there := by
    refine ⟨?_, ?_⟩
    · show j.flights ++ s.flights = _
      rw [idle, flights, List.nil_append]
    · show [] ++ (((s.next ++ []) :: s.started).filter (!·.isEmpty)).map (i, ·) = _
      rw [started, List.append_nil, List.nil_append, next]
  sent := rfl
  log := rfl
  way := by
    intro m
    show (j.nodes m).SameWay d (Function.update j.nodes i s.node m)
    by_cases hm : m = i
    · subst hm
      rw [Function.update_self]
      exact way
    · rw [Function.update_of_ne hm]
      exact .refl d _

theorem Goes.of_rest {i : ι} {n : Node} (passage : Passage p d j.nodes x [] [⟨i, j.nodes i, n.rest⟩] .gone)
    (idle : j.flights = []) (way : (j.nodes i).SameWay d n) :
    Goes p d j x ({ j with tasks := [] }.take i [] n.rest) .gone [] [⟨i, j.nodes i, n.rest⟩] :=
  goes_of_take (s := n.rest) passage idle rfl (ite_self _) rfl way

theorem Goes.of_proceed {i : ι} {n : Node} {a : Action}
    (passage : Passage p d j.nodes x [] [⟨i, j.nodes i, n.proceed [a]⟩] x') (idle : j.flights = [])
    (flights : x'.flights = []) (next : x'.tasks p d = [(i, [a])]) (way : (j.nodes i).SameWay d n) :
    Goes p d j x ({ j with tasks := [] }.take i [] (n.proceed [a])) x' [] [⟨i, j.nodes i, n.proceed [a]⟩] :=
  goes_of_take (s := n.proceed [a]) passage idle flights.symm (ite_self _) next.symm way

theorem Goes.of_handle (routed : p.route? = some (d, h)) {i : ι} (sender : PeerAddress) (g : UInt32)
    (idle : j.flights = []) : ∃ x' es, Goes p d j (.handling i sender g)
      ({ j with tasks := [] }.take i [] ((j.nodes i).handle sender (p.withHopLimit g))) x' [] es := by
  have here := Packet.route?_withHopLimit routed g
  have way := (j.nodes i).sameWay_handle (d := d) sender (p.withHopLimit g)
  rcases (j.nodes i).handle_cases sender here with ⟨home, hstep⟩ | ⟨away, left, hstep⟩ | ⟨away, spent, hstep⟩
  · have fates : Handling.fates ⟨i, j.nodes i, (j.nodes i).deliverHere (p.withHopLimit g)⟩ = [(i, .delivered)] :=
      congrArg (List.map (i, ·)) ((j.nodes i).fates_deliverHere here)
    rw [hstep] at way ⊢
    rcases (j.nodes i).deliverHere_cases here with ⟨a, isAck, hdeliver⟩ | ⟨other, e, hdeliver⟩
    · have passage : Passage p d j.nodes (.handling i sender g) [] [_] (.counting i a) :=
        .delivered home (.inr ⟨a, isAck, rfl⟩) fates
      rw [hdeliver] at passage way ⊢
      exact ⟨_, _, .of_proceed passage idle rfl rfl way⟩
    · have passage : Passage p d j.nodes (.handling i sender g) [] [_] .gone := .delivered home (.inl ⟨other, rfl⟩) fates
      rw [hdeliver] at passage way ⊢
      exact ⟨_, _, .of_rest passage idle way⟩
  · rw [hstep] at way ⊢
    rw [Packet.withHopLimit_withHopLimit] at way ⊢
    exact ⟨_, _, .of_proceed (.spent away left (congrArg (List.map (i, ·)) (Step.fates_of_same rfl rfl rfl))) idle rfl rfl
      way⟩
  · rw [hstep] at way ⊢
    exact ⟨_, _, .of_rest (.expired away spent (congrArg (List.map (i, ·)) (j.nodes i).fates_dropSpent)) idle way⟩

theorem Goes.of_forward {i : ι} {g : UInt32} (fits : Wire.Sendable (p.withHopLimit g)) (idle : j.flights = []) :
    ∃ x' out es, Goes p d j (.forwarding i g)
      ({ j with tasks := [] }.take i [] ((j.nodes i).forward d (p.withHopLimit g))) x' out es := by
  have way := (j.nodes i).sameWay_forward (d := d) d (p.withHopLimit g)
  rcases (j.nodes i).forward_cases d (p.withHopLimit g) with ⟨hop, known, hstep⟩ | ⟨none, hstep⟩
  · obtain ⟨datagram, encoded⟩ := fits
    let f : Flight := ⟨(j.nodes i).address, hop, datagram⟩
    have flights : (Step.mk (j.nodes i) [] [.send hop (p.withHopLimit g)]).flights = [f] := by
      simp [Step.flights, Effect.flight?, encoded, Except.toOption, f]
    rw [hstep] at way ⊢
    refine ⟨.flying f g, _, _, goes_of_take ?_ idle flights (ite_self _) rfl way⟩
    rw [flights]
    exact .left known encoded (congrArg (List.map (i, ·)) (Step.fates_of_same rfl rfl rfl))
  · rw [hstep] at way ⊢
    exact ⟨_, _, _, .of_rest (.missed none (congrArg (List.map (i, ·)) (j.nodes i).fates_dropUnrouted)) idle way⟩

theorem Goes.of_countAck {i : ι} {a : Ack} (idle : j.flights = []) : ∃ es, Goes p d j (.counting i a)
    ({ j with tasks := [] }.take i [] ((j.nodes i).countAck a)) .gone [] es := by
  obtain ⟨fates, next, signals⟩ := (j.nodes i).countAck_quiet a
  have flights : ((j.nodes i).countAck a).flights = [] := by
    refine List.filterMap_eq_nil_iff.2 fun e he => ?_
    obtain ⟨s, rfl⟩ := signals e he
    rfl
  have scripts : ((j.nodes i).countAck a).effects.filterMap Effect.script? = [] := by
    refine List.filterMap_eq_nil_iff.2 fun e he => ?_
    obtain ⟨s, rfl⟩ := signals e he
    rfl
  have started : ((j.nodes i).countAck a).started = [] := by rw [Step.started, scripts, ite_self]
  have passage : Passage p d j.nodes (.counting i a) ((j.nodes i).countAck a).flights
      [⟨i, j.nodes i, (j.nodes i).countAck a⟩] .gone := by
    rw [flights]
    exact .counted (congrArg (List.map (i, ·)) fates)
  have goes := goes_of_take passage idle flights started (by rw [next]; rfl) ((j.nodes i).sameWay_countAck a)
  rw [flights] at goes
  exact ⟨_, goes⟩

/-- A datagram that arrives is that of the packet, and a task is started for it unless the node is down. -/
theorem Goes.of_arrival {f : Flight} {g : UInt32} {i : ι} {q : Packet} {s : Step} (there : j.At p d (.flying f g))
    (encoded : Wire.encode (p.withHopLimit g) = .ok f.datagram) (place : (j.nodes i).address = f.receiver)
    (read : Wire.decode f.datagram = .ok q)
    (taken : s ∈ { j.nodes i with inbox := (f.sender, q) :: (j.nodes i).inbox : Node }.receive) :
    ∃ x', Goes p d j (.flying f g) { j with nodes := Function.update j.nodes i s.node
                                            flights := []
                                            tasks := j.tasks ++ s.started.map (i, ·) } x' [] [] := by
  rw [Wire.decode_of_encode encoded] at read
  obtain rfl := Except.ok.inj read
  obtain rfl : s = ⟨j.nodes i, [.receive], [.spawn "dispatch" [.handle f.sender (p.withHopLimit g)]]⟩ :=
    List.mem_singleton.1 taken
  have nodes : Function.update j.nodes i (j.nodes i) = j.nodes := Function.update_eq_self i j.nodes
  have way : ∀ m, (j.nodes m).SameWay d (Function.update j.nodes i (j.nodes i) m) := by
    intro m
    rw [nodes]
    exact .refl d _
  -- A node that is down starts no task, and then the packet ends here without a fate.
  cases hdown : (j.nodes i).down with
  | true =>
    refine ⟨.gone, .refused hdown, ⟨rfl, ?_⟩, (List.append_nil _).symm, (List.append_nil _).symm, way⟩
    show j.tasks ++ List.map (i, ·) (Step.started _) = []
    rw [there.tasks, Step.started, if_pos hdown]
    rfl
  | false =>
    refine ⟨.handling i f.sender g, .arrives place hdown, ⟨rfl, ?_⟩, (List.append_nil _).symm, (List.append_nil _).symm,
      way⟩
    show j.tasks ++ List.map (i, ·) (Step.started _) = _
    rw [there.tasks, Step.started, if_neg (by rw [hdown]; exact Bool.false_ne_true)]
    rfl

/-- **However the packet gets on, it goes from its spot to the next.** -/
theorem Advance.goes (move : j.Advance j') (there : j.At p d x) (sound : x.Sound p h)
    (routed : p.route? = some (d, h)) (fits : Wire.Sendable p) : ∃ x' out es, Goes p d j x j' x' out es := by
  cases move with
  | @arrive before after f i q s flying place read taken =>
    rw [there.flights] at flying
    cases x with
    | flying f' g =>
      obtain ⟨rfl, rfl, rfl⟩ := eq_of_singleton_split flying
      obtain ⟨x', goes⟩ := Goes.of_arrival there sound.2.2 place read taken
      exact ⟨x', _, _, goes⟩
    | _ => exact absurd flying (by simp [Spot.flights])
  | @act before after i a script now s doing perform =>
    rw [there.tasks] at doing
    have idle : (∀ f g, x ≠ .flying f g) → j.flights = [] := by
      intro grounded
      rw [there.flights]
      cases x with
      | flying f g => exact absurd rfl (grounded f g)
      | _ => rfl
    cases x with
    | handling i' sender g =>
      obtain ⟨rfl, rfl, rfl, rfl, rfl⟩ := eq_of_task_split doing
      rw [List.mem_singleton.1 perform]
      obtain ⟨x', es, goes⟩ := Goes.of_handle routed (i := i) sender g (idle fun _ _ h => nomatch h)
      exact ⟨x', _, es, goes⟩
    | forwarding i' g =>
      obtain ⟨rfl, rfl, rfl, rfl, rfl⟩ := eq_of_task_split doing
      rw [List.mem_singleton.1 perform]
      exact Goes.of_forward (fits.withHopLimit routed sound.2) (idle fun _ _ h => nomatch h)
    | counting i' a' =>
      obtain ⟨rfl, rfl, rfl, rfl, rfl⟩ := eq_of_task_split doing
      rw [List.mem_singleton.1 perform]
      obtain ⟨es, goes⟩ := Goes.of_countAck (p := p) (d := d) (i := i) (a := a') (idle fun _ _ h => nomatch h)
      exact ⟨_, _, es, goes⟩
    | _ => exact absurd doing (by simp [Spot.tasks])

/-- Where the packet starts it is sent at once, with all its hops. -/
theorem goes_originated {nodes : ι → Node} {i : ι} (routed : p.route? = some (d, h)) (fits : Wire.Sendable p)
    (away : (nodes i).name ≠ d) :
    ∃ x' out es, Goes p d (ready nodes i p d) (.forwarding i h) (originated nodes i p) x' out es := by
  have same : p.withHopLimit h = p := Packet.withHopLimit_of_route routed
  have goes := Goes.of_forward (p := p) (d := d) (g := h) (j := ready nodes i p d) (i := i)
    (fits.withHopLimit routed (UInt32.le_refl h)) rfl
  rw [same] at goes
  rw [originated, Node.originate_of_route routed away]
  exact goes

end Moves

theorem Goes.fates {p : Packet} {d : Origin} {j j' : Journey ι} {x x' : Spot ι} {out : List Flight}
    {es : List (Handling ι)} (h : Goes p d j x j' x' out es) : j'.fates = j.fates ++ es.flatMap Handling.fates := by
  rw [Journey.fates, h.log, List.flatMap_append]
  rfl

end Journey
end GossipNode
