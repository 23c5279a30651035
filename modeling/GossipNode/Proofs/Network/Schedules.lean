import Mathlib.Data.Fintype.Basic
import GossipNode.Hub
import GossipNode.Proofs.Network.Machines
/-!
# Runs by schedule

A schedule says which machine is next and what happens to it.  Of the steps by which a task may go on, the first is
taken; so a schedule leads to at most one state, which can be computed, and that state is one of a run
(`Network.reachable_of_play`).
-/
namespace GossipNode
namespace Machine

/-- The turn in which this happens; if it is the turn of a task, of the task at that place. -/
def next? (m : Machine) (task : Nat) : Event → Option (List Packet × Machine)
  | .act now =>
    match m.tasks[task]? with
    | some (a :: script) => (m.node.perform now a).head?.map fun step =>
      (step.sent, ⟨step.node, m.tasks.take task ++ (step.next ++ script) :: m.tasks.drop (task + 1) ++ step.started⟩)
    | _ => none
  | .call q =>
    let step := m.node.answer q
    some (step.sent, ⟨step.node, m.tasks ++ step.next :: step.started⟩)
  | .arrive sender p => (m.node.arrive Hub.room sender p).map (fun n => ([], ⟨n, m.tasks⟩))
  | .closeInbox => some ([], ⟨{ m.node with inboxOpen := false }, m.tasks⟩)
  | .shutdown => some ([], ⟨m.node.shutdown, []⟩)

theorem eq_take_append_drop {α : Type} {l : List α} {k : Nat} {x : α} (h : l[k]? = some x) :
    l = l.take k ++ x :: l.drop (k + 1) := by
  obtain ⟨hlt, hget⟩ := List.getElem?_eq_some_iff.1 h
  rw [← hget, ← List.drop_eq_getElem_cons hlt, List.take_append_drop]

theorem turn_of_next? {m m' : Machine} {task : Nat} {e : Event} {out : List Packet}
    (h : m.next? task e = some (out, m')) : m.Turn e out m' := by
  obtain ⟨n, tasks⟩ := m
  cases e with
  | act now =>
    simp only [next?] at h
    split at h
    · rename_i a script ht
      obtain ⟨step, hstep, he⟩ := Option.map_eq_some_iff.1 h
      obtain ⟨rfl, rfl⟩ := Prod.mk.inj he
      have turn := @Turn.act n (tasks.take task) (tasks.drop (task + 1)) a script now step (List.mem_of_mem_head? hstep)
      rw [← eq_take_append_drop ht] at turn
      exact turn
    · cases h
  | call q =>
    obtain ⟨rfl, rfl⟩ := Prod.mk.inj (Option.some.inj h)
    exact .call q
  | arrive sender p =>
    obtain ⟨n', hn, he⟩ := Option.map_eq_some_iff.1 h
    obtain ⟨rfl, rfl⟩ := Prod.mk.inj he
    exact .arrive hn
  | closeInbox =>
    obtain ⟨rfl, rfl⟩ := Prod.mk.inj (Option.some.inj h)
    exact .closeInbox
  | shutdown =>
    obtain ⟨rfl, rfl⟩ := Prod.mk.inj (Option.some.inj h)
    exact .shutdown (List.nil_sublist _)

/-- A machine started at time 0, if its configuration is one that a node can run with. -/
def start? (c : Config) (address : PeerAddress) (auth : Authenticator) : Option Machine :=
  (Node.new c address .ambient auth).toOption.map (fun n => ⟨n, (Node.tasks c 0).map Prod.snd⟩)

theorem fresh_of_start? {c : Config} {address : PeerAddress} {auth : Authenticator} {m : Machine}
    (h : start? c address auth = some m) : m.Fresh c := by
  obtain ⟨n, hn, rfl⟩ := Option.map_eq_some_iff.1 h
  cases hnew : Node.new c address .ambient auth with
  | error e => rw [hnew] at hn; cases hn
  | ok n' =>
    rw [hnew] at hn
    obtain rfl := Option.some.inj hn
    exact ⟨address, .ambient, auth, 0, hnew, rfl⟩

/-- The state that a schedule leads to, with all turns allowed. -/
def play? (allowed : Machine → Event → Machine → Prop) [∀ m e m', Decidable (allowed m e m')] :
    List (Nat × Event) → Machine → Option Machine
  | [], m => some m
  | (task, e) :: moves, m =>
    (m.next? task e).bind fun x => if allowed m e x.2 ∧ x.2.node.store.Fits then play? allowed moves x.2 else none

theorem run_of_play? {allowed : Machine → Event → Machine → Prop} [∀ m e m', Decidable (allowed m e m')] {c : Config}
    {moves : List (Nat × Event)} {m m' : Machine} (run : Run allowed c m) (h : play? allowed moves m = some m') :
    Run allowed c m' := by
  induction moves generalizing m with
  | nil =>
    obtain rfl := Option.some.inj h
    exact run
  | cons move moves ih =>
    obtain ⟨⟨out, m''⟩, hnext, hrest⟩ := Option.bind_eq_some_iff.1 h
    split at hrest
    · rename_i ok
      exact ih (run.turn (turn_of_next? hnext) ok.1 ok.2) hrest
    · cases hrest

/-- **A schedule leads to a state of a run.** -/
theorem run_of_start? {allowed : Machine → Event → Machine → Prop} [∀ m e m', Decidable (allowed m e m')] {c : Config}
    {address : PeerAddress} {auth : Authenticator} {moves : List (Nat × Event)} {m : Machine}
    (h : (start? c address auth).bind (play? allowed moves) = some m) : Run allowed c m := by
  obtain ⟨first, hstart, hplay⟩ := Option.bind_eq_some_iff.1 h
  exact run_of_play? (.start (fresh_of_start? hstart)) hplay

end Machine

namespace Network

variable {ι : Type} [DecidableEq ι]

/-- What happens next, and to which machine. -/
structure Move (ι : Type) where
  node : ι
  task : Nat
  event : Machine.Event

omit [DecidableEq ι] in
instance (net : Network ι) (e : Machine.Event) : Decidable (net.Allows e) :=
  match e with
  | .arrive _ p => inferInstanceAs (Decidable (p ∈ net.sent))
  | .call (.sendRouted (.ack a)) => isFalse (fun h => h a rfl)
  | .call (.sendRouted (.rumor _)) | .call (.sendRouted (.status _)) | .call (.sendRouted (.private_ _))
  | .call (.sendRouted (.dataRequest _)) | .call (.sendRouted (.dataReply _)) | .call (.sendRouted (.searchRequest _))
  | .call (.sendRouted (.searchReply _)) | .call (.sendRouted (.proposal _)) | .call (.sendRouted (.block _)) =>
    isTrue (fun _ h => nomatch h)
  | .call (.postRumor _) | .call (.sendPrivate ..) | .call (.propose _) | .call (.giveUpCall _)
  | .call (.submitBallot ..) | .call (.addPeer _) | .act _ | .closeInbox | .shutdown => isTrue trivial

variable [Fintype ι]

def next? (net : Network ι) (move : Move ι) : Option (Network ι) :=
  if net.Allows move.event then
    ((net.machines move.node).next? move.task move.event).bind fun (out, m) =>
      let net' : Network ι := ⟨Function.update net.machines move.node m, out ++ net.sent⟩
      if ∀ i, (net'.stores i).Fits then some net' else none
  else none

/-- The state that a schedule leads to. -/
def play (moves : List (Move ι)) (net : Network ι) : Option (Network ι) :=
  moves.foldlM next? net

theorem reachable_of_next? {configs : ι → Config} {net net' : Network ι} (h : Reachable configs net) {move : Move ι}
    (hnext : net.next? move = some net') : Reachable configs net' := by
  unfold next? at hnext
  split at hnext
  · rename_i allowed
    obtain ⟨⟨out, m⟩, hturn, hfits⟩ := Option.bind_eq_some_iff.1 hnext
    dsimp only at hfits
    split at hfits
    · rename_i fits
      obtain rfl := Option.some.inj hfits
      exact h.step (.turn (Machine.turn_of_next? hturn) allowed) fits
    · cases hfits
  · cases hnext

/-- **A schedule leads to a state of a run.** -/
theorem reachable_of_play {configs : ι → Config} {moves : List (Move ι)} {net net' : Network ι}
    (h : Reachable configs net) (hplay : net.play moves = some net') : Reachable configs net' := by
  induction moves generalizing net with
  | nil => obtain rfl := Option.some.inj hplay; exact h
  | cons move moves ih =>
    obtain ⟨net'', hnext, hrest⟩ := Option.bind_eq_some_iff.1 hplay
    exact ih (reachable_of_next? h hnext) hrest

def start? (configs : ι → Config) (addresses : ι → PeerAddress) (auth : Authenticator) : Option (Network ι) :=
  if h : ∀ i, (Machine.start? (configs i) (addresses i) auth).isSome = true then
    some ⟨fun i => (Machine.start? (configs i) (addresses i) auth).get (h i), []⟩
  else none

def run? (configs : ι → Config) (addresses : ι → PeerAddress) (auth : Authenticator) (moves : List (Move ι)) :
    Option (Network ι) :=
  (start? configs addresses auth).bind (play moves)

theorem reachable_of_run? {configs : ι → Config} {addresses : ι → PeerAddress} {auth : Authenticator}
    {moves : List (Move ι)} {net : Network ι} (h : run? configs addresses auth moves = some net) :
    Reachable configs net := by
  obtain ⟨first, hstart, hplay⟩ := Option.bind_eq_some_iff.1 h
  unfold start? at hstart
  split at hstart
  · rename_i hsome
    obtain rfl := Option.some.inj hstart
    exact reachable_of_play (.start (fun i => Machine.fresh_of_start? (Option.some_get (hsome i)).symm) rfl) hplay
  · cases hstart

end Network
end GossipNode
