import GossipNode.Proofs.Network.Machines
/-!
# What a node learns of routes

A route that waits to be applied is as good as applied: what a node has learned is its table once the updater has worked
off its queue.  So the updater changes nothing about what has been learned, and a node learns only from a record that is
new to it, a route to the record's origin over whoever sent it (`outlook_of_perform`).
-/
namespace GossipNode

namespace RoutingTable

theorem nextHop_eq_ok_iff {t : RoutingTable} {o : Origin} {p : PeerAddress} :
    t.nextHop o = .ok p ↔ t.hops.get? o = some p := by
  unfold nextHop
  cases t.hops.get? o with
  | none => simp
  | some hop => simp

theorem get?_apply (t : RoutingTable) (u : RouteUpdate) (o : Origin) :
    (t.apply u).hops.get? o = if o = u.origin then some u.relayer else t.hops.get? o :=
  SortedMap.get?_insert_eq_ite t.hops u.origin o u.relayer

end RoutingTable

/-- The routes of a node once all that wait are applied, in their order. -/
def Node.learned (n : Node) : RoutingTable := n.routeQueue.foldl RoutingTable.apply n.routes

theorem Node.learned_of_drained {n : Node} (h : n.routeQueue = []) : n.learned = n.routes := by
  rw [learned, h, List.foldl_nil]

/-- What routes towards a node and from it depend on. -/
structure Outlook where
  name : Origin
  address : PeerAddress
  store : Store
  learned : RoutingTable

namespace Outlook

/-- Take a record from a sender: it goes to the end of its log, and the sender is the way to its origin. -/
def take (x : Outlook) (sender : PeerAddress) (r : Record) : Outlook :=
  { x with store := x.store.push r, learned := x.learned.apply ⟨r.origin, sender, r.isHeartbeat⟩ }

/-- **What may change**: nothing; or a record of the own name is made; or one of those offered is taken. -/
inductive Change (offered : PeerAddress → Record → Prop) (x : Outlook) : Outlook → Prop where
  | same : Change offered x x
  | made (r : Record) (origin : r.origin = x.name) (id : r.id = x.store.nextId r.origin) :
    Change offered x { x with store := x.store.push r }
  | taken (sender : PeerAddress) (r : Record) (offer : offered sender r) (id : r.id = x.store.nextId r.origin) :
    Change offered x (x.take sender r)

theorem Change.kept {offered : PeerAddress → Record → Prop} {x x' : Outlook} (c : Change offered x x') :
    x'.name = x.name ∧ x'.address = x.address ∧ ∀ o, x.store.log o <+: x'.store.log o := by
  cases c with
  | same => exact ⟨rfl, rfl, fun _ => List.prefix_rfl⟩
  | made r => exact ⟨rfl, rfl, Store.log_prefix_push _ r⟩
  | taken sender r => exact ⟨rfl, rfl, Store.log_prefix_push _ r⟩

theorem Change.imp {offered offered' : PeerAddress → Record → Prop} (h : ∀ sender r, offered sender r → offered' sender r)
    {x x' : Outlook} (c : Change offered x x') : Change offered' x x' := by
  cases c with
  | same => exact .same
  | made r origin id => exact .made r origin id
  | taken sender r offer id => exact .taken sender r (h sender r offer) id

end Outlook

namespace Node

def outlook (n : Node) : Outlook := ⟨n.name, n.address, n.store, n.learned⟩

/-- What the frame says of the outlook. -/
def Frame.outlook (f : Frame) : Outlook :=
  ⟨f.core.name, f.address, f.core.store, f.routeQueue.foldl RoutingTable.apply f.routes⟩

variable {n : Node}

theorem outlook_of_frame {f : Frame} (h : n.frame = f) : n.outlook = f.outlook := congrArg Frame.outlook h

/-- **An action changes the outlook in these ways only.** -/
theorem outlook_of_perform {now : Nat} {a : Action} {step : Step} (h : step ∈ n.perform now a) :
    n.outlook.Change (fun sender r => a = .accept sender r) step.node.outlook := by
  by_cases route : a = .applyRoute
  · subst route
    obtain ⟨u, queue, hq, he⟩ := frame_applyRoute h
    have same : step.node.outlook = n.outlook := by
      rw [outlook_of_frame he, outlook, learned, hq]
      rfl
    rw [same]
    exact .same
  by_cases quiet : a.Quiet = true
  · rw [outlook_of_frame (frame_of_quiet quiet route h)]
    exact .same
  by_cases offers : ∃ sender r, a = .accept sender r
  · obtain ⟨sender, r, rfl⟩ := offers
    rw [List.mem_singleton.1 h]
    rcases n.frame_accept sender r with he | ⟨id, he⟩
    · rw [outlook_of_frame he]
      exact .same
    · have taken : (n.accept sender r).node.outlook = n.outlook.take sender r := by
        rw [outlook_of_frame he, Frame.outlook, List.foldl_append]
        rfl
      rw [taken]
      exact .taken sender r rfl id
  · have silent : ∀ sender r, a ≠ .accept sender r := fun sender r ha => offers ⟨sender, r, ha⟩
    obtain ⟨core, name, -, he⟩ := frame_of_loud (Bool.not_eq_true _ ▸ quiet) silent h
    have change := storeChange_of_perform h
    have outlook : step.node.outlook = { n.outlook with store := step.node.store } := by
      rw [outlook_of_frame he, Frame.outlook, name,
        show step.node.store = core.store from congrArg (fun f => f.core.store) he]
      rfl
    rw [outlook]
    generalize step.node.store = store at change
    cases change with
    | same => exact .same
    | accepted sender r => exact absurd rfl (silent sender r)
    | made _ r origin id => exact .made r origin id

theorem outlook_answer (n : Node) (q : Request) : n.outlook.Change (fun _ _ => False) (n.answer q).node.outlook := by
  rcases n.frame_answer q with he | ⟨r, origin, id, -, he⟩
  · rw [outlook_of_frame he]
    exact .same
  · rw [outlook_of_frame he]
    exact .made r origin id

theorem outlook_arrive {n' : Node} {room : Nat} {sender : PeerAddress} {p : Packet}
    (h : n.arrive room sender p = some n') : n'.outlook = n.outlook :=
  outlook_of_frame (frame_arrive h)

theorem outlook_shutdown (n : Node) : n.shutdown.outlook = n.outlook :=
  outlook_of_frame n.frame_shutdown

theorem outlook_new {c : Config} {address : PeerAddress} {random : RandomSource} {auth : Authenticator}
    (h : Node.new c address random auth = .ok n) : n.outlook = ⟨c.origin, address, .empty, .empty⟩ :=
  outlook_of_frame (frame_new h)

end Node
end GossipNode
