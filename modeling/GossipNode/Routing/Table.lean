import GossipNode.Identity
/-!
# Routes

Towards each origin, the peer that relayed its latest record.  Updates overwrite; they wait in a queue
until the updater applies them.
-/
namespace GossipNode

inductive RoutingError where
  | noRoute (destination : Origin)
  | hopLimitExhausted (destination : Origin)
deriving DecidableEq, Repr

namespace RoutingError

def message : RoutingError → String
  | noRoute d => "no route to " ++ d.name
  | hopLimitExhausted d => "hop limit exhausted before reaching " ++ d.name

end RoutingError

structure RoutingTable where
  hops : SortedMap Origin PeerAddress
deriving DecidableEq

/-- A route learned from a record. -/
structure RouteUpdate where
  origin : Origin
  relayer : PeerAddress
  heartbeat : Bool
deriving DecidableEq, Repr

namespace RoutingTable

def empty : RoutingTable := ⟨∅⟩

instance : Inhabited RoutingTable := ⟨empty⟩

/-- Overwrite a route; the hop that was there. -/
def update (t : RoutingTable) (o : Origin) (relayer : PeerAddress) :
    Option PeerAddress × RoutingTable :=
  (t.hops.get? o, ⟨t.hops.insert o relayer⟩)

def apply (t : RoutingTable) (u : RouteUpdate) : RoutingTable := (t.update u.origin u.relayer).2

def nextHop (t : RoutingTable) (destination : Origin) : Except RoutingError PeerAddress :=
  match t.hops.get? destination with
  | some hop => .ok hop
  | none => .error (.noRoute destination)

end RoutingTable

/-- The queue of updates, the table, and who holds the two ends of the queue. -/
structure RouteQueue where
  table : RoutingTable
  queued : List RouteUpdate
  /-- The updater has been started. -/
  started : Bool
  /-- Updates can still be queued. -/
  senderOpen : Bool
  /-- Updates can still be applied. -/
  receiverOpen : Bool
deriving DecidableEq

namespace RouteQueue

def new : RouteQueue := ⟨.empty, [], false, true, true⟩

instance : Inhabited RouteQueue := ⟨new⟩

/-- Apply everything queued, if the updater runs. -/
def settle (q : RouteQueue) : RouteQueue :=
  if q.started && q.receiverOpen then
    { q with table := q.queued.foldl RoutingTable.apply q.table, queued := []
             receiverOpen := q.senderOpen }
  else q

def isRunning (q : RouteQueue) : Bool := q.started && q.receiverOpen

/-- Queue an update; the flag tells whether anyone can still apply it. -/
def enqueue (q : RouteQueue) (u : RouteUpdate) : Bool × RouteQueue :=
  if q.senderOpen && q.receiverOpen then (true, settle { q with queued := q.queued ++ [u] })
  else (false, q)

def run (q : RouteQueue) : RouteQueue := settle { q with started := true }

def stop (q : RouteQueue) : RouteQueue := { q with receiverOpen := false, queued := [] }

def close (q : RouteQueue) : RouteQueue := settle { q with senderOpen := false }

end RouteQueue

end GossipNode
