import GossipNode.Message.Status
/-!
# Waiting for a status report

Whoever sends a record to a peer waits for that peer's next report that covers it.  A report covers the
numbers from what the peer last reported for the origin (1 at first) up to, but not including, what it
reports now.  It may go backwards; what counts is always the latest report.
-/
namespace GossipNode

/-- What a report told a waiting sender: the next number it named for the record's origin, and whether
the two nodes were in sync. -/
structure Notice where
  nextId : SequenceId
  inSync : Bool
deriving DecidableEq, Repr

/-- A sender waiting for a report of `peer` on record `id` of `origin`. -/
structure Registration where
  ticket : Nat
  peer : PeerAddress
  origin : Origin
  id : SequenceId
  /-- Someone still waits for the notice. -/
  listening : Bool
deriving DecidableEq, Repr

structure AckRegistry where
  nextTicket : Nat
  pending : List Registration
  /-- The latest report of each peer. -/
  known : SortedMap PeerAddress StatusVector
deriving DecidableEq

namespace AckRegistry

def empty : AckRegistry := ⟨0, [], ∅⟩

instance : Inhabited AckRegistry := ⟨empty⟩

def lastKnown (g : AckRegistry) (peer : PeerAddress) (o : Origin) : SequenceId :=
  ((g.known.get? peer).getD ∅).next o

/-- Wait for a report; the ticket identifies the registration. -/
def register (g : AckRegistry) (peer : PeerAddress) (o : Origin) (id : SequenceId) :
    Nat × AckRegistry :=
  (g.nextTicket,
    { g with
      nextTicket := g.nextTicket + 1
      pending := g.pending ++ [⟨g.nextTicket, peer, o, id, true⟩] })

def cancel (g : AckRegistry) (ticket : Nat) : AckRegistry :=
  { g with pending := g.pending.filter (fun r => r.ticket != ticket) }

/-- Nobody waits for this notice any more; the registration stays until a report covers it. -/
def abandon (g : AckRegistry) (ticket : Nat) : AckRegistry :=
  { g with
    pending := g.pending.map (fun r => if r.ticket = ticket then { r with listening := false } else r) }

/-- Does a report of `peer`, next number `next` for origin `o`, cover the registration, when the peer
last reported `last`? -/
def covers (peer : PeerAddress) (o : Origin) (last next : SequenceId) (r : Registration) : Bool :=
  r.peer == peer && r.origin == o && last ≤ r.id && r.id < next

/-- One entry of a report: the registrations it covers are notified and gone. -/
def onEntry (peer : PeerAddress) (inSync : Bool) (acc : List (Registration × Notice) × AckRegistry)
    (e : Origin × SequenceId) : List (Registration × Notice) × AckRegistry :=
  let (sent, g) := acc
  let covered := covers peer e.1 (g.lastKnown peer e.1) e.2
  (sent ++ (g.pending.filter covered).map (fun r => (r, ⟨e.2, inSync⟩)),
    { g with
      pending := g.pending.filter (fun r => !covered r)
      known := g.known.alter peer (fun v => (v.getD ∅).insert e.1 e.2) })

/-- Apply a report of a peer: the notices sent, in order. -/
def onStatus (g : AckRegistry) (peer : PeerAddress) (v : StatusVector) (inSync : Bool) :
    List (Registration × Notice) × AckRegistry :=
  v.entries.foldl (onEntry peer inSync) ([], g)

/-- How many notices found someone waiting. -/
def fired (sent : List (Registration × Notice)) : Nat := sent.countP (fun n => n.1.listening)

end AckRegistry

/-! ## Who waits -/

/-- What the holder of a ticket finds when looking. -/
inductive Wait where
  | waiting
  | noticed (n : Notice)
  /-- Cancelled, or the notice has been taken. -/
  | closed
  /-- The holder does not look any more. -/
  | abandoned
deriving DecidableEq, Repr

/-- A registry, and what the holders of its tickets find, by ticket. -/
structure Waiters where
  registry : AckRegistry
  waits : List Wait
deriving DecidableEq

namespace Waiters

def empty : Waiters := ⟨.empty, []⟩

def register (w : Waiters) (peer : PeerAddress) (o : Origin) (id : SequenceId) : Nat × Waiters :=
  let (ticket, registry) := w.registry.register peer o id
  (ticket, ⟨registry, w.waits ++ [.waiting]⟩)

def cancel (w : Waiters) (ticket : Nat) : Waiters :=
  let closes := w.registry.pending.any (fun r => r.ticket == ticket && r.listening)
  ⟨w.registry.cancel ticket, if closes then w.waits.set ticket .closed else w.waits⟩

def abandon (w : Waiters) (ticket : Nat) : Waiters :=
  ⟨w.registry.abandon ticket, w.waits.set ticket .abandoned⟩

/-- Apply a report; how many notices found someone waiting. -/
def report (w : Waiters) (peer : PeerAddress) (v : StatusVector) (inSync : Bool) : Nat × Waiters :=
  let (sent, registry) := w.registry.onStatus peer v inSync
  (AckRegistry.fired sent, ⟨registry,
    (sent.filter (fun n => n.1.listening)).foldl (fun ws n => ws.set n.1.ticket (.noticed n.2)) w.waits⟩)

def look (w : Waiters) (ticket : Nat) : Wait × Waiters :=
  match w.waits.getD ticket .closed with
  | .noticed n => (.noticed n, { w with waits := w.waits.set ticket .closed })
  | found => (found, w)

end Waiters

end GossipNode
