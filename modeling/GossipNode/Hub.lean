import GossipNode.Wire.Datagram
/-!
# A network in memory

Nodes reach each other at endpoints.  What is sent to an address without an endpoint vanishes, and so
does what is sent to or from an address that is disconnected, as datagrams would.
-/
namespace GossipNode

/-- The endpoints by address, and the addresses that are disconnected. -/
structure Hub (ε : Type) where
  endpoints : SortedMap PeerAddress ε
  down : SortedSet PeerAddress

namespace Hub

variable {ε : Type}

def new : Hub ε := ⟨∅, ∅⟩

/-- Put an endpoint at an address, in place of any that was there. -/
def attach (h : Hub ε) (a : PeerAddress) (e : ε) : Hub ε :=
  { h with endpoints := h.endpoints.insert a e }

def disconnect (h : Hub ε) (a : PeerAddress) : Hub ε := { h with down := SortedSet.add h.down a }

def reconnect (h : Hub ε) (a : PeerAddress) : Hub ε := { h with down := h.down.erase a }

/-- The endpoint that gets what is sent from one address to another. -/
def route? (h : Hub ε) (sender receiver : PeerAddress) : Option ε :=
  if h.down.contains sender || h.down.contains receiver then none else h.endpoints.get? receiver

def room : Nat := 1024

end Hub

/-- Packets that wait at an endpoint, with their senders. -/
structure Mailbox where
  waiting : List (PeerAddress × Packet)
  /-- Someone may still take them. -/
  listening : Bool
deriving DecidableEq

/-- A network of mailboxes, and how many packets have reached one. -/
structure Mailboxes where
  hub : Hub Mailbox
  delivered : Nat

namespace Mailboxes

def new : Mailboxes := ⟨.new, 0⟩

def attach (m : Mailboxes) (a : PeerAddress) : Mailboxes :=
  { m with hub := m.hub.attach a ⟨[], true⟩ }

/-- Send a packet, which has to fit a datagram. -/
def send (m : Mailboxes) (sender receiver : PeerAddress) (p : Packet) :
    Except Wire.ProtocolError Mailboxes := do
  let _ ← Wire.encode p
  match m.hub.route? sender receiver with
  | none => return m
  | some box =>
    if box.listening && box.waiting.length < Hub.room then
      return ⟨m.hub.attach receiver { box with waiting := box.waiting ++ [(sender, p)] },
        m.delivered + 1⟩
    else return m

/-- Take the packet that has waited longest. -/
def take (m : Mailboxes) (a : PeerAddress) : Option (PeerAddress × Packet) × Mailboxes :=
  match m.hub.endpoints.get? a with
  | some ⟨p :: waiting, listening⟩ =>
    (some p, { m with hub := m.hub.attach a ⟨waiting, listening⟩ })
  | _ => (none, m)

/-- Nobody takes packets at that address any more. -/
def hangUp (m : Mailboxes) (a : PeerAddress) : Mailboxes :=
  if m.hub.endpoints.contains a then { m with hub := m.hub.attach a ⟨[], false⟩ } else m

end Mailboxes

/-- A transport that keeps what is sent instead of sending it. -/
structure Recorder where
  sent : List (PeerAddress × Packet)
deriving DecidableEq

namespace Recorder

def send (r : Recorder) (receiver : PeerAddress) (p : Packet) : Recorder := ⟨r.sent ++ [(receiver, p)]⟩

def sentTo (r : Recorder) (receiver : PeerAddress) : List Packet :=
  (r.sent.filter (fun s => s.1 == receiver)).map Prod.snd

end Recorder

end GossipNode
