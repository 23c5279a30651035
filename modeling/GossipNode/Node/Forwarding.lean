import GossipNode.Node.State
/-!
# Packets for others

A routed packet that arrives is delivered here if it is for this node; else it loses a hop and goes to
the next hop of its destination.  A packet without hops left, or without a known next hop, is dropped.
A packet that starts here loses no hop.
-/
namespace GossipNode.Node

def deliverHere (n : Node) : Packet → Step
  | .private_ m => (n.emit (.privateReceived m.origin m.text)).rest
  | .ack a => n.proceed [.countAck a]
  | p => (n.emit (.contentPacket p)).rest

/-- Deliver a packet that arrived, or pass it on. -/
def relay (n : Node) (destination : Origin) (p : Packet) : Step :=
  if destination = n.name then n.deliverHere p
  else
    match p.spendHop with
    | (true, p) => n.proceed [.forward destination p]
    | (false, _) =>
      { n with metrics := { n.metrics with hopLimitDrops := n.metrics.hopLimitDrops + 1 } }.rest

/-- Send a packet to the next hop of a destination. -/
def forward (n : Node) (destination : Origin) (p : Packet) : Step :=
  match n.routes.nextHop destination with
  | .ok hop => ⟨n, [], [.send hop p]⟩
  | .error _ =>
    { n with metrics := { n.metrics with routingMisses := n.metrics.routingMisses + 1 } }.rest

def originate (n : Node) (p : Packet) : Except NodeError Unit × Step :=
  match p.destination? with
  | none => (.error (.config (.notRouted p.kind)), n.rest)
  | some d =>
    if d = n.name then (.ok (), n.deliverHere p)
    else (((n.routes.nextHop d).mapError .routing).map (fun _ => ()), n.forward d p)

def sendPrivate (n : Node) (destination : Origin) (text : String) : Except NodeError Unit × Step :=
  n.originate (.private_ ⟨n.name, 0, text, destination, n.config.hopLimit⟩)

/-- Apply the route learned first. -/
def applyRoute (n : Node) : List Step :=
  match n.routeQueue with
  | [] => []
  | u :: queue =>
    [{ n with routes := n.routes.apply u, routeQueue := queue }.proceed [.applyRoute]]

end GossipNode.Node
