import GossipNode.Node.State
/-!
# Spreading records

A record accepted for the first time is passed on, and whoever sent a record gets a status report in
return.  A status report wakes the tasks that wait for it; then whoever is ahead pushes, and whoever is
only behind asks.

To spread a record, a task sends it to a random peer and waits for that peer's report.  If the peer has
just this record to show and is otherwise in sync, or does not answer in time, a coin decides whether the
task goes on with another peer.
-/
namespace GossipNode.Node

/-! ## Records -/

def learnPeer (n : Node) (p : PeerAddress) : Node :=
  match n.peers.insert p with
  | (true, peers) => { n with peers, metrics := { n.metrics with peerCount := peers.size } }
  | (false, _) => n

/-- A block announcement needs a proof. -/
def isProved (n : Node) : Record → Bool
  | .block a => n.auth.verify a.proof
  | _ => true

/-- Tell the observers of a record that has just been accepted. -/
def announce (n : Node) : Record → Node
  | .rumor m => if m.text = "" then n else n.emit (.rumorReceived m.origin m.id m.text)
  | .proposal m =>
    match m.confirmed with
    | none => n
    | some id =>
      { n with metrics := { n.metrics with confirmations := n.metrics.confirmations + 1 } }.emit
        (.proposalConfirmed m.origin id m.transaction)
  | .block _ => n

/-- What is to be done about a record that has just been accepted, before it is passed on. -/
def duties (sender : PeerAddress) : Record → List Action
  | .rumor _ => []
  | .proposal m =>
    match m.confirmed with
    | none => [.findRound m.origin m.id (.acknowledge sender)]
    | some id => [.findRound m.origin id .confirm]
  | .block a => [.openTopic a.block.topic, .feed a.block]

/-- Offer a record to the store.  A new one also shows a route to its origin. -/
def accept (n : Node) (sender : PeerAddress) (r : Record) : Step :=
  if !n.isProved r then
    rest { n with metrics := { n.metrics with blocksRejected := n.metrics.blocksRejected + 1 } }
  else
    match n.store.accept r with
    | (.new, store) =>
      let n : Node := { n with
        store
        routeQueue := n.routeQueue ++ [⟨r.origin, sender, r.isHeartbeat⟩]
        metrics := { n.metrics with recordsAccepted := n.metrics.recordsAccepted + 1 } }
      ⟨n.announce r, duties sender r ++ [.passOn sender r store.statusReport], [.signal .route]⟩
    | (_, store) =>
      ⟨{ n with metrics := { n.metrics with recordsRejected := n.metrics.recordsRejected + 1 } }, [],
        [.send sender (.status store.statusReport)]⟩

/-- Spread an accepted record to others than its sender, which gets a report. -/
def passOn (n : Node) (sender : PeerAddress) (r : Record) (report : StatusReport) : Step :=
  ⟨n, [], [.spread r [sender], .send sender (.status report)]⟩

/-! ## Status reports -/

/-- What the store says to a vector. -/
def statusAnswer (s : Store) (v : StatusVector) : StatusAnswer :=
  match s.reconcile v with
  | .selfAhead _ => match s.missingFor v with
    | some r => .push r
    | none => .nothing
  | .peerAhead => .ask s.statusReport
  | .inSync => .nothing

def compareStatus (n : Node) (sender : PeerAddress) (v : StatusVector) : Step :=
  n.proceed [.settle sender v (n.store.reconcile v).isInSync (statusAnswer n.store v)]

def answerEffects (sender : PeerAddress) : StatusAnswer → List Effect
  | .push r => [.push r sender]
  | .ask own => [.send sender (.status own)]
  | .nothing => []

/-- Notify the tasks that wait for a report, then answer it. -/
def settle (n : Node) (sender : PeerAddress) (v : StatusVector) (inSync : Bool) (a : StatusAnswer) :
    Step :=
  let (sent, acks) := n.acks.onStatus sender v inSync
  let heard := sent.filter (fun s => s.1.listening)
  ⟨{ n with
      acks
      notices := heard.foldl (fun ns s => ns.insert s.1.ticket s.2) n.notices
      metrics := { n.metrics with acksFired := n.metrics.acksFired + AckRegistry.fired sent } },
    [], heard.map (fun s => .signal (.notice s.1.ticket)) ++ answerEffects sender a⟩

/-! ## Spreading -/

/-- Choose a peer outside a list; without one the task ends. -/
def chooseTarget (n : Node) (r : Record) (excluded : List PeerAddress) : Step :=
  let (peer, random) := n.peers.randomExcluding excluded n.random
  let n := { n with random }
  match peer with
  | some p => n.proceed [.sendRecord r p]
  | none => n.rest

/-- Send a record to a peer and wait for its report. -/
def sendRecord (now : Nat) (n : Node) (r : Record) (p : PeerAddress) : Step :=
  let (ticket, acks) := n.acks.register p r.origin r.id
  ⟨{ n with acks, metrics := { n.metrics with mongersSent := n.metrics.mongersSent + 1 } },
    [.awaitNotice r p ticket (now + n.config.ackTimeout.toNat)], [.send p r.toPacket]⟩

/-- A coin decides whether another peer than the last gets the record. -/
def flipToGoOn (n : Node) (r : Record) (last : PeerAddress) : Step :=
  let (heads, random) := n.random.flip n.config.mongerContinue
  let n := { n with random }
  if heads then n.proceed [.chooseTarget r [last]] else n.rest

/-- The peer holds exactly this record and nothing newer, and nothing else divides the two nodes. -/
def showsOnly (r : Record) (notice : Notice) : Bool := notice.inSync && notice.nextId == r.id + 1

/-- Either the notice is there, or the time is over.  The notice is looked for first, so one that is there is not missed,
however late it is. -/
def awaitNotice (now : Nat) (n : Node) (r : Record) (p : PeerAddress) (ticket deadline : Nat) :
    List Step :=
  let heard := (n.notices.get? ticket).map fun notice =>
    let n := { n with notices := n.notices.erase ticket }
    if showsOnly r notice then n.flipToGoOn r p else n.rest
  let late :=
    if deadline ≤ now ∧ n.notices.contains ticket = false then
      some ({ n with acks := n.acks.abandon ticket }.proceed [.giveUp r p ticket])
    else none
  heard.toList ++ late.toList

/-- The wait is over without a report. -/
def giveUp (n : Node) (r : Record) (p : PeerAddress) (ticket : Nat) : Step :=
  { n with
    acks := n.acks.cancel ticket
    metrics := { n.metrics with mongerTimeouts := n.metrics.mongerTimeouts + 1 } }.flipToGoOn r p

/-! ## What a node does on its own -/

def postRumor (n : Node) (text : String) : SequenceId × Step :=
  let (r, n) := n.append (fun id => .rumor ⟨n.name, id, text⟩)
  (r.id, ⟨n, [], [.spread r []]⟩)

/-- A rumor without text at every tick. -/
def awaitHeartbeat (now : Nat) (n : Node) (tick : Nat) : List Step :=
  if tick ≤ now then
    let step := (n.postRumor "").2
    [{ step with next := [.awaitHeartbeat (tick + n.config.heartbeatPeriod.toNat)] }]
  else []

/-- At every tick, a random peer gets the status report. -/
def awaitPush (now : Nat) (n : Node) (tick : Nat) : List Step :=
  if tick ≤ now then
    let (peer, random) := n.peers.randomExcluding [] n.random
    [{ n with random }.proceed
      ((peer.map Action.pushStatus).toList ++
        [Action.awaitPush (tick + n.config.antiEntropyPeriod.toNat)])]
  else []

def pushStatus (n : Node) (p : PeerAddress) : Step :=
  ⟨n, [], [.send p (.status n.store.statusReport)]⟩

end GossipNode.Node
