import GossipNode.Node.Gossip
/-!
# Proposals and rounds

A proposal made here is stored, stamped with its round and spread; acknowledgments are collected, and it
is spread again at every tick until a majority has acknowledged it.  Then a confirmation is stored and
spread.  A proposal accepted from a peer is acknowledged, when rounds are strict only once its round is
open.  Every confirmation, own or accepted, is counted for the round of its proposal, and rounds close
when they have a majority.

The store, the routes and the shared state of proposals are each looked at in an action of their own, so
that whatever may come in between is an interleaving of actions.
-/
namespace GossipNode.Node

/-! ## Calls -/

/-- Hand a result to the caller, who may have given up. -/
def reply (n : Node) (call : Nat) (r : Except NodeError SequenceId) : Node :=
  if n.callers.contains call then
    { n with callers := n.callers.erase call, replies := n.replies ++ [(call, r)] }
  else n

/-- The caller is not told the result any more.  What the call has begun goes on: a queued proposal comes to its turn, and
the script of a proposal that has started runs to its end, also where it is the caller who runs it. -/
def giveUpCall (n : Node) (call : Nat) : Node := { n with callers := n.callers.erase call }

/-- When rounds are strict, proposals queue for their round; else they start at once. -/
def propose (n : Node) (call : Nat) (tx : Transaction) : Step :=
  if !n.config.strictRounds then n.proceed [.startProposal call tx]
  else if n.down then (n.reply call (.error .shuttingDown)).rest
  else ⟨{ n with proposalQueue := n.proposalQueue ++ [(call, tx)] }, [], [.signal .proposal]⟩

def takeProposal (n : Node) : List Step :=
  match n.proposalQueue with
  | [] => []
  | (call, tx) :: queue =>
    [{ n with proposalQueue := queue }.proceed [.awaitRound call tx, .takeProposal]]

/-- The round after the last own proposal has to be open. -/
def awaitRound (n : Node) (call : Nat) (tx : Transaction) : Step :=
  if n.broadcast.clock.nextRound n.name ≤ n.round then n.proceed [.startProposal call tx]
  else n.proceed [.awaitRoundChange n.roundChanges call tx]

def awaitRoundChange (n : Node) (seen call : Nat) (tx : Transaction) : List Step :=
  if n.roundChanges = seen then [] else [n.proceed [.awaitRound call tx]]

/-! ## An own proposal -/

def startProposal (n : Node) (call : Nat) (tx : Transaction) : Step :=
  n.proceed [.storeProposal call tx n.vectorClock]

def storeProposal (n : Node) (call : Nat) (tx : Transaction) (vectorClock : Option StatusReport) :
    Step :=
  let (r, n) := n.append (fun id => .proposal ⟨n.name, id, none, Word256.zero, tx, vectorClock⟩)
  n.proceed [.findRound n.name r.id (.collect call r tx)]

/-- Open the collection of acknowledgments and start the task of the proposal. -/
def startCollection (n : Node) (call : Nat) (r : Record) (round : UInt32) (tx : Transaction) : Step :=
  match n.broadcast.acks.start r.id with
  | .error e => (n.reply call (.error (.consensus e))).rest
  | .ok (progress, acks) =>
    let decided := progress matches .majority _
    let waiting :=
      if decided then n.broadcast.waiting else SortedSet.add n.broadcast.waiting r.id
    let n : Node := { n with broadcast := { n.broadcast with acks, waiting } }
    ⟨n.reply call (.ok r.id), [],
      [.spawn ("proposal #" ++ toString r.id) [.drive r round tx decided]]⟩

/-- Spread the proposal, then wait for its majority. -/
def drive (now : Nat) (n : Node) (r : Record) (round : UInt32) (tx : Transaction) (decided : Bool) :
    Step :=
  let next : Action :=
    if decided then .confirm r.id round tx
    else .awaitMajority r round tx (now + n.config.stubbornTimeout.toNat)
  ⟨n, [next], [.spread r []]⟩

/-- Spread the proposal again and wait for the next tick. -/
def insist (n : Node) (r : Record) (round : UInt32) (tx : Transaction) (tick : Nat) : Step :=
  ⟨n, [.awaitMajority r round tx (tick + n.config.stubbornTimeout.toNat)], [.spread r []]⟩

/-- Either there is a majority, or it is time to look at the round and to insist. -/
def awaitMajority (now : Nat) (n : Node) (r : Record) (round : UInt32) (tx : Transaction)
    (tick : Nat) : List Step :=
  let decided :=
    if n.majorities.contains r.id then
      [{ n with majorities := n.majorities.erase r.id }.proceed [.confirm r.id round tx]]
    else []
  let late :=
    if tick ≤ now then
      [if n.config.strictRounds then n.proceed [.checkRound r round tx tick]
        else n.insist r round tx tick]
    else []
  decided ++ late

/-- A proposal whose round has closed without it is abandoned. -/
def checkRound (n : Node) (r : Record) (round : UInt32) (tx : Transaction) (tick : Nat) : Step :=
  if round < n.round then n.proceed [.abandon r.id] else n.insist r round tx tick

def abandon (n : Node) (id : SequenceId) : Step :=
  { n with broadcast := { n.broadcast with
      acks := (n.broadcast.acks.abandon id).2
      waiting := n.broadcast.waiting.erase id } : Node }.rest

def confirm (n : Node) (id : SequenceId) (round : UInt32) (tx : Transaction) : Step :=
  n.proceed [.storeConfirmation id round tx n.vectorClock]

/-- Store and spread the confirmation of a proposal. -/
def storeConfirmation (n : Node) (id : SequenceId) (round : UInt32) (tx : Transaction)
    (vectorClock : Option StatusReport) : Step :=
  let (r, n) := n.append (fun own => .proposal ⟨n.name, own, some id, Word256.zero, tx, vectorClock⟩)
  let n : Node := { n with metrics := { n.metrics with confirmations := n.metrics.confirmations + 1 } }
  ⟨n.emit (.proposalConfirmed n.name id tx), [.countConfirmation n.name round], [.spread r []]⟩

/-! ## Rounds -/

/-- Look up the round of a proposal in the store. -/
def findRound (n : Node) (o : Origin) (id : SequenceId) (purpose : RoundPurpose) : Step :=
  match n.store.proposalRound o id, purpose with
  | some round, _ => n.proceed [.stampRound o id round purpose]
  | none, .collect call _ _ => (n.reply call (.error (.consensus (.unknownProposal o id)))).rest
  | none, _ => n.rest

/-- What a round is looked up for. -/
def afterStamp (c : Config) (o : Origin) (id : SequenceId) (round : UInt32) : RoundPurpose → Action
  | .acknowledge via =>
    if !c.strictRounds || c.ackAll then .acknowledge o id (some via) else .offerGate o id round via
  | .confirm => .countConfirmation o round
  | .collect call r tx => .startCollection call r round tx

def stampRound (n : Node) (o : Origin) (id : SequenceId) (round : UInt32) (purpose : RoundPurpose) :
    Step :=
  { n with broadcast := { n.broadcast with clock := n.broadcast.clock.record o id round } :
    Node }.proceed [afterStamp n.config o id round purpose]

/-- Acknowledge a proposal of a round that is open, hold the acknowledgment otherwise. -/
def offerGate (n : Node) (o : Origin) (id : SequenceId) (round : UInt32) (via : PeerAddress) : Step :=
  let (released, gate) := n.broadcast.gate.offer round (o, id)
  { n with broadcast := { n.broadcast with gate } : Node }.proceed
    (released.toList.map (fun p => .acknowledge p.1 p.2 (some via)))

/-- Count a confirmed proposal for its round.  When rounds close, observers and waiting tasks are told,
and the acknowledgments that were held for the open rounds are sent. -/
def countConfirmation (n : Node) (o : Origin) (round : UInt32) : Step :=
  match n.broadcast.tracker.recordConfirmation o round with
  | ([], tracker) => { n with broadcast := { n.broadcast with tracker } : Node }.rest
  | (closed, tracker) =>
    let (released, gate) := n.broadcast.gate.advanceTo tracker.current
    let n : Node := { n with
      broadcast := { n.broadcast with tracker, gate }
      roundChanges := n.roundChanges + 1
      metrics := { n.metrics with roundsAdvanced := n.metrics.roundsAdvanced + closed.length } }
    ⟨closed.foldl (fun n c => n.emit (.roundAdvanced (c.round + 1) c.witnesses)) n,
      released.map (fun p => .acknowledge p.1 p.2 none), [.signal .round]⟩

/-! ## Acknowledgments -/

/-- Acknowledge a proposal towards its proposer; the peer it came from will do as a first hop. -/
def acknowledge (n : Node) (proposer : Origin) (id : SequenceId) (via : Option PeerAddress) : Step :=
  match (n.routes.nextHop proposer).toOption.or via with
  | some hop =>
    ⟨{ n with metrics := { n.metrics with tlcAcksSent := n.metrics.tlcAcksSent + 1 } }, [],
      [.send hop (.ack ⟨n.name, id, proposer, n.config.hopLimit⟩)]⟩
  | none =>
    { n with metrics := { n.metrics with routingMisses := n.metrics.routingMisses + 1 } : Node }.rest

def countAck (n : Node) (a : Ack) : Step :=
  let (progress, acks) := n.broadcast.acks.recordAck a.id a.origin
  let decided := (progress matches .majority _) && n.broadcast.waiting.contains a.id
  if decided then
    ⟨{ n with
        broadcast := { n.broadcast with acks, waiting := n.broadcast.waiting.erase a.id }
        majorities := SortedSet.add n.majorities a.id }, [], [.signal (.majority a.id)]⟩
  else { n with broadcast := { n.broadcast with acks } : Node }.rest

end GossipNode.Node
