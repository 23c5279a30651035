import GossipNode.Ledger.Block
import GossipNode.Message.Status
/-!
# Packets

A datagram carries one packet.  Three kinds are *records*, which have an origin and a number and are
reconciled through status reports; five kinds are *routed* towards a destination and have a hop limit;
the others are status reports and floods of search requests.
-/
namespace GossipNode

/-- Free text; an empty text is a heartbeat. -/
structure Rumor where
  origin : Origin
  id : SequenceId
  text : String
deriving DecidableEq, Repr

structure PrivateMessage where
  origin : Origin
  id : SequenceId
  text : String
  destination : Origin
  hopLimit : UInt32
deriving DecidableEq, Repr

structure DataRequest where
  origin : Origin
  destination : Origin
  hopLimit : UInt32
  hash : Bytes
deriving DecidableEq, Repr

structure DataReply where
  origin : Origin
  destination : Origin
  hopLimit : UInt32
  hash : Bytes
  data : Bytes
deriving DecidableEq, Repr

/-- A keyword search, flooded by budget rather than routed. -/
structure SearchRequest where
  origin : Origin
  budget : UInt64
  keywords : List String
deriving DecidableEq, Repr

structure SearchResult where
  fileName : String
  metafileHash : Bytes
  chunkMap : List UInt64
  chunkCount : UInt64
deriving DecidableEq, Repr

structure SearchReply where
  origin : Origin
  destination : Origin
  hopLimit : UInt32
  results : List SearchResult
deriving DecidableEq, Repr

structure Transaction where
  name : String
  size : UInt64
  metafileHash : Bytes
deriving DecidableEq, Repr

/-- A proposal of a transaction.  It is a confirmation when it names the number of an earlier proposal
of its origin. -/
structure Proposal where
  origin : Origin
  id : SequenceId
  confirmed : Option SequenceId
  prevHash : BlockHash
  transaction : Transaction
  vectorClock : Option StatusReport
deriving DecidableEq, Repr

/-- Acknowledges proposal `id` of `destination`; `origin` is who acknowledges. -/
structure Ack where
  origin : Origin
  id : SequenceId
  destination : Origin
  hopLimit : UInt32
deriving DecidableEq, Repr

/-- Evidence that a block comes from a member: a nonce and its keyed digest. -/
structure Proof where
  nonce : Word256
  tag : Bytes
deriving DecidableEq, Repr

/-- A candidate block with the proof that its sender may propose. -/
structure BlockAnnouncement where
  origin : Origin
  id : SequenceId
  block : Block
  proof : Proof
deriving DecidableEq, Repr

inductive Packet where
  | rumor (m : Rumor)
  | status (m : StatusReport)
  | private_ (m : PrivateMessage)
  | dataRequest (m : DataRequest)
  | dataReply (m : DataReply)
  | searchRequest (m : SearchRequest)
  | searchReply (m : SearchReply)
  | proposal (m : Proposal)
  | ack (m : Ack)
  | block (m : BlockAnnouncement)
deriving DecidableEq, Repr

namespace Packet

def kind : Packet → String
  | rumor _ => "rumor"
  | status _ => "status"
  | private_ _ => "private"
  | dataRequest _ => "data_request"
  | dataReply _ => "data_reply"
  | searchRequest _ => "search_request"
  | searchReply _ => "search_reply"
  | proposal _ => "proposal"
  | ack _ => "ack"
  | block _ => "block"

/-- Where a routed packet goes, and how many hops it has left. -/
def route? : Packet → Option (Origin × UInt32)
  | private_ m => some (m.destination, m.hopLimit)
  | dataRequest m => some (m.destination, m.hopLimit)
  | dataReply m => some (m.destination, m.hopLimit)
  | searchReply m => some (m.destination, m.hopLimit)
  | ack m => some (m.destination, m.hopLimit)
  | _ => none

def destination? (p : Packet) : Option Origin := p.route?.map Prod.fst

def hopLimit? (p : Packet) : Option UInt32 := p.route?.map Prod.snd

def withHopLimit (h : UInt32) : Packet → Packet
  | private_ m => private_ { m with hopLimit := h }
  | dataRequest m => dataRequest { m with hopLimit := h }
  | dataReply m => dataReply { m with hopLimit := h }
  | searchReply m => searchReply { m with hopLimit := h }
  | ack m => ack { m with hopLimit := h }
  | p => p

/-- Spend one hop.  The flag is false when none is left after that, or the packet is not routed. -/
def spendHop (p : Packet) : Bool × Packet :=
  match p.hopLimit? with
  | some h => (1 < h, p.withHopLimit (if h = 0 then 0 else h - 1))
  | none => (false, p)

end Packet

end GossipNode
