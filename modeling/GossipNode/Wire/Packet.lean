import GossipNode.Message.Packet
import GossipNode.Wire.Format
/-!
# The packet format

The kind of a packet as a number, then its fields in order.
-/
namespace GossipNode.Wire.Format

def origin : Format Origin := text.iso Origin.mk Origin.name

def statusEntry : Format StatusEntry :=
  (origin.seq word32).iso (fun (o, n) => ⟨o, n⟩) (fun e => (e.identifier, e.nextId))

def statusReport : Format StatusReport := (list statusEntry).iso StatusReport.mk StatusReport.want

def rumor : Format Rumor :=
  (origin.seq (word32.seq text)).iso (fun (o, i, t) => ⟨o, i, t⟩) (fun m => (m.origin, m.id, m.text))

def privateMessage : Format PrivateMessage :=
  (origin.seq (word32.seq (text.seq (origin.seq word32)))).iso
    (fun (o, i, t, d, h) => ⟨o, i, t, d, h⟩)
    (fun m => (m.origin, m.id, m.text, m.destination, m.hopLimit))

def dataRequest : Format DataRequest :=
  (origin.seq (origin.seq (word32.seq octets))).iso
    (fun (o, d, h, x) => ⟨o, d, h, x⟩) (fun m => (m.origin, m.destination, m.hopLimit, m.hash))

def dataReply : Format DataReply :=
  (origin.seq (origin.seq (word32.seq (octets.seq octets)))).iso
    (fun (o, d, h, x, y) => ⟨o, d, h, x, y⟩)
    (fun m => (m.origin, m.destination, m.hopLimit, m.hash, m.data))

def searchRequest : Format SearchRequest :=
  (origin.seq (number.seq (list text))).iso
    (fun (o, b, k) => ⟨o, b, k⟩) (fun m => (m.origin, m.budget, m.keywords))

def searchResult : Format SearchResult :=
  (text.seq (octets.seq ((list number).seq number))).iso
    (fun (f, h, m, c) => ⟨f, h, m, c⟩) (fun r => (r.fileName, r.metafileHash, r.chunkMap, r.chunkCount))

def searchReply : Format SearchReply :=
  (origin.seq (origin.seq (word32.seq (list searchResult)))).iso
    (fun (o, d, h, r) => ⟨o, d, h, r⟩) (fun m => (m.origin, m.destination, m.hopLimit, m.results))

def transaction : Format Transaction :=
  (text.seq (number.seq octets)).iso
    (fun (n, s, h) => ⟨n, s, h⟩) (fun t => (t.name, t.size, t.metafileHash))

def proposal : Format Proposal :=
  (origin.seq (word32.seq ((option word32).seq (word256.seq (transaction.seq (option statusReport)))))).iso
    (fun (o, i, c, p, t, v) => ⟨o, i, c, p, t, v⟩)
    (fun m => (m.origin, m.id, m.confirmed, m.prevHash, m.transaction, m.vectorClock))

def ack : Format Ack :=
  (origin.seq (word32.seq (origin.seq word32))).iso
    (fun (o, i, d, h) => ⟨o, i, d, h⟩) (fun m => (m.origin, m.id, m.destination, m.hopLimit))

def ballot : Format Ballot :=
  (text.seq (text.seq text)).iso
    (fun (v, h, w) => ⟨v, h, w⟩) (fun b => (b.voter, b.voteHash, b.voterHash))

def block : Format Block :=
  (word256.seq (word256.seq (number.seq (word32.seq (origin.seq (text.seq (option ballot))))))).iso
    (fun (p, c, f, r, o, t, b) => ⟨p, c, f, r, o, t, b⟩)
    (fun b => (b.prevHash, b.currentHash, b.fitness, b.round, b.origin, b.topic, b.ballot))

def proof : Format Proof :=
  (word256.seq octets).iso (fun (n, t) => ⟨n, t⟩) (fun p => (p.nonce, p.tag))

def announcement : Format BlockAnnouncement :=
  (origin.seq (word32.seq (block.seq proof))).iso
    (fun (o, i, b, p) => ⟨o, i, b, p⟩) (fun m => (m.origin, m.id, m.block, m.proof))

/-- The number of a packet's kind, and its fields. -/
def writePacket : Packet → Bytes
  | .rumor m => 0 :: rumor.write m
  | .status m => 1 :: statusReport.write m
  | .private_ m => 2 :: privateMessage.write m
  | .dataRequest m => 3 :: dataRequest.write m
  | .dataReply m => 4 :: dataReply.write m
  | .searchRequest m => 5 :: searchRequest.write m
  | .searchReply m => 6 :: searchReply.write m
  | .proposal m => 7 :: proposal.write m
  | .ack m => 8 :: ack.write m
  | .block m => 9 :: announcement.write m

/-- The reader of the fields of a kind. -/
def readFields (kind : UInt32) : Bytes → Except Fault (Packet × Bytes) :=
  match kind.toNat with
  | 0 => fun bs => (rumor.read bs).map (fun (m, r) => (.rumor m, r))
  | 1 => fun bs => (statusReport.read bs).map (fun (m, r) => (.status m, r))
  | 2 => fun bs => (privateMessage.read bs).map (fun (m, r) => (.private_ m, r))
  | 3 => fun bs => (dataRequest.read bs).map (fun (m, r) => (.dataRequest m, r))
  | 4 => fun bs => (dataReply.read bs).map (fun (m, r) => (.dataReply m, r))
  | 5 => fun bs => (searchRequest.read bs).map (fun (m, r) => (.searchRequest m, r))
  | 6 => fun bs => (searchReply.read bs).map (fun (m, r) => (.searchReply m, r))
  | 7 => fun bs => (proposal.read bs).map (fun (m, r) => (.proposal m, r))
  | 8 => fun bs => (ack.read bs).map (fun (m, r) => (.ack m, r))
  | 9 => fun bs => (announcement.read bs).map (fun (m, r) => (.block m, r))
  | _ => fun _ => .error (.unknownKind kind)

def readPacket (bs : Bytes) : Except Fault (Packet × Bytes) := do
  let (kind, r) ← word32.read bs
  readFields kind r

def packet : Format Packet := ⟨writePacket, readPacket⟩

end GossipNode.Wire.Format
