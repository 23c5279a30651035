import GossipNode.Identity
import GossipNode.Number.Shortest
import GossipNode.Text.Quoted
/-!
# Configuration

What an operator says about a node.  Every field has a default, so that nothing at all configures a node
alone.  `validate` refuses values that a node cannot run with, in a fixed order.
-/
namespace GossipNode

structure Config where
  /-- The origin name, unique in the network. -/
  name : String := "murmur"
  gossipAddr : String := "127.0.0.1:5000"
  peers : List String := []
  /-- How many nodes take part, this one included. -/
  peerCount : UInt64 := 1
  /-- Period of the status push, in milliseconds; 0 for none. -/
  antiEntropyPeriod : UInt64 := 10000
  /-- Period of the empty rumor, in milliseconds; 0 for none. -/
  heartbeatPeriod : UInt64 := 0
  /-- Period at which an unconfirmed proposal is sent again, in milliseconds. -/
  stubbornTimeout : UInt64 := 5000
  hopLimit : UInt32 := 10
  /-- How long to wait for a peer's status report, in milliseconds. -/
  ackTimeout : UInt64 := 10000
  /-- Probability of sending a record to one more peer. -/
  mongerContinue : Binary64 := .half
  strictRounds : Bool := false
  /-- Acknowledge every proposal at once, also when rounds are strict. -/
  ackAll : Bool := false
  authSecret : Option String := none
  /-- Pause of a ledger driver that has nothing to propose, in milliseconds. -/
  ledgerBackoff : UInt64 := 50
  logFormat : String := "human"
  logLevel : String := "info"
deriving DecidableEq, Repr

inductive ConfigError where
  | emptyName
  | noPeers
  | probabilityOutside (p : Binary64)
  | noHops
  | noStubbornTimeout
  | unknownLogFormat (value : String)
  | notRouted (kind : String)
  | missingFile
  | directory
  | fileNotText
  /-- The document is not TOML, or a value has the wrong type. -/
  | malformed
deriving DecidableEq, Repr

namespace ConfigError

/-- Numbers in messages have no point unless they need one. -/
def numberFormat : Number.FloatFormat := ⟨"", "NaN", false⟩

def message : ConfigError → String
  | emptyName => "name must not be empty"
  | noPeers => "peer_count must be at least 1"
  | probabilityOutside p =>
    "monger_continue_probability " ++ numberFormat.render p ++ " is outside [0, 1]"
  | noHops => "hop_limit must be at least 1"
  | noStubbornTimeout => "stubborn_timeout_ms must be at least 1"
  | unknownLogFormat value => "unknown log format " ++ Text.Quoted.string value
  | notRouted kind => kind ++ " packets are not routed"
  | missingFile => "No such file or directory (os error 2)"
  | directory => "Is a directory (os error 21)"
  | fileNotText => "stream did not contain valid UTF-8"
  | malformed => "malformed document"

end ConfigError

namespace Config

def origin (c : Config) : Origin := ⟨c.name⟩

def bootstrapPeers (c : Config) : List PeerAddress := c.peers.map PeerAddress.mk

def validate (c : Config) : Except ConfigError Unit :=
  if c.name = "" then .error .emptyName
  else if c.peerCount = 0 then .error .noPeers
  else if !c.mongerContinue.inUnitInterval then .error (.probabilityOutside c.mongerContinue)
  else if c.hopLimit = 0 then .error .noHops
  else if c.stubbornTimeout = 0 then .error .noStubbornTimeout
  else .ok ()

end Config

inductive LogFormat where
  | human
  | json
deriving DecidableEq, Repr

namespace LogFormat

/-- The format of that name, whatever the case of its ASCII letters. -/
def ofName (value : String) : Except ConfigError LogFormat :=
  let lower := value.map (fun c => if 'A' ≤ c && c ≤ 'Z' then c.toLower else c)
  if lower = "human" then .ok .human
  else if lower = "json" then .ok .json
  else .error (.unknownLogFormat lower)

end LogFormat

end GossipNode
