import GossipNode.Config.Basic
import GossipNode.Consensus.Majority
import GossipNode.Routing.Table
import GossipNode.Authenticator
/-!
# What a node refuses

Each refusal has a message, and the messages of what lies behind it, nearest first.
-/
namespace GossipNode

inductive NodeError where
  | config (e : ConfigError)
  | emptySecret
  | invalidAddress (a : PeerAddress)
  | routing (e : RoutingError)
  | consensus (e : ConsensusError)
  | shuttingDown
deriving DecidableEq, Repr

namespace NodeError

/-- The part of the node that refuses. -/
def kind : NodeError → String
  | config _ => "Config"
  | emptySecret => "Crypto"
  | invalidAddress _ => "Network"
  | routing _ => "Routing"
  | consensus _ => "Consensus"
  | shuttingDown => "ShuttingDown"

/-- The reasons behind a refusal, nearest first. -/
def causes : NodeError → List String
  | config _ => []
  | emptySecret => [emptySecretMessage]
  | invalidAddress a => ["invalid peer address: " ++ a.invalidMessage, a.invalidMessage]
  | routing e => [e.message]
  | consensus e => [e.message]
  | shuttingDown => []

def message : NodeError → String
  | config e => "config error: " ++ e.message
  | emptySecret => "crypto error: " ++ emptySecretMessage
  | invalidAddress a => "network error: invalid peer address: " ++ a.invalidMessage
  | routing e => "routing error: " ++ e.message
  | consensus e => "consensus error: " ++ e.message
  | shuttingDown => "node is shutting down"

end NodeError

end GossipNode
