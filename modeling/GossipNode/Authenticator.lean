import GossipNode.Hash.Hmac
import GossipNode.Message.Packet
/-!
# Proofs of membership

A block announcement carries a nonce and the keyed digest of the nonce under the network's secret.  A
node without a secret of its own either takes or refuses every proof.
-/
namespace GossipNode

/-- The secret of a network that names none. -/
def openNetworkSecret : String := "murmur-open-network"

def emptySecretMessage : String := "authentication secret must not be empty"

inductive Authenticator where
  | acceptAll
  | rejectAll
  | sharedSecret (secret : Bytes)
deriving DecidableEq, Repr

namespace Authenticator

/-- A shared secret has to have an octet. -/
def ofSecret? (secret : Bytes) : Option Authenticator :=
  if secret.isEmpty then none else some (.sharedSecret secret)

def prove (a : Authenticator) (nonce : Word256) : Proof :=
  match a with
  | .sharedSecret secret => ⟨nonce, (Hash.hmacSha256 secret nonce.octets).octets⟩
  | _ => ⟨Word256.zero, []⟩

def verify (a : Authenticator) (p : Proof) : Bool :=
  match a with
  | .acceptAll => true
  | .rejectAll => false
  | .sharedSecret secret => p.tag == (Hash.hmacSha256 secret p.nonce.octets).octets

end Authenticator

end GossipNode
