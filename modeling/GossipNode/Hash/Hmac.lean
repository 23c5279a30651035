import GossipNode.Hash.Sha256
/-!
# HMAC-SHA256

The keyed digest of RFC 2104: a key longer than a block is hashed first, then padded with zeros
to a block, and the message is hashed twice, under two masks of that block.
-/
namespace GossipNode.Hash

/-- The key as one 64-octet block. -/
def keyBlock (key : Bytes) : Bytes :=
  let k := if key.length > 64 then (sha256 key).octets else key
  k ++ List.replicate (64 - k.length) 0

def hmacSha256 (key message : Bytes) : Word256 :=
  let k := keyBlock key
  let inner := sha256 (k.map (· ^^^ 0x36) ++ message)
  sha256 (k.map (· ^^^ 0x5c) ++ inner.octets)

end GossipNode.Hash
