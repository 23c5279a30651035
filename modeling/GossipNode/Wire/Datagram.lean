import GossipNode.Wire.Packet
/-!
# Datagrams

A version octet, then one packet and nothing else, in at most 9216 octets.
-/
namespace GossipNode.Wire

/-- The version written at the head of a datagram. -/
def version : UInt8 := 1

/-- The oldest version that is understood. -/
def minVersion : UInt8 := 1

def isCompatible (v : UInt8) : Bool := minVersion ≤ v && v ≤ version

def maxSize : Nat := 9216

inductive ProtocolError where
  | empty
  | tooLarge (size : Nat)
  | unsupportedVersion (v : UInt8)
  | malformed (f : Fault)
deriving DecidableEq, Repr

namespace ProtocolError

def message : ProtocolError → String
  | empty => "empty datagram"
  | tooLarge size => "message too large: " ++ toString size ++ " > " ++ toString maxSize
  | unsupportedVersion v => "unsupported protocol version: " ++ toString v
  | malformed f => "malformed message: " ++ f.message

end ProtocolError

/-- The datagram of a packet.  A body that alone exceeds the limit is reported as one octet over. -/
def encode (p : Packet) : Except ProtocolError Bytes :=
  let body := Format.packet.write p
  if maxSize < body.length + 1 then .error (.tooLarge (maxSize + 1))
  else .ok (version :: body)

/-- The packet of a datagram.  Size and version are looked at before the packet is. -/
def decode : Bytes → Except ProtocolError Packet
  | [] => .error .empty
  | v :: body =>
    if maxSize < (v :: body).length then .error (.tooLarge (v :: body).length)
    else if !isCompatible v then .error (.unsupportedVersion v)
    else
      match Format.packet.read body with
      | .error f => .error (.malformed f)
      | .ok (_, _ :: _) => .error (.malformed .trailing)
      | .ok (p, []) => .ok p

end GossipNode.Wire
