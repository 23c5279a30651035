import GossipNode.Number.Shortest
/-!
# Counters

What a node has done so far, as counters, and the number of its peers, as a gauge.  The text lists them
by name, each with a line of help and a line for its type.
-/
namespace GossipNode

structure Metrics where
  recordsAccepted : Nat := 0
  recordsRejected : Nat := 0
  mongersSent : Nat := 0
  mongerTimeouts : Nat := 0
  acksFired : Nat := 0
  tlcAcksSent : Nat := 0
  confirmations : Nat := 0
  roundsAdvanced : Nat := 0
  blocksAppended : Nat := 0
  blocksRejected : Nat := 0
  routingMisses : Nat := 0
  hopLimitDrops : Nat := 0
  peerCount : Int := 0
deriving DecidableEq, Repr, Inhabited

namespace Metrics

/-- Numbers are shown as double-precision numbers, without a point. -/
def numberFormat : Number.FloatFormat := ⟨"", "NaN", false⟩

/-- A number as shown: rounded to double precision. -/
def showNumber (n : Int) : String :=
  let x := Binary64.ofRatio n.natAbs 1
  numberFormat.render (if n < 0 then x.negate else x)

/-- Counters are words of 64 bits. -/
def showCounter (n : Nat) : String := showNumber (n % UInt64.size : Nat)

def section_ (name help type value : String) : String :=
  "# HELP " ++ name ++ " " ++ help ++ "\n# TYPE " ++ name ++ " " ++ type ++ "\n" ++
    name ++ " " ++ value ++ "\n"

def counter (name help : String) (n : Nat) : String :=
  section_ ("murmur_" ++ name ++ "_total") help "counter" (showCounter n)

def render (m : Metrics) : String :=
  String.join [
    counter "acks_fired" "Pending acknowledgments fired by status reports" m.acksFired,
    counter "blocks_appended" "Blocks appended to topic ledgers" m.blocksAppended,
    counter "blocks_rejected" "Block announcements with an invalid proof" m.blocksRejected,
    counter "confirmations" "Proposals observed as confirmed" m.confirmations,
    counter "hop_limit_drops" "Routed packets dropped at hop limit zero" m.hopLimitDrops,
    counter "monger_timeouts" "Monger waits that timed out" m.mongerTimeouts,
    counter "mongers_sent" "Monger sends" m.mongersSent,
    section_ "murmur_peer_count" "Current number of known peers" "gauge" (showNumber m.peerCount),
    counter "records_accepted" "Records accepted into the reconciliation store" m.recordsAccepted,
    counter "records_rejected" "Records dropped as duplicate or out of order" m.recordsRejected,
    counter "rounds_advanced" "TLC rounds closed" m.roundsAdvanced,
    counter "routing_misses" "Routed packets with no known next hop" m.routingMisses,
    counter "tlc_acks_sent" "TLC acknowledgments sent" m.tlcAcksSent]

def toList (m : Metrics) : List (String × Int) := [
  ("records_accepted", m.recordsAccepted), ("records_rejected", m.recordsRejected),
  ("mongers_sent", m.mongersSent), ("monger_timeouts", m.mongerTimeouts),
  ("acks_fired", m.acksFired), ("tlc_acks_sent", m.tlcAcksSent),
  ("confirmations", m.confirmations), ("rounds_advanced", m.roundsAdvanced),
  ("blocks_appended", m.blocksAppended), ("blocks_rejected", m.blocksRejected),
  ("routing_misses", m.routingMisses), ("hop_limit_drops", m.hopLimitDrops),
  ("peer_count", m.peerCount)]

/-- Add to a counter, or set the gauge, by name. -/
def adjust (m : Metrics) (name : String) (n : Int) : Metrics :=
  let k := n.toNat
  match name with
  | "records_accepted" => { m with recordsAccepted := m.recordsAccepted + k }
  | "records_rejected" => { m with recordsRejected := m.recordsRejected + k }
  | "mongers_sent" => { m with mongersSent := m.mongersSent + k }
  | "monger_timeouts" => { m with mongerTimeouts := m.mongerTimeouts + k }
  | "acks_fired" => { m with acksFired := m.acksFired + k }
  | "tlc_acks_sent" => { m with tlcAcksSent := m.tlcAcksSent + k }
  | "confirmations" => { m with confirmations := m.confirmations + k }
  | "rounds_advanced" => { m with roundsAdvanced := m.roundsAdvanced + k }
  | "blocks_appended" => { m with blocksAppended := m.blocksAppended + k }
  | "blocks_rejected" => { m with blocksRejected := m.blocksRejected + k }
  | "routing_misses" => { m with routingMisses := m.routingMisses + k }
  | "hop_limit_drops" => { m with hopLimitDrops := m.hopLimitDrops + k }
  | "peer_count" => { m with peerCount := n }
  | _ => m

end Metrics

end GossipNode
