import GossipNode.Config.Basic
import GossipNode.Text.Utf8
import GossipNode.Toml.Document
import GossipNode.Toml.Writer
/-!
# Configurations as TOML

Keys that name no field are ignored; a field without a key has its default; nothing is converted but
integers to a probability.  Writing gives every field a line, in a fixed order, an absent secret
excepted.
-/
namespace GossipNode.Config

open Toml

/-- An integer too large to be written. -/
structure OutOfRange where
deriving DecidableEq, Repr

def OutOfRange.message (_ : OutOfRange) : String :=
  "NodeConfig is always serializable to TOML: OutOfRange(Some(\"u64\"))"

/-! ## Writing -/

def integerLine (key : String) (n : Nat) : Except OutOfRange String :=
  match Writer.integer? n with
  | some text => .ok (Writer.line key text)
  | none => .error ⟨⟩

def toToml (c : Config) : Except OutOfRange String := do
  let peerCount ← integerLine "peer_count" c.peerCount.toNat
  let antiEntropy ← integerLine "anti_entropy_period_ms" c.antiEntropyPeriod.toNat
  let heartbeat ← integerLine "heartbeat_period_ms" c.heartbeatPeriod.toNat
  let stubborn ← integerLine "stubborn_timeout_ms" c.stubbornTimeout.toNat
  let hops ← integerLine "hop_limit" c.hopLimit.toNat
  let ackTimeout ← integerLine "ack_timeout_ms" c.ackTimeout.toNat
  let backoff ← integerLine "ledger_backoff_ms" c.ledgerBackoff.toNat
  let secret :=
    match c.authSecret with
    | some s => Writer.line "auth_secret" (Writer.string s)
    | none => ""
  return Writer.line "name" (Writer.string c.name) ++
    Writer.line "gossip_addr" (Writer.string c.gossipAddr) ++
    Writer.line "peers" (Writer.strings c.peers) ++
    peerCount ++ antiEntropy ++ heartbeat ++ stubborn ++ hops ++ ackTimeout ++
    Writer.line "monger_continue_probability" (Writer.floatFormat.render c.mongerContinue) ++
    Writer.line "strict_rounds" (Writer.boolean c.strictRounds) ++
    Writer.line "ack_all" (Writer.boolean c.ackAll) ++
    secret ++ backoff ++
    Writer.line "log_format" (Writer.string c.logFormat) ++
    Writer.line "log_level" (Writer.string c.logLevel)

/-! ## Reading -/

/-- The field of a key: its default when the key is absent, nothing when the item has the wrong type. -/
def field {α : Type} (read : Item → Option α) (es : Entries) (key : String) (default : α) : Option α :=
  match Entries.find? key es with
  | none => some default
  | some i => read i

def asString : Item → Option String
  | .string s => some s
  | _ => none

def asBool : Item → Option Bool
  | .boolean b => some b
  | _ => none

def asNat (bound : Nat) : Item → Option Nat
  | .integer n => if 0 ≤ n ∧ n.toNat < bound then some n.toNat else none
  | _ => none

def asUInt64 (i : Item) : Option UInt64 := (asNat UInt64.size i).map UInt64.ofNat

def asUInt32 (i : Item) : Option UInt32 := (asNat UInt32.size i).map UInt32.ofNat

def asBinary64 : Item → Option Binary64
  | .float x => some x
  | .integer n =>
    let x := Binary64.ofRatio n.natAbs 1
    some (if n < 0 then x.negate else x)
  | _ => none

def asStrings : Item → Option (List String)
  | .array items => items.mapM asString
  | _ => none

def ofEntries? (es : Entries) : Option Config := do
  let d : Config := {}
  return {
    name := ← field asString es "name" d.name
    gossipAddr := ← field asString es "gossip_addr" d.gossipAddr
    peers := ← field asStrings es "peers" d.peers
    peerCount := ← field asUInt64 es "peer_count" d.peerCount
    antiEntropyPeriod := ← field asUInt64 es "anti_entropy_period_ms" d.antiEntropyPeriod
    heartbeatPeriod := ← field asUInt64 es "heartbeat_period_ms" d.heartbeatPeriod
    stubbornTimeout := ← field asUInt64 es "stubborn_timeout_ms" d.stubbornTimeout
    hopLimit := ← field asUInt32 es "hop_limit" d.hopLimit
    ackTimeout := ← field asUInt64 es "ack_timeout_ms" d.ackTimeout
    mongerContinue := ← field asBinary64 es "monger_continue_probability" d.mongerContinue
    strictRounds := ← field asBool es "strict_rounds" d.strictRounds
    ackAll := ← field asBool es "ack_all" d.ackAll
    authSecret := ← field (fun i => (asString i).map some) es "auth_secret" d.authSecret
    ledgerBackoff := ← field asUInt64 es "ledger_backoff_ms" d.ledgerBackoff
    logFormat := ← field asString es "log_format" d.logFormat
    logLevel := ← field asString es "log_level" d.logLevel }

def ofToml (s : String) : Except ConfigError Config :=
  match readDocument s >>= ofEntries? with
  | some c => .ok c
  | none => .error .malformed

inductive FileContents where
  | missing
  | directory
  | octets (bs : Bytes)
deriving DecidableEq, Repr

def ofFile : FileContents → Except ConfigError Config
  | .missing => .error .missingFile
  | .directory => .error .directory
  | .octets bs =>
    match GossipNode.Text.ofUtf8? bs with
    | none => .error .fileNotText
    | some s => ofToml s

end GossipNode.Config
