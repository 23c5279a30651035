import GossipNode.Config.Toml
import GossipNode.Proofs.Toml.Documents
/-!
# Configurations read back

What is written of a configuration is a document with a line for each field that it has (`lines`).  Every value is read
back as the item it stands for, and the entries of the lines give the fields back, so a configuration that can be written
is read back whole (`ofToml_toToml`).
-/
namespace GossipNode.Config

open Toml

/-! ## What can be written -/

/-- The text of a number stands for that number. -/
def ReadsBack (x : Binary64) : Prop :=
  ∃ i, Scalar.read (Writer.floatFormat.render x).toList = some (i, []) ∧ asBinary64 i = some x

/-- What a text that is one number stands for. -/
def number? (text : String) : Option Binary64 :=
  match Scalar.read text.toList with
  | some (i, []) => asBinary64 i
  | _ => none

theorem readsBack_iff {x : Binary64} : ReadsBack x ↔ number? (Writer.floatFormat.render x) = some x := by
  rw [ReadsBack, number?]
  constructor
  · rintro ⟨i, hread, hi⟩
    rw [hread]
    exact hi
  · intro h
    split at h
    · exact ⟨_, by assumption, h⟩
    · cases h

instance (x : Binary64) : Decidable (ReadsBack x) := decidable_of_iff' _ readsBack_iff

/-- Every integer is one of 64 bits with a sign, as one of 32 bits always is. -/
structure Writable (c : Config) : Prop where
  peerCount : c.peerCount.toNat ≤ maxInteger
  antiEntropyPeriod : c.antiEntropyPeriod.toNat ≤ maxInteger
  heartbeatPeriod : c.heartbeatPeriod.toNat ≤ maxInteger
  stubbornTimeout : c.stubbornTimeout.toNat ≤ maxInteger
  ackTimeout : c.ackTimeout.toNat ≤ maxInteger
  ledgerBackoff : c.ledgerBackoff.toNat ≤ maxInteger

theorem hopLimit_le (c : Config) : c.hopLimit.toNat ≤ maxInteger := by
  have := c.hopLimit.toNat_lt
  rw [maxInteger]
  omega

/-! ## Lines -/

def textLine (key : String) (s : String) : Line := ⟨key, Writer.string s, .string s⟩

def natLine (key : String) (n : Nat) : Line := ⟨key, toString n, .integer n⟩

def flagLine (key : String) (b : Bool) : Line := ⟨key, Writer.boolean b, .boolean b⟩

/-- The lines of a configuration, `i` being what its probability is read as. -/
def lines (c : Config) (i : Item) : List Line :=
  [textLine "name" c.name,
    textLine "gossip_addr" c.gossipAddr,
    ⟨"peers", Writer.strings c.peers, .array (c.peers.map .string)⟩,
    natLine "peer_count" c.peerCount.toNat,
    natLine "anti_entropy_period_ms" c.antiEntropyPeriod.toNat,
    natLine "heartbeat_period_ms" c.heartbeatPeriod.toNat,
    natLine "stubborn_timeout_ms" c.stubbornTimeout.toNat,
    natLine "hop_limit" c.hopLimit.toNat,
    natLine "ack_timeout_ms" c.ackTimeout.toNat,
    ⟨"monger_continue_probability", Writer.floatFormat.render c.mongerContinue, i⟩,
    flagLine "strict_rounds" c.strictRounds,
    flagLine "ack_all" c.ackAll] ++
  (c.authSecret.map (textLine "auth_secret")).toList ++
  [natLine "ledger_backoff_ms" c.ledgerBackoff.toNat,
    textLine "log_format" c.logFormat,
    textLine "log_level" c.logLevel]

theorem integerLine_eq {key : String} {n : Nat} (hn : n ≤ maxInteger) :
    integerLine key n = .ok (natLine key n).text := by
  simp [integerLine, Writer.integer?, hn, natLine, Line.text]

/-- **A configuration is written as its lines.** -/
theorem exists_toToml_eq_lines {c : Config} (hc : c.Writable) (i : Item) :
    ∃ text, c.toToml = .ok text ∧ text.toList = (c.lines i).flatMap (fun l => l.text.toList) := by
  simp only [toToml, integerLine_eq hc.peerCount, integerLine_eq hc.antiEntropyPeriod,
    integerLine_eq hc.heartbeatPeriod, integerLine_eq hc.stubbornTimeout, integerLine_eq c.hopLimit_le,
    integerLine_eq hc.ackTimeout, integerLine_eq hc.ledgerBackoff]
  refine ⟨_, rfl, ?_⟩
  cases hsecret : c.authSecret <;> simp [lines, hsecret, Line.text, textLine, flagLine]

/-- The keys of all lines that there can be. -/
def keys : List String :=
  ["name", "gossip_addr", "peers", "peer_count", "anti_entropy_period_ms", "heartbeat_period_ms",
    "stubborn_timeout_ms", "hop_limit", "ack_timeout_ms", "monger_continue_probability", "strict_rounds", "ack_all",
    "auth_secret", "ledger_backoff_ms", "log_format", "log_level"]

theorem keys_lines (c : Config) (i : Item) : ((c.lines i).map Line.key).Sublist keys := by
  cases hsecret : c.authSecret <;> simp [lines, hsecret, textLine, flagLine, natLine, keys]

theorem nodup_keys : keys.Nodup := by decide

theorem bareKey_of_mem {key : String} (h : key ∈ keys) : BareKey key := by
  have hkeys : (keys.all fun key => !key.toList.isEmpty && key.toList.all isBare) = true := by decide +kernel
  have hkey := List.all_eq_true.1 hkeys key h
  rw [Bool.and_eq_true, Bool.not_eq_true', List.isEmpty_eq_false_iff, List.all_eq_true] at hkey
  exact ⟨hkey.1, hkey.2⟩

theorem sound_lines {c : Config} (hc : c.Writable) {i : Item}
    (hread : Scalar.read (Writer.floatFormat.render c.mongerContinue).toList = some (i, []))
    (hi : asBinary64 i = some c.mongerContinue) : ∀ l ∈ c.lines i, l.Sound := by
  have hmoment : i ≠ .moment := by
    rintro rfl
    cases hi
  have hsecret : ∀ l ∈ (c.authSecret.map (textLine "auth_secret")).toList, Reads l.value l.item := by
    intro l hl
    obtain ⟨s, -, rfl⟩ := Option.map_eq_some_iff.1 (Option.mem_toList.1 hl)
    exact reads_string s
  have hreads : ∀ l ∈ c.lines i, Reads l.value l.item := by
    rw [lines]
    simp only [List.forall_mem_append, List.forall_mem_cons]
    refine ⟨⟨⟨reads_string _, reads_string _, reads_strings _, reads_integer hc.peerCount,
      reads_integer hc.antiEntropyPeriod, reads_integer hc.heartbeatPeriod, reads_integer hc.stubbornTimeout,
      reads_integer c.hopLimit_le, reads_integer hc.ackTimeout, reads_scalar hmoment hread, reads_boolean _,
      reads_boolean _, nofun⟩, hsecret⟩, reads_integer hc.ledgerBackoff, reads_string _, reads_string _, nofun⟩
  exact fun l hl => ⟨bareKey_of_mem ((keys_lines c i).subset (List.mem_map_of_mem hl)), hreads l hl⟩

/-! ## Fields -/

theorem asUInt64_toNat (n : UInt64) : asUInt64 (.integer n.toNat) = some n := by
  simp [asUInt64, asNat, n.toNat_lt_size]

theorem asUInt32_toNat (n : UInt32) : asUInt32 (.integer n.toNat) = some n := by
  simp [asUInt32, asNat, n.toNat_lt_size]

theorem asStrings_map (ss : List String) : asStrings (.array (ss.map .string)) = some ss := by
  rw [asStrings]
  induction ss with
  | nil => rfl
  | cons s ss ih => simp [List.mapM_cons, asString, ih]

/-- **The entries of a configuration's lines give each of its fields.** -/
theorem ofEntries?_lines (c : Config) {i : Item} (hi : asBinary64 i = some c.mongerContinue) :
    ofEntries? ((c.lines i).map Line.entry) = some c := by
  cases hsecret : c.authSecret
  all_goals
    simp [ofEntries?, field, lines, hsecret, Line.entry, textLine, natLine, flagLine, Entries.find?, List.lookup_cons,
      asString, asBool, asUInt64_toNat, asUInt32_toNat, asStrings_map, hi]
    rw [← hsecret]

/-! ## The round trip -/

/-- **A configuration that can be written is read back whole**, whatever its texts are made of. -/
theorem ofToml_toToml {c : Config} (hc : c.Writable) (hx : ReadsBack c.mongerContinue) :
    ∃ text, c.toToml = .ok text ∧ ofToml text = .ok c := by
  obtain ⟨i, hread, hi⟩ := hx
  obtain ⟨text, htext, hlines⟩ := exists_toToml_eq_lines hc i
  have hdocument := readDocument_lines hlines (sound_lines hc hread hi) (nodup_keys.sublist (keys_lines c i))
  refine ⟨text, htext, ?_⟩
  rw [ofToml, hdocument, Option.bind_eq_bind, Option.bind_some, ofEntries?_lines c hi]

/-- A tenth, and texts for each of the forms, with quotes next to the quotes that close them. -/
def intricate : Config where
  name := "\"\"\"'''\\\x00\n"
  gossipAddr := ""
  peers := ["\"", "'\"", "\n\"\"", "'\"\n''", "\\\"'", "\u007f\r\n\\\"\"\"\"", "\t\\é"]
  peerCount := 0x7FFFFFFFFFFFFFFF
  mongerContinue := ⟨0x3FB999999999999A⟩
  authSecret := some "''''\"\"\"\"\n\n'"

theorem ofToml_toToml_intricate : intricate.Writable ∧ ReadsBack intricate.mongerContinue ∧
    ∃ text, intricate.toToml = .ok text ∧ ofToml text = .ok intricate := by
  have hc : intricate.Writable := by constructor <;> decide
  have hx : ReadsBack intricate.mongerContinue := by decide +kernel
  exact ⟨hc, hx, ofToml_toToml hc hx⟩

end GossipNode.Config
