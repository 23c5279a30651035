import GossipNode.Config.Toml
import GossipNode.Node.Start
import GossipNode.Number.Digits
/-!
# The command line

`[FLAGS] run` runs a node, `[FLAGS] config` prints the configuration that such a run would have.  A
setting is taken from its flag, else from its environment variable, else from the configuration file,
else it has its default; the flag that makes rounds strict can only add to the file.  Arguments are read
from left to right, up to the first that cannot stand where it stands.
-/
namespace GossipNode

inductive Flag where
  | file
  | name
  | gossipAddr
  | peers
  | peerCount
  | antiEntropy
  | heartbeat
  | strictRounds
  | authSecret
  | logLevel
  | logFormat
deriving DecidableEq, Repr

namespace Flag

def all : List Flag :=
  [file, name, gossipAddr, peers, peerCount, antiEntropy, heartbeat, strictRounds, authSecret, logLevel,
    logFormat]

/-- A flag as it is written, without the dashes. -/
def spelling : Flag → String
  | file => "config"
  | name => "name"
  | gossipAddr => "gossip-addr"
  | peers => "peers"
  | peerCount => "peer-count"
  | antiEntropy => "anti-entropy-ms"
  | heartbeat => "heartbeat-ms"
  | strictRounds => "strict-rounds"
  | authSecret => "auth-secret"
  | logLevel => "log-level"
  | logFormat => "log-format"

def environmentKey (f : Flag) : String :=
  "MURMUR_" ++ f.spelling.map (fun c => if c = '-' then '_' else c.toUpper)

def ofSpelling? (s : String) : Option Flag := all.find? (fun f => f.spelling == s)

def admits (f : Flag) (value : String) : Bool :=
  match f with
  | file => value != ""
  | peerCount | antiEntropy | heartbeat => (Number.parseBelow UInt64.size value).isSome
  | strictRounds => value == "true" || value == "false"
  | _ => true

end Flag

inductive Command where
  | run
  | config
deriving DecidableEq, Repr

/-- Why no command is carried out. -/
inductive Stop where
  | usage
  | help
deriving DecidableEq, Repr

/-- Flags with their values, in the order they were given. -/
abbrev Settings := List (Flag × String)

namespace Settings

/-- Take a flag with a value; only peers may be given again. -/
def add (s : Settings) (f : Flag) (value : String) : Except Stop Settings :=
  if !f.admits value || (f != .peers && s.any (fun g => g.1 == f)) then .error .usage
  else .ok (s ++ [(f, value)])

/-- The flags that are not given take the values of their variables. -/
def addEnvironment (s : Settings) (environment : String → Option String) : Except Stop Settings :=
  Flag.all.foldlM (fun t f =>
    match environment f.environmentKey with
    | some value => if s.any (fun g => g.1 == f) then .ok t else add t f value
    | none => .ok t) s

def values (s : Settings) (f : Flag) : List String :=
  (s.filter (fun g => g.1 == f)).map Prod.snd

def text? (s : Settings) (f : Flag) : Option String := (s.values f).head?

def number? (s : Settings) (f : Flag) : Option UInt64 :=
  ((s.text? f).bind (Number.parseBelow UInt64.size)).map UInt64.ofNat

def override (s : Settings) (base : Config) : Config :=
  let peers := (s.values .peers).flatMap (fun v => v.splitOn ",")
  { base with
    name := (s.text? .name).getD base.name
    gossipAddr := (s.text? .gossipAddr).getD base.gossipAddr
    peers := if peers.isEmpty then base.peers else peers
    peerCount := (s.number? .peerCount).getD base.peerCount
    antiEntropyPeriod := (s.number? .antiEntropy).getD base.antiEntropyPeriod
    heartbeatPeriod := (s.number? .heartbeat).getD base.heartbeatPeriod
    strictRounds := s.text? .strictRounds == some "true" || base.strictRounds
    authSecret := (s.text? .authSecret).or base.authSecret
    logLevel := (s.text? .logLevel).getD base.logLevel
    logFormat := (s.text? .logFormat).getD base.logFormat }

end Settings

namespace CommandLine

/-! ## Arguments -/

def asksForHelp (arg : String) : Bool := arg == "--help" || arg.startsWith "-h"

/-- After a command nothing follows, but that nothing follows may be said. -/
def readEnd : List String → Except Stop Unit
  | [] => .ok ()
  | ["--"] => .ok ()
  | arg :: _ => .error (if asksForHelp arg then .help else .usage)

def readCommand (name : String) (after : List String) : Except Stop Command :=
  match name with
  | "run" => (readEnd after).map (fun _ => .run)
  | "config" => (readEnd after).map (fun _ => .config)
  | "help" =>
    match after with
    | [] | ["run"] | ["config"] | ["help"] => .error .help
    | _ => .error .usage
  | _ => .error .usage

/-- The flag that an argument names, and the value attached to it. -/
def splitFlag (arg : String) : Option (Flag × Option String) :=
  if !arg.startsWith "--" then none
  else
    let cs := arg.toList.drop 2
    let named := String.ofList (cs.takeWhile (· != '='))
    let attached := (cs.dropWhile (· != '=')).tail?.map String.ofList
    (Flag.ofSpelling? named).map (fun f => (f, attached))

/-- May an argument be the value of the flag before it? -/
def isValue (arg : String) : Bool := arg == "-" || !arg.startsWith "-"

def readArguments (s : Settings) : List String → Except Stop (Settings × Command)
  | [] => .error .usage
  | arg :: rest =>
    if isValue arg then (readCommand arg rest).map (fun c => (s, c))
    else if asksForHelp arg then .error .help
    else
      match splitFlag arg with
      | none => .error .usage
      | some (.strictRounds, none) => s.add .strictRounds "true" >>= fun s => readArguments s rest
      | some (.strictRounds, some _) => .error .usage
      | some (f, some value) => s.add f value >>= fun s => readArguments s rest
      | some (f, none) =>
        match rest with
        | value :: rest =>
          if isValue value then s.add f value >>= fun s => readArguments s rest else .error .usage
        | [] => .error .usage

/-! ## Commands -/

inductive Outcome where
  | stopped (s : Stop)
  | printed (text : String)
  /-- The configuration is fine but cannot be written. -/
  | unprintable (e : Config.OutOfRange)
  | failed (e : NodeError)
  | start (c : Config)
deriving DecidableEq, Repr

namespace Outcome

def exitCode : Outcome → UInt8
  | stopped .usage => 2
  | stopped .help => 0
  | printed _ => 0
  | unprintable _ => 101
  | failed _ => 1
  | start _ => 0

/-- The lines of a cause: a head before the first, blanks before the others. -/
def indented (head blanks cause : String) : String :=
  "\n" ++ head ++ ("\n" ++ blanks).intercalate (cause.splitOn "\n")

/-- The causes of a failure, numbered if there are several. -/
def showCauses : List String → String
  | [] => ""
  | [cause] => "\n\nCaused by:" ++ indented "    " "    " cause
  | causes =>
    "\n\nCaused by:" ++ String.join (causes.zipIdx.map (fun c =>
      indented ("    " ++ toString c.2 ++ ": ") "       " c.1))

def complaint (e : NodeError) : String := "Error: " ++ e.message ++ showCauses e.causes ++ "\n"

end Outcome

def loadConfig (s : Settings) (files : String → Config.FileContents) : Except NodeError Config := do
  let base ← match s.text? .file with
    | some path => (Config.ofFile (files path)).mapError .config
    | none => .ok {}
  let c := s.override base
  c.validate.mapError .config
  return c

def carryOut (s : Settings) (command : Command) (files : String → Config.FileContents) : Outcome :=
  match loadConfig s files, command with
  | .error e, _ => .failed e
  | .ok c, .config =>
    match c.toToml with
    | .ok text => .printed text
    | .error e => .unprintable e
  | .ok c, .run =>
    match LogFormat.ofName c.logFormat with
    | .error e => .failed (.config e)
    | .ok _ =>
      match Node.checkStart c with
      | .error e => .failed e
      | .ok _ => .start c

def configPath? (arguments : List String) (environment : String → Option String) : Option String :=
  match readArguments [] arguments with
  | .error _ => none
  | .ok (s, _) => (s.addEnvironment environment).toOption.bind (fun s => s.text? .file)

def outcome (arguments : List String) (environment : String → Option String)
    (files : String → Config.FileContents) : Outcome :=
  match readArguments [] arguments with
  | .error s => .stopped s
  | .ok (s, command) =>
    match s.addEnvironment environment with
    | .error s => .stopped s
    | .ok s => carryOut s command files

end CommandLine

end GossipNode
