import GossipNode.CommandLine
/-!
# The program

Reads arguments, environment and the configuration file, and does what the command line asks for.
-/
namespace GossipNode.Program

def readContents (path : String) : IO Config.FileContents := do
  try
    let octets ← IO.FS.readBinFile path
    return .octets octets.toList
  catch
    | .inappropriateType .. => return .directory
    | _ => return .missing

/-- The environment variables that stand for flags, as far as they are set. -/
def readEnvironment : IO (String → Option String) := do
  let found ← Flag.all.mapM fun f => do return (f.environmentKey, ← IO.getEnv f.environmentKey)
  return fun key => (found.find? (fun v => v.1 == key)).bind Prod.snd

def act (outcome : CommandLine.Outcome) : IO UInt32 := do
  match outcome with
  | .stopped .usage => IO.eprintln "usage: [FLAGS] run | config"
  | .stopped .help => IO.println "usage: [FLAGS] run | config"
  | .printed text => IO.print text
  | .unprintable e => IO.eprintln e.message
  | .failed e => IO.eprint (CommandLine.Outcome.complaint e)
  | .start c => IO.println ("node " ++ c.name ++ " is ready to gossip at " ++ c.gossipAddr)
  return outcome.exitCode.toUInt32

end GossipNode.Program

open GossipNode in
def main (arguments : List String) : IO UInt32 := do
  let environment ← Program.readEnvironment
  let contents ← match CommandLine.configPath? arguments environment with
    | some path => Program.readContents path
    | none => pure .missing
  Program.act (CommandLine.outcome arguments environment (fun _ => contents))
