import GossipNode.Number.Shortest
import GossipNode.Toml.Text
import GossipNode.Toml.Item
/-!
# Writing TOML

One line per key.  A list of at most one item stands on its key's line; a longer one has each item on a
line of its own.
-/
namespace GossipNode.Toml.Writer

open Number

/-- Numbers keep a point: a whole number is written with `.0`. -/
def floatFormat : FloatFormat := ⟨".0", "nan", false⟩

def string (s : String) : String := String.ofList (Text.write s.toList)

def boolean (b : Bool) : String := if b then "true" else "false"

/-- An integer, which has to be one of 64 bits with a sign. -/
def integer? (n : Nat) : Option String := if n ≤ maxInteger then some (toString n) else none

def strings : List String → String
  | [] => "[]"
  | [s] => "[" ++ string s ++ "]"
  | ss => "[\n" ++ String.join (ss.map (fun s => "    " ++ string s ++ ",\n")) ++ "]"

def line (key value : String) : String := key ++ " = " ++ value ++ "\n"

end GossipNode.Toml.Writer
