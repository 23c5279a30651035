import GossipNode.Random.ChaCha
import GossipNode.Number.Binary64
/-!
# Sources of randomness

A node asks its source for 64-bit words, and derives fractions, coin flips and picks from them.
A scripted source cycles through given words and takes its first coin flips from a script, so that
a run of a node is a function of its inputs.  The ambient source stands for a generator seeded by
the operating system: only answers that no seed can change are meaningful.
-/
namespace GossipNode

/-- A script of words, cycled through, and of coin flips, used up first. -/
structure RandomScript where
  words : List UInt64
  words_ne_nil : words ≠ []
  used : Nat
  flips : List Bool

inductive RandomSource where
  | seeded (stream : Random.ChaCha.Stream)
  | scripted (script : RandomScript)
  | ambient

namespace RandomSource

def ofSeed (seed : UInt64) : RandomSource := .seeded (.ofSeed seed)

/-- Why a script cannot be used. -/
def emptyScriptMessage : String := "NullRandom needs at least one value"

def ofScript? (words : List UInt64) (flips : List Bool) : Option RandomSource :=
  if h : words ≠ [] then some (.scripted ⟨words, h, 0, flips⟩) else none

def next : RandomSource → UInt64 × RandomSource
  | .seeded s => let (u, s') := s.next; (u, .seeded s')
  | .scripted s =>
    (s.words.get ⟨s.used % s.words.length, Nat.mod_lt _ (List.length_pos_iff.2 s.words_ne_nil)⟩,
      .scripted { s with used := s.used + 1 })
  | .ambient => (0, .ambient)

/-- A fraction below one. -/
def nextFraction (r : RandomSource) : Binary64 × RandomSource :=
  let (u, r') := r.next
  (.ofRandomWord u, r')

/-- True with the given probability. -/
def flip (r : RandomSource) (probability : Binary64) : Bool × RandomSource :=
  let byWord := let (u, r') := r.next; (probability.isAboveRandomWord u, r')
  match r with
  | .scripted s =>
    match s.flips with
    | b :: rest => (b, .scripted { s with flips := rest })
    | [] => byWord
  | _ => byWord

/-- A position in a list of that length; none, and no word used, when it is empty. -/
def pick (r : RandomSource) (length : Nat) : Option Nat × RandomSource :=
  if length = 0 then (none, r)
  else
    let (u, r') := r.next
    (some (u.toNat % length), r')

def flipsLeft : RandomSource → Nat
  | .scripted s => s.flips.length
  | _ => 0

end RandomSource

end GossipNode
