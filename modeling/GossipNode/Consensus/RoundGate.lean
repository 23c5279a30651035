import GossipNode.Identity
/-!
# Holding things back until their round

A gate lets through what belongs to an open round and holds the rest, to be released in order of rounds
as they open.  It never closes a round again.
-/
namespace GossipNode

structure RoundGate (α : Type) where
  current : UInt32
  held : SortedMap UInt32 (List α)

namespace RoundGate

variable {α : Type}

def new : RoundGate α := ⟨0, ∅⟩

instance : Inhabited (RoundGate α) := ⟨new⟩

/-- Give the item back if its round is open, else hold it. -/
def offer (g : RoundGate α) (round : UInt32) (item : α) : Option α × RoundGate α :=
  if round ≤ g.current then (some item, g)
  else (none, { g with held := g.held.alter round (fun items => items.getD [] ++ [item]) })

/-- Open every round up to `round`, and release what they held, the oldest round first. -/
def advanceTo (g : RoundGate α) (round : UInt32) : List α × RoundGate α :=
  if round ≤ g.current then ([], g)
  else
    ((g.held.filter (fun r _ => r ≤ round)).values.flatten,
      ⟨round, g.held.filter (fun r _ => round < r)⟩)

/-- As `advanceTo`; fails when it would open the last round a word can hold. -/
def advanceTo? (g : RoundGate α) (round : UInt32) : Except Overflow (List α × RoundGate α) :=
  if round ≤ g.current then .ok ([], g)
  else (succ? round).map (fun _ => g.advanceTo round)

def heldCount (g : RoundGate α) : Nat := g.held.values.flatten.length

end RoundGate

end GossipNode
