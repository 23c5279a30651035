import GossipNode.SortedMap
/-!
# Names and addresses

A node gossips under a name and is reached at an address.  Both are compared as texts, by their
UTF-8 octets; that order is the order of code points, which is core's order of `String`.
-/
namespace GossipNode

theorem textOrder : Std.TransCmp (compare : String → String → Ordering) := inferInstance

theorem textIdentity : Std.LawfulEqCmp (compare : String → String → Ordering) := inferInstance

/-- The name a node gossips under. -/
structure Origin where
  name : String
deriving DecidableEq, Repr, Inhabited

namespace Origin

instance : Ord Origin := ⟨fun a b => compare a.name b.name⟩

instance : Std.TransOrd Origin where
  eq_swap := textOrder.eq_swap
  isLE_trans := textOrder.isLE_trans

instance : Std.LawfulEqOrd Origin where
  compare_self := textIdentity.compare_self
  eq_of_compare {a b} h := by
    have : a.name = b.name := textIdentity.eq_of_compare h
    cases a; cases b; simp_all

/-- The name between brackets, as diagnostics show it. -/
def describe (o : Origin) : String := "Origin(" ++ o.name ++ ")"

def ofName? (s : String) : Option Origin := if s = "" then none else some ⟨s⟩

def emptyNameMessage : String := "origin name must not be empty"

end Origin

/-- The address of a peer, an opaque text: two addresses are the same peer when they are the same
text. -/
structure PeerAddress where
  text : String
deriving DecidableEq, Repr, Inhabited

namespace PeerAddress

instance : Ord PeerAddress := ⟨fun a b => compare a.text b.text⟩

instance : Std.TransOrd PeerAddress where
  eq_swap := textOrder.eq_swap
  isLE_trans := textOrder.isLE_trans

instance : Std.LawfulEqOrd PeerAddress where
  compare_self := textIdentity.compare_self
  eq_of_compare {a b} h := by
    have : a.text = b.text := textIdentity.eq_of_compare h
    cases a; cases b; simp_all

def describe (a : PeerAddress) : String := "PeerAddress(" ++ a.text ++ ")"

/-- What is said of an address that no socket has. -/
def invalidMessage (a : PeerAddress) : String := "invalid peer address: " ++ a.text

end PeerAddress

/-- Number of a record among those of its origin.  The first has number 1. -/
abbrev SequenceId := UInt32

/-- A sum of machine words that does not fit the word. -/
structure Overflow where
deriving DecidableEq, Repr

def Overflow.message (_ : Overflow) : String := "attempt to add with overflow"

/-- The next number, if the word holds it. -/
def succ? (n : UInt32) : Except Overflow UInt32 :=
  if n.toNat + 1 < UInt32.size then .ok (n + 1) else .error ⟨⟩

theorem toNat_add_one {n : UInt32} (room : n.toNat + 1 < UInt32.size) : (n + 1).toNat = n.toNat + 1 := by
  rw [UInt32.toNat_add]
  exact Nat.mod_eq_of_lt room

theorem toNat_max (m n : UInt32) : (max m n).toNat = max m.toNat n.toNat := by
  show (if m ≤ n then n else m).toNat = _
  rw [apply_ite UInt32.toNat, Nat.max_def]
  simp only [UInt32.le_iff_toNat_le]

end GossipNode
