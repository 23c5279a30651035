/-!
# Numerals

Reading and writing natural numbers in a radix up to sixteen.  Numerals are read in either letter
case and written in lowercase, without leading zeros.
-/
namespace GossipNode.Number

def hexValue? (c : Char) : Option Nat :=
  let n := c.toNat
  if 48 ≤ n && n ≤ 57 then some (n - 48)
  else if 97 ≤ n && n ≤ 102 then some (n - 87)
  else if 65 ≤ n && n ≤ 70 then some (n - 55)
  else none

def digitValue? (radix : Nat) (c : Char) : Option Nat := (hexValue? c).filter (· < radix)

def isDigit (radix : Nat) (c : Char) : Bool := (digitValue? radix c).isSome

def ofDigits (radix : Nat) (cs : List Char) : Nat :=
  cs.foldl (fun n c => n * radix + (digitValue? radix c).getD 0) 0

def numeral (radix n : Nat) : List Char := Nat.toDigits radix n

/-- A decimal numeral that is the whole text and stands for a number below a bound; a plus sign
may come first. -/
def parseBelow (bound : Nat) (s : String) : Option Nat :=
  let cs := s.toList
  let ds := if cs.head? = some '+' then cs.drop 1 else cs
  if ds.isEmpty || ds.any (fun c => !isDigit 10 c) then none
  else
    let n := ofDigits 10 ds
    if n < bound then some n else none

end GossipNode.Number
