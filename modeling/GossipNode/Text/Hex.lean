import GossipNode.Bytes
import GossipNode.Text.Quoted
/-!
# Hexadecimal text

Octets are written as two lowercase digits each.  Reading takes either letter case and reports
the first fault: an odd number of octets of text before anything else, then the first octet that
is not a digit.
-/
namespace GossipNode.Text.Hex

/-- Why a text is not hexadecimal. -/
inductive Fault where
  | oddLength
  /-- The octet at this position of the text is not a digit. -/
  | notADigit (octet : UInt8) (position : Nat)
deriving DecidableEq, Repr

def Fault.message : Fault → String
  | oddLength => "Odd number of digits"
  | notADigit b i =>
    "Invalid character " ++ Quoted.char (Char.ofNat b.toNat) ++ " at position " ++ toString i

def digit (n : Nat) : Char := Nat.digitChar n

def encodeChars : Bytes → List Char
  | [] => []
  | b :: r => digit (b.toNat / 16) :: digit (b.toNat % 16) :: encodeChars r

def encode (bs : Bytes) : String := String.ofList (encodeChars bs)

def value? (b : UInt8) : Option UInt8 :=
  if 0x30 ≤ b && b ≤ 0x39 then some (b - 0x30)
  else if 0x61 ≤ b && b ≤ 0x66 then some (b - 0x61 + 10)
  else if 0x41 ≤ b && b ≤ 0x46 then some (b - 0x41 + 10)
  else none

/-- Read pairs of digits; `position` is that of the head. -/
def decodeFrom (position : Nat) : Bytes → Except Fault Bytes
  | [] => .ok []
  | [_] => .error .oddLength
  | a :: b :: r =>
    match value? a, value? b with
    | none, _ => .error (.notADigit a position)
    | some _, none => .error (.notADigit b (position + 1))
    | some x, some y => (decodeFrom (position + 2) r).map ((x * 16 + y) :: ·)

def decode (s : String) : Except Fault Bytes :=
  let bs := utf8 s
  if bs.length % 2 = 1 then .error .oddLength else decodeFrom 0 bs

end GossipNode.Text.Hex
