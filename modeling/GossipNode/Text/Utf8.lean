import GossipNode.Bytes
/-!
# Reading text from octets

Whether octets are well-formed UTF-8, and which text they are, is core's own notion
(`String` is a byte array with a proof).  What this module adds is the report on ill-formed
octets: where the longest well-formed beginning stops, and how many octets there can be
skipped as one ill-formed sequence, or that the octets end inside a sequence.
-/
namespace GossipNode.Text

/-- Why octets are not a text. -/
structure Utf8Fault where
  /-- Length of the longest well-formed beginning. -/
  validUpTo : Nat
  /-- Octets to skip as one ill-formed sequence; absent when the octets end too early. -/
  skip : Option Nat
deriving DecidableEq, Repr

/-- How one sequence at the head of the octets reads: its length when it is well formed. -/
inductive Sequence where
  | whole (length : Nat)
  | bad (skip : Nat)
  | short
deriving DecidableEq, Repr

def isContinuation (b : UInt8) : Bool := 0x80 ≤ b && b ≤ 0xBF

/-- May this be the second octet of a sequence whose first octet is `lead`?  Overlong forms,
surrogates and scalars past the last one are refused here. -/
def isSecond (lead b : UInt8) : Bool :=
  if lead = 0xE0 then 0xA0 ≤ b && b ≤ 0xBF
  else if lead = 0xED then 0x80 ≤ b && b ≤ 0x9F
  else if lead = 0xF0 then 0x90 ≤ b && b ≤ 0xBF
  else if lead = 0xF4 then 0x80 ≤ b && b ≤ 0x8F
  else isContinuation b

/-- Number of octets that a lead octet announces. -/
def announced (lead : UInt8) : Option Nat :=
  if lead < 0x80 then some 1
  else if 0xC2 ≤ lead && lead ≤ 0xDF then some 2
  else if 0xE0 ≤ lead && lead ≤ 0xEF then some 3
  else if 0xF0 ≤ lead && lead ≤ 0xF4 then some 4
  else none

/-- Check the octets after the second: `left` more are announced, `read` have been read. -/
def checkTail : Nat → Nat → Bytes → Sequence
  | 0, read, _ => .whole read
  | _ + 1, _, [] => .short
  | left + 1, read, b :: r => if isContinuation b then checkTail left (read + 1) r else .bad read

/-- The sequence at the head of non-empty octets. -/
def headSequence (lead : UInt8) (r : Bytes) : Sequence :=
  match announced lead with
  | none => .bad 1
  | some 1 => .whole 1
  | some n =>
    match r with
    | [] => .short
    | b :: r' => if isSecond lead b then checkTail (n - 2) 2 r' else .bad 1

/-- The first fault of the octets from position `at_` on. -/
def faultFrom (fuel at_ : Nat) (bs : Bytes) : Option Utf8Fault :=
  match fuel, bs with
  | 0, _ => none
  | _, [] => none
  | fuel + 1, b :: r =>
    match headSequence b r with
    | .whole n => faultFrom fuel (at_ + n) ((b :: r).drop n)
    | .bad n => some ⟨at_, some n⟩
    | .short => some ⟨at_, none⟩

/-- The first fault of the octets, if they are ill-formed. -/
def utf8Fault (bs : Bytes) : Option Utf8Fault := faultFrom bs.length 0 bs

def ofUtf8? (bs : Bytes) : Option String := String.fromUTF8? ⟨bs.toArray⟩

namespace Utf8Fault

def message (f : Utf8Fault) : String :=
  match f.skip with
  | some n => "invalid utf-8 sequence of " ++ toString n ++ " bytes from index " ++ toString f.validUpTo
  | none => "incomplete utf-8 byte sequence from index " ++ toString f.validUpTo

end Utf8Fault

end GossipNode.Text
