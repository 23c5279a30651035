import GossipNode.Identity
import GossipNode.Number.Digits
/-!
# Socket addresses and their text

`a.b.c.d:port`, `[groups]:port` or `[groups%scope]:port`.  Octets are decimal without leading
zeros; groups are one to four hexadecimal digits; the last two groups may be written as a dotted
quad; one `::` stands for one or more zero groups.  Ports and scopes are decimal and may have
leading zeros.

Writing chooses one text of the many: the longest run of two or more zero groups, the first of
equals, becomes `::`; an address in the block `::ffff:0:0/96` ends in a dotted quad; a scope of zero
is left out.
-/
namespace GossipNode

structure Ipv4 where
  a : UInt8
  b : UInt8
  c : UInt8
  d : UInt8
deriving DecidableEq, Repr

/-- Eight groups of sixteen bits. -/
abbrev Ipv6 := Vector UInt16 8

inductive SocketAddress where
  | v4 (ip : Ipv4) (port : UInt16)
  | v6 (ip : Ipv6) (scope : UInt32) (port : UInt16)
deriving DecidableEq

namespace SocketAddress

open Number

def isV6 : SocketAddress → Bool
  | .v4 .. => false
  | .v6 .. => true

def port : SocketAddress → UInt16
  | .v4 _ p => p
  | .v6 _ _ p => p

/-! ## Writing -/

def writeQuad (ip : Ipv4) : List Char :=
  numeral 10 ip.a.toNat ++ '.' :: numeral 10 ip.b.toNat ++ '.' :: numeral 10 ip.c.toNat ++
    '.' :: numeral 10 ip.d.toNat

/-- Groups in hexadecimal with colons between them. -/
def writeGroups (gs : List UInt16) : List Char :=
  [':'].intercalate (gs.map (fun g => numeral 16 g.toNat))

/-- A run of zero groups: where it starts and how long it is. -/
structure ZeroRun where
  start : Nat
  length : Nat
deriving DecidableEq, Repr

/-- The longest run of zero groups, the first of equals.  `open_` is the run that ends right before
position `at_`. -/
def longestRun (at_ : Nat) (open_ best : ZeroRun) : List UInt16 → ZeroRun
  | [] => best
  | g :: r =>
    if g = 0 then
      let run : ZeroRun := if open_.length = 0 then ⟨at_, 1⟩ else ⟨open_.start, open_.length + 1⟩
      longestRun (at_ + 1) run (if run.length > best.length then run else best) r
    else longestRun (at_ + 1) ⟨0, 0⟩ best r

/-- The dotted quad at the end of an address in the block of mapped addresses. -/
def mappedQuad? (ip : Ipv6) : Option Ipv4 :=
  match ip.toList.drop 6 with
  | [h, l] =>
    if ip.toList.take 6 = [0, 0, 0, 0, 0, 0xFFFF] then
      some ⟨(h >>> 8).toUInt8, h.toUInt8, (l >>> 8).toUInt8, l.toUInt8⟩
    else none
  | _ => none

def writeIpv6 (ip : Ipv6) : List Char :=
  match mappedQuad? ip with
  | some quad => "::ffff:".toList ++ writeQuad quad
  | none =>
    let gs := ip.toList
    let run := longestRun 0 ⟨0, 0⟩ ⟨0, 0⟩ gs
    if run.length > 1 then
      writeGroups (gs.take run.start) ++ "::".toList ++ writeGroups (gs.drop (run.start + run.length))
    else writeGroups gs

def write : SocketAddress → List Char
  | .v4 ip port => writeQuad ip ++ ':' :: numeral 10 port.toNat
  | .v6 ip scope port =>
    '[' :: writeIpv6 ip ++ (if scope = 0 then [] else '%' :: numeral 10 scope.toNat) ++
      ']' :: ':' :: numeral 10 port.toNat

def toText (a : SocketAddress) : String := String.ofList a.write

/-! ## Reading

Each reader takes the characters that are left and gives what it read with those it left over. -/

/-- What a numeral may look like. -/
structure NumeralForm where
  radix : Nat
  maxDigits : Option Nat
  leadingZeros : Bool
  bound : Nat

def octetForm : NumeralForm := ⟨10, some 3, false, UInt8.size⟩

def groupForm : NumeralForm := ⟨16, some 4, true, UInt16.size⟩

def portForm : NumeralForm := ⟨10, none, true, UInt16.size⟩

def scopeForm : NumeralForm := ⟨10, none, true, UInt32.size⟩

/-- The longest numeral at the head of the characters, if it has the form. -/
def readNumeral (f : NumeralForm) (cs : List Char) : Option (Nat × List Char) :=
  let ds := cs.takeWhile (isDigit f.radix)
  let n := ofDigits f.radix ds
  if ds.isEmpty || (f.maxDigits.any (· < ds.length)) ||
      (!f.leadingZeros && ds.head? = some '0' && ds.length > 1) || f.bound ≤ n then none
  else some (n, cs.dropWhile (isDigit f.radix))

def readChar (c : Char) : List Char → Option (List Char)
  | c' :: r => if c' = c then some r else none
  | [] => none

def readOctet (cs : List Char) : Option (UInt8 × List Char) :=
  (readNumeral octetForm cs).map (fun (n, r) => (UInt8.ofNat n, r))

def readQuad (cs : List Char) : Option (Ipv4 × List Char) := do
  let (a, cs) ← readOctet cs
  let (b, cs) ← readChar '.' cs >>= readOctet
  let (c, cs) ← readChar '.' cs >>= readOctet
  let (d, cs) ← readChar '.' cs >>= readOctet
  return (⟨a, b, c, d⟩, cs)

def quadGroups (q : Ipv4) : List UInt16 :=
  [(q.a.toUInt16 <<< 8) ||| q.b.toUInt16, (q.c.toUInt16 <<< 8) ||| q.d.toUInt16]

/-- Up to `room` groups with colons between them, `first` telling whether the next is the first.  A
dotted quad stands for two groups and ends the list; the flag tells whether one was read. -/
def readGroups (first : Bool) : Nat → List Char → List UInt16 × Bool × List Char
  | 0, cs => ([], false, cs)
  | room + 1, cs =>
    let next := if first then some cs else readChar ':' cs
    match (if room = 0 then none else next >>= readQuad) with
    | some (q, r) => (quadGroups q, true, r)
    | none =>
      match next >>= readNumeral groupForm with
      | some (g, r) =>
        let (gs, quad, r') := readGroups false room r
        (UInt16.ofNat g :: gs, quad, r')
      | none => ([], false, cs)

/-- Head groups, zeros in the middle, tail groups: eight in all. -/
def spread (head tail : List UInt16) : Ipv6 :=
  let all := head ++ List.replicate (8 - head.length - tail.length) 0 ++ tail
  Vector.ofFn (fun i : Fin 8 => all.getD i 0)

def readIpv6 (cs : List Char) : Option (Ipv6 × List Char) :=
  let (head, quad, r) := readGroups true 8 cs
  if head.length = 8 then some (spread head [], r)
  else if quad then none
  else do
    let r ← readChar ':' r >>= readChar ':'
    let (tail, _, r) := readGroups true (7 - head.length) r
    return (spread head tail, r)

/-- A scope is zero when none is written. -/
def readScope (cs : List Char) : UInt32 × List Char :=
  match readChar '%' cs >>= readNumeral scopeForm with
  | some (n, r) => (UInt32.ofNat n, r)
  | none => (0, cs)

def readPort (cs : List Char) : Option (UInt16 × List Char) :=
  (readChar ':' cs >>= readNumeral portForm).map (fun (n, r) => (UInt16.ofNat n, r))

def readV4 (cs : List Char) : Option (SocketAddress × List Char) := do
  let (ip, cs) ← readQuad cs
  let (port, cs) ← readPort cs
  return (.v4 ip port, cs)

def readV6 (cs : List Char) : Option (SocketAddress × List Char) := do
  let cs ← readChar '[' cs
  let (ip, cs) ← readIpv6 cs
  let (scope, cs) := readScope cs
  let cs ← readChar ']' cs
  let (port, cs) ← readPort cs
  return (.v6 ip scope port, cs)

/-- The address that the whole of the characters is. -/
def read? (cs : List Char) : Option SocketAddress :=
  match readV4 cs <|> readV6 cs with
  | some (a, []) => some a
  | _ => none

def ofText? (s : String) : Option SocketAddress := read? s.toList

end SocketAddress

namespace PeerAddress

/-- The address under which the peer at a socket is known. -/
def ofSocket (a : SocketAddress) : PeerAddress := ⟨a.toText⟩

/-- The socket that an address names.  An address that names none is what the refusal is about. -/
def socket (p : PeerAddress) : Except PeerAddress SocketAddress :=
  match SocketAddress.ofText? p.text with
  | some a => .ok a
  | none => .error p

end PeerAddress

end GossipNode
