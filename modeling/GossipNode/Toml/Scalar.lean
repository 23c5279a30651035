import GossipNode.Number.Digits
import GossipNode.Toml.Item
/-!
# TOML numbers, dates and times

Readers at the head of the characters, each giving what it read with the rest.  Underscores may stand
between digits.
-/
namespace GossipNode.Toml.Scalar

open Number

/-- Digits of a radix, single underscores between them. -/
def digits (radix : Nat) : List Char → List Char × List Char
  | [] => ([], [])
  | '_' :: c :: r =>
    if isDigit radix c then let (ds, rest) := digits radix r; (c :: ds, rest) else ([], '_' :: c :: r)
  | c :: r =>
    if isDigit radix c then let (ds, rest) := digits radix r; (c :: ds, rest) else ([], c :: r)

/-- As `digits`, starting with a digit. -/
def digits1 (radix : Nat) : List Char → Option (List Char × List Char)
  | c :: r =>
    if isDigit radix c then let (ds, rest) := digits radix r; some (c :: ds, rest) else none
  | [] => none

/-- A sign, plus when there is none. -/
def sign : List Char → Bool × List Char
  | '-' :: r => (true, r)
  | '+' :: r => (false, r)
  | r => (false, r)

/-- Digits without a leading zero. -/
def wholeDigits : List Char → Option (List Char × List Char)
  | '0' :: r => some (['0'], r)
  | r => digits1 10 r

def fits (n : Int) : Option Int := if -(maxInteger : Int) - 1 ≤ n ∧ n ≤ maxInteger then some n else none

def integer (cs : List Char) : Option (Item × List Char) :=
  let radixed (radix : Nat) (r : List Char) : Option (Item × List Char) := do
    let (ds, rest) ← digits1 radix r
    let n ← fits (ofDigits radix ds)
    return (.integer n, rest)
  match cs with
  | '0' :: 'x' :: r => radixed 16 r
  | '0' :: 'o' :: r => radixed 8 r
  | '0' :: 'b' :: r => radixed 2 r
  | _ => do
    let (negative, r) := sign cs
    let (ds, rest) ← wholeDigits r
    let n : Int := ofDigits 10 ds
    let n ← fits (if negative then -n else n)
    return (.integer n, rest)

/-- The digits after a point. -/
def fraction : List Char → Option (List Char × List Char)
  | '.' :: r => digits1 10 r
  | _ => none

/-- A power of ten. -/
def exponent : List Char → Option (Int × List Char)
  | c :: r =>
    if c = 'e' || c = 'E' then do
      let (negative, r) := sign r
      let (ds, rest) ← digits1 10 r
      let n : Int := ofDigits 10 ds
      return (if negative then -n else n, rest)
    else none
  | [] => none

/-- A number with a point or a power of ten; one too large to be finite is refused. -/
def decimal (cs : List Char) : Option (Item × List Char) := do
  let (negative, r) := sign cs
  let (whole, r) ← wholeDigits r
  let (places, power, r) ←
    match fraction r with
    | some (ds, r) =>
      match exponent r with
      | some (e, r) => some (ds, e, r)
      | none => some (ds, 0, r)
    | none => (exponent r).map (fun (e, r) => ([], e, r))
  let x := Binary64.ofDecimal (ofDigits 10 (whole ++ places)) (power - places.length)
  if x.isInfinite && !negative then none else return (.float (if negative then x.negate else x), r)

/-- Infinity, or what is not a number. -/
def special (cs : List Char) : Option (Item × List Char) :=
  let (negative, r) := sign cs
  let signed (x : Binary64) : Item := .float (if negative then x.negate else x)
  match r with
  | 'i' :: 'n' :: 'f' :: r => some (signed .infinity, r)
  | 'n' :: 'a' :: 'n' :: r => some (signed .nan, r)
  | _ => none

/-- A number of exactly `n` digits. -/
def fixed (n : Nat) (cs : List Char) : Option (Nat × List Char) :=
  let ds := cs.take n
  if ds.length = n && ds.all (isDigit 10) then some (ofDigits 10 ds, cs.drop n) else none

def char (c : Char) : List Char → Option (List Char)
  | c' :: r => if c' = c then some r else none
  | [] => none

def isLeap (y : Nat) : Bool := y % 4 == 0 && (y % 100 != 0 || y % 400 == 0)

def daysIn (y m : Nat) : Nat :=
  if m = 2 then if isLeap y then 29 else 28
  else if m = 4 || m = 6 || m = 9 || m = 11 then 30 else 31

/-- A date: what follows it. -/
def date (cs : List Char) : Option (List Char) := do
  let (y, r) ← fixed 4 cs
  let (m, r) ← char '-' r >>= fixed 2
  let (d, r) ← char '-' r >>= fixed 2
  if 1 ≤ m && m ≤ 12 && 1 ≤ d && d ≤ daysIn y m then some r else none

/-- A time of day with seconds, and possibly a fraction: what follows it. -/
def time (cs : List Char) : Option (List Char) := do
  let (h, r) ← fixed 2 cs
  let (m, r) ← char ':' r >>= fixed 2
  let (s, r) ← char ':' r >>= fixed 2
  if h ≤ 23 && m ≤ 59 && s ≤ 60 then
    match r with
    | '.' :: c :: r => if isDigit 10 c then some (r.dropWhile (isDigit 10)) else none
    | _ => some r
  else none

/-- A distance from universal time: what follows it. -/
def offset : List Char → Option (List Char)
  | [] => none
  | c :: r =>
    if c = 'Z' || c = 'z' then some r
    else if c = '+' || c = '-' then do
      let (h, r) ← fixed 2 r
      let (m, r) ← char ':' r >>= fixed 2
      if h ≤ 23 && m ≤ 59 then some r else none
    else none

/-- A date, a time, or both with or without an offset. -/
def moment (cs : List Char) : Option (Item × List Char) :=
  match date cs with
  | some r =>
    let after : List Char :=
      match r with
      | c :: r' =>
        if c = 'T' || c = 't' || c = ' ' then
          match time r' with
          | some r'' => (offset r'').getD r''
          | none => r
        else r
      | [] => r
    some (.moment, after)
  | none => (time cs).map (fun r => (.moment, r))

def read (cs : List Char) : Option (Item × List Char) :=
  moment cs <|> decimal cs <|> special cs <|> integer cs

end GossipNode.Toml.Scalar
