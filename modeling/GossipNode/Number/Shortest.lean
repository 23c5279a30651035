import GossipNode.Number.Binary64
/-!
# The fewest digits that read back

The decimal text of a double-precision number has as few significant digits as any decimal that
rounds to it, and of those with that many digits it is the nearest.  All reals between the two
midpoints to the neighbouring numbers round to it, the midpoints themselves iff its mantissa is
even.  For one digit, two digits and so on the two neighbours of the number on that decimal grid
are tried in exact arithmetic.
-/
namespace GossipNode.Number

/-- The decimal `0.d₁d₂… · 10 ^ point` with `digits = d₁d₂…`. -/
structure Decimal where
  digits : List Char
  point : Int
deriving DecidableEq, Repr

/-- The reals that round to a number, all scaled by one denominator: the number itself, the ends,
and whether the ends belong. -/
structure Interval where
  value : Nat
  low : Nat
  high : Nat
  closed : Bool
  unit : Nat

def Interval.contains (i : Interval) (x : Nat) : Bool :=
  (i.low < x && x < i.high) || (i.closed && (x == i.low || x == i.high))

/-- The interval of a positive finite number, with `unit` for one. -/
def intervalOf (x : Binary64) : Interval :=
  let m := x.mantissa
  -- the gap below a power of two is half the gap above it
  let narrow := x.fraction == 0 && x.exponentField > 1
  let s := Nat.pow 2 x.lift
  ⟨4 * m * s, (4 * m - if narrow then 1 else 2) * s, (4 * m + 2) * s, m % 2 == 0, Nat.pow 2 1076⟩

/-- Number of decimal digits before the point: `10 ^ (p - 1) ≤ value / unit < 10 ^ p`, raised by 400. -/
def pointOf (fuel : Nat) (p : Nat) (value unit : Nat) : Nat :=
  match fuel with
  | 0 => p
  | fuel + 1 => if value * Nat.pow 10 400 < unit * Nat.pow 10 p then p else pointOf fuel (p + 1) value unit

/-- The grid point of `n` digits that is in the interval and nearest to the value. -/
def onGrid (i : Interval) (p n : Nat) : Option Nat :=
  -- both sides are multiplied by 10 ^ 420; one grid step is 10 ^ (p - 400 - n)
  let step := i.unit * Nat.pow 10 (p + 20 - n)
  let scale := Nat.pow 10 420
  let value := i.value * scale
  let scaled : Interval := { i with value := value, low := i.low * scale, high := i.high * scale }
  let d := value / step
  let below := scaled.contains (d * step)
  let above := scaled.contains ((d + 1) * step)
  if below && above then
    if 2 * (value - d * step) ≤ step then some d else some (d + 1)
  else if below then some d
  else if above then some (d + 1)
  else none

def firstGrid (i : Interval) (p : Nat) (fuel n : Nat) : Nat × Nat :=
  match fuel with
  | 0 => (i.value * Nat.pow 10 420 / (i.unit * Nat.pow 10 (p + 20 - n)), n)
  | fuel + 1 =>
    match onGrid i p n with
    | some d => (d, n)
    | none => firstGrid i p fuel (n + 1)

def shortest (x : Binary64) : Decimal :=
  let i := intervalOf x
  let p := pointOf 720 76 i.value i.unit
  let (d, n) := firstGrid i p 16 1
  let ds := Nat.toDigits 10 d
  -- rounding up may have carried into one more digit
  let point : Int := (p : Int) - 400 + ((ds.length : Int) - n)
  ⟨(ds.reverse.dropWhile (· == '0')).reverse, point⟩

/-- Digits around a point, without an exponent: the whole part and the fraction. -/
def positional (d : Decimal) : List Char × List Char :=
  if d.point ≤ 0 then (['0'], List.replicate (-d.point).toNat '0' ++ d.digits)
  else
    let p := d.point.toNat
    (d.digits.take p ++ List.replicate (p - d.digits.length) '0', d.digits.drop p)

/-- How a format writes numbers: what stands for an absent fraction, and the words for what is
not finite. -/
structure FloatFormat where
  wholeSuffix : String
  nan : String
  signsNaN : Bool

/-- The text of a number: positional, with the fewest digits that read back. -/
def FloatFormat.render (f : FloatFormat) (x : Binary64) : String :=
  let sign := if x.isNegative then "-" else ""
  if x.isNaN then (if f.signsNaN then sign else "") ++ f.nan
  else if x.isInfinite then sign ++ "inf"
  else if x.mantissa = 0 then sign ++ "0" ++ f.wholeSuffix
  else
    let (whole, fraction) := positional (shortest x)
    sign ++ String.ofList whole ++
      (if fraction.isEmpty then f.wholeSuffix else "." ++ String.ofList fraction)

end GossipNode.Number
