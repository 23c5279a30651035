/-!
# Double-precision numbers, by their bits

A number is its IEEE-754 bits; the arithmetic a node needs of it (a comparison with a fraction,
rounding a quotient, a range check) is exact arithmetic on natural numbers.  A finite number is
`mantissa · 2 ^ exponent` with its sign apart.
-/
namespace GossipNode

structure Binary64 where
  bits : UInt64
deriving DecidableEq, Repr

namespace Binary64

def isNegative (x : Binary64) : Bool := x.bits >>> 63 != 0

def exponentField (x : Binary64) : Nat := ((x.bits >>> 52) &&& 0x7FF).toNat

def fraction (x : Binary64) : Nat := (x.bits &&& 0xFFFFFFFFFFFFF).toNat

def isNaN (x : Binary64) : Bool := x.exponentField == 0x7FF && x.fraction != 0

def isInfinite (x : Binary64) : Bool := x.exponentField == 0x7FF && x.fraction == 0

/-- The integer that a power of two scales to the magnitude of a finite number. -/
def mantissa (x : Binary64) : Nat :=
  if x.exponentField = 0 then x.fraction else Nat.pow 2 52 + x.fraction

/-- How far above `-1074` the scaling exponent is. -/
def lift (x : Binary64) : Nat := x.exponentField - 1

def infinity : Binary64 := ⟨0x7FF0000000000000⟩

def nan : Binary64 := ⟨0x7FF8000000000000⟩

def zero : Binary64 := ⟨0⟩

def one : Binary64 := ⟨0x3FF0000000000000⟩

def half : Binary64 := ⟨0x3FE0000000000000⟩

def negate (x : Binary64) : Binary64 := ⟨x.bits ^^^ 0x8000000000000000⟩

/-- Between zero and one, ends included.  A negative zero is zero; what is not a number is
outside. -/
def inUnitInterval (x : Binary64) : Bool :=
  x.bits ≤ one.bits || x.bits == 0x8000000000000000

/-- A quotient rounded to an integer, a half going to the even neighbour. -/
def roundQuotient (num den : Nat) : Nat :=
  let q := num / den
  let r := num % den
  if 2 * r < den then q
  else if 2 * r > den then q + 1
  else if q % 2 = 0 then q else q + 1

/-- The bits of the number nearest to the positive quotient `num / den`, a half going to the even
neighbour, and infinity when the quotient is too large. -/
def ofRatio (num den : Nat) : Binary64 :=
  if num = 0 then zero
  else
    -- `raised` is the scaling exponent plus 1127, so that it stays a natural number
    let raised := num.log2 + 1074 - den.log2
    let raised := if raised < 53 then 53 else raised
    let scaled (raised : Nat) : Nat × Nat :=
      if raised ≤ 1127 then (num * Nat.pow 2 (1127 - raised), den)
      else (num, den * Nat.pow 2 (raised - 1127))
    let (n, d) := scaled raised
    let raised := if n / d ≥ Nat.pow 2 53 then raised + 1 else raised
    let (n, d) := scaled raised
    let bits := (raised - 53) * Nat.pow 2 52 + roundQuotient n d
    if bits ≥ 0x7FF0000000000000 then infinity else ⟨UInt64.ofNat bits⟩

/-- The number nearest to `digits · 10 ^ exponent`. -/
def ofDecimal (digits : Nat) (exponent : Int) : Binary64 :=
  let size : Int := (Nat.toDigits 10 digits).length + exponent
  if digits = 0 || size < -330 then zero
  else if size > 310 then infinity
  else if exponent ≥ 0 then ofRatio (digits * Nat.pow 10 exponent.toNat) 1
  else ofRatio digits (Nat.pow 10 (-exponent).toNat)

/-- The fraction of `2 ^ 53` that the upper bits of a random word are. -/
def ofRandomWord (u : UInt64) : Binary64 := ofRatio (u >>> 11).toNat (Nat.pow 2 53)

/-- Is the fraction of `2 ^ 53` that the upper bits of a random word are below the number? -/
def isAboveRandomWord (x : Binary64) (u : UInt64) : Bool :=
  let n := (u >>> 11).toNat
  if x.isNaN || x.isNegative then false
  else if x.isInfinite then true
  else n * Nat.pow 2 (1074 - 53) < x.mantissa * Nat.pow 2 x.lift

end Binary64

end GossipNode
