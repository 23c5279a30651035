import GossipNode.Bytes
/-!
# A reproducible stream of random words

ChaCha with twelve rounds, a 64-bit block counter and a zero nonce.  A 64-bit seed is stretched to
the 256-bit key by a linear congruential generator whose outputs are permuted before use.
-/
namespace GossipNode.Random.ChaCha

def rotateLeft (w : UInt32) (n : UInt32) : UInt32 := (w <<< n) ||| (w >>> (32 - n))

/-- Sixteen words, as four rows of four. -/
abbrev Block := Vector UInt32 16

/-- Mix four words of the block. -/
def quarterRound (b : Block) (i j k l : Fin 16) : Block :=
  let a := b[i] + b[j]
  let d := rotateLeft (b[l] ^^^ a) 16
  let c := b[k] + d
  let e := rotateLeft (b[j] ^^^ c) 12
  let a' := a + e
  let d' := rotateLeft (d ^^^ a') 8
  let c' := c + d'
  let e' := rotateLeft (e ^^^ c') 7
  (((b.set i a').set j e').set k c').set l d'

/-- A round of columns and a round of diagonals. -/
def doubleRound (b : Block) : Block :=
  let b := quarterRound b 0 4 8 12
  let b := quarterRound b 1 5 9 13
  let b := quarterRound b 2 6 10 14
  let b := quarterRound b 3 7 11 15
  let b := quarterRound b 0 5 10 15
  let b := quarterRound b 1 6 11 12
  let b := quarterRound b 2 7 8 13
  quarterRound b 3 4 9 14

/-- The key, as eight words. -/
abbrev Key := Vector UInt32 8

def initialBlock (key : Key) (counter : UInt64) : Block :=
  #v[0x61707865, 0x3320646e, 0x79622d32, 0x6b206574,
     key[0], key[1], key[2], key[3], key[4], key[5], key[6], key[7],
     counter.toUInt32, (counter >>> 32).toUInt32, 0, 0]

/-- The sixteen stream words of one counter value. -/
def streamBlock (key : Key) (counter : UInt64) : Block :=
  let start := initialBlock key counter
  Vector.zipWith (· + ·) (Nat.repeat doubleRound 6 start) start

/-- The next state of the seed's generator. -/
def seedStep (s : UInt64) : UInt64 := s * 6364136223846793005 + 11634580027462260723

/-- A generator state as a key word. -/
def seedWord (s : UInt64) : UInt32 :=
  let x := (((s >>> 18) ^^^ s) >>> 27).toUInt32
  let r := (s >>> 59).toUInt32
  if r = 0 then x else (x >>> r) ||| (x <<< (32 - r))

def keyOfSeed (seed : UInt64) : Key :=
  let state (i : Nat) : UInt64 := Nat.repeat seedStep (i + 1) seed
  Vector.ofFn (fun i : Fin 8 => seedWord (state i))

/-- A position in the stream of a key, counted in 64-bit values. -/
structure Stream where
  key : Key
  position : Nat

def Stream.ofSeed (seed : UInt64) : Stream := ⟨keyOfSeed seed, 0⟩

/-- The next 64-bit value: two stream words, the low one first. -/
def Stream.next (s : Stream) : UInt64 × Stream :=
  let block := streamBlock s.key (UInt64.ofNat (s.position / 8))
  let i := 2 * (s.position % 8)
  let low := block.toArray.getD i 0
  let high := block.toArray.getD (i + 1) 0
  ((high.toUInt64 <<< 32) ||| low.toUInt64, { s with position := s.position + 1 })

end GossipNode.Random.ChaCha
