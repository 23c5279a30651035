import GossipNode.Bytes
/-!
# SHA-256

The digest of octets as FIPS 180-4 defines it, over lists: the message is padded to whole
64-octet blocks, each block extends its sixteen words to sixty-four, and sixty-four rounds mix
them into eight chaining words.

Callers hash concatenations, so `sha256` takes one list; a proof about block hashes needs no more
of it than that it is a function from octets to `Word256`.
-/
namespace GossipNode.Hash

def rotateRight (w : UInt32) (n : UInt32) : UInt32 := (w >>> n) ||| (w <<< (32 - n))

structure Chaining where
  a : UInt32
  b : UInt32
  c : UInt32
  d : UInt32
  e : UInt32
  f : UInt32
  g : UInt32
  h : UInt32

/-- First thirty-two bits of the fractional parts of the square roots of the first eight primes. -/
def initialChaining : Chaining :=
  ⟨0x6a09e667, 0xbb67ae85, 0x3c6ef372, 0xa54ff53a, 0x510e527f, 0x9b05688c, 0x1f83d9ab, 0x5be0cd19⟩

/-- First thirty-two bits of the fractional parts of the cube roots of the first sixty-four primes. -/
def roundConstants : List UInt32 := [
  0x428a2f98, 0x71374491, 0xb5c0fbcf, 0xe9b5dba5, 0x3956c25b, 0x59f111f1, 0x923f82a4, 0xab1c5ed5,
  0xd807aa98, 0x12835b01, 0x243185be, 0x550c7dc3, 0x72be5d74, 0x80deb1fe, 0x9bdc06a7, 0xc19bf174,
  0xe49b69c1, 0xefbe4786, 0x0fc19dc6, 0x240ca1cc, 0x2de92c6f, 0x4a7484aa, 0x5cb0a9dc, 0x76f988da,
  0x983e5152, 0xa831c66d, 0xb00327c8, 0xbf597fc7, 0xc6e00bf3, 0xd5a79147, 0x06ca6351, 0x14292967,
  0x27b70a85, 0x2e1b2138, 0x4d2c6dfc, 0x53380d13, 0x650a7354, 0x766a0abb, 0x81c2c92e, 0x92722c85,
  0xa2bfe8a1, 0xa81a664b, 0xc24b8b70, 0xc76c51a3, 0xd192e819, 0xd6990624, 0xf40e3585, 0x106aa070,
  0x19a4c116, 0x1e376c08, 0x2748774c, 0x34b0bcb5, 0x391c0cb3, 0x4ed8aa4a, 0x5b9cca4f, 0x682e6ff3,
  0x748f82ee, 0x78a5636f, 0x84c87814, 0x8cc70208, 0x90befffa, 0xa4506ceb, 0xbef9a3f7, 0xc67178f2]

/-- The next schedule word from the sixteen before it, the latest first. -/
def nextWord (recent : List UInt32) : UInt32 :=
  let w (i : Nat) : UInt32 := recent.getD (i - 1) 0
  let s0 := rotateRight (w 15) 7 ^^^ rotateRight (w 15) 18 ^^^ (w 15 >>> 3)
  let s1 := rotateRight (w 2) 17 ^^^ rotateRight (w 2) 19 ^^^ (w 2 >>> 10)
  w 16 + s0 + w 7 + s1

/-- Put `n` more words in front of the schedule so far, which is kept latest first. -/
def extendSchedule : Nat → List UInt32 → List UInt32
  | 0, ws => ws
  | n + 1, ws => extendSchedule n (nextWord ws :: ws)

def wordsOf : Bytes → List UInt32
  | a :: b :: c :: d :: r => word32OfBigEndian a b c d :: wordsOf r
  | _ => []

def schedule (block : Bytes) : List UInt32 := (extendSchedule 48 (wordsOf block).reverse).reverse

def mixRound (s : Chaining) (kw : UInt32 × UInt32) : Chaining :=
  let s1 := rotateRight s.e 6 ^^^ rotateRight s.e 11 ^^^ rotateRight s.e 25
  let choice := (s.e &&& s.f) ^^^ (~~~ s.e &&& s.g)
  let t1 := s.h + s1 + choice + kw.1 + kw.2
  let s0 := rotateRight s.a 2 ^^^ rotateRight s.a 13 ^^^ rotateRight s.a 22
  let majority := (s.a &&& s.b) ^^^ (s.a &&& s.c) ^^^ (s.b &&& s.c)
  ⟨t1 + (s0 + majority), s.a, s.b, s.c, s.d + t1, s.e, s.f, s.g⟩

def compress (s : Chaining) (block : Bytes) : Chaining :=
  let t := (roundConstants.zip (schedule block)).foldl mixRound s
  ⟨s.a + t.a, s.b + t.b, s.c + t.c, s.d + t.d, s.e + t.e, s.f + t.f, s.g + t.g, s.h + t.h⟩

/-- The length in bits as eight octets, most significant first. -/
def lengthField (n : Nat) : Bytes :=
  [56, 48, 40, 32, 24, 16, 8, 0].map (fun s => UInt8.ofNat ((8 * n) >>> s))

/-- A one bit, zeros, and the length, up to whole blocks. -/
def pad (message : Bytes) : Bytes :=
  let zeros := (119 - message.length % 64) % 64
  message ++ [0x80] ++ List.replicate zeros 0 ++ lengthField message.length

/-- Cut into `n` blocks of sixty-four octets. -/
def blocksOf : Nat → Bytes → List Bytes
  | 0, _ => []
  | n + 1, bs => bs.take 64 :: blocksOf n (bs.drop 64)

def Chaining.words (s : Chaining) : List UInt32 := [s.a, s.b, s.c, s.d, s.e, s.f, s.g, s.h]

def sha256 (message : Bytes) : Word256 :=
  let padded := pad message
  let final := (blocksOf (padded.length / 64) padded).foldl compress initialChaining
  ⟨final.words.flatMap bigEndian32, by simp [Chaining.words, bigEndian32]⟩

end GossipNode.Hash
