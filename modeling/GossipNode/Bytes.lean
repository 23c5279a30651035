/-!
# Octet strings

Everything a node hashes or puts on the wire is a list of octets.  Block hashes and proof
nonces are the fixed-width ones, so their width is part of their type: no operation can build
a hash of the wrong length, and a reader has to show that it took exactly thirty-two octets.
-/
namespace GossipNode

abbrev Bytes := List UInt8

def utf8 (s : String) : Bytes := s.toByteArray.data.toList

/-- Thirty-two octets: a SHA-256 digest, a block hash or a proof's nonce. -/
structure Word256 where
  octets : Bytes
  size_eq : octets.length = 32
deriving DecidableEq, Repr

abbrev BlockHash := Word256

namespace Word256

theorem ext {a b : Word256} (h : a.octets = b.octets) : a = b := by
  cases a; cases b; simp_all

/-- The first thirty-two octets, padded with zeros when there are fewer. -/
def ofOctets (bs : Bytes) : Word256 where
  octets := (bs ++ List.replicate 32 0).take 32
  size_eq := by simp

def zero : Word256 := ofOctets []

instance : Inhabited Word256 := ⟨zero⟩

def ofOctets? (bs : Bytes) : Option Word256 :=
  if h : bs.length = 32 then some ⟨bs, h⟩ else none

@[simp] theorem length_octets (w : Word256) : w.octets.length = 32 := w.size_eq

@[simp] theorem ofOctets?_octets (w : Word256) : ofOctets? w.octets = some w := by
  simp [ofOctets?]

theorem octets_of_ofOctets? {bs : Bytes} {w : Word256} (h : ofOctets? bs = some w) :
    w.octets = bs := by
  unfold ofOctets? at h
  split at h
  · cases h; rfl
  · cases h

def isZero (w : Word256) : Bool := w == zero

end Word256

def bigEndian32 (w : UInt32) : Bytes :=
  [(w >>> 24).toUInt8, (w >>> 16).toUInt8, (w >>> 8).toUInt8, w.toUInt8]

def word32OfBigEndian (a b c d : UInt8) : UInt32 :=
  (a.toUInt32 <<< 24) ||| (b.toUInt32 <<< 16) ||| (c.toUInt32 <<< 8) ||| d.toUInt32

end GossipNode
