import GossipNode.Text.Utf8
/-!
# Formats

A format is a writer beside its reader.  The reader takes what it needs from the head of the octets
and hands back the rest, so formats compose: one after another, repeated, optional, and through a
change of representation.  Whatever holds of the parts and is kept by the combinators holds of the
packet format, which is built from them.
-/
namespace GossipNode.Wire

/-- Why octets are not a packet.  The first fault in reading order is reported. -/
inductive Fault where
  /-- The octets end inside something other than a text. -/
  | cut
  /-- The octets end inside a text. -/
  | textCut
  /-- A number is announced as wider than sixty-four bits. -/
  | tooWide
  /-- A number starts with the octet that is reserved. -/
  | reserved
  | notWord32 (n : UInt64)
  | unknownKind (n : UInt32)
  | optionTag (b : UInt8)
  | notText (f : Text.Utf8Fault)
  /-- Octets are left after the packet. -/
  | trailing
deriving DecidableEq, Repr

namespace Fault

def message : Fault → String
  | cut => "io error: unexpected end of file"
  | textCut => "io error: "
  | tooWide =>
    "Invalid value (u128 range): you may have a version or configuration disagreement?"
  | reserved =>
    "\nByte 255 is treated as an extension point; it should not be encoding anything.\n" ++
      "Do you have a mismatched bincode version or configuration?\n"
  | notWord32 n => "Invalid u32 " ++ toString n ++ ": you may have a version disagreement?"
  | unknownKind n =>
    "invalid value: integer `" ++ toString n ++ "`, expected variant index 0 <= i < 10"
  | optionTag b => "tag for enum is not valid, found " ++ toString b
  | notText f => "string is not valid utf8: " ++ f.message
  | trailing => "Slice had bytes remaining after deserialization"

end Fault

/-- A writer beside its reader. -/
structure Format (α : Type) where
  write : α → Bytes
  read : Bytes → Except Fault (α × Bytes)

namespace Format

variable {α β : Type}

/-! ## Numbers -/

def littleEndian : Nat → Nat → Bytes
  | 0, _ => []
  | width + 1, n => UInt8.ofNat n :: littleEndian width (n / 256)

def ofLittleEndian : Bytes → Nat
  | [] => 0
  | b :: r => b.toNat + 256 * ofLittleEndian r

def takeExactly (n : Nat) (bs : Bytes) : Except Fault (Bytes × Bytes) :=
  if n ≤ bs.length then .ok (bs.take n, bs.drop n) else .error .cut

def readFixed (width : Nat) (bs : Bytes) : Except Fault (UInt64 × Bytes) :=
  (takeExactly width bs).map (fun (ds, r) => (UInt64.ofNat (ofLittleEndian ds), r))

def writeNumber (n : UInt64) : Bytes :=
  let k := n.toNat
  if k < 251 then [UInt8.ofNat k]
  else if k < UInt16.size then 251 :: littleEndian 2 k
  else if k < UInt32.size then 252 :: littleEndian 4 k
  else 253 :: littleEndian 8 k

def readNumber : Bytes → Except Fault (UInt64 × Bytes)
  | [] => .error .cut
  | b :: r =>
    if b < 251 then .ok (b.toUInt64, r)
    else if b = 251 then readFixed 2 r
    else if b = 252 then readFixed 4 r
    else if b = 253 then readFixed 8 r
    else if b = 254 then .error .tooWide
    else .error .reserved

/-- A number in one octet when it is below 251, else in two, four or eight octets after a marker.
Reading also takes a wider form than the number needs. -/
def number : Format UInt64 := ⟨writeNumber, readNumber⟩

def word32 : Format UInt32 where
  write n := writeNumber n.toUInt64
  read bs := do
    let (n, r) ← readNumber bs
    if n.toNat < UInt32.size then .ok (n.toUInt32, r) else .error (.notWord32 n)

/-! ## Octets and text -/

def word256 : Format Word256 where
  write w := w.octets
  read bs := do
    let (ds, r) ← takeExactly 32 bs
    match Word256.ofOctets? ds with
    | some w => .ok (w, r)
    | none => .error .cut

/-- Octets behind their count. -/
def octets : Format Bytes where
  write bs := writeNumber (UInt64.ofNat bs.length) ++ bs
  read bs := do
    let (n, r) ← readNumber bs
    takeExactly n.toNat r

/-- A text behind the count of its octets. -/
def text : Format String where
  write s := writeNumber (UInt64.ofNat (utf8 s).length) ++ utf8 s
  read bs := do
    let (n, r) ← readNumber bs
    if n.toNat ≤ r.length then
      let ds := r.take n.toNat
      match Text.ofUtf8? ds with
      | some s => .ok (s, r.drop n.toNat)
      | none => .error (.notText ((Text.utf8Fault ds).getD ⟨0, none⟩))
    else .error .textCut

/-! ## Combinators -/

def seq (f : Format α) (g : Format β) : Format (α × β) where
  write p := f.write p.1 ++ g.write p.2
  read bs := do
    let (a, r) ← f.read bs
    let (b, r) ← g.read r
    .ok ((a, b), r)

/-- The same octets for another type. -/
def iso (f : Format α) (into : α → β) (back : β → α) : Format β where
  write b := f.write (back b)
  read bs := (f.read bs).map (fun (a, r) => (into a, r))

/-- An octet 0 for nothing, an octet 1 before something. -/
def option (f : Format α) : Format (Option α) where
  write
    | none => [0]
    | some a => 1 :: f.write a
  read
    | [] => .error .cut
    | b :: r =>
      if b = 0 then .ok (none, r)
      else if b = 1 then (f.read r).map (fun (a, r) => (some a, r))
      else .error (.optionTag b)

def readMany (f : Format α) : Nat → Bytes → Except Fault (List α × Bytes)
  | 0, bs => .ok ([], bs)
  | n + 1, bs => do
    let (a, r) ← f.read bs
    let (as, r) ← readMany f n r
    .ok (a :: as, r)

/-- A list behind its length. -/
def list (f : Format α) : Format (List α) where
  write as := writeNumber (UInt64.ofNat as.length) ++ as.flatMap f.write
  read bs := do
    let (n, r) ← readNumber bs
    readMany f n.toNat r

end Format

end GossipNode.Wire
