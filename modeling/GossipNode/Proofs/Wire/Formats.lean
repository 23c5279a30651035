import Mathlib.Algebra.Group.Nat.Defs
import GossipNode.Proofs.Wire.Messages
/-!
# Formats read back what they write

The law of a format: every form takes at least an octet, and the reader takes a written form off the head of any octets
and hands back the rest (`Format.Faithful`).  Counts are 64-bit words, so a form is asked to be shorter than 2^64 octets;
since every item of a list takes an octet, such a list has a count that fits.

The combinators keep the law, so whatever they compose has it (`Composed.faithful`), and packets have it.
-/
namespace GossipNode.Wire

/-- **The law of a format.** -/
structure Format.Faithful {α : Type} (f : Format α) : Prop where
  write_ne_nil : ∀ a, f.write a ≠ []
  read_write : ∀ a rest, (f.write a).length < UInt64.size → f.read (f.write a ++ rest) = .ok (a, rest)

namespace Format

variable {α β : Type} {f : Format α} {g : Format β}

theorem Faithful.write_pos (h : f.Faithful) (a : α) : 0 < (f.write a).length :=
  List.length_pos_iff.2 (h.write_ne_nil a)

/-! ## Numbers -/

@[simp] theorem length_littleEndian (width n : Nat) : (littleEndian width n).length = width := by
  induction width generalizing n with
  | zero => rfl
  | succ width ih => simp [littleEndian, ih]

/-- **Octets hold a number below 256 to their count.** -/
theorem ofLittleEndian_littleEndian {width n : Nat} (h : n < 256 ^ width) :
    ofLittleEndian (littleEndian width n) = n := by
  induction width generalizing n with
  | zero => simp only [Nat.pow_zero, Nat.lt_one_iff] at h; rw [h]; rfl
  | succ width ih =>
    have hdiv : n / 256 < 256 ^ width := by rw [Nat.pow_succ] at h; omega
    have hlow : (UInt8.ofNat n).toNat = n % 256 := UInt8.toNat_ofNat'
    rw [littleEndian, ofLittleEndian, ih hdiv, hlow]
    omega

theorem takeExactly_append (bs rest : Bytes) : takeExactly bs.length (bs ++ rest) = .ok (bs, rest) := by
  simp [takeExactly]

theorem readFixed_littleEndian {width : Nat} {n : UInt64} (h : n.toNat < 256 ^ width) (rest : Bytes) :
    readFixed width (littleEndian width n.toNat ++ rest) = .ok (n, rest) := by
  have taken := takeExactly_append (littleEndian width n.toNat) rest
  rw [length_littleEndian] at taken
  rw [readFixed, taken]
  simp [Except.map, ofLittleEndian_littleEndian h]

/-- **A number is read back**, in one octet below 251, else in two, four or eight after a marker. -/
theorem readNumber_writeNumber (n : UInt64) (rest : Bytes) : readNumber (writeNumber n ++ rest) = .ok (n, rest) := by
  have hn : n.toNat < 256 ^ 8 := n.toNat_lt
  simp only [writeNumber]
  split
  · rename_i h
    have hb : (UInt8.ofNat n.toNat).toNat = n.toNat := by
      rw [UInt8.toNat_ofNat']
      omega
    have hlt : UInt8.ofNat n.toNat < 251 := by
      rw [UInt8.lt_iff_toNat_lt, hb]
      exact h
    have hback : (UInt8.ofNat n.toNat).toUInt64 = n := by
      rw [← UInt64.toNat_inj, UInt8.toNat_toUInt64, hb]
    simp only [List.cons_append, List.nil_append, readNumber, if_pos hlt, hback]
  · split
    · rename_i h
      exact readFixed_littleEndian (show n.toNat < 256 ^ 2 from h) rest
    · split
      · rename_i h
        exact readFixed_littleEndian (show n.toNat < 256 ^ 4 from h) rest
      · exact readFixed_littleEndian hn rest

theorem writeNumber_ne_nil (n : UInt64) : writeNumber n ≠ [] := by
  simp only [writeNumber]
  split
  · exact List.cons_ne_nil _ _
  · split
    · exact List.cons_ne_nil _ _
    · split <;> exact List.cons_ne_nil _ _

theorem faithful_number : number.Faithful where
  write_ne_nil := writeNumber_ne_nil
  read_write n rest _ := readNumber_writeNumber n rest

theorem faithful_word32 : word32.Faithful where
  write_ne_nil n := writeNumber_ne_nil n.toUInt64
  read_write n rest _ := by
    have hfits : n.toUInt64.toNat < UInt32.size := n.toNat_lt
    have hback : n.toUInt64.toUInt32 = n := by simp
    simp only [word32, readNumber_writeNumber, bind, Except.bind, if_pos hfits, hback]

/-! ## Octets and text -/

theorem faithful_word256 : word256.Faithful where
  write_ne_nil w hw := by
    have := w.size_eq
    rw [show w.octets = [] from hw] at this
    cases this
  read_write w rest _ := by
    have taken := takeExactly_append w.octets rest
    rw [w.size_eq] at taken
    simp only [word256, taken, bind, Except.bind, Word256.ofOctets?_octets]

/-- A count that fits the word is read back as it is. -/
theorem toNat_count {k : Nat} (h : k < UInt64.size) : (UInt64.ofNat k).toNat = k := UInt64.toNat_ofNat_of_lt' h

theorem faithful_octets : octets.Faithful where
  write_ne_nil bs := List.append_ne_nil_of_left_ne_nil (writeNumber_ne_nil _) _
  read_write bs rest h := by
    have hcount : bs.length < UInt64.size := by
      simp only [octets, List.length_append] at h
      omega
    simp only [octets, List.append_assoc, readNumber_writeNumber, bind, Except.bind, toNat_count hcount,
      takeExactly_append]

theorem ofUtf8?_utf8 (s : String) : Text.ofUtf8? (utf8 s) = some s := by
  have harray : (⟨(utf8 s).toArray⟩ : ByteArray) = s.toByteArray := by simp [utf8]
  rw [Text.ofUtf8?, harray, String.fromUTF8?, dif_pos s.isValidUTF8]
  rfl

theorem faithful_text : text.Faithful where
  write_ne_nil s := List.append_ne_nil_of_left_ne_nil (writeNumber_ne_nil _) _
  read_write s rest h := by
    have hcount : (utf8 s).length < UInt64.size := by
      simp only [text, List.length_append] at h
      omega
    have hle : (utf8 s).length ≤ (utf8 s ++ rest).length := by simp
    simp only [text, List.append_assoc, readNumber_writeNumber, bind, Except.bind, toNat_count hcount, if_pos hle,
      List.take_left, List.drop_left, ofUtf8?_utf8]

/-! ## Combinators -/

namespace Faithful

theorem seq (hf : f.Faithful) (hg : g.Faithful) : (f.seq g).Faithful where
  write_ne_nil p := List.append_ne_nil_of_left_ne_nil (hf.write_ne_nil p.1) _
  read_write p rest h := by
    simp only [Format.seq, List.length_append] at h
    have h1 := hf.read_write p.1 (g.write p.2 ++ rest) (by omega)
    have h2 := hg.read_write p.2 rest (by omega)
    simp only [Format.seq, List.append_assoc, h1, h2, bind, Except.bind]

/-- Another type may have the same forms if nothing is lost on the way to them. -/
theorem iso (hf : f.Faithful) {into : α → β} {back : β → α} (hback : ∀ b, into (back b) = b) :
    (f.iso into back).Faithful where
  write_ne_nil b := hf.write_ne_nil (back b)
  read_write b rest h := by
    have h1 := hf.read_write (back b) rest h
    simp only [Format.iso, h1, Except.map, hback]

theorem option (hf : f.Faithful) : (option f).Faithful where
  write_ne_nil o := by cases o <;> exact List.cons_ne_nil _ _
  read_write o rest h := by
    cases o with
    | none => rfl
    | some a =>
      simp only [Format.option, List.length_cons] at h
      have h1 := hf.read_write a rest (by omega)
      simp only [Format.option, List.cons_append, h1, Except.map]
      rfl

theorem length_le_flatMap (hf : f.Faithful) (as : List α) : as.length ≤ (as.flatMap f.write).length := by
  induction as with
  | nil => exact Nat.le_refl 0
  | cons a as ih =>
    have := hf.write_pos a
    simp only [List.flatMap_cons, List.length_append, List.length_cons]
    omega

theorem readMany_flatMap (hf : f.Faithful) (as : List α) (rest : Bytes)
    (h : (as.flatMap f.write).length < UInt64.size) :
    readMany f as.length (as.flatMap f.write ++ rest) = .ok (as, rest) := by
  induction as with
  | nil => rfl
  | cons a as ih =>
    simp only [List.flatMap_cons, List.length_append] at h
    have h1 := hf.read_write a (as.flatMap f.write ++ rest) (by omega)
    have h2 := ih (by omega)
    simp only [List.length_cons, List.flatMap_cons, List.append_assoc, readMany, h1, h2, bind, Except.bind]

theorem list (hf : f.Faithful) : (list f).Faithful where
  write_ne_nil as := List.append_ne_nil_of_left_ne_nil (writeNumber_ne_nil _) _
  read_write as rest h := by
    simp only [Format.list, List.length_append] at h
    have hitems : (as.flatMap f.write).length < UInt64.size := by omega
    have hcount : as.length < UInt64.size := Nat.lt_of_le_of_lt (hf.length_le_flatMap as) hitems
    simp only [Format.list, List.append_assoc, readNumber_writeNumber, bind, Except.bind, toNat_count hcount,
      hf.readMany_flatMap as rest hitems]

end Faithful

/-- **What is composed is faithful.** -/
theorem Composed.faithful (h : f.Composed) : f.Faithful := by
  induction h with
  | number => exact faithful_number
  | word32 => exact faithful_word32
  | word256 => exact faithful_word256
  | octets => exact faithful_octets
  | text => exact faithful_text
  | seq _ _ ihf ihg => exact ihf.seq ihg
  | iso _ hback _ ih => exact ih.iso hback
  | option _ ih => exact ih.option
  | list _ ih => exact ih.list

/-! ## Packets -/

/-- A kind is one octet, and the fields behind it are read by its format. -/
theorem readPacket_cons {kind : UInt8} (h : kind < 251) (bs : Bytes) :
    readPacket (kind :: bs) = readFields kind.toUInt32 bs := by
  have hfits : kind.toUInt64.toNat < UInt32.size := by
    have := kind.toNat_lt
    rw [UInt8.toNat_toUInt64, UInt32.size]
    omega
  have hback : kind.toUInt64.toUInt32 = kind.toUInt32 := by simp
  simp only [readPacket, word32, readNumber, if_pos h, bind, Except.bind, if_pos hfits, hback]

/-- **The packet format is faithful**, for all ten kinds. -/
theorem faithful_packet : packet.Faithful where
  write_ne_nil p := by
    obtain ⟨kind, _, f, wrap, m, fields, rfl⟩ := exists_fields p
    rw [fields.write_eq]
    exact List.cons_ne_nil _ _
  read_write p rest h := by
    obtain ⟨kind, _, f, wrap, m, fields, rfl⟩ := exists_fields p
    rw [fields.write_eq] at h ⊢
    have message := fields.composed.faithful.read_write m rest (Nat.lt_of_succ_lt h)
    show readPacket _ = _
    rw [List.cons_append, readPacket_cons fields.kind_lt, fields.read_eq]
    simp only [message, Except.map]

end Format
end GossipNode.Wire
