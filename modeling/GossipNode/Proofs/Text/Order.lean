import Mathlib.Order.Defs.LinearOrder
import Mathlib.Data.List.Lex
import GossipNode.Bytes
import GossipNode.Identity
/-!
# The order of texts

Texts are compared character by character, and on the wire they are strings of octets.  The two orders are the same, since
the encoding of a character with a larger number is larger in its first octet that differs.  So origins are in the order of
the octets of their names (`Origin.compare_eq_lt_iff`).
-/
namespace GossipNode

theorem utf8_eq_flatMap (s : String) : utf8 s = s.toList.flatMap String.utf8EncodeChar := by
  rw [utf8, ← String.utf8Encode_toList, List.utf8Encode, List.data_toByteArray]

/-- **A larger character has the larger octets**, whatever comes after them. -/
theorem utf8EncodeChar_lt {c d : Char} (h : c < d) (s t : Bytes) :
    String.utf8EncodeChar c ++ s < String.utf8EncodeChar d ++ t := by
  have lt : c.val.toNat < d.val.toNat := h
  have bound : d.val.toNat < 0x110000 := by
    rcases d.valid with hd | ⟨-, hd⟩
    · exact Nat.lt_trans hd (by decide)
    · exact hd
  unfold String.utf8EncodeChar
  generalize c.val.toNat = m at lt
  generalize d.val.toNat = n at lt bound
  dsimp only
  repeat' split
  all_goals
    simp only [List.cons_append, List.nil_append, List.cons_lt_cons_iff, UInt8.lt_iff_toNat_lt, ← UInt8.toNat_inj,
      UInt8.toNat_ofNat']
    simp (disch := omega) only [Nat.mod_eq_of_lt]
    omega

theorem flatMap_utf8EncodeChar_lt {l l' : List Char} (h : l < l') :
    l.flatMap String.utf8EncodeChar < l'.flatMap String.utf8EncodeChar := by
  induction l generalizing l' with
  | nil =>
    cases l' with
    | nil => cases h
    | cons d l' =>
      rw [List.flatMap_cons]
      cases hd : String.utf8EncodeChar d with
      | nil => exact absurd hd String.utf8EncodeChar_ne_nil
      | cons b bs => exact List.nil_lt_cons _ _
  | cons c l ih =>
    cases l' with
    | nil => cases h
    | cons d l' =>
      rw [List.flatMap_cons, List.flatMap_cons]
      rcases List.cons_lt_cons_iff.1 h with lt | ⟨rfl, lt⟩
      · exact utf8EncodeChar_lt lt _ _
      · exact List.append_left_lt (ih lt)

/-- **Texts are in the order of their octets.** -/
theorem lt_iff_utf8_lt {s t : String} : s < t ↔ utf8 s < utf8 t := by
  rw [utf8_eq_flatMap, utf8_eq_flatMap]
  constructor
  · exact flatMap_utf8EncodeChar_lt
  · intro h
    by_contra notLt
    by_cases lt : t < s
    · exact List.lt_asymm h (flatMap_utf8EncodeChar_lt lt)
    · rw [String.le_antisymm lt notLt] at h
      exact List.lt_irrefl _ h

/-- **Origins are in the order of their names' octets.** -/
theorem Origin.compare_eq_lt_iff {a b : Origin} : compare a b = .lt ↔ utf8 a.name < utf8 b.name :=
  compareOfLessAndEq_eq_lt.trans lt_iff_utf8_lt

end GossipNode
