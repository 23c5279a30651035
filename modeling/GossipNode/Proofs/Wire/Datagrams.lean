import GossipNode.Wire.Datagram
import GossipNode.Proofs.Wire.Formats
/-!
# Datagrams come back unchanged

A packet has a datagram exactly when the version octet and its body fit the limit, and then the datagram decodes to just
this packet (`decode_encode`).  What fits is short, so every count in it fits its word and the law of the packet format
applies to every packet, whatever its lists and texts.
-/
namespace GossipNode.Wire

theorem encode_eq_ok_iff {p : Packet} {d : Bytes} :
    encode p = .ok d ↔ (Format.packet.write p).length + 1 ≤ maxSize ∧ d = version :: Format.packet.write p := by
  simp only [encode]
  constructor
  · intro h
    split at h
    · cases h
    · rename_i hfit
      exact ⟨Nat.le_of_not_lt hfit, (Except.ok.inj h).symm⟩
  · rintro ⟨hfit, rfl⟩
    exact if_neg (Nat.not_lt_of_le hfit)

/-- A datagram of this version is the packet that its body reads as, if nothing is left over. -/
theorem decode_of_read {p : Packet} {body : Bytes} (hfit : body.length + 1 ≤ maxSize)
    (hread : Format.packet.read body = .ok (p, [])) : decode (version :: body) = .ok p := by
  have hsize : ¬ maxSize < (version :: body).length := Nat.not_lt_of_le hfit
  have hversion : ¬ (!isCompatible version) = true := by decide
  rw [decode, if_neg hsize, if_neg hversion, hread]

theorem decode_of_encode {p : Packet} {d : Bytes} (h : encode p = .ok d) : decode d = .ok p := by
  obtain ⟨hfit, rfl⟩ := encode_eq_ok_iff.1 h
  have hshort : (Format.packet.write p).length < UInt64.size :=
    Nat.lt_of_lt_of_le (Nat.lt_of_succ_le hfit) (by decide)
  have hread := Format.faithful_packet.read_write p [] hshort
  rw [List.append_nil] at hread
  exact decode_of_read hfit hread

/-- **Sendable packets come back unchanged.**  A packet is sendable exactly when its body and one octet fit 9216 octets;
its datagram is then no longer than that and decodes to the packet, so no other packet has the same datagram. -/
theorem decode_encode (p : Packet) :
    ((∃ d, encode p = .ok d) ↔ 1 + (Format.packet.write p).length ≤ 9216) ∧
    (∀ d, encode p = .ok d → d.length ≤ 9216 ∧ decode d = .ok p) ∧
    (∀ q d, encode p = .ok d → encode q = .ok d → p = q) := by
  refine ⟨⟨fun ⟨d, h⟩ => ?_, fun hfit => ?_⟩, fun d h => ⟨?_, decode_of_encode h⟩, fun q d hp hq => ?_⟩
  · rw [Nat.add_comm]
    exact (encode_eq_ok_iff.1 h).1
  · rw [Nat.add_comm] at hfit
    exact ⟨_, encode_eq_ok_iff.2 ⟨hfit, rfl⟩⟩
  · obtain ⟨hfit, rfl⟩ := encode_eq_ok_iff.1 h
    exact hfit
  · have hp' := decode_of_encode hp
    rw [decode_of_encode hq] at hp'
    exact (Except.ok.inj hp').symm

/-- Numbers at each width of their form, an empty list, an empty text and one of two octets. -/
theorem decode_encode_search_reply :
    let numbers : List UInt64 := [250, 251, 65535, 65536, 4294967295, 4294967296]
    let p : Packet := .searchReply ⟨⟨"a"⟩, ⟨"é"⟩, 10, [⟨"", [0, 255], numbers, 0⟩, ⟨"f", [], [], 18446744073709551615⟩]⟩
    ∃ d, encode p = .ok d ∧ d.length = 54 ∧ d.length ≤ 9216 ∧ decode d = .ok p ∧
      ∀ q, encode q = .ok d → p = q := by
  intro numbers p
  have hd : encode p = .ok [1, 6, 1, 97, 2, 195, 169, 10, 2, 0, 2, 0, 255, 6, 250, 251, 251, 0, 251, 255, 255,
      252, 0, 0, 1, 0, 252, 255, 255, 255, 255, 253, 0, 0, 0, 0, 1, 0, 0, 0, 0, 1, 102, 0, 0,
      253, 255, 255, 255, 255, 255, 255, 255, 255] := encode_eq_ok_iff.2 ⟨by decide +kernel, by decide +kernel⟩
  have h := decode_encode p
  exact ⟨_, hd, by decide, (h.2.1 _ hd).1, (h.2.1 _ hd).2, fun q hq => h.2.2 q _ hd hq⟩

end GossipNode.Wire
