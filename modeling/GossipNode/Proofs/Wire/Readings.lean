import Mathlib.Tactic.SplitIfs
import GossipNode.Proofs.Wire.Datagrams
/-!
# What readers take

A reader accepts more than its writer writes: a number may come in a wider form than it needs.  Still, what a reader has
taken it takes again whatever follows, and the written form of what it has read is not longer than that
(`Format.Delimited`).  The combinators keep this law as they keep the other one, so it holds of packets.

So whatever decodes can be encoded again, in a datagram that is not longer.  A number's form grows with the number, so
that also holds of a packet that has spent a hop (`length_write_spendHop`).
-/
namespace GossipNode.Wire

/-- **The law of a reader.** -/
structure Format.Delimited {α : Type} (f : Format α) : Prop where
  read_ok : ∀ {bs rest : Bytes} {a : α}, f.read bs = .ok (a, rest) →
    ∃ used, bs = used ++ rest ∧ (f.write a).length ≤ used.length ∧ ∀ more, f.read (used ++ more) = .ok (a, more)

theorem bind_eq_ok {α β : Type} {x : Except Fault α} {f : α → Except Fault β} {b : β} (h : x.bind f = .ok b) :
    ∃ a, x = .ok a ∧ f a = .ok b := by
  cases x with
  | error e => cases h
  | ok a => exact ⟨a, rfl, h⟩

theorem map_eq_ok {α β : Type} {x : Except Fault α} {f : α → β} {b : β} (h : x.map f = .ok b) :
    ∃ a, x = .ok a ∧ f a = b := by
  cases x with
  | error e => cases h
  | ok a => exact ⟨a, rfl, Except.ok.inj h⟩

namespace Format

variable {α β : Type} {f : Format α} {g : Format β}

/-! ## Numbers -/

theorem length_writeNumber (n : UInt64) :
    (writeNumber n).length = if n.toNat < 251 then 1 else if n.toNat < 65536 then 3 else if n.toNat < 4294967296 then 5 else 9 := by
  simp only [writeNumber, UInt16.size, UInt32.size]
  split
  · rfl
  · split
    · simp
    · split <;> simp

theorem length_writeNumber_le (n : UInt64) : (writeNumber n).length ≤ 9 := by
  rw [length_writeNumber]
  split_ifs <;> omega

/-- **The form of a number grows with it.** -/
theorem length_writeNumber_mono {m n : UInt64} (h : m.toNat ≤ n.toNat) :
    (writeNumber m).length ≤ (writeNumber n).length := by
  rw [length_writeNumber, length_writeNumber]
  split_ifs <;> omega

theorem takeExactly_eq_ok {k : Nat} {bs taken rest : Bytes} (h : takeExactly k bs = .ok (taken, rest)) :
    bs = taken ++ rest ∧ taken.length = k := by
  unfold takeExactly at h
  split at h
  · rename_i hk
    obtain ⟨rfl, rfl⟩ := Prod.mk.inj (Except.ok.inj h)
    exact ⟨(List.take_append_drop k bs).symm, List.length_take_of_le hk⟩
  · cases h

theorem takeExactly_again {k : Nat} {bs taken rest : Bytes} (h : takeExactly k bs = .ok (taken, rest)) (more : Bytes) :
    takeExactly k (taken ++ more) = .ok (taken, more) := by
  obtain ⟨-, rfl⟩ := takeExactly_eq_ok h
  exact takeExactly_append taken more

theorem ofLittleEndian_lt (bs : Bytes) : ofLittleEndian bs < 256 ^ bs.length := by
  induction bs with
  | nil => exact Nat.one_pos
  | cons b bs ih =>
    have := b.toNat_lt
    rw [ofLittleEndian, List.length_cons, Nat.pow_succ]
    omega

theorem readFixed_eq_ok {width : Nat} {bs rest : Bytes} {n : UInt64} (h : readFixed width bs = .ok (n, rest)) :
    ∃ taken, bs = taken ++ rest ∧ taken.length = width ∧ n.toNat < 256 ^ width ∧
      ∀ more, readFixed width (taken ++ more) = .ok (n, more) := by
  obtain ⟨⟨taken, rest'⟩, hr, he⟩ := map_eq_ok h
  obtain ⟨rfl, rfl⟩ := Prod.mk.inj he
  obtain ⟨rfl, rfl⟩ := takeExactly_eq_ok hr
  refine ⟨taken, rfl, rfl, ?_, fun more => ?_⟩
  · exact Nat.lt_of_le_of_lt (Nat.mod_le _ _) (ofLittleEndian_lt taken)
  · rw [readFixed, takeExactly_again hr more]
    rfl

/-- A number behind a marker needs no more octets than the marker announces. -/
theorem delimited_fixed {width : Nat} {marker : UInt8} {bs rest : Bytes} {n : UInt64}
    (again : ∀ more, readNumber (marker :: more) = readFixed width more)
    (fits : n.toNat < 256 ^ width → (writeNumber n).length ≤ width + 1) (h : readFixed width bs = .ok (n, rest)) :
    ∃ used, marker :: bs = used ++ rest ∧ (writeNumber n).length ≤ used.length ∧
      ∀ more, readNumber (used ++ more) = .ok (n, more) := by
  obtain ⟨taken, rfl, rfl, hn, hmore⟩ := readFixed_eq_ok h
  exact ⟨marker :: taken, rfl, fits hn, fun more => (again _).trans (hmore more)⟩

theorem delimited_number : number.Delimited := by
  refine ⟨fun {bs rest n} h => ?_⟩
  change readNumber bs = _ at h
  cases bs with
  | nil => cases h
  | cons b r =>
    by_cases small : b < 251
    · rw [readNumber, if_pos small] at h
      obtain ⟨rfl, rfl⟩ := Prod.mk.inj (Except.ok.inj h)
      have one : (writeNumber b.toUInt64).length = 1 := by
        rw [length_writeNumber, if_pos (show b.toUInt64.toNat < 251 from UInt8.lt_iff_toNat_lt.1 small)]
      exact ⟨[b], rfl, Nat.le_of_eq one, fun more => if_pos small⟩
    by_cases two : b = 251
    · subst b
      exact delimited_fixed (fun _ => rfl) (fun hn => by rw [length_writeNumber]; split_ifs <;> omega)
        (show readFixed 2 r = _ from h)
    by_cases four : b = 252
    · subst b
      exact delimited_fixed (fun _ => rfl) (fun hn => by rw [length_writeNumber]; split_ifs <;> omega)
        (show readFixed 4 r = _ from h)
    by_cases eight : b = 253
    · subst b
      exact delimited_fixed (fun _ => rfl) (fun _ => length_writeNumber_le n) (show readFixed 8 r = _ from h)
    rw [readNumber, if_neg small, if_neg two, if_neg four, if_neg eight] at h
    split at h <;> cases h

theorem delimited_word32 : word32.Delimited := by
  refine ⟨fun {bs rest a} h => ?_⟩
  obtain ⟨⟨n, r⟩, hn, h⟩ := bind_eq_ok h
  dsimp only at h
  split at h
  · rename_i hfits
    obtain ⟨rfl, rfl⟩ := Prod.mk.inj (Except.ok.inj h)
    obtain ⟨used, hbs, hle, hmore⟩ := delimited_number.read_ok hn
    have back : n.toUInt32.toUInt64 = n := by
      rw [← UInt64.toNat_inj, UInt32.toNat_toUInt64, UInt64.toNat_toUInt32]
      exact Nat.mod_eq_of_lt hfits
    refine ⟨used, hbs, ?_, fun more => ?_⟩
    · show (writeNumber n.toUInt32.toUInt64).length ≤ _
      rw [back]
      exact hle
    · have again : readNumber (used ++ more) = .ok (n, more) := hmore more
      simp only [word32, again, bind, Except.bind, if_pos hfits]
  · cases h

/-! ## Octets and text -/

theorem delimited_word256 : word256.Delimited := by
  refine ⟨fun {bs rest w} h => ?_⟩
  obtain ⟨⟨taken, r⟩, hr, h⟩ := bind_eq_ok h
  dsimp only at h
  split at h
  · rename_i w' hw
    obtain ⟨rfl, rfl⟩ := Prod.mk.inj (Except.ok.inj h)
    obtain ⟨rfl, -⟩ := takeExactly_eq_ok hr
    refine ⟨taken, rfl, ?_, fun more => ?_⟩
    · exact Nat.le_of_eq (congrArg List.length (Word256.octets_of_ofOctets? hw))
    · simp only [word256, takeExactly_again hr more, bind, Except.bind, hw]
  · cases h

/-- Behind a count that was read stands a count that is as long as it has to be. -/
theorem delimited_counted {used taken : Bytes} {n : UInt64} (hn : taken.length = n.toNat)
    (hle : (writeNumber n).length ≤ used.length) :
    (writeNumber (UInt64.ofNat taken.length) ++ taken).length ≤ (used ++ taken).length := by
  rw [hn, UInt64.ofNat_toNat, List.length_append, List.length_append]
  omega

theorem delimited_octets : octets.Delimited := by
  refine ⟨fun {bs rest taken} h => ?_⟩
  obtain ⟨⟨n, r⟩, hn, hr⟩ := bind_eq_ok h
  obtain ⟨used, rfl, hle, hmore⟩ := delimited_number.read_ok hn
  obtain ⟨rfl, hlen⟩ := takeExactly_eq_ok hr
  refine ⟨used ++ taken, (List.append_assoc _ _ _).symm, delimited_counted hlen hle, fun more => ?_⟩
  have again : readNumber (used ++ (taken ++ more)) = .ok (n, taken ++ more) := hmore _
  simp only [octets, List.append_assoc, again, bind, Except.bind]
  exact takeExactly_again hr more

theorem utf8_of_ofUtf8? {bs : Bytes} {s : String} (h : Text.ofUtf8? bs = some s) : utf8 s = bs := by
  unfold Text.ofUtf8? String.fromUTF8? at h
  split at h
  · obtain rfl := Option.some.inj h
    rfl
  · cases h

theorem delimited_text : text.Delimited := by
  refine ⟨fun {bs rest s} h => ?_⟩
  obtain ⟨⟨n, r⟩, hn, h⟩ := bind_eq_ok h
  dsimp only at h
  split at h
  · rename_i hle
    split at h
    · rename_i s' hs
      obtain ⟨rfl, rfl⟩ := Prod.mk.inj (Except.ok.inj h)
      have octets := utf8_of_ofUtf8? hs
      have hlen : (utf8 s').length = n.toNat := by rw [octets, List.length_take_of_le hle]
      obtain ⟨used, rfl, hused, hmore⟩ := delimited_number.read_ok hn
      refine ⟨used ++ utf8 s', ?_, delimited_counted hlen hused, fun more => ?_⟩
      · rw [octets, List.append_assoc, List.take_append_drop]
      · have again : readNumber (used ++ (utf8 s' ++ more)) = .ok (n, utf8 s' ++ more) := hmore _
        have enough : (utf8 s').length ≤ (utf8 s' ++ more).length := by rw [List.length_append]; omega
        simp only [text, List.append_assoc, again, bind, Except.bind, hlen.symm, if_pos enough, List.take_left,
          List.drop_left, ofUtf8?_utf8]
    · cases h
  · cases h

/-! ## Combinators -/

namespace Delimited

theorem seq (hf : f.Delimited) (hg : g.Delimited) : (f.seq g).Delimited := by
  refine ⟨fun {bs rest p} h => ?_⟩
  obtain ⟨⟨a, r⟩, ha, h⟩ := bind_eq_ok h
  obtain ⟨⟨b, r'⟩, hb, h⟩ := bind_eq_ok h
  obtain ⟨rfl, rfl⟩ := Prod.mk.inj (Except.ok.inj h)
  obtain ⟨used, rfl, hle, hmore⟩ := hf.read_ok ha
  obtain ⟨used', rfl, hle', hmore'⟩ := hg.read_ok hb
  refine ⟨used ++ used', (List.append_assoc _ _ _).symm, ?_, fun more => ?_⟩
  · simp only [Format.seq, List.length_append]
    omega
  · simp only [Format.seq, List.append_assoc, hmore, hmore', bind, Except.bind]

/-- Another type may have the same forms if the way back leads to what was read. -/
theorem iso (hf : f.Delimited) {into : α → β} {back : β → α} (hinto : ∀ a, back (into a) = a) :
    (f.iso into back).Delimited := by
  refine ⟨fun {bs rest b} h => ?_⟩
  obtain ⟨⟨a, r⟩, ha, h⟩ := map_eq_ok h
  obtain ⟨rfl, rfl⟩ := Prod.mk.inj h
  obtain ⟨used, rfl, hle, hmore⟩ := hf.read_ok ha
  refine ⟨used, rfl, ?_, fun more => ?_⟩
  · show (f.write (back (into a))).length ≤ _
    rw [hinto]
    exact hle
  · simp only [Format.iso, hmore, Except.map]

theorem option (hf : f.Delimited) : (option f).Delimited := by
  refine ⟨fun {bs rest o} h => ?_⟩
  cases bs with
  | nil => cases h
  | cons b r =>
    simp only [Format.option] at h
    split at h
    · subst b
      obtain ⟨rfl, rfl⟩ := Prod.mk.inj (Except.ok.inj h)
      exact ⟨[0], rfl, Nat.le_refl _, fun more => rfl⟩
    · rename_i nonzero
      split at h
      · subst b
        obtain ⟨⟨a, r'⟩, ha, h⟩ := map_eq_ok h
        obtain ⟨rfl, rfl⟩ := Prod.mk.inj h
        obtain ⟨used, rfl, hle, hmore⟩ := hf.read_ok ha
        refine ⟨1 :: used, rfl, Nat.succ_le_succ hle, fun more => ?_⟩
        simp only [Format.option, List.cons_append, hmore, Except.map]
        rfl
      · cases h

theorem readMany (hf : f.Delimited) : ∀ {k : Nat} {bs rest : Bytes} {as : List α}, readMany f k bs = .ok (as, rest) →
    as.length = k ∧ ∃ used, bs = used ++ rest ∧ (as.flatMap f.write).length ≤ used.length ∧
      ∀ more, Format.readMany f k (used ++ more) = .ok (as, more) := by
  intro k
  induction k with
  | zero =>
    intro bs rest as h
    obtain ⟨rfl, rfl⟩ := Prod.mk.inj (Except.ok.inj h)
    exact ⟨rfl, [], rfl, Nat.le_refl _, fun more => rfl⟩
  | succ k ih =>
    intro bs rest as h
    obtain ⟨⟨a, r⟩, ha, h⟩ := bind_eq_ok h
    obtain ⟨⟨as', r'⟩, has, h⟩ := bind_eq_ok h
    obtain ⟨rfl, rfl⟩ := Prod.mk.inj (Except.ok.inj h)
    obtain ⟨used, rfl, hle, hmore⟩ := hf.read_ok ha
    obtain ⟨rfl, used', rfl, hle', hmore'⟩ := ih has
    refine ⟨rfl, used ++ used', (List.append_assoc _ _ _).symm, ?_, fun more => ?_⟩
    · simp only [List.flatMap_cons, List.length_append]
      omega
    · simp only [Format.readMany, List.append_assoc, hmore, hmore', bind, Except.bind]

theorem list (hf : f.Delimited) : (list f).Delimited := by
  refine ⟨fun {bs rest as} h => ?_⟩
  obtain ⟨⟨n, r⟩, hn, hr⟩ := bind_eq_ok h
  obtain ⟨used, rfl, hle, hmore⟩ := delimited_number.read_ok hn
  obtain ⟨hlen, used', rfl, hle', hmore'⟩ := hf.readMany hr
  refine ⟨used ++ used', (List.append_assoc _ _ _).symm, ?_, fun more => ?_⟩
  · have count : (writeNumber n).length ≤ used.length := hle
    simp only [Format.list, hlen, UInt64.ofNat_toNat, List.length_append]
    omega
  · have again : readNumber (used ++ (used' ++ more)) = .ok (n, used' ++ more) := hmore _
    simp only [Format.list, List.append_assoc, again, bind, Except.bind, hmore']

end Delimited

/-- **What is composed is delimited.** -/
theorem Composed.delimited (h : f.Composed) : f.Delimited := by
  induction h with
  | number => exact delimited_number
  | word32 => exact delimited_word32
  | word256 => exact delimited_word256
  | octets => exact delimited_octets
  | text => exact delimited_text
  | seq _ _ ihf ihg => exact ihf.seq ihg
  | iso _ _ hinto ih => exact ih.iso hinto
  | option _ ih => exact ih.option
  | list _ ih => exact ih.list

/-! ## Packets -/

/-- The fields of a kind take no fewer octets than they are written with. -/
theorem delimited_fields {kind : UInt32} {bs rest : Bytes} {p : Packet} (h : readFields kind bs = .ok (p, rest)) :
    ∃ used, bs = used ++ rest ∧ (packet.write p).length ≤ used.length + 1 ∧
      ∀ more, readFields kind (used ++ more) = .ok (p, more) := by
  obtain ⟨k, _, f, wrap, fields, rfl⟩ := fields_of_read h
  rw [fields.read_eq] at h ⊢
  obtain ⟨⟨m, r⟩, hm, h⟩ := map_eq_ok h
  obtain ⟨rfl, rfl⟩ := Prod.mk.inj h
  obtain ⟨used, rfl, hle, hmore⟩ := fields.composed.delimited.read_ok hm
  refine ⟨used, rfl, ?_, fun more => ?_⟩
  · rw [fields.write_eq]
    exact Nat.succ_le_succ hle
  · simp only [hmore, Except.map]

/-- **The packet format is delimited**, for all ten kinds, also where the kind is in a wider form. -/
theorem delimited_packet : packet.Delimited := by
  refine ⟨fun {bs rest p} h => ?_⟩
  obtain ⟨⟨kind, r⟩, hk, hfields⟩ := bind_eq_ok h
  obtain ⟨used, rfl, hle, hmore⟩ := delimited_word32.read_ok hk
  obtain ⟨used', rfl, hle', hmore'⟩ := delimited_fields hfields
  have one : 0 < (word32.write kind).length := faithful_word32.write_pos kind
  refine ⟨used ++ used', (List.append_assoc _ _ _).symm, ?_, fun more => ?_⟩
  · rw [List.length_append]
    exact Nat.le_trans hle' (by omega)
  · simp only [packet, readPacket, List.append_assoc, hmore, bind, Except.bind, hmore']

/-! ## Hops -/

theorem length_word32_mono {m n : UInt32} (h : m ≤ n) : (word32.write m).length ≤ (word32.write n).length :=
  length_writeNumber_mono (UInt32.le_iff_toNat_le.1 h)

theorem length_write_withHopLimit {p : Packet} {h h' : UInt32} (hp : p.hopLimit? = some h) (hle : h' ≤ h) :
    (packet.write (p.withHopLimit h')).length ≤ (packet.write p).length := by
  have fewer := length_word32_mono hle
  cases p with
  | private_ m | dataRequest m | dataReply m | searchReply m | ack m =>
    obtain rfl : m.hopLimit = h := Option.some.inj hp
    simp only [packet, writePacket, Packet.withHopLimit, privateMessage, dataRequest, dataReply, searchReply, ack,
      Format.iso, Format.seq, List.length_cons, List.length_append]
    omega
  | _ => cases hp

/-- A packet that has spent a hop is not longer. -/
theorem length_write_spendHop (p : Packet) : (packet.write p.spendHop.2).length ≤ (packet.write p).length := by
  unfold Packet.spendHop
  split
  · rename_i h hp
    refine length_write_withHopLimit hp ?_
    split
    · exact UInt32.zero_le
    · rename_i positive
      rw [UInt32.le_iff_toNat_le, UInt32.toNat_sub_of_le]
      · exact Nat.sub_le _ _
      · rw [UInt32.le_iff_toNat_le]
        exact Nat.pos_of_ne_zero fun hz => positive (UInt32.toNat_inj.1 hz)
  · exact Nat.le_refl _

end Format

/-! ## Datagrams -/

/-- The packet has a datagram. -/
def Sendable (p : Packet) : Prop := ∃ d, encode p = .ok d

theorem sendable_iff {p : Packet} : Sendable p ↔ (Format.packet.write p).length + 1 ≤ maxSize :=
  ⟨fun ⟨_, h⟩ => (encode_eq_ok_iff.1 h).1, fun hfit => ⟨_, encode_eq_ok_iff.2 ⟨hfit, rfl⟩⟩⟩

instance (p : Packet) : Decidable (Sendable p) := decidable_of_iff' _ sendable_iff

theorem read_of_decode {b : Bytes} {p : Packet} (h : decode b = .ok p) :
    ∃ v body, b = v :: body ∧ b.length ≤ maxSize ∧ Format.packet.read body = .ok (p, []) := by
  cases b with
  | nil => cases h
  | cons v body =>
    rw [decode] at h
    split at h
    · cases h
    rename_i hfit
    split at h
    · cases h
    split at h
    · cases h
    · cases h
    · rename_i hread
      obtain rfl := Except.ok.inj h
      exact ⟨v, body, rfl, Nat.le_of_not_lt hfit, hread⟩

/-- **What is not longer than a packet that decodes can be encoded**, in no more octets than were decoded. -/
theorem encode_of_decode {b : Bytes} {p q : Packet} (h : decode b = .ok p)
    (short : (Format.packet.write q).length ≤ (Format.packet.write p).length) :
    ∃ d, encode q = .ok d ∧ d.length ≤ b.length := by
  obtain ⟨v, body, rfl, hfit, hread⟩ := read_of_decode h
  obtain ⟨used, rfl, hle, -⟩ := Format.delimited_packet.read_ok hread
  rw [List.append_nil] at hfit ⊢
  have total : (Format.packet.write q).length + 1 ≤ (v :: used).length := Nat.succ_le_succ (Nat.le_trans short hle)
  exact ⟨_, encode_eq_ok_iff.2 ⟨Nat.le_trans total hfit, rfl⟩, total⟩

/-- The packet is that of a datagram. -/
def Decoded (p : Packet) : Prop := ∃ b, decode b = .ok p

/-- **The packets of datagrams are those that have datagrams.** -/
theorem decoded_iff {p : Packet} : Decoded p ↔ Sendable p := by
  constructor
  · rintro ⟨b, h⟩
    obtain ⟨d, hd, -⟩ := encode_of_decode h (Nat.le_refl _)
    exact ⟨d, hd⟩
  · rintro ⟨d, h⟩
    exact ⟨d, decode_of_encode h⟩

instance (p : Packet) : Decidable (Decoded p) := decidable_of_iff' _ decoded_iff

theorem Sendable.spendHop {p : Packet} (h : Sendable p) : Sendable p.spendHop.2 :=
  sendable_iff.2 (Nat.le_trans (Nat.succ_le_succ (Format.length_write_spendHop p)) (sendable_iff.1 h))

end GossipNode.Wire
