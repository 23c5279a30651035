import GossipNode.Proofs.Wire.Readings
/-!
# Datagrams that are cut short or padded

A reader that has taken octets takes no fewer of them: of a first part of what it read, either it takes the same octets,
or it finds that they end too early (`Format.Halts`).  So no first part of a datagram is a datagram, and as a reader also
takes the same octets whatever follows, neither is anything longer (`datagrams_delimit_themselves`).
-/
namespace GossipNode.Wire

/-- The octets end too early. -/
def Fault.isCut : Fault → Bool
  | cut | textCut => true
  | _ => false

/-- **What becomes of a first part** of octets that read as `a` with a rest: the reader runs out of octets, or it has all
that it used and less is left. -/
inductive Format.Halt {α : Type} (read : Bytes → Except Fault (α × Bytes)) (bs : Bytes) (a : α) (rest part : Bytes) : Prop
  where
  | short {e : Fault} (h : read part = .error e) (cut : e.isCut = true)
  | whole {used left : Bytes} (bs_eq : bs = used ++ rest) (part_eq : part = used ++ left) (h : read part = .ok (a, left))

/-- **The law of a reader that stops at the first octet that is missing.** -/
structure Format.Halts {α : Type} (f : Format α) : Prop where
  halt : ∀ {bs rest part : Bytes} {a : α}, f.read bs = .ok (a, rest) → part <+: bs → Format.Halt f.read bs a rest part

namespace Format

variable {α β : Type} {f : Format α} {g : Format β}

/-! ## Numbers -/

theorem takeExactly_part {k : Nat} {bs taken rest part : Bytes} (h : takeExactly k bs = .ok (taken, rest))
    (hpart : part <+: bs) : Halt (takeExactly k) bs taken rest part := by
  obtain ⟨rfl, rfl⟩ := takeExactly_eq_ok h
  by_cases enough : taken.length ≤ part.length
  · obtain ⟨left, rfl⟩ := List.prefix_of_prefix_length_le (List.prefix_append taken rest) hpart enough
    exact .whole rfl rfl (takeExactly_append taken left)
  · exact .short (if_neg enough) rfl

namespace Halt

variable {read : Bytes → Except Fault (α × Bytes)} {bs mid rest part : Bytes} {a : α} {b : β}

theorem map (h : Halt read bs a rest part) (into : α → β) :
    Halt (fun bs => (read bs).map (fun (a, r) => (into a, r))) bs (into a) rest part := by
  cases h with
  | short h cut => exact .short (congrArg (Except.map _) h) cut
  | whole hbs hpart h => exact .whole hbs hpart (congrArg (Except.map _) h)

/-- Nothing is read. -/
theorem nothing (a : α) : Halt (fun bs => .ok (a, bs)) bs a bs part :=
  .whole (List.nil_append bs).symm (List.nil_append part).symm rfl

/-- One octet has been read already. -/
theorem behind {read' : Bytes → Except Fault (α × Bytes)} {octet : UInt8} (h : Halt read bs a rest part)
    (same : ∀ bs, read' (octet :: bs) = read bs) : Halt read' (octet :: bs) a rest (octet :: part) := by
  cases h with
  | short h cut => exact .short ((same part).trans h) cut
  | whole hbs hpart h =>
    rw [← List.cons_inj_right octet, ← List.cons_append] at hbs hpart
    exact .whole hbs hpart ((same part).trans h)

/-- One thing is read after another. -/
theorem bind {next : α × Bytes → Except Fault (β × Bytes)} (h : Halt read bs a mid part) (hpart : part <+: bs)
    (hnext : ∀ {left}, left <+: mid → Halt (fun bs => next (a, bs)) mid b rest left) :
    Halt (fun bs => (read bs).bind next) bs b rest part := by
  cases h with
  | short h cut => exact .short (congrArg (Except.bind · next) h) cut
  | whole hbs heq h =>
    rw [hbs, heq, List.prefix_append_right_inj] at hpart
    have onward := congrArg (Except.bind · next) h
    cases hnext hpart with
    | short h' cut => exact .short (onward.trans h') cut
    | whole hmid hleft h' =>
      rw [hmid, ← List.append_assoc] at hbs
      rw [hleft, ← List.append_assoc] at heq
      exact .whole hbs heq (onward.trans h')

end Halt

theorem halts_fixed {width : Nat} {bs rest part : Bytes} {n : UInt64} (h : readFixed width bs = .ok (n, rest))
    (hpart : part <+: bs) : Halt (readFixed width) bs n rest part := by
  obtain ⟨⟨taken, r⟩, hr, h⟩ := map_eq_ok h
  obtain ⟨rfl, rfl⟩ := Prod.mk.inj h
  exact (takeExactly_part hr hpart).map (fun ds => UInt64.ofNat (ofLittleEndian ds))

theorem halts_number : number.Halts := by
  refine ⟨fun {bs rest part n} h hpart => ?_⟩
  cases bs with
  | nil => cases h
  | cons b r =>
    cases part with
    | nil => exact .short rfl rfl
    | cons b' part =>
      obtain ⟨rfl, onward⟩ := List.cons_prefix_cons.1 hpart
      simp only [number, readNumber] at h ⊢
      split at h
      · rename_i small
        obtain ⟨rfl, rfl⟩ := Prod.mk.inj (Except.ok.inj h)
        exact (Halt.nothing _).behind (fun bs => if_pos small)
      · rename_i large
        split at h
        · subst b'
          exact (halts_fixed h onward).behind (fun bs => rfl)
        · split at h
          · subst b'
            exact (halts_fixed h onward).behind (fun bs => rfl)
          · split at h
            · subst b'
              exact (halts_fixed h onward).behind (fun bs => rfl)
            · split at h <;> cases h

theorem halts_word32 : word32.Halts := by
  refine ⟨fun {bs rest part n} h hpart => ?_⟩
  obtain ⟨⟨k, r⟩, hk, h⟩ := bind_eq_ok h
  refine (halts_number.halt hk hpart).bind hpart (fun {left} _ => ?_)
  dsimp only at h ⊢
  split at h
  · rename_i hfits
    obtain ⟨rfl, rfl⟩ := Prod.mk.inj (Except.ok.inj h)
    simp only [if_pos hfits]
    exact .nothing _
  · cases h

/-! ## Octets and text -/

theorem halts_word256 : word256.Halts := by
  refine ⟨fun {bs rest part w} h hpart => ?_⟩
  obtain ⟨⟨taken, r⟩, hr, h⟩ := bind_eq_ok h
  refine (takeExactly_part hr hpart).bind hpart (fun {left} _ => ?_)
  dsimp only at h ⊢
  split at h
  · obtain ⟨rfl, rfl⟩ := Prod.mk.inj (Except.ok.inj h)
    exact .nothing _
  · cases h

theorem halts_octets : octets.Halts := by
  refine ⟨fun {bs rest part taken} h hpart => ?_⟩
  obtain ⟨⟨n, r⟩, hn, hr⟩ := bind_eq_ok h
  exact (halts_number.halt hn hpart).bind hpart (fun hleft => takeExactly_part hr hleft)

theorem halts_text : text.Halts := by
  refine ⟨fun {bs rest part s} h hpart => ?_⟩
  obtain ⟨⟨n, r⟩, hn, h⟩ := bind_eq_ok h
  refine (halts_number.halt hn hpart).bind hpart (fun {left} hleft => ?_)
  dsimp only at h ⊢
  split at h
  · rename_i hle
    split at h
    · rename_i s' hs
      obtain ⟨rfl, rfl⟩ := Prod.mk.inj (Except.ok.inj h)
      by_cases enough : n.toNat ≤ left.length
      · have same : left.take n.toNat = r.take n.toNat := by
          obtain ⟨more, rfl⟩ := hleft
          exact (List.take_append_of_le_length enough).symm
        refine .whole (List.take_append_drop n.toNat r).symm (same ▸ (List.take_append_drop n.toNat left).symm) ?_
        rw [if_pos enough, same, hs]
      · exact .short (if_neg enough) rfl
    · cases h
  · cases h

/-! ## Combinators -/

namespace Halts

theorem seq (hf : f.Halts) (hg : g.Halts) : (f.seq g).Halts := by
  refine ⟨fun {bs rest part p} h hpart => ?_⟩
  obtain ⟨⟨a, r⟩, ha, h⟩ := bind_eq_ok h
  obtain ⟨⟨b, r'⟩, hb, h⟩ := bind_eq_ok h
  obtain ⟨rfl, rfl⟩ := Prod.mk.inj (Except.ok.inj h)
  exact (hf.halt ha hpart).bind hpart fun hleft => (hg.halt hb hleft).bind hleft fun _ => .nothing (a, b)

theorem iso (hf : f.Halts) (into : α → β) (back : β → α) : (f.iso into back).Halts := by
  refine ⟨fun {bs rest part b} h hpart => ?_⟩
  obtain ⟨⟨a, r⟩, ha, h⟩ := map_eq_ok h
  obtain ⟨rfl, rfl⟩ := Prod.mk.inj h
  exact (hf.halt ha hpart).map into

theorem option (hf : f.Halts) : (option f).Halts := by
  refine ⟨fun {bs rest part o} h hpart => ?_⟩
  cases bs with
  | nil => cases h
  | cons b r =>
    cases part with
    | nil => exact .short rfl rfl
    | cons b' part =>
      obtain ⟨rfl, onward⟩ := List.cons_prefix_cons.1 hpart
      simp only [Format.option] at h ⊢
      split at h
      · subst b'
        obtain ⟨rfl, rfl⟩ := Prod.mk.inj (Except.ok.inj h)
        exact (Halt.nothing _).behind (fun bs => rfl)
      · split at h
        · subst b'
          obtain ⟨⟨a, r'⟩, ha, h⟩ := map_eq_ok h
          obtain ⟨rfl, rfl⟩ := Prod.mk.inj h
          exact ((hf.halt ha onward).map some).behind (fun bs => rfl)
        · cases h

theorem readMany (hf : f.Halts) : ∀ {k : Nat} {bs rest part : Bytes} {as : List α},
    readMany f k bs = .ok (as, rest) → part <+: bs → Halt (Format.readMany f k) bs as rest part := by
  intro k
  induction k with
  | zero =>
    intro bs rest part as h _
    obtain ⟨rfl, rfl⟩ := Prod.mk.inj (Except.ok.inj h)
    exact .nothing []
  | succ k ih =>
    intro bs rest part as h hpart
    obtain ⟨⟨a, r⟩, ha, h⟩ := bind_eq_ok h
    obtain ⟨⟨as', r'⟩, has, h⟩ := bind_eq_ok h
    obtain ⟨rfl, rfl⟩ := Prod.mk.inj (Except.ok.inj h)
    exact (hf.halt ha hpart).bind hpart fun hleft => (ih has hleft).bind hleft fun _ => .nothing (a :: as')

theorem list (hf : f.Halts) : (list f).Halts := by
  refine ⟨fun {bs rest part as} h hpart => ?_⟩
  obtain ⟨⟨n, r⟩, hn, hr⟩ := bind_eq_ok h
  exact (halts_number.halt hn hpart).bind hpart (fun hleft => hf.readMany hr hleft)

end Halts

/-- **What is composed stops at the first octet that is missing.** -/
theorem Composed.halts (h : f.Composed) : f.Halts := by
  induction h with
  | number => exact halts_number
  | word32 => exact halts_word32
  | word256 => exact halts_word256
  | octets => exact halts_octets
  | text => exact halts_text
  | seq _ _ ihf ihg => exact ihf.seq ihg
  | iso _ _ _ ih => exact ih.iso _ _
  | option _ ih => exact ih.option
  | list _ ih => exact ih.list

/-! ## Packets -/

theorem halts_fields {kind : UInt32} {bs rest part : Bytes} {p : Packet} (h : readFields kind bs = .ok (p, rest))
    (hpart : part <+: bs) : Halt (readFields kind) bs p rest part := by
  obtain ⟨k, _, f, wrap, fields, rfl⟩ := fields_of_read h
  rw [fields.read_eq] at h ⊢
  obtain ⟨⟨m, r⟩, hm, h⟩ := map_eq_ok h
  obtain ⟨rfl, rfl⟩ := Prod.mk.inj h
  exact (fields.composed.halts.halt hm hpart).map wrap

/-- **The packet format halts where octets are missing**, for all ten kinds. -/
theorem halts_packet : packet.Halts := by
  refine ⟨fun {bs rest part p} h hpart => ?_⟩
  obtain ⟨⟨kind, r⟩, hk, hfields⟩ := bind_eq_ok h
  exact (halts_word32.halt hk hpart).bind hpart (fun hleft => halts_fields hfields hleft)

end Format

/-! ## Datagrams -/

theorem compatible_of_decode {v : UInt8} {body : Bytes} {p : Packet} (h : decode (v :: body) = .ok p) :
    isCompatible v = true := by
  rw [decode] at h
  split at h
  · cases h
  split at h
  · cases h
  · rename_i compatible
    simpa using compatible

/-- What is said of octets of a version that is understood, if they are not too many. -/
theorem decode_of_fits {v : UInt8} {body : Bytes} (fits : (v :: body).length ≤ maxSize)
    (compatible : isCompatible v = true) : decode (v :: body) =
      match Format.packet.read body with
      | .error f => .error (.malformed f)
      | .ok (_, _ :: _) => .error (.malformed .trailing)
      | .ok (p, []) => .ok p := by
  rw [decode, if_neg (Nat.not_lt_of_le fits)]
  exact if_neg (by simp [compatible])

theorem decode_of_short {v : UInt8} {body part : Bytes} {p : Packet} (h : decode (v :: body) = .ok p)
    (short : part <+: body) (ne : part ≠ body) :
    ∃ f, decode (v :: part) = .error (.malformed f) ∧ f.isCut = true := by
  obtain ⟨_, _, he, hfit, hread⟩ := read_of_decode h
  obtain ⟨rfl, rfl⟩ := List.cons.inj he
  have fits : (v :: part).length ≤ maxSize := Nat.le_trans (Nat.succ_le_succ short.length_le) hfit
  rw [decode_of_fits fits (compatible_of_decode h)]
  cases Format.halts_packet.halt hread short with
  | @short f hpart cut =>
    rw [hpart]
    exact ⟨f, rfl, cut⟩
  | @whole used left hbody hpart =>
    rw [List.append_nil] at hbody
    subst hbody hpart
    have none : left = [] := List.prefix_nil.1 ((List.prefix_append_right_inj body).1 (by rwa [List.append_nil]))
    rw [none, List.append_nil] at ne
    exact absurd rfl ne

theorem decode_of_padded {v : UInt8} {body more : Bytes} {p : Packet} (h : decode (v :: body) = .ok p) (some : more ≠ [])
    (fits : (v :: (body ++ more)).length ≤ maxSize) : decode (v :: (body ++ more)) = .error (.malformed .trailing) := by
  obtain ⟨_, _, he, -, hread⟩ := read_of_decode h
  obtain ⟨rfl, rfl⟩ := List.cons.inj he
  obtain ⟨used, hbody, -, again⟩ := Format.delimited_packet.read_ok hread
  rw [List.append_nil] at hbody
  rw [decode_of_fits fits (compatible_of_decode h), hbody, again]
  obtain ⟨x, xs, rfl⟩ := List.exists_cons_of_ne_nil some
  rfl

/-- **Datagrams delimit themselves.**  Of a datagram that is accepted, a first part is refused because it is empty or
because it ends too early, and with more octets behind it it is refused because of these, or because it has become too
long. -/
theorem datagrams_delimit_themselves {b : Bytes} {p : Packet} (h : decode b = .ok p) :
    (∀ part, part <+: b → part ≠ b →
      part = [] ∧ decode part = .error .empty ∨ ∃ f, decode part = .error (.malformed f) ∧ f.isCut = true) ∧
    (∀ more, more ≠ [] → decode (b ++ more) =
      .error (if maxSize < (b ++ more).length then .tooLarge (b ++ more).length else .malformed .trailing)) := by
  obtain ⟨v, body, rfl, -, -⟩ := read_of_decode h
  refine ⟨fun part short ne => ?_, fun more some => ?_⟩
  · cases part with
    | nil => exact .inl ⟨rfl, rfl⟩
    | cons w part =>
      obtain ⟨rfl, less⟩ := List.cons_prefix_cons.1 short
      exact .inr (decode_of_short h less fun same => ne (congrArg (w :: ·) same))
  · rw [List.cons_append]
    by_cases long : maxSize < (v :: (body ++ more)).length
    · rw [if_pos long, decode, if_pos long]
    · rw [if_neg long]
      exact decode_of_padded h some (Nat.le_of_not_lt long)

/-- A proposal with a number in a wide form, a confirmed one and a report: cut inside its text, cut before the last octet,
and twice in one datagram. -/
theorem datagrams_delimit_themselves_proposal :
    let b : Bytes := [1, 7, 1, 97, 251, 44, 1, 1, 7] ++ List.replicate 32 0 ++
      [2, 195, 169, 1, 1, 0, 1, 1, 1, 98, 2]
    ∃ p, decode b = .ok p ∧ (∃ f, decode (b.take 43) = .error (.malformed f) ∧ f.isCut = true) ∧
      (∃ f, decode (b.take 51) = .error (.malformed f) ∧ f.isCut = true) ∧
      decode (b ++ b) = .error (.malformed .trailing) := by
  intro b
  let p : Packet := .proposal ⟨⟨"a"⟩, 300, some 7, Word256.zero, ⟨"é", 1, [0]⟩, some ⟨[⟨⟨"b"⟩, 2⟩]⟩⟩
  have read : decode b = .ok p := decode_of_encode (encode_eq_ok_iff.2 ⟨by decide +kernel, by decide +kernel⟩)
  obtain ⟨short, padded⟩ := datagrams_delimit_themselves read
  have cut (k : Nat) (hk : k < 52) (pos : b.take k ≠ []) : ∃ f, decode (b.take k) = .error (.malformed f) ∧ f.isCut = true :=
    (short (b.take k) (List.take_prefix k b) (fun same => by
      have := congrArg List.length same
      rw [List.length_take_of_le (Nat.le_of_lt hk)] at this
      exact absurd this (Nat.ne_of_lt hk))).resolve_left (fun h => pos h.1)
  refine ⟨p, read, cut 43 (by decide) (by decide), cut 51 (by decide) (by decide), ?_⟩
  rw [padded b (by decide)]
  rfl

end GossipNode.Wire
