import Mathlib.Algebra.Group.Nat.Defs
import GossipNode.SocketAddress
import GossipNode.Proofs.Number.Numerals
/-!
# The parts of an address

Numerals, dotted quads and groups read back in front of what follows them in an address.  A numeral ends at the first
character that is no hexadecimal digit (`EndsNumeral`), and what follows a group begins with no dot either (`EndsGroup`), so
that a group is not taken for the first octet of a quad.  How a list of groups goes on after some groups is left open
(`readGroups_append`): they may end there, or a quad may follow.
-/
namespace GossipNode.SocketAddress

open Number

/-! ## Numerals -/

/-- What follows a numeral. -/
def EndsNumeral (rest : List Char) : Prop := ∀ c ∈ rest.head?, isDigit 16 c = false

theorem endsNumeral_nil : EndsNumeral [] := nofun

theorem endsNumeral_cons {c : Char} (h : isDigit 16 c = false) (rest : List Char) : EndsNumeral (c :: rest) :=
  fun c' hc => by rwa [← Option.some.inj hc]

theorem isDigit_eq_false {radix : Nat} (high : radix ≤ 16) {c : Char} (h : isDigit 16 c = false) :
    isDigit radix c = false := by
  unfold isDigit digitValue? at h ⊢
  cases value : hexValue? c with
  | none => rfl
  | some d =>
    rw [value, Option.filter_some] at h
    rw [Option.filter_some]
    split at h
    · cases h
    · rename_i big
      rw [if_neg]
      · rfl
      · simp only [decide_eq_true_eq] at big ⊢
        omega

section

variable {radix : Nat} {rest : List Char}

theorem EndsNumeral.takeWhile (h : EndsNumeral rest) (high : radix ≤ 16) : rest.takeWhile (isDigit radix) = [] := by
  cases rest with
  | nil => rfl
  | cons c rest => rw [List.takeWhile_cons, isDigit_eq_false high (h c rfl), if_neg Bool.false_ne_true]

theorem EndsNumeral.dropWhile (h : EndsNumeral rest) (high : radix ≤ 16) : rest.dropWhile (isDigit radix) = rest := by
  cases rest with
  | nil => rfl
  | cons c rest => rw [List.dropWhile_cons, isDigit_eq_false high (h c rfl), if_neg Bool.false_ne_true]

end

/-- Every number below the bound has few enough digits. -/
structure NumeralForm.Roomy (f : NumeralForm) : Prop where
  low : 1 < f.radix
  high : f.radix ≤ 16
  room : ∀ m ∈ f.maxDigits, 0 < m ∧ f.bound ≤ f.radix ^ m

theorem roomy_octetForm : octetForm.Roomy := ⟨by decide, by decide, by simp [octetForm, UInt8.size]⟩

theorem roomy_groupForm : groupForm.Roomy := ⟨by decide, by decide, by simp [groupForm, UInt16.size]⟩

theorem roomy_portForm : portForm.Roomy := ⟨by decide, by decide, nofun⟩

theorem roomy_scopeForm : scopeForm.Roomy := ⟨by decide, by decide, nofun⟩

section

variable {f : NumeralForm} {rest : List Char}

/-- **A numeral reads back** as the number it was written for. -/
theorem NumeralForm.Roomy.readNumeral_numeral (hf : f.Roomy) {n : Nat} (hn : n < f.bound) (hrest : EndsNumeral rest) :
    readNumeral f (numeral f.radix n ++ rest) = some (n, rest) := by
  have digits := isDigit_of_mem_numeral hf.low hf.high n
  have nonempty : (numeral f.radix n).isEmpty = false := List.isEmpty_eq_false_iff.2 numeral_ne_nil
  have few : f.maxDigits.any (fun m => decide (m < (numeral f.radix n).length)) = false := by
    cases hm : f.maxDigits with
    | none => rfl
    | some m =>
      obtain ⟨pos, bound⟩ := hf.room m hm
      have := (Nat.length_toDigits_le_iff hf.low pos).2 (Nat.lt_of_lt_of_le hn bound)
      exact decide_eq_false (Nat.not_lt.2 this)
  have plain : (numeral f.radix n).head? = some '0' → ¬ (numeral f.radix n).length > 1 := by
    intro zero
    rcases Nat.eq_zero_or_pos n with rfl | pos
    · rw [numeral, Nat.toDigits_zero]
      decide
    · exact absurd zero (head?_numeral hf.low n pos)
  unfold readNumeral
  rw [List.takeWhile_append_of_pos digits, List.dropWhile_append_of_pos digits, hrest.takeWhile hf.high,
    hrest.dropWhile hf.high, List.append_nil]
  simp only [ofDigits_numeral hf.low hf.high, nonempty, few, Bool.false_or, Bool.or_eq_true, Bool.and_eq_true,
    decide_eq_true_eq, Nat.not_le.2 hn, or_false]
  rw [if_neg (fun h => plain h.1.2 h.2)]

/-- No numeral is read where none begins. -/
theorem NumeralForm.Roomy.readNumeral_eq_none (hf : f.Roomy) (hrest : EndsNumeral rest) : readNumeral f rest = none := by
  rw [readNumeral, hrest.takeWhile hf.high]
  rfl

end

/-! ## Quads -/

section

variable {rest : List Char}

theorem readOctet_numeral (o : UInt8) (hrest : EndsNumeral rest) :
    readOctet (numeral 10 o.toNat ++ rest) = some (o, rest) := by
  have read := roomy_octetForm.readNumeral_numeral o.toNat_lt hrest
  rw [readOctet, show readNumeral octetForm (numeral 10 o.toNat ++ rest) = _ from read]
  simp

theorem readOctet_eq_none (hrest : EndsNumeral rest) : readOctet rest = none := by
  rw [readOctet, roomy_octetForm.readNumeral_eq_none hrest]
  rfl

/-- **A quad reads back.** -/
theorem readQuad_writeQuad (q : Ipv4) (hrest : EndsNumeral rest) : readQuad (writeQuad q ++ rest) = some (q, rest) := by
  have dot (r : List Char) : EndsNumeral ('.' :: r) := endsNumeral_cons (by decide) r
  simp [readQuad, writeQuad, readChar, readOctet_numeral, dot, hrest]

theorem readQuad_eq_none (hrest : EndsNumeral rest) : readQuad rest = none := by
  rw [readQuad, readOctet_eq_none hrest]
  rfl

end

/-! ## Groups -/

/-- What follows a group. -/
def EndsGroup (rest : List Char) : Prop := ∀ c ∈ rest.head?, isDigit 16 c = false ∧ c ≠ '.'

section

variable {rest : List Char}

theorem EndsGroup.endsNumeral (h : EndsGroup rest) : EndsNumeral rest := fun c hc => (h c hc).1

theorem endsGroup_colon (rest : List Char) : EndsGroup (':' :: rest) := fun c hc => by
  rw [← Option.some.inj hc]
  decide

theorem head?_dropWhile_append {p : Char → Bool} {l : List Char} {c : Char}
    (h : ((l ++ rest).dropWhile p).head? = some c) : c ∈ l ∨ (rest.dropWhile p).head? = some c := by
  rw [List.dropWhile_append] at h
  split at h
  · exact .inr h
  · rename_i left
    cases hl : l.dropWhile p with
    | nil => simp [hl] at left
    | cons c' l' =>
      rw [hl] at h
      refine .inl ((List.dropWhile_sublist p).subset ?_)
      rw [hl, ← Option.some.inj h]
      exact List.mem_cons_self

/-- A group is not the first octet of a quad. -/
theorem readQuad_group (g : UInt16) (hrest : EndsGroup rest) : readQuad (numeral 16 g.toNat ++ rest) = none := by
  cases octet : readOctet (numeral 16 g.toNat ++ rest) with
  | none =>
    rw [readQuad, octet]
    rfl
  | some p =>
    have left : p.2 = (numeral 16 g.toNat ++ rest).dropWhile (isDigit 10) := by
      unfold readOctet readNumeral at octet
      dsimp only at octet
      split at octet
      · cases octet
      · cases octet
        rfl
    -- what is left after the decimal digits begins inside the group or behind it, and neither place has a dot
    have noDot : readChar '.' p.2 = none := by
      cases hp : p.2 with
      | nil => rfl
      | cons c r =>
        refine if_neg ?_
        rintro rfl
        rw [hp] at left
        rcases head?_dropWhile_append (congrArg List.head? left).symm with digit | after
        · exact absurd (isDigit_of_mem_numeral (by decide) (by decide) _ _ digit) (by decide)
        · rw [hrest.endsNumeral.dropWhile (by decide)] at after
          exact (hrest '.' after).2 rfl
    rw [readQuad, octet]
    simp [noDot]

theorem readNumeral_group (g : UInt16) (hrest : EndsGroup rest) :
    readNumeral groupForm (numeral 16 g.toNat ++ rest) = some (g.toNat, rest) :=
  roomy_groupForm.readNumeral_numeral g.toNat_lt hrest.endsNumeral

/-- Groups with colons between them, and one before the first if others come before it. -/
def groupsText (first : Bool) : List UInt16 → List Char
  | [] => []
  | g :: gs => (if first then [] else [':']) ++ numeral 16 g.toNat ++ groupsText false gs

theorem writeGroups_eq (gs : List UInt16) : writeGroups gs = groupsText true gs := by
  have more (gs : List UInt16) (g : UInt16) : writeGroups (g :: gs) = numeral 16 g.toNat ++ groupsText false gs := by
    induction gs generalizing g with
    | nil => simp [writeGroups, groupsText]
    | cons g' gs ih =>
      have colon : writeGroups (g :: g' :: gs) = numeral 16 g.toNat ++ [':'] ++ writeGroups (g' :: gs) :=
        List.intercalate_cons_cons
      rw [colon, ih]
      simp [groupsText]
  cases gs with
  | nil => rfl
  | cons g gs => exact more gs g

theorem endsGroup_groupsText {gs : List UInt16} (hrest : EndsGroup rest) : EndsGroup (groupsText false gs ++ rest) := by
  cases gs with
  | nil => exact hrest
  | cons g gs => exact endsGroup_colon _

/-- Where the next group is read. -/
def afterColon (first : Bool) (cs : List Char) : Option (List Char) := if first then some cs else readChar ':' cs

theorem readGroups_succ (first : Bool) (room : Nat) (cs : List Char) : readGroups first (room + 1) cs =
    match (if room = 0 then none else afterColon first cs >>= readQuad) with
    | some (q, r) => (quadGroups q, true, r)
    | none =>
      match afterColon first cs >>= readNumeral groupForm with
      | some (g, r) =>
        let (gs, quad, r') := readGroups false room r
        (UInt16.ofNat g :: gs, quad, r')
      | none => ([], false, cs) := rfl

theorem readGroups_stop {first : Bool} {cs : List Char} (h : ∀ r ∈ afterColon first cs, EndsNumeral r) (room : Nat) :
    readGroups first room cs = ([], false, cs) := by
  cases room with
  | zero => rfl
  | succ room =>
    rw [readGroups_succ]
    cases next : afterColon first cs with
    | none => simp
    | some r =>
      have ends := h r next
      simp [readQuad_eq_none ends, roomy_groupForm.readNumeral_eq_none ends]

theorem readGroups_group {first : Bool} {room : Nat} {cs : List Char} {g : UInt16} (hrest : EndsGroup rest)
    (next : afterColon first cs = some (numeral 16 g.toNat ++ rest)) :
    readGroups first (room + 1) cs =
      (g :: (readGroups false room rest).1, (readGroups false room rest).2) := by
  rw [readGroups_succ, next]
  simp [readQuad_group g hrest, readNumeral_group g hrest]

/-- **Groups read back**, and the reader goes on with what follows. -/
theorem readGroups_append {gs : List UInt16} (hrest : EndsGroup rest) (first : Bool) {room : Nat} (h : gs.length ≤ room) :
    readGroups first room (groupsText first gs ++ rest) =
      let more := readGroups (first && gs.isEmpty) (room - gs.length) rest
      (gs ++ more.1, more.2) := by
  induction gs generalizing first room with
  | nil => simp [groupsText]
  | cons g gs ih =>
    obtain ⟨room, rfl⟩ : ∃ k, room = k + 1 := ⟨room - 1, by simp only [List.length_cons] at h; omega⟩
    have next : afterColon first (groupsText first (g :: gs) ++ rest) =
        some (numeral 16 g.toNat ++ (groupsText false gs ++ rest)) := by
      cases first <;> simp [afterColon, groupsText, readChar]
    rw [readGroups_group (endsGroup_groupsText hrest) next, ih false (by simpa using h)]
    simp

end

end GossipNode.SocketAddress
