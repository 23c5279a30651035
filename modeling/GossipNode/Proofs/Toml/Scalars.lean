import GossipNode.Toml.Scalar
import GossipNode.Proofs.Number.Numerals
/-!
# Scalars at the end of a line

A line break ends every number: a reader makes of the rest of a line what it makes of it alone, whatever the lines below
say (`EndsAtBreak`).  So a number that reads back as a text of its own reads back as the value of a key.  A decimal
numeral reads back as its number.
-/
namespace GossipNode.Toml.Scalar

open Number

/-! ## What a line break ends -/

/-- A reader that a line break stops. -/
def EndsAtBreak {α : Type} (f : List Char → Option (α × List Char)) : Prop :=
  ∀ cs below, f (cs ++ '\n' :: below) = (f cs).map (fun p => (p.1, p.2 ++ '\n' :: below))

theorem EndsAtBreak.bind {α β : Type} {f : List Char → Option (α × List Char)}
    {g : α → List Char → Option (β × List Char)} (hf : EndsAtBreak f) (hg : ∀ a, EndsAtBreak (g a)) :
    EndsAtBreak (fun cs => f cs >>= fun p => g p.1 p.2) := by
  intro cs below
  simp only [hf cs below]
  cases f cs with
  | none => rfl
  | some p => exact hg p.1 p.2 below

theorem EndsAtBreak.orElse {α : Type} {f g : List Char → Option (α × List Char)} (hf : EndsAtBreak f)
    (hg : EndsAtBreak g) : EndsAtBreak (fun cs => f cs <|> g cs) := by
  intro cs below
  simp only [hf cs below, hg cs below]
  cases f cs <;> rfl

/-- What reads nothing more. -/
theorem endsAtBreak_map {α β : Type} (x : Option α) (h : α → β) : EndsAtBreak (fun r => x >>= fun a => some (h a, r)) := by
  intro cs below
  cases x <;> rfl

/-! ## Digits -/

theorem isDigit_break (radix : Nat) : isDigit radix '\n' = false := by
  simp [isDigit, digitValue?, show hexValue? '\n' = none by decide]

theorem isDigit_underscore (radix : Nat) : isDigit radix '_' = false := by
  simp [isDigit, digitValue?, show hexValue? '_' = none by decide]

theorem ne_of_isDigit {radix : Nat} {c a : Char} (hc : isDigit radix c = true) (ha : isDigit radix a = false) : c ≠ a :=
  fun h => by simp [h, ha] at hc

theorem digits_cons {radix : Nat} {c : Char} (h : isDigit radix c = true) (r : List Char) :
    digits radix (c :: r) = (c :: (digits radix r).1, (digits radix r).2) := by
  rw [digits]
  · simp [h]
  · exact fun _ _ hc _ => ne_of_isDigit h (isDigit_underscore radix) hc

theorem digits_of_all {radix : Nat} :
    ∀ {ds : List Char}, (∀ c ∈ ds, isDigit radix c = true) → digits radix ds = (ds, [])
  | [], _ => rfl
  | c :: ds, h => by
    rw [digits_cons (h c List.mem_cons_self), digits_of_all (fun c hc => h c (List.mem_cons_of_mem _ hc))]

theorem digits1_of_all {radix : Nat} {c : Char} {ds : List Char} (h : ∀ a ∈ c :: ds, isDigit radix a = true) :
    digits1 radix (c :: ds) = some (c :: ds, []) := by
  rw [digits1, if_pos (h c List.mem_cons_self), digits_of_all (fun c hc => h c (List.mem_cons_of_mem _ hc))]

theorem digits_break (radix : Nat) (cs below : List Char) :
    digits radix (cs ++ '\n' :: below) = ((digits radix cs).1, (digits radix cs).2 ++ '\n' :: below) := by
  fun_induction digits radix cs with
  | case1 => simp [digits, isDigit_break]
  | case2 c r hc ds rest hds ih => simp [digits, hc, ih, hds]
  | case3 c r hc => simp [digits, hc]
  | case4 c r _ hc ds rest hds ih => rw [List.cons_append, digits_cons hc, ih, hds]
  | case5 c r hsingle hc =>
    cases r with
    | nil =>
      -- an underscore at the end of the line has the line break after it, which is no digit either
      by_cases hunderscore : c = '_'
      · simp [digits, hunderscore, isDigit_break]
      · simp [digits, hunderscore, hc]
    | cons a r =>
      rw [List.cons_append, digits]
      · simp [hc]
      · exact fun _ _ hunderscore _ => hsingle _ _ hunderscore rfl

theorem endsAtBreak_digits1 (radix : Nat) : EndsAtBreak (digits1 radix) := by
  intro cs below
  cases cs with
  | nil => simp [digits1, isDigit_break]
  | cons c r => by_cases hc : isDigit radix c <;> simp [digits1, hc, digits_break]

theorem endsAtBreak_fixed (n : Nat) : EndsAtBreak (fixed n) := by
  intro cs below
  by_cases h : n ≤ cs.length
  · simp only [fixed, List.take_append_of_le_length h, List.drop_append_of_le_length h]
    split <;> simp
  · have hbreak : '\n' ∈ (cs ++ '\n' :: below).take n := by
      rw [List.take_append, List.mem_append]
      obtain ⟨k, hk⟩ : ∃ k, n - cs.length = k + 1 := ⟨n - cs.length - 1, by omega⟩
      exact .inr (by simp [hk])
    have hno : ((cs ++ '\n' :: below).take n).all (isDigit 10) = false :=
      List.all_eq_false.2 ⟨_, hbreak, by simp [isDigit_break]⟩
    simp [fixed, hno]
    omega

/-! ## Numbers -/

theorem sign_break (cs below : List Char) :
    sign (cs ++ '\n' :: below) = ((sign cs).1, (sign cs).2 ++ '\n' :: below) := by
  cases cs with
  | nil => rfl
  | cons c r =>
    simp only [sign, List.cons_append]
    split <;> simp_all

theorem endsAtBreak_wholeDigits : EndsAtBreak wholeDigits := by
  intro cs below
  cases cs with
  | nil => exact endsAtBreak_digits1 10 [] below
  | cons c r =>
    by_cases hc : c = '0'
    · simp [wholeDigits, hc]
    · simpa [wholeDigits, hc] using endsAtBreak_digits1 10 (c :: r) below

theorem endsAtBreak_fraction : EndsAtBreak fraction := by
  intro cs below
  cases cs with
  | nil => rfl
  | cons c r => by_cases hc : c = '.' <;> simp [fraction, hc, endsAtBreak_digits1 10 _ below]

theorem endsAtBreak_exponent : EndsAtBreak exponent := by
  intro cs below
  cases cs with
  | nil => simp [exponent]
  | cons c r =>
    by_cases hc : c = 'e' ∨ c = 'E'
    · simp only [exponent, List.cons_append, sign_break, endsAtBreak_digits1 10 _ below]
      cases digits1 10 (sign r).2 <;> simp [hc]
    · simp [exponent, hc]

theorem endsAtBreak_decimal : EndsAtBreak decimal := by
  intro cs below
  simp only [decimal, sign_break, endsAtBreak_wholeDigits _ below]
  cases wholeDigits (sign cs).2 with
  | none => rfl
  | some whole =>
    simp only [Option.map_some, Option.bind_eq_bind, Option.bind_some, endsAtBreak_fraction _ below]
    cases fraction whole.2 with
    | none =>
      simp only [Option.map_none, endsAtBreak_exponent _ below]
      cases exponent whole.2 with
      | none => rfl
      | some power =>
        simp only [Option.map_some, Option.bind_some]
        split <;> rfl
    | some places =>
      simp only [Option.map_some, endsAtBreak_exponent _ below]
      cases exponent places.2 with
      | none =>
        simp only [Option.map_none]
        split <;> rfl
      | some power =>
        simp only [Option.map_some]
        split <;> rfl

theorem endsAtBreak_special : EndsAtBreak special := by
  intro cs below
  simp only [special, sign_break]
  rcases (sign cs).2 with _ | ⟨a, _ | ⟨b, _ | ⟨c, r⟩⟩⟩
  · simp
  · simp
  · simp
  · simp only [List.cons_append]
    split
    · simp_all
    · simp_all
    · split <;> simp_all

theorem endsAtBreak_integer : EndsAtBreak integer := by
  have hradixed : ∀ radix, EndsAtBreak (fun r => digits1 radix r >>= fun p =>
      fits (ofDigits radix p.1) >>= fun n => some (Item.integer n, p.2)) := fun radix =>
    (endsAtBreak_digits1 radix).bind (fun ds => endsAtBreak_map (fits (ofDigits radix ds)) Item.integer)
  have hdecimal : EndsAtBreak (fun cs => wholeDigits (sign cs).2 >>= fun p =>
      fits (if (sign cs).1 then -(ofDigits 10 p.1 : Int) else ofDigits 10 p.1) >>= fun n =>
        some (Item.integer n, p.2)) := by
    intro cs below
    simp only [sign_break]
    exact endsAtBreak_wholeDigits.bind (fun ds => endsAtBreak_map
      (fits (if (sign cs).1 then -(ofDigits 10 ds : Int) else ofDigits 10 ds)) Item.integer) (sign cs).2 below
  intro cs below
  -- which of the two it is shows in the first two characters
  rcases cs with _ | ⟨a, _ | ⟨b, r⟩⟩
  · exact hdecimal [] below
  · by_cases ha : a = '0'
    · subst ha
      exact hdecimal ['0'] below
    · simpa [integer, ha] using hdecimal [a] below
  · by_cases ha : a = '0'
    · subst ha
      by_cases hx : b = 'x'
      · subst hx
        exact hradixed 16 r below
      by_cases ho : b = 'o'
      · subst ho
        exact hradixed 8 r below
      by_cases hb : b = 'b'
      · subst hb
        exact hradixed 2 r below
      · simpa [integer, hx, ho, hb] using hdecimal ('0' :: b :: r) below
    · simpa [integer, ha] using hdecimal (a :: b :: r) below

/-! ## Dates and times

Of these only the failures are needed: what is read as a moment is no number. -/

theorem char_break {c : Char} (hc : c ≠ '\n') (cs below : List Char) :
    char c (cs ++ '\n' :: below) = (char c cs).map (· ++ '\n' :: below) := by
  cases cs with
  | nil => simp [char, hc.symm]
  | cons a r => by_cases ha : a = c <;> simp [char, ha]

theorem endsAtBreak_char_fixed {c : Char} (hc : c ≠ '\n') (n : Nat) : EndsAtBreak (fun r => char c r >>= fixed n) := by
  intro cs below
  simp only [char_break hc cs below]
  cases char c cs with
  | none => rfl
  | some r => exact endsAtBreak_fixed n r below

/-- Three numbers with separators between them, the last two of two digits: what dates and times begin with. -/
def triple (n : Nat) (c : Char) (cs : List Char) : Option ((Nat × Nat × Nat) × List Char) :=
  fixed n cs >>= fun x => (char c x.2 >>= fixed 2) >>= fun y => (char c y.2 >>= fixed 2) >>= fun z =>
    some ((x.1, y.1, z.1), z.2)

theorem endsAtBreak_triple (n : Nat) {c : Char} (hc : c ≠ '\n') : EndsAtBreak (triple n c) :=
  (endsAtBreak_fixed n).bind fun x => (endsAtBreak_char_fixed hc 2).bind fun y =>
    (endsAtBreak_char_fixed hc 2).bind fun z => endsAtBreak_map (some ()) fun _ => (x, y, z)

theorem date_eq (cs : List Char) : date cs = triple 4 '-' cs >>= fun p =>
    if 1 ≤ p.1.2.1 && p.1.2.1 ≤ 12 && 1 ≤ p.1.2.2 && p.1.2.2 ≤ daysIn p.1.1 p.1.2.1 then some p.2 else none := by
  simp only [date, triple, bind_assoc]
  rfl

theorem time_eq (cs : List Char) : time cs = triple 2 ':' cs >>= fun p =>
    if p.1.1 ≤ 23 && p.1.2.1 ≤ 59 && p.1.2.2 ≤ 60 then
      match p.2 with
      | '.' :: c :: r => if isDigit 10 c then some (r.dropWhile (isDigit 10)) else none
      | _ => some p.2
    else none := by
  simp only [time, triple, bind_assoc]
  rfl

theorem moment_eq_none {cs : List Char} (hdate : date cs = none) (htime : time cs = none) : moment cs = none := by
  simp [moment, hdate, htime]

theorem eq_moment_of_moment {cs : List Char} {p : Item × List Char} (h : moment cs = some p) : p.1 = .moment := by
  simp only [moment] at h
  split at h
  · obtain rfl := Option.some.inj h
    rfl
  · obtain ⟨r, -, rfl⟩ := Option.map_eq_some_iff.1 h
    rfl

theorem date_break {cs : List Char} (h : date cs = none) (below : List Char) :
    date (cs ++ '\n' :: below) = none := by
  rw [date_eq] at h ⊢
  rw [endsAtBreak_triple 4 (by decide) cs below]
  cases ht : triple 4 '-' cs with
  | none => rfl
  | some p =>
    rw [ht] at h
    simpa using h

theorem time_break {cs : List Char} (h : time cs = none) (below : List Char) :
    time (cs ++ '\n' :: below) = none := by
  rw [time_eq] at h ⊢
  rw [endsAtBreak_triple 2 (by decide) cs below]
  cases ht : triple 2 ':' cs with
  | none => rfl
  | some p =>
    rw [ht] at h
    simp only [Option.map_some, Option.bind_eq_bind, Option.bind_some] at h ⊢
    split
    · rename_i hclock
      rw [if_pos hclock] at h
      -- only a point with a character after it can make a time fail from here on
      split at h
      · rename_i hrest
        simpa [hrest] using h
      · cases h
    · rfl

theorem moment_break {cs : List Char} (h : moment cs = none) (below : List Char) :
    moment (cs ++ '\n' :: below) = none := by
  have hdate : date cs = none := by
    cases hd : date cs with
    | none => rfl
    | some r => simp [moment, hd] at h
  have htime : time cs = none := by simpa [moment, hdate] using h
  exact moment_eq_none (date_break hdate below) (time_break htime below)

/-! ## Scalars -/

/-- **A number that reads back as a text of its own reads back at the end of a line.** -/
theorem read_break {cs : List Char} {i : Item} {r : List Char} (hi : i ≠ .moment) (h : read cs = some (i, r))
    (below : List Char) : read (cs ++ '\n' :: below) = some (i, r ++ '\n' :: below) := by
  have hnumber : EndsAtBreak (fun cs => decimal cs <|> special cs <|> integer cs) :=
    endsAtBreak_decimal.orElse (endsAtBreak_special.orElse endsAtBreak_integer)
  rw [read] at h ⊢
  cases hm : moment cs with
  | some p =>
    rw [hm] at h
    obtain rfl : p = (i, r) := Option.some.inj h
    exact absurd (eq_moment_of_moment hm) hi
  | none =>
    rw [hm] at h
    rw [moment_break hm below]
    replace h : (decimal cs <|> special cs <|> integer cs) = some (i, r) := h
    exact (hnumber cs below).trans (congrArg (Option.map fun p => (p.1, p.2 ++ '\n' :: below)) h)

/-- Every scalar begins with a digit, a sign or the letter of a word. -/
theorem read_eq_none {c : Char} (hdigit : isDigit 10 c = false) (hsign : c ≠ '-' ∧ c ≠ '+')
    (hword : c ≠ 'i' ∧ c ≠ 'n') (r : List Char) : read (c :: r) = none := by
  have hfixed : ∀ n, 0 < n → fixed n (c :: r) = none := by
    intro n hn
    obtain ⟨n, rfl⟩ := Nat.exists_eq_add_of_lt hn
    simp [fixed, hdigit]
  have hzero : c ≠ '0' := by
    rintro rfl
    revert hdigit
    decide
  have hwhole : wholeDigits (c :: r) = none := by simp [wholeDigits, hzero, digits1, hdigit]
  have hsigned : sign (c :: r) = (false, c :: r) := by simp [sign, hsign]
  have hmoment : moment (c :: r) = none :=
    moment_eq_none (by simp [date_eq, triple, hfixed]) (by simp [time_eq, triple, hfixed])
  rw [read, hmoment]
  simp [decimal, special, integer, hsigned, hwhole, hword, hzero]

/-! ## Numerals -/

theorem char_eq_none {c : Char} {cs : List Char} (h : c ∉ cs) : char c cs = none := by
  cases cs with
  | nil => rfl
  | cons a r => simp_all [char, eq_comm]

theorem mem_of_mem_fixed {n : Nat} {cs : List Char} {x : Nat × List Char} (h : fixed n cs = some x) {c : Char}
    (hc : c ∈ x.2) : c ∈ cs := by
  rw [fixed] at h
  split at h
  · obtain rfl := Option.some.inj h
    exact List.mem_of_mem_drop hc
  · cases h

theorem triple_eq_none {n : Nat} {c : Char} {cs : List Char} (h : c ∉ cs) : triple n c cs = none := by
  rw [triple]
  cases hx : fixed n cs with
  | none => rfl
  | some x => simp [char_eq_none (fun hc => h (mem_of_mem_fixed hx hc))]

/-- Digits without a leading zero, and nothing else, are an integer. -/
theorem read_of_digits {c : Char} {ds : List Char} (hdigits : ∀ a ∈ c :: ds, isDigit 10 a = true) (hzero : c ≠ '0')
    (hfits : ofDigits 10 (c :: ds) ≤ maxInteger) : read (c :: ds) = some (.integer (ofDigits 10 (c :: ds)), []) := by
  have hno : ∀ a, isDigit 10 a = false → a ∉ c :: ds := fun a ha hmem => ne_of_isDigit (hdigits a hmem) ha rfl
  have hc : ∀ a, isDigit 10 a = false → c ≠ a := fun a => ne_of_isDigit (hdigits c List.mem_cons_self)
  have hsign : sign (c :: ds) = (false, c :: ds) := by simp [sign, hc '-' (by decide), hc '+' (by decide)]
  have hwhole : wholeDigits (c :: ds) = some (c :: ds, []) := by
    simpa [wholeDigits, hzero] using digits1_of_all hdigits
  have hmoment : moment (c :: ds) = none :=
    moment_eq_none (by simp [date_eq, triple_eq_none (hno '-' (by decide))])
      (by simp [time_eq, triple_eq_none (hno ':' (by decide))])
  have hdecimal : decimal (c :: ds) = none := by simp [decimal, hsign, hwhole, fraction, exponent]
  have hspecial : special (c :: ds) = none := by
    simp [special, hsign, hc 'i' (by decide), hc 'n' (by decide)]
  have hinteger : integer (c :: ds) = some (.integer (ofDigits 10 (c :: ds)), []) := by
    have hn : fits (ofDigits 10 (c :: ds)) = some (ofDigits 10 (c :: ds) : Int) := if_pos (by omega)
    simp [integer, hzero, hsign, hwhole, hn]
  rw [read, hmoment, hdecimal, hspecial, hinteger]
  rfl

/-- **A numeral reads back as its number.** -/
theorem read_numeral {n : Nat} (hn : n ≤ maxInteger) : read (numeral 10 n) = some (.integer n, []) := by
  rcases Nat.eq_zero_or_pos n with rfl | hpos
  · rfl
  have hdigits : ∀ c ∈ numeral 10 n, isDigit 10 c = true := isDigit_of_mem_numeral (by decide) (by decide) n
  have hvalue : ofDigits 10 (numeral 10 n) = n := ofDigits_numeral (by decide) (by decide) n
  have hhead : (numeral 10 n).head? ≠ some '0' := head?_numeral (by decide) n hpos
  obtain ⟨c, ds, hds⟩ : ∃ c ds, numeral 10 n = c :: ds := List.exists_cons_of_ne_nil numeral_ne_nil
  rw [hds] at hdigits hvalue hhead ⊢
  rw [read_of_digits hdigits (by simpa using hhead) (hvalue.symm ▸ hn), hvalue]

end GossipNode.Toml.Scalar
