import GossipNode.Toml.Text
/-!
# Strings read back

Every text is read back from the form that is chosen for it (`read_write`).  On one line each character is spelled by
itself or by an escape.  Over several lines quotes stand for themselves as long as no three come in a row, and a reader
cannot tell what a quote is before it has seen what follows: `Spells` says what may be written, `Delimited` what a reader
makes of quotes, and one induction joins them for both kinds of quotes.
-/
namespace GossipNode.Toml.Text

open Number

/-! ## Characters -/

theorem isPlain_quote : isPlain '"' = true := by decide

theorem isPlain_apostrophe : isPlain '\'' = true := by decide

theorem isPlain_of_not_isControl {c : Char} (h : isControl c = false) (hbreak : c ≠ '\n') : isPlain c = true := by
  simp only [isControl, Bool.or_eq_false_iff, Bool.and_eq_false_iff, decide_eq_false_iff_not, Char.not_lt,
    Decidable.not_not] at h
  obtain ⟨(h | h) | h, hdelete⟩ := h
  · simp [isPlain, h, hdelete]
  · simp [isPlain, h]
  · exact absurd h hbreak

theorem ne_return_of_not_isControl {c : Char} (h : isControl c = false) : c ≠ '\r' := by
  rintro rfl
  revert h
  decide

theorem toNat_lt_of_isControl {c : Char} (h : isControl c = true) : c.toNat < 128 := by
  simp only [isControl, Bool.or_eq_true, Bool.and_eq_true, decide_eq_true_eq] at h
  rcases h with ⟨⟨h, -⟩, -⟩ | rfl
  · exact Nat.lt_trans (UInt32.lt_iff_toNat_lt.1 h) (by decide)
  · decide

/-! ## Escapes -/

theorem scalar?_codeDigits : ∀ n < 128, isControl (Char.ofNat n) = true →
    (codeDigits (Char.ofNat n)).length = 4 ∧ scalar? (codeDigits (Char.ofNat n)) = some (Char.ofNat n) := by
  decide +kernel

/-- Four digits stand for each control character. -/
theorem exists_codeDigits {c : Char} (h : isControl c = true) :
    ∃ x₁ x₂ x₃ x₄, codeDigits c = [x₁, x₂, x₃, x₄] ∧ scalar? [x₁, x₂, x₃, x₄] = some c := by
  obtain ⟨hlen, hread⟩ := scalar?_codeDigits c.toNat (toNat_lt_of_isControl h) (by rwa [Char.ofNat_toNat])
  rw [Char.ofNat_toNat] at hlen hread
  match hds : codeDigits c, hlen with
  | [x₁, x₂, x₃, x₄], _ => exact ⟨x₁, x₂, x₃, x₄, rfl, hds ▸ hread⟩

/-- A character is written as a short escape, as a scalar in hexadecimal, or as itself. -/
theorem escape_cases (c : Char) :
    (∃ a, escape c = ['\\', a] ∧ escaped? a = some c ∧ a ∉ ['u', 'U', ' ', '\t', '\n', '\r']) ∨
    (∃ x₁ x₂ x₃ x₄, escape c = ['\\', 'u', x₁, x₂, x₃, x₄] ∧ scalar? [x₁, x₂, x₃, x₄] = some c) ∨
    (escape c = [c] ∧ isPlain c = true ∧ c ∉ ['\n', '\r', '"', '\\']) := by
  by_cases hshort : c ∈ ['\x08', '\t', '\n', '\x0c', '\r', '"', '\\']
  · left
    simp only [List.mem_cons, List.not_mem_nil, or_false] at hshort
    rcases hshort with rfl | rfl | rfl | rfl | rfl | rfl | rfl <;> exact ⟨_, rfl, rfl, by decide⟩
  · right
    simp only [List.mem_cons, List.not_mem_nil, or_false, not_or] at hshort
    by_cases hc : isControl c
    · left
      obtain ⟨x₁, x₂, x₃, x₄, hds, hread⟩ := exists_codeDigits hc
      exact ⟨x₁, x₂, x₃, x₄, by simp [escape, hshort, hc, hds], hread⟩
    · right
      have hplain : isPlain c = true := isPlain_of_not_isControl (by simpa using hc) hshort.2.2.1
      exact ⟨by simp [escape, hshort, hc], hplain, by simp [hshort]⟩

/-- No escape begins with a quote or a line break. -/
theorem exists_escape_eq_cons (c : Char) : ∃ a r, escape c = a :: r ∧ a ∉ ['\n', '\r', '"'] := by
  rcases escape_cases c with ⟨a, ha, -⟩ | ⟨x₁, x₂, x₃, x₄, hds, -⟩ | ⟨hself, -, hother⟩
  · exact ⟨_, _, ha, by decide⟩
  · exact ⟨_, _, hds, by decide⟩
  · exact ⟨_, _, hself, by simp_all⟩

theorem readBasic_escape (c : Char) (r : List Char) : readBasic (escape c ++ r) = prepend c (readBasic r) := by
  rcases escape_cases c with ⟨a, ha, hread, hother⟩ | ⟨x₁, x₂, x₃, x₄, hds, hread⟩ | ⟨hself, hplain, hother⟩
  · rw [ha, List.cons_append, List.cons_append, readBasic, hread] <;> simp_all
  · simp [hds, readBasic, hread]
  · rw [hself, List.cons_append, readBasic] <;> simp_all

theorem readLongBasic_escape (c : Char) (r : List Char) :
    readLongBasic .text (escape c ++ r) = prepend c (readLongBasic .text r) := by
  rcases escape_cases c with ⟨a, ha, hread, hother⟩ | ⟨x₁, x₂, x₃, x₄, hds, hread⟩ | ⟨hself, hplain, hother⟩
  · rw [ha, List.cons_append, List.cons_append, readLongBasic, hread] <;> simp_all
  · simp [hds, readLongBasic, hread]
  · rw [hself, List.cons_append, readLongBasic] <;> simp_all

/-! ## Forms on one line -/

theorem readBasic_flatMap_escape (cs rest : List Char) :
    readBasic (cs.flatMap escape ++ '"' :: rest) = some (cs, rest) := by
  induction cs with
  | nil => simp [readBasic]
  | cons c cs ih => rw [List.flatMap_cons, List.append_assoc, readBasic_escape, ih, prepend, Option.map_some]

theorem readLiteral_append {cs : List Char} (h : ∀ c ∈ cs, isPlain c = true ∧ c ≠ '\'') (rest : List Char) :
    readLiteral (cs ++ '\'' :: rest) = some (cs, rest) := by
  induction cs with
  | nil => simp [readLiteral]
  | cons c cs ih =>
    obtain ⟨hplain, hquote⟩ := h c List.mem_cons_self
    have hrest := ih (fun c hc => h c (List.mem_cons_of_mem _ hc))
    rw [List.cons_append, readLiteral, if_pos hplain, hrest, prepend, Option.map_some]
    exact hquote

/-! ## Forms over several lines -/

/-- A reader of a form between three quotes: one quote and two in a row are part of the text, and three close it, after
two more at most that still are part of it. -/
structure Delimited (q : Char) (f : List Char → Option (List Char × List Char)) : Prop where
  single : ∀ {r}, (∀ r', r ≠ q :: q :: r') → f (q :: r) = prepend q (f r)
  closing : ∀ {n}, n ≤ 2 → ∀ {rest}, rest.head? ≠ some q →
    f (List.replicate n q ++ q :: q :: q :: rest) = some (List.replicate n q, rest)

theorem delimited_readLongBasic : Delimited '"' (readLongBasic .text) where
  single {r} h := by
    rcases r with _ | ⟨a, _ | ⟨b, r⟩⟩
    · simp [readLongBasic, isPlain_quote]
    · simp [readLongBasic, isPlain_quote]
    · rw [readLongBasic] <;> simp_all [isPlain_quote]
  closing {n} hn {rest} h := by
    obtain rfl | rfl | rfl : n = 0 ∨ n = 1 ∨ n = 2 := by omega
    · rcases rest with _ | ⟨a, _ | ⟨b, r⟩⟩ <;> simp_all [readLongBasic]
    · rcases rest with _ | ⟨a, r⟩ <;> simp_all [readLongBasic, List.replicate]
    · simp [readLongBasic, List.replicate]

theorem delimited_readLongLiteral : Delimited '\'' readLongLiteral where
  single {r} h := by
    rcases r with _ | ⟨a, _ | ⟨b, r⟩⟩
    · simp [readLongLiteral, isPlain_apostrophe]
    · simp [readLongLiteral, isPlain_apostrophe]
    · rw [readLongLiteral] <;> simp_all [isPlain_apostrophe]
  closing {n} hn {rest} h := by
    obtain rfl | rfl | rfl : n = 0 ∨ n = 1 ∨ n = 2 := by omega
    · rcases rest with _ | ⟨a, _ | ⟨b, r⟩⟩ <;> simp_all [readLongLiteral]
    · rcases rest with _ | ⟨a, r⟩ <;> simp_all [readLongLiteral, List.replicate]
    · simp [readLongLiteral, List.replicate]

/-- What spells a text for a reader when `n` quotes in a row have just come: a third one does not stand for itself, and
every other character is spelled by something that begins with no quote. -/
inductive Spells (q : Char) (f : List Char → Option (List Char × List Char)) : Nat → List Char → List Char → Prop where
  | nil (n : Nat) : Spells q f n [] []
  | quote {n : Nat} {w cs : List Char} : n < 2 → Spells q f (n + 1) w cs → Spells q f n (q :: w) (q :: cs)
  | other (n : Nat) {a c : Char} {e w cs : List Char} : a ≠ q → (∀ r, f (a :: e ++ r) = prepend c (f r)) →
    Spells q f 0 w cs → Spells q f n (a :: e ++ w) (c :: cs)

section

variable {q : Char} {f : List Char → Option (List Char × List Char)}

/-- Once another character comes, the quotes before it are known to be part of the text. -/
theorem Delimited.run (hf : Delimited q f) {n : Nat} (hn : n ≤ 2) {a : Char} (ha : a ≠ q) (r : List Char) :
    f (List.replicate n q ++ a :: r) = (f (a :: r)).map (fun p => (List.replicate n q ++ p.1, p.2)) := by
  have hone : f (q :: a :: r) = prepend q (f (a :: r)) := hf.single (by simp [ha])
  have htwo : f (q :: q :: a :: r) = prepend q (f (q :: a :: r)) := hf.single (by simp [ha])
  obtain rfl | rfl | rfl : n = 0 ∨ n = 1 ∨ n = 2 := by omega
  · simp
  · exact hone
  · rw [hone] at htwo
    rw [List.replicate_succ, List.replicate_one, List.cons_append, List.singleton_append, htwo]
    simp [prepend, Function.comp_def]

/-- **What is spelled before three quotes is read as the text.** -/
theorem Spells.read (hf : Delimited q f) {rest : List Char} (hrest : rest.head? ≠ some q) {n : Nat}
    {w cs : List Char} (h : Spells q f n w cs) :
    n ≤ 2 → f (List.replicate n q ++ (w ++ q :: q :: q :: rest)) = some (List.replicate n q ++ cs, rest) := by
  induction h with
  | nil n =>
    intro hn
    simpa using hf.closing hn hrest
  | @quote n w cs hlt _ ih =>
    intro _
    simpa [List.replicate_succ'] using ih (by omega)
  | @other n a c e w cs ha hspelled _ ih =>
    intro hn
    have hw : f (w ++ q :: q :: q :: rest) = some (cs, rest) := by simpa using ih (by omega)
    have hrun := hf.run hn ha (e ++ (w ++ q :: q :: q :: rest))
    rw [← List.cons_append, hspelled, hw] at hrun
    simpa [prepend] using hrun

end

theorem spells_escapeLong (cs : List Char) : ∀ n ≤ 2, Spells '"' (readLongBasic .text) n (escapeLong n cs) cs := by
  induction cs with
  | nil => exact fun n _ => .nil n
  | cons c cs ih =>
    intro n hn
    have hrest := ih 0 (by omega)
    rw [escapeLong]
    split
    · rename_i hquote
      subst hquote
      split
      · exact .other n (by decide) (readLongBasic_escape '"') hrest
      · exact .quote (by omega) (ih (n + 1) (by omega))
    split
    · rename_i hbreak
      subst hbreak
      exact .other n (e := []) (by decide) (fun r => by simp [readLongBasic]) hrest
    · obtain ⟨a, e, he, ha⟩ := exists_escape_eq_cons c
      rw [he]
      exact .other n (by simp_all) (fun r => he ▸ readLongBasic_escape c r) hrest

theorem le_longestRun (q : Char) (cs : List Char) : ∀ run, run ≤ longestRun q run cs := by
  induction cs with
  | nil => exact fun _ => Nat.le_refl _
  | cons c cs ih =>
    intro run
    rw [longestRun]
    split
    · exact Nat.le_of_succ_le (ih (run + 1))
    · exact Nat.le_max_left _ _

/-- Without control characters and long runs of apostrophes a text spells itself. -/
theorem spells_self (cs : List Char) (hplain : ∀ c ∈ cs, isControl c = false) :
    ∀ n, longestRun '\'' n cs < 3 → Spells '\'' readLongLiteral n cs cs := by
  induction cs with
  | nil => exact fun n _ => .nil n
  | cons c cs ih =>
    intro n hrun
    have hcs : ∀ c ∈ cs, isControl c = false := fun c hc => hplain c (List.mem_cons_of_mem _ hc)
    have hc := hplain c List.mem_cons_self
    rw [longestRun] at hrun
    split at hrun
    · rename_i hquote
      subst hquote
      have := le_longestRun '\'' cs (n + 1)
      exact .quote (by omega) (ih hcs (n + 1) hrun)
    · rename_i hquote
      refine .other n (e := []) hquote (fun r => ?_) (ih hcs 0 (by omega))
      by_cases hbreak : c = '\n'
      · simp [hbreak, readLongLiteral]
      · have hreturn := ne_return_of_not_isControl hc
        rw [List.cons_append, List.nil_append, readLongLiteral, if_pos (isPlain_of_not_isControl hc hbreak)] <;>
          simp_all

/-! ## The opening

The first line break after three quotes does not count, so a text that could begin with one has one written before
it. -/

theorem dropBreak_cons {a : Char} (ha : a ∉ ['\n', '\r']) (r : List Char) : dropBreak (a :: r) = a :: r := by
  rw [dropBreak] <;> simp_all

theorem exists_opening_append (quotes : List Char) {cs w : List Char} (h : '\n' ∉ cs → dropBreak w = w) :
    ∃ r, opening quotes cs ++ w = quotes ++ r ∧ dropBreak r = w := by
  by_cases hbreak : '\n' ∈ cs
  · exact ⟨'\n' :: w, by simp [opening, hbreak], rfl⟩
  · exact ⟨w, by simp [opening, hbreak], h hbreak⟩

theorem dropBreak_escapeLong {cs : List Char} (h : '\n' ∉ cs) (rest : List Char) :
    dropBreak (escapeLong 0 cs ++ '"' :: rest) = escapeLong 0 cs ++ '"' :: rest := by
  cases cs with
  | nil => rfl
  | cons c cs =>
    have hc : c ≠ '\n' := fun hc => h (hc ▸ List.mem_cons_self)
    by_cases hquote : c = '"'
    · simp only [escapeLong, hquote, if_true]
      rfl
    · obtain ⟨a, e, he, ha⟩ := exists_escape_eq_cons c
      rw [escapeLong, if_neg hquote, if_neg hc, he]
      exact dropBreak_cons (by simp_all) _

theorem dropBreak_self {cs : List Char} (hplain : ∀ c ∈ cs, isControl c = false) (h : '\n' ∉ cs) (rest : List Char) :
    dropBreak (cs ++ '\'' :: rest) = cs ++ '\'' :: rest := by
  cases cs with
  | nil => rfl
  | cons c cs =>
    have hc : c ≠ '\n' := fun hc => h (hc ▸ List.mem_cons_self)
    exact dropBreak_cons (by simp [hc, ne_return_of_not_isControl (hplain c List.mem_cons_self)]) _

/-! ## All forms -/

theorem read_basic {rest : List Char} (hrest : rest.head? ≠ some '"') (cs : List Char) :
    read ('"' :: cs.flatMap escape ++ ['"'] ++ rest) = some (cs, rest) := by
  rw [List.append_assoc, List.cons_append, List.singleton_append, read, readBasic_flatMap_escape]
  -- it is not taken for the opening of a long form
  intro r hr
  cases cs with
  | nil => simp_all
  | cons c cs =>
    obtain ⟨a, e, he, ha⟩ := exists_escape_eq_cons c
    simp_all

theorem read_literal {rest : List Char} (hrest : rest.head? ≠ some '\'') {cs : List Char}
    (hplain : ∀ c ∈ cs, isPlain c = true ∧ c ≠ '\'') : read ('\'' :: cs ++ ['\''] ++ rest) = some (cs, rest) := by
  rw [List.append_assoc, List.cons_append, List.singleton_append, read, readLiteral_append hplain]
  intro r hr
  cases cs <;> simp_all

theorem read_longBasic {rest : List Char} (hrest : rest.head? ≠ some '"') (cs : List Char) :
    read (opening longQuotes cs ++ escapeLong 0 cs ++ longQuotes ++ rest) = some (cs, rest) := by
  have hread : readLongBasic .text (escapeLong 0 cs ++ '"' :: '"' :: '"' :: rest) = some (cs, rest) := by
    simpa using (spells_escapeLong cs 0 (by decide)).read delimited_readLongBasic hrest (by decide)
  obtain ⟨r, hr, hdrop⟩ := exists_opening_append longQuotes
    (fun h : '\n' ∉ cs => dropBreak_escapeLong h ('"' :: '"' :: rest))
  have hopened : opening longQuotes cs ++ escapeLong 0 cs ++ longQuotes ++ rest = longQuotes ++ r := by
    rw [← hr]
    simp [longQuotes]
  rw [hopened]
  exact (congrArg (readLongBasic .text) hdrop).trans hread

theorem read_longLiteral {rest : List Char} (hrest : rest.head? ≠ some '\'') {cs : List Char}
    (hplain : ∀ c ∈ cs, isControl c = false) (hrun : longestRun '\'' 0 cs < 3) :
    read (opening longApostrophes cs ++ cs ++ longApostrophes ++ rest) = some (cs, rest) := by
  have hread : readLongLiteral (cs ++ '\'' :: '\'' :: '\'' :: rest) = some (cs, rest) := by
    simpa using (spells_self cs hplain 0 hrun).read delimited_readLongLiteral hrest (by decide)
  obtain ⟨r, hr, hdrop⟩ := exists_opening_append longApostrophes
    (fun h : '\n' ∉ cs => dropBreak_self hplain h ('\'' :: '\'' :: rest))
  have hopened : opening longApostrophes cs ++ cs ++ longApostrophes ++ rest = longApostrophes ++ r := by
    rw [← hr]
    simp [longApostrophes]
  rw [hopened]
  exact (congrArg readLongLiteral hdrop).trans hread

/-- **A text is read back from the form it is written in**, whatever it is made of, when no quote follows. -/
theorem read_write (cs : List Char) {rest : List Char} (hquote : rest.head? ≠ some '"')
    (hapostrophe : rest.head? ≠ some '\'') : read (write cs ++ rest) = some (cs, rest) := by
  have hplain : cs.any isControl = false → ∀ c ∈ cs, isControl c = false := by simp
  simp only [write]
  split
  · exact read_basic hquote cs
  split
  · rename_i h
    simp only [Bool.and_eq_true, Bool.not_eq_true', List.contains_eq_mem, decide_eq_false_iff_not] at h
    obtain ⟨⟨hcontrol, happ⟩, hbreak⟩ := h
    refine read_literal hapostrophe fun c hc => ⟨?_, fun h => happ (h ▸ hc)⟩
    exact isPlain_of_not_isControl (hplain hcontrol c hc) (fun h => hbreak (h ▸ hc))
  split
  · exact read_longBasic hquote cs
  split
  · rename_i h
    simp only [Bool.and_eq_true, Bool.not_eq_true', decide_eq_true_eq] at h
    exact read_longLiteral hapostrophe (hplain h.1) h.2
  split
  · exact read_longBasic hquote cs
  · exact read_basic hquote cs

theorem head?_opening_append (q : Char) (qs cs w : List Char) : (opening (q :: qs) cs ++ w).head? = some q := by
  rw [opening]
  split <;> rfl

/-- Every form begins with a quote. -/
theorem head?_write (cs : List Char) : (write cs).head? = some '"' ∨ (write cs).head? = some '\'' := by
  simp only [write, List.append_assoc]
  split
  · exact .inl rfl
  split
  · exact .inr rfl
  split
  · exact .inl (head?_opening_append ..)
  split
  · exact .inr (head?_opening_append ..)
  split
  · exact .inl (head?_opening_append ..)
  · exact .inl rfl

end GossipNode.Toml.Text
