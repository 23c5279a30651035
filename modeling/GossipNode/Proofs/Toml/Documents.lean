import GossipNode.Toml.Document
import GossipNode.Toml.Writer
import GossipNode.Proofs.Toml.Scalars
import GossipNode.Proofs.Toml.Texts
/-!
# Documents read back

A value is read back when a line ends after it (`Reads`): so are strings, lists of strings, integers, truth values and
every number whose text reads back alone.  Lines with different keys and such values are read as their entries, in the
order written (`readDocument_lines`).
-/
namespace GossipNode.Toml

open Number

/-! ## Values on one line -/

/-- What is read as an item when a line ends after it, with fuel for its length and a little more. -/
def Reads (value : String) (i : Item) : Prop :=
  ∀ fuel below, value.toList.length + 3 ≤ fuel →
    readValue fuel maxDepth (value.toList ++ '\n' :: below) = some (i, '\n' :: below)

theorem readValue_eq_scalar {c : Char} (hc : c ∉ ['"', '\'', '[', '\x7b', 't', 'f']) (fuel depth : Nat)
    (r : List Char) : readValue (fuel + 1) depth (c :: r) = Scalar.read (c :: r) := by
  simp only [List.mem_cons, List.not_mem_nil, or_false, not_or] at hc
  rw [readValue] <;> simp_all

theorem reads_scalar {value : String} {i : Item} (hi : i ≠ .moment) (h : Scalar.read value.toList = some (i, [])) :
    Reads value i := by
  intro fuel below hfuel
  obtain ⟨fuel, rfl⟩ : ∃ n, fuel = n + 1 := ⟨fuel - 1, by omega⟩
  have hread := Scalar.read_break hi h below
  cases hcs : value.toList with
  | nil =>
    rw [hcs] at h
    cases h
  | cons c r =>
    rw [hcs] at h hread
    have hc : c ∉ ['"', '\'', '[', '\x7b', 't', 'f'] := by
      intro hmem
      simp only [List.mem_cons, List.not_mem_nil, or_false] at hmem
      rw [Scalar.read_eq_none] at h
      · cases h
      all_goals rcases hmem with rfl | rfl | rfl | rfl | rfl | rfl <;> decide
    rw [List.cons_append, readValue_eq_scalar hc, ← List.cons_append, hread, List.nil_append]

theorem reads_integer {n : Nat} (hn : n ≤ maxInteger) : Reads (toString n) (.integer n) := by
  have htext : (toString n).toList = numeral 10 n := by
    rw [Nat.toString_eq_repr, Nat.repr_eq_ofList_toDigits, String.toList_ofList]
    rfl
  exact reads_scalar (by simp) (htext ▸ Scalar.read_numeral hn)

theorem reads_boolean (b : Bool) : Reads (Writer.boolean b) (.boolean b) := by
  intro fuel below hfuel
  obtain ⟨fuel, rfl⟩ : ∃ n, fuel = n + 1 := ⟨fuel - 1, by omega⟩
  cases b <;> simp [Writer.boolean, readValue]

theorem exists_string_eq_cons (s : String) : ∃ c r, (Writer.string s).toList = c :: r ∧ (c = '"' ∨ c = '\'') := by
  rw [Writer.string, String.toList_ofList]
  rcases Text.head?_write s.toList with hhead | hhead
  all_goals
    obtain ⟨r, hr⟩ := List.head?_eq_some_iff.1 hhead
    exact ⟨_, r, hr, by simp⟩

theorem readValue_string (fuel depth : Nat) (s : String) {rest : List Char} (hquote : rest.head? ≠ some '"')
    (hapostrophe : rest.head? ≠ some '\'') :
    readValue (fuel + 1) depth ((Writer.string s).toList ++ rest) = some (.string s, rest) := by
  have hread := Text.read_write s.toList hquote hapostrophe
  obtain ⟨c, r, hw, hc⟩ := exists_string_eq_cons s
  rw [← String.toList_ofList (l := Text.write s.toList), ← Writer.string, hw, List.cons_append] at hread
  rw [hw, List.cons_append]
  rcases hc with rfl | rfl
  all_goals
    rw [readValue, hread]
    simp

theorem reads_string (s : String) : Reads (Writer.string s) (.string s) := by
  intro fuel below hfuel
  obtain ⟨fuel, rfl⟩ : ∃ n, fuel = n + 1 := ⟨fuel - 1, by omega⟩
  exact readValue_string fuel maxDepth s (by simp) (by simp)

/-! ## Lists -/

theorem skipLines_of_ne {c : Char} (hc : c ∉ [' ', '\t', '\n', '\r', '#']) (fuel : Nat) (r : List Char) :
    skipLines fuel (c :: r) = c :: r := by
  simp only [List.mem_cons, List.not_mem_nil, or_false, not_or] at hc
  cases fuel with
  | zero => rfl
  | succ fuel =>
    have hblanks : skipBlanks (c :: r) = c :: r := by simp [skipBlanks, hc]
    simp [skipLines, hblanks, lineBreak?, hc]

theorem skipLines_string (fuel : Nat) (s : String) (rest : List Char) :
    skipLines fuel ((Writer.string s).toList ++ rest) = (Writer.string s).toList ++ rest := by
  obtain ⟨c, r, hw, hc⟩ := exists_string_eq_cons s
  rw [hw, List.cons_append]
  exact skipLines_of_ne (by rcases hc with rfl | rfl <;> decide) ..

/-- A value that opens with a bracket is the list of what is read after it. -/
theorem readValue_bracket (fuel depth : Nat) (r : List Char) : readValue (fuel + 1) (depth + 1) ('[' :: r) =
    (readItems fuel depth (skipLines fuel r)).map (fun (is, r) => (.array is, r)) := by
  rw [readValue]

theorem readItems_string (fuel depth : Nat) (s : String) {rest : List Char} (hquote : rest.head? ≠ some '"')
    (hapostrophe : rest.head? ≠ some '\'') :
    readItems (fuel + 2) depth ((Writer.string s).toList ++ rest) =
      match skipLines (fuel + 1) rest with
      | ']' :: r => some ([.string s], r)
      | ',' :: r => (readItems (fuel + 1) depth (skipLines (fuel + 1) r)).map (fun (is, r) => (.string s :: is, r))
      | _ => none := by
  have hvalue := readValue_string fuel depth s hquote hapostrophe
  obtain ⟨c, r, hw, hc⟩ := exists_string_eq_cons s
  rw [hw, List.cons_append] at hvalue ⊢
  rw [readItems, hvalue]
  · rfl
  · rcases hc with rfl | rfl <;> simp

/-- The lines of a list with each item on its own, from the end of the line that opens it. -/
def itemLines (ss : List String) : List Char :=
  '\n' :: ss.flatMap (fun s => "    ".toList ++ ((Writer.string s).toList ++ [',', '\n']))

theorem itemLines_cons (s : String) (ss : List String) :
    itemLines (s :: ss) = '\n' :: "    ".toList ++ ((Writer.string s).toList ++ ',' :: itemLines ss) := by
  simp [itemLines]

theorem length_le_itemLines (ss : List String) : ss.length ≤ (itemLines ss).length := by
  induction ss with
  | nil => exact Nat.zero_le _
  | cons s ss ih =>
    rw [itemLines_cons]
    simp only [List.length_cons, List.length_append]
    omega

theorem skipLines_itemLines_cons (fuel : Nat) (s : String) (ss : List String) (rest : List Char) :
    skipLines (fuel + 2) (itemLines (s :: ss) ++ rest) = (Writer.string s).toList ++ (',' :: (itemLines ss ++ rest)) := by
  obtain ⟨c, r, hw, hc⟩ := exists_string_eq_cons s
  rw [itemLines_cons, hw]
  rcases hc with rfl | rfl <;> simp [skipLines, skipBlanks, lineBreak?]

theorem readItems_itemLines (depth : Nat) (rest : List Char) (ss : List String) : ∀ fuel, ss.length + 2 ≤ fuel →
    readItems fuel depth (skipLines fuel (itemLines ss ++ ']' :: rest)) = some (ss.map .string, rest) := by
  induction ss with
  | nil =>
    intro fuel hfuel
    obtain ⟨fuel, rfl⟩ : ∃ n, fuel = n + 2 := ⟨fuel - 2, by omega⟩
    simp [itemLines, skipLines, skipBlanks, lineBreak?, readItems]
  | cons s ss ih =>
    intro fuel hfuel
    rw [List.length_cons] at hfuel
    obtain ⟨fuel, rfl⟩ : ∃ n, fuel = n + 2 := ⟨fuel - 2, by omega⟩
    rw [skipLines_itemLines_cons, readItems_string fuel depth s (by simp) (by simp), skipLines_of_ne (by decide)]
    simp only [ih (fuel + 1) (by omega), Option.map_some, List.map_cons]

/-- **A list of strings is read back**, whatever number of lines it takes. -/
theorem reads_strings (ss : List String) : Reads (Writer.strings ss) (.array (ss.map .string)) := by
  intro fuel below hfuel
  obtain ⟨fuel, rfl⟩ : ∃ n, fuel = n + 3 := ⟨fuel - 3, by omega⟩
  match ss, hfuel with
  | [], _ =>
    have htext : (Writer.strings []).toList ++ '\n' :: below = '[' :: ']' :: '\n' :: below := by simp [Writer.strings]
    rw [htext, maxDepth, readValue_bracket, skipLines_of_ne (by decide)]
    rfl
  | [s], _ =>
    have htext : (Writer.strings [s]).toList ++ '\n' :: below =
        '[' :: ((Writer.string s).toList ++ ']' :: '\n' :: below) := by
      simp [Writer.strings]
    rw [htext, maxDepth, readValue_bracket, skipLines_string, readItems_string fuel 78 s (by simp) (by simp),
      skipLines_of_ne (by decide)]
    rfl
  | s₁ :: s₂ :: ss, hfuel =>
    have htext : (Writer.strings (s₁ :: s₂ :: ss)).toList = '[' :: (itemLines (s₁ :: s₂ :: ss) ++ [']']) := by
      simp [Writer.strings, itemLines, String.toList_join, List.flatMap_map]
    have hlength := length_le_itemLines (s₁ :: s₂ :: ss)
    rw [htext, List.length_cons, List.length_append] at hfuel
    have hitems := readItems_itemLines 78 ('\n' :: below) (s₁ :: s₂ :: ss) (fuel + 2) (by omega)
    rw [htext, List.cons_append, List.append_assoc, List.singleton_append, maxDepth, readValue_bracket, hitems]
    rfl

/-! ## Keys -/

theorem ne_of_isBare {c a : Char} (hc : isBare c = true) (ha : isBare a = false) : c ≠ a :=
  fun h => by simp [h, ha] at hc

theorem skipBlanks_of_ne {c : Char} (hc : c ≠ ' ' ∧ c ≠ '\t') (r : List Char) : skipBlanks (c :: r) = c :: r := by
  simp [skipBlanks, hc]

/-- A key that is written without quotes. -/
structure BareKey (key : String) : Prop where
  nonempty : key.toList ≠ []
  bare : ∀ c ∈ key.toList, isBare c = true

namespace BareKey

variable {key : String}

theorem exists_cons (hkey : BareKey key) : ∃ c cs, key.toList = c :: cs ∧ ∀ a, isBare a = false → c ≠ a := by
  obtain ⟨c, cs, hcs⟩ := List.exists_cons_of_ne_nil hkey.nonempty
  exact ⟨c, cs, hcs, fun a => ne_of_isBare (hkey.bare c (hcs ▸ List.mem_cons_self))⟩

theorem readPart (hkey : BareKey key) (r : List Char) :
    Toml.readPart (key.toList ++ ' ' :: r) = some (key, ' ' :: r) := by
  have hname : (key.toList ++ ' ' :: r).takeWhile isBare = key.toList := by
    rw [List.takeWhile_append_of_pos hkey.bare, List.takeWhile_cons, if_neg (by decide), List.append_nil]
  have hrest : (key.toList ++ ' ' :: r).dropWhile isBare = ' ' :: r := by
    rw [List.dropWhile_append_of_pos hkey.bare, List.dropWhile_cons, if_neg (by decide)]
  obtain ⟨c, cs, hcs, hother⟩ := hkey.exists_cons
  have hnonempty : key.toList.isEmpty = false := by simp [hcs]
  rw [Toml.readPart, hname, hrest, hnonempty, String.ofList_toList]
  · rfl
  all_goals
    intro r' hr
    rw [hcs, List.cons_append] at hr
    exact hother _ (by decide) (List.cons.inj hr).1

theorem readKey (hkey : BareKey key) (r : List Char) :
    Toml.readKey (key.toList ++ ' ' :: '=' :: r) = some ([], key, '=' :: r) := by
  obtain ⟨c, cs, hcs, hother⟩ := hkey.exists_cons
  have hblanks : skipBlanks (key.toList ++ ' ' :: '=' :: r) = key.toList ++ ' ' :: '=' :: r := by
    rw [hcs]
    exact skipBlanks_of_ne ⟨hother ' ' (by decide), hother '\t' (by decide)⟩ _
  have hend : skipBlanks (' ' :: '=' :: r) = '=' :: r := by simp [skipBlanks]
  rw [Toml.readKey, maxParts, readParts, hblanks, hkey.readPart]
  simp [hend]

end BareKey

/-! ## Lines -/

/-- A line that gives a key a value, with the item that the value stands for. -/
structure Line where
  key : String
  value : String
  item : Item

namespace Line

def text (l : Line) : String := Writer.line l.key l.value

def entry (l : Line) : String × Item := (l.key, l.item)

structure Sound (l : Line) : Prop where
  key : BareKey l.key
  reads : Reads l.value l.item

theorem toList_text (l : Line) : l.text.toList = l.key.toList ++ ' ' :: '=' :: ' ' :: (l.value.toList ++ ['\n']) := by
  simp [text, Writer.line]

theorem setDotted_entry (l : Line) {doc : Entries} (hkey : l.key ∉ doc.map Prod.fst) :
    Entries.setDotted .headed true [] l.key l.item doc = some (doc ++ [l.entry]) := by
  have hnew : Entries.find? l.key doc = none := by
    rw [Entries.find?, List.lookup_eq_none_iff]
    intro p hp
    exact bne_iff_ne.2 fun h => hkey (h ▸ List.mem_map_of_mem hp)
  simp [Entries.setDotted, hnew, Entries.add, entry]

end Line

/-- No value begins with a blank. -/
theorem Reads.skipBlanks_value {value : String} {i : Item} (h : Reads value i) (below : List Char) :
    skipBlanks (' ' :: (value.toList ++ '\n' :: below)) = value.toList ++ '\n' :: below := by
  have hread := h (value.toList.length + 2 + 1) below (by omega)
  have hspace : skipBlanks (' ' :: (value.toList ++ '\n' :: below)) = skipBlanks (value.toList ++ '\n' :: below) := by
    simp [skipBlanks]
  rw [hspace]
  cases hcs : value.toList with
  | nil => exact skipBlanks_of_ne (by decide) below
  | cons c r =>
    rw [hcs, List.cons_append] at hread
    refine skipBlanks_of_ne ⟨?_, ?_⟩ _
    all_goals
      rintro rfl
      rw [readValue_eq_scalar (by decide), Scalar.read_eq_none (by decide) (by decide) (by decide)] at hread
      cases hread

theorem endLine_break (below : List Char) : endLine ('\n' :: below) = some below := by
  simp [endLine, skipBlanks, skipComment, lineBreak?]

/-- **A line adds its entry to the document.** -/
theorem readLines_line {l : Line} (hl : l.Sound) {doc : Entries} (hkey : l.key ∉ doc.map Prod.fst) (fuel : Nat)
    (below : List Char) :
    readLines (fuel + 1) [] doc (l.text.toList ++ below) = readLines fuel [] (doc ++ [l.entry]) below := by
  have hreadKey := hl.key.readKey (' ' :: (l.value.toList ++ '\n' :: below))
  have hvalue := hl.reads (2 * (' ' :: (l.value.toList ++ '\n' :: below)).length + 2) below (by
    simp only [List.length_cons, List.length_append]
    omega)
  have htext : l.text.toList ++ below = l.key.toList ++ ' ' :: '=' :: ' ' :: (l.value.toList ++ '\n' :: below) := by
    simp [l.toList_text]
  obtain ⟨c, cs, hcs, hother⟩ := hl.key.exists_cons
  rw [htext]
  rw [hcs, List.cons_append] at hreadKey ⊢
  rw [readLines, skipBlanks_of_ne ⟨hother ' ' (by decide), hother '\t' (by decide)⟩]
  -- the key begins neither a comment nor a header
  simp only [hother '#' (by decide), hother '\n' (by decide), hother '\r' (by decide), hother '[' (by decide),
    List.cons.injEq, false_and, false_imp_iff, implies_true, hreadKey, Option.bind_eq_bind, Option.bind_some,
    hl.reads.skipBlanks_value, hvalue, Entries.descend, l.setDotted_entry hkey, endLine_break]

theorem readLines_lines {ls : List Line} (hsound : ∀ l ∈ ls, l.Sound) : ∀ {doc : Entries} {fuel : Nat},
    (doc.map Prod.fst ++ ls.map Line.key).Nodup → ls.length < fuel →
    readLines fuel [] doc (ls.flatMap (fun l => l.text.toList)) = some (doc ++ ls.map Line.entry) := by
  induction ls with
  | nil =>
    intro doc fuel _ hfuel
    obtain ⟨fuel, rfl⟩ : ∃ n, fuel = n + 1 := ⟨fuel - 1, by omega⟩
    simp [readLines, skipBlanks]
  | cons l ls ih =>
    intro doc fuel hkeys hfuel
    obtain ⟨fuel, rfl⟩ : ∃ n, fuel = n + 1 := ⟨fuel - 1, by omega⟩
    rw [List.length_cons] at hfuel
    have hkey : l.key ∉ doc.map Prod.fst := fun h =>
      (List.nodup_append.1 hkeys).2.2 _ h _ (List.mem_cons_self) rfl
    have hkeys' : ((doc ++ [l.entry]).map Prod.fst ++ ls.map Line.key).Nodup := by
      simpa [Line.entry] using hkeys
    rw [List.flatMap_cons, readLines_line (hsound l List.mem_cons_self) hkey,
      ih (fun l hl => hsound l (List.mem_cons_of_mem _ hl)) hkeys' (by omega), List.append_assoc, List.map_cons,
      List.singleton_append]

theorem length_le_flatMap (ls : List Line) : ls.length ≤ (ls.flatMap (fun l => l.text.toList)).length := by
  induction ls with
  | nil => exact Nat.zero_le _
  | cons l ls ih =>
    simp only [List.flatMap_cons, List.length_append, List.length_cons, l.toList_text]
    omega

/-- **A document of lines with different keys is read as their entries.** -/
theorem readDocument_lines {s : String} {ls : List Line} (htext : s.toList = ls.flatMap (fun l => l.text.toList))
    (hsound : ∀ l ∈ ls, l.Sound) (hkeys : (ls.map Line.key).Nodup) : readDocument s = some (ls.map Line.entry) := by
  have hmark : s.toList.head? ≠ some '\uFEFF' := by
    rw [htext]
    cases ls with
    | nil => simp
    | cons l ls =>
      obtain ⟨c, cs, hcs, hother⟩ := (hsound l List.mem_cons_self).key.exists_cons
      simpa [l.toList_text, hcs] using hother '\uFEFF' (by decide)
  have hlength : ls.length ≤ s.toList.length := by
    rw [htext]
    exact length_le_flatMap ls
  rw [readDocument, if_neg hmark, htext]
  exact readLines_lines hsound (by simpa using hkeys) (by rw [← htext]; omega)

end GossipNode.Toml
