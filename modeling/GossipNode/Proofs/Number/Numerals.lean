import GossipNode.Number.Digits
/-!
# Numerals read back

A numeral in a radix up to sixteen has only digits of that radix, no leading zero, and stands for the number it was
written for.
-/
namespace GossipNode.Number

theorem hexValue?_digitChar : ∀ d < 16, hexValue? (Nat.digitChar d) = some d := by decide

theorem numeral_ne_nil {radix n : Nat} : numeral radix n ≠ [] := List.length_pos_iff.1 Nat.length_toDigits_pos

section

variable {radix : Nat} (hlow : 1 < radix) (hhigh : radix ≤ 16)
include hlow

/-- A numeral is a digit, or the numeral of what is left of the number and a last digit. -/
theorem numeral_induction {motive : Nat → List Char → Prop}
    (digit : ∀ d < radix, motive d [Nat.digitChar d])
    (last : ∀ n ds, 0 < n / radix → ds ≠ [] → motive (n / radix) ds →
      motive n (ds ++ [Nat.digitChar (n % radix)])) :
    ∀ n, motive n (numeral radix n) := by
  intro n
  induction n using Nat.strongRecOn with
  | _ n ih =>
    by_cases hn : n < radix
    · rw [numeral, Nat.toDigits_of_lt_base hn]
      exact digit n hn
    · rw [numeral, Nat.toDigits_of_base_le hlow (by omega)]
      exact last n _ (Nat.div_pos (by omega) (by omega)) numeral_ne_nil
        (ih _ (Nat.div_lt_self (by omega) hlow))

include hhigh

omit hlow in
theorem digitValue?_digitChar {d : Nat} (hd : d < radix) : digitValue? radix (Nat.digitChar d) = some d := by
  simp [digitValue?, hexValue?_digitChar d (by omega), Option.filter, hd]

theorem isDigit_of_mem_numeral : ∀ n, ∀ c ∈ numeral radix n, isDigit radix c = true := by
  refine numeral_induction (motive := fun _ ds => ∀ c ∈ ds, isDigit radix c = true) hlow
    (fun d hd c hc => ?_) (fun n ds _ _ ih c hc => ?_)
  · rw [List.mem_singleton.1 hc, isDigit, digitValue?_digitChar hhigh hd]
    rfl
  · rcases List.mem_append.1 hc with hc | hc
    · exact ih c hc
    · rw [List.mem_singleton.1 hc, isDigit, digitValue?_digitChar hhigh (Nat.mod_lt n (by omega))]
      rfl

/-- **A numeral stands for the number it was written for.** -/
theorem ofDigits_numeral : ∀ n, ofDigits radix (numeral radix n) = n := by
  refine numeral_induction (motive := fun n ds => ofDigits radix ds = n) hlow (fun d hd => ?_) (fun n ds _ _ ih => ?_)
  · simp [ofDigits, digitValue?_digitChar hhigh hd]
  · rw [ofDigits] at ih ⊢
    rw [List.foldl_append, ih, List.foldl_cons, List.foldl_nil, digitValue?_digitChar hhigh (Nat.mod_lt n (by omega)),
      Option.getD_some]
    exact Nat.div_add_mod' n radix

omit hhigh in
/-- Only the numeral of zero begins with a zero. -/
theorem head?_numeral : ∀ n, 0 < n → (numeral radix n).head? ≠ some '0' := by
  refine numeral_induction (motive := fun n ds => 0 < n → ds.head? ≠ some '0') hlow
    (fun d _ hpos => ?_) (fun n ds hpos hne ih _ => ?_)
  · rw [List.head?_cons, ne_eq, Option.some.injEq]
    exact fun h => absurd (Nat.digitChar_eq_zero.1 h) (by omega)
  · obtain ⟨c, cs, rfl⟩ := List.exists_cons_of_ne_nil hne
    exact ih hpos

end

end GossipNode.Number
