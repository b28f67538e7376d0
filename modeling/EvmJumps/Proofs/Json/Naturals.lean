import EvmJumps.Proofs.Json.Feeding

namespace EvmJumps.Json

/-- A decimal starts with a zero only if it is zero. -/
theorem wholeText_decimal (n : Nat) : WholeText (Text.decimal n) := by
  induction n using Nat.strongRecOn with
  | ind n ih =>
    by_cases single : n < 10
    · have digits : ∀ d < 10, d ≠ 0 → (Nat.digitChar d).isDigit = true ∧ Nat.digitChar d ≠ '0' := by
        decide
      rw [Text.decimal, Nat.toDigits_of_lt_base single]
      by_cases zero : n = 0
      · subst zero
        exact .zero
      · obtain ⟨digit, nonzero⟩ := digits n single zero
        exact .digits digit nonzero (by simp [Digits])
    · have positive : n / 10 ≠ 0 := by omega
      have last : (Nat.digitChar (n % 10)).isDigit = true :=
        (by decide : ∀ d < 10, (Nat.digitChar d).isDigit = true) _ (Nat.mod_lt n (by decide))
      have front := ih (n / 10) (by omega)
      rw [Text.decimal] at front
      rw [Text.decimal, Nat.toDigits_of_base_le (by decide) (Nat.le_of_not_lt single)]
      generalize shown : Nat.toDigits 10 (n / 10) = s at front
      cases front with
      | zero =>
        have value := Nat.ofDigitChars_ten_toDigits (n := n / 10)
        rw [shown] at value
        exact absurd value.symm positive
      | digits first nonzero more =>
        refine .digits first nonzero ?_
        intro c member
        rcases List.mem_append.mp member with early | late
        · exact more c early
        · rw [List.mem_singleton.mp late]
          exact last

theorem ofDigits_decimal (n : Nat) : ofDigits ((Text.decimal n).map digitValue) = n := by
  rw [ofDigits, List.foldl_map, Text.decimal]
  exact Nat.ofDigitChars_eq_foldl.symm.trans Nat.ofDigitChars_ten_toDigits

theorem Numeric.pushAll_whole {p : NumberPart} (part : p = .zero ∨ p = .whole) (x : Numeric)
    (ds : List Char) : (x.pushAll p ds).negative = x.negative ∧
      (x.pushAll p ds).whole = (ds.map digitValue).reverse ++ x.whole := by
  induction ds generalizing x with
  | nil => exact ⟨rfl, rfl⟩
  | cons c ds ih =>
    obtain ⟨negative, whole⟩ := ih (x.push p c)
    rw [pushAll, List.foldl_cons, ← pushAll, negative, whole]
    rcases part with rfl | rfl <;> simp [push]

/-- The digits of a decimal are taken as the digits of an integer with its value. -/
theorem takes_decimal (n : Nat) : ∃ (c : Char) (t : List Char) (x y : Numeric),
    Text.decimal n = c :: t ∧ c.isDigit = true ∧ Numeric.open? c = some x ∧
    Takes Token.step (.number x) t (.number y) ∧ (y.part = .zero ∨ y.part = .whole) ∧
    y.negative = false ∧ ofDigits y.whole.reverse = n := by
  obtain ⟨c, t, p, text, digit, taken⟩ := (wholeText_decimal n).taken
  have opens : Numeric.open? c = some (Numeric.push { part := p } p c) := by
    rw [Numeric.open?, taken.opens]
    rfl
  have inside := Numeric.part_push { part := p } p c
  have part := Numeric.part_pushAll inside t
  obtain ⟨negative, whole⟩ := Numeric.pushAll_whole taken.part { part := p } (c :: t)
  refine ⟨c, t, _, _, text, digit, opens, taken.others inside, ?_, negative, ?_⟩
  · rw [part]
    exact taken.part
  · have value := ofDigits_decimal n
    rw [text, ← List.reverse_reverse ((c :: t).map digitValue)] at value
    rw [List.append_nil] at whole
    exact (congrArg (fun ds => ofDigits ds.reverse) whole).trans value

theorem Numeric.value?_natural {y : Numeric} {n : Nat} (part : y.part = .zero ∨ y.part = .whole)
    (positive : y.negative = false) (value : ofDigits y.whole.reverse = n) (small : n < wordLimit) :
    y.value? = some (.natural n) := by
  have integral : y.integral = true := by
    rcases part with part | part <;> rw [integral, part] <;> rfl
  simp [value?, integral, positive, value, small]

/-- A natural number is read from digits without a sign, as long as it is a word; greater ones are
read as doubles. -/
theorem Numeric.natural_of_value? {x : Numeric} {n : Nat} (read : x.value? = some (.natural n)) :
    x.integral = true ∧ x.negative = false ∧ n = ofDigits x.whole.reverse ∧ n < wordLimit := by
  simp only [Numeric.value?] at read
  split at read
  · next word =>
    cases read
    simp only [Bool.and_eq_true, decide_eq_true_eq, Bool.not_eq_true'] at word
    obtain ⟨⟨integral, positive⟩, small⟩ := word
    exact ⟨integral, positive, rfl, small⟩
  · split at read
    · cases read
    · obtain ⟨_, _, float⟩ := Option.map_eq_some_iff.mp read
      cases float

end EvmJumps.Json
