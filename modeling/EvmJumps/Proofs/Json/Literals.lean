import Mathlib.Data.List.Induction
import EvmJumps.Proofs.Json.Naturals

namespace EvmJumps.Json

/-- The characters that numbers are written with. -/
def isNumeric (c : Char) : Bool :=
  c.isDigit || c == '-' || c == '+' || c == '.' || c == 'e' || c == 'E'

/-- A text that could be a number by its characters. -/
structure Literal (s : List Char) : Prop where
  nonempty : s ≠ []
  numeric : ∀ c ∈ s, isNumeric c = true

instance (s : List Char) : Decidable (Literal s) :=
  decidable_of_iff (s ≠ [] ∧ s.all isNumeric = true)
    ⟨fun ⟨one, two⟩ => ⟨one, List.all_eq_true.mp two⟩,
      fun ⟨one, two⟩ => ⟨one, List.all_eq_true.mpr two⟩⟩

section Decimals

variable {c : Char} {s : List Char} {n : Nat}

theorem digitChar_digitValue (digit : c.isDigit = true) :
    digitValue c < 10 ∧ Nat.digitChar (digitValue c) = c := by
  have range : 48 ≤ c.toNat ∧ c.toNat ≤ 57 := by
    simpa [Char.isDigit, UInt32.le_iff_toNat_le] using digit
  have all : ∀ n < 10, Nat.digitChar n = Char.ofNat (n + 48) := by decide
  have code : c.toNat - 48 + 48 = c.toNat := by omega
  refine ⟨by rw [digitValue]; omega, ?_⟩
  rw [digitValue, all _ (by omega), code, Char.ofNat_toNat]

theorem ofDigits_snoc (ds : List Nat) (d : Nat) : ofDigits (ds ++ [d]) = 10 * ofDigits ds + d := by
  simp [ofDigits]

theorem decimal_snoc {d : Nat} (positive : 0 < n) (small : d < 10) :
    Text.decimal (10 * n + d) = Text.decimal n ++ [Nat.digitChar d] := by
  have high : (10 * n + d) / 10 = n := by omega
  have low : (10 * n + d) % 10 = d := by omega
  rw [Text.decimal, Nat.toDigits_of_base_le (by decide) (by omega), high, low]
  rfl

/-- Digits without a leading zero are the decimal of their value, by induction from the last. -/
theorem WholeText.eq_decimal (whole : WholeText s) :
    Text.decimal (ofDigits (s.map digitValue)) = s := by
  cases whole with
  | zero => rfl
  | @digits c ds first nonzero more =>
    induction ds using List.reverseRecOn with
    | nil =>
      obtain ⟨small, shown⟩ := digitChar_digitValue first
      have value : ofDigits ([c].map digitValue) = digitValue c := by simp [ofDigits]
      rw [value, Text.decimal, Nat.toDigits_of_lt_base small, shown]
    | append_singleton ds d ih =>
      obtain ⟨others, last⟩ := List.forall_mem_append.mp more
      obtain ⟨small, shown⟩ := digitChar_digitValue (last d List.mem_cons_self)
      have front := ih others
      have positive : 0 < ofDigits ((c :: ds).map digitValue) := by
        apply Nat.pos_of_ne_zero
        intro zero
        rw [zero] at front
        exact nonzero (List.head_eq_of_cons_eq front).symm
      rw [← List.cons_append, List.map_append, List.map_singleton, ofDigits_snoc,
        decimal_snoc positive small, front, shown]

theorem decimal_injective {m n : Nat} (same : Text.decimal m = Text.decimal n) : m = n := by
  rw [← ofDigits_decimal m, same, ofDigits_decimal]

theorem isNumeric_of_isDigit (digit : c.isDigit = true) : isNumeric c = true := by
  simp [isNumeric, digit]

theorem WholeText.all_digits (whole : WholeText s) : s ≠ [] ∧ Digits s := by
  cases whole with
  | zero => exact ⟨by simp, by simp [Digits]⟩
  | digits first nonzero more => exact ⟨by simp, List.forall_mem_cons.mpr ⟨first, more⟩⟩

theorem literal_decimal (n : Nat) : Literal (Text.decimal n) := by
  obtain ⟨nonempty, digits⟩ := (wholeText_decimal n).all_digits
  exact ⟨nonempty, fun c member => isNumeric_of_isDigit (digits c member)⟩

theorem isNumeric_delimiter (delimiter : Delimiter c) : isNumeric c = false := by
  rcases delimiter with space | rfl | rfl | rfl
  · rcases eq_of_isSpace space with rfl | rfl | rfl | rfl <;> rfl
  all_goals rfl

end Decimals

/-- What an unfinished number has kept of the text that it was read from: of digits without a sign
everything, in their order. -/
structure Numeric.Kept (s : List Char) (x : Numeric) : Prop where
  signed : x.part = .sign → x.negative = true
  digits : x.integral = true → x.negative = false →
    WholeText s ∧ x.whole.reverse = s.map digitValue
  nonzero : x.part = .whole → x.negative = false → s.head? ≠ some '0'

section Kept

variable {c : Char} {s : List Char} {x : Numeric} {p : NumberPart} {n : Nat}

theorem WholeText.snoc (whole : WholeText s) (nonzero : s.head? ≠ some '0')
    (digit : c.isDigit = true) : WholeText (s ++ [c]) := by
  cases whole with
  | zero => exact absurd rfl nonzero
  | digits first other more =>
    exact .digits first other (List.forall_mem_append.mpr ⟨more, by simpa using digit⟩)

theorem Numeric.negative_push (x : Numeric) (p : NumberPart) (c : Char) :
    (x.push p c).negative = if p = .sign then true else x.negative := by
  cases p <;> rfl

/-- A character leads into a whole part only behind a sign or behind a digit that is not zero. -/
theorem NumberPart.move_into {q : NumberPart} (move : q.move c = .into p) :
    p ≠ .sign ∧ (p = .zero → q = .sign) ∧
      (p = .whole → (q = .sign ∨ q = .whole) ∧ c.isDigit = true) := by
  cases q <;> simp only [NumberPart.move, NumberPart.move.afterWhole, NumberPart.move.afterFraction]
    at move <;> grind

theorem Numeric.integral_iff : x.integral = true ↔ x.part = .zero ∨ x.part = .whole := by
  rw [integral, Bool.or_eq_true, beq_iff_eq, beq_iff_eq]

/-- What was kept stays in order as long as the number goes on. -/
theorem Numeric.Kept.push (kept : x.Kept s) (move : x.part.move c = .into p) :
    (x.push p c).Kept (s ++ [c]) := by
  obtain ⟨unsigned, zero, whole⟩ := NumberPart.move_into move
  have part := x.part_push p c
  have negative : (x.push p c).negative = x.negative := by
    rw [negative_push, if_neg unsigned]
  -- Behind a sign the number is negative, so nothing is said of its digits.
  have goes_on (part : p = .zero ∨ p = .whole) (positive : x.negative = false) :
      p = .whole ∧ x.part = .whole ∧ c.isDigit = true := by
    have no_sign : x.part ≠ .sign := by
      intro sign
      rw [kept.signed sign] at positive
      cases positive
    rcases part with rfl | rfl
    · exact absurd (zero rfl) no_sign
    · obtain ⟨before, digit⟩ := whole rfl
      exact ⟨rfl, before.resolve_left no_sign, digit⟩
  refine ⟨?_, ?_, ?_⟩
  · intro sign
    exact absurd (part ▸ sign) unsigned
  · intro integral positive
    rw [negative] at positive
    rw [integral_iff, part] at integral
    obtain ⟨rfl, before, digit⟩ := goes_on integral positive
    obtain ⟨text, digits⟩ := kept.digits (integral_iff.mpr (Or.inr before)) positive
    refine ⟨text.snoc (kept.nonzero before positive) digit, ?_⟩
    rw [List.map_append, ← digits]
    exact List.reverse_cons
  · intro inside positive
    rw [negative] at positive
    obtain ⟨rfl, before, digit⟩ := goes_on (Or.inr (part ▸ inside)) positive
    obtain ⟨text, _⟩ := kept.digits (integral_iff.mpr (Or.inr before)) positive
    obtain ⟨d, ds, rfl⟩ := List.exists_cons_of_ne_nil text.all_digits.1
    exact kept.nonzero before positive

theorem Numeric.kept_open (opens : Numeric.open? c = some x) : x.Kept [c] := by
  obtain ⟨p, part, rfl⟩ := Option.map_eq_some_iff.mp opens
  rw [NumberPart.opens?] at part
  split at part
  · cases part
    refine ⟨fun _ => rfl, ?_, ?_⟩
    · intro integral
      cases integral
    · intro whole
      cases whole
  · split at part
    · next zero =>
      cases part
      subst zero
      refine ⟨?_, fun _ _ => ⟨.zero, rfl⟩, ?_⟩
      · intro sign
        cases sign
      · intro whole
        cases whole
    · next nonzero =>
      split at part
      · next digit =>
        cases part
        have whole : WholeText [c] := .digits digit nonzero (by simp [Digits])
        refine ⟨?_, fun _ _ => ⟨whole, rfl⟩, fun _ _ => by simpa using nonzero⟩
        intro sign
        cases sign
      · cases part

/-- A number that is read as a natural one was written as its decimal, and fits into a word. -/
theorem Numeric.Kept.eq_decimal (kept : x.Kept s) (read : x.value? = some (.natural n)) :
    s = Text.decimal n ∧ n < wordLimit := by
  obtain ⟨integral, positive, rfl, small⟩ := natural_of_value? read
  obtain ⟨text, digits⟩ := kept.digits integral positive
  rw [digits] at small ⊢
  exact ⟨text.eq_decimal.symm, small⟩

end Kept

end EvmJumps.Json
