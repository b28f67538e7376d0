namespace EvmJumps.Text

def hexByte (b : UInt8) : List Char :=
  [Nat.digitChar (b.toNat / 16), Nat.digitChar (b.toNat % 16)]

def hexBytes (bs : List UInt8) : List Char :=
  bs.flatMap hexByte

/-- At least four digits, and more when the offset needs them. -/
def hexOffset (n : Nat) : List Char :=
  '0' :: 'x' :: (Nat.toDigits 16 n).leftpad 4 '0'

/-- Decimal digits without leading zeros. -/
def decimal (n : Nat) : List Char :=
  Nat.toDigits 10 n

theorem exists_of_mem_toDigits {base n : Nat} {c : Char} (many : 1 < base)
    (member : c ∈ Nat.toDigits base n) : ∃ d < base, Nat.digitChar d = c := by
  induction n using Nat.strongRecOn with
  | ind n ih =>
    by_cases last : n < base
    · rw [Nat.toDigits_of_lt_base last, List.mem_singleton] at member
      exact ⟨n, last, member.symm⟩
    · rw [Nat.toDigits_of_base_le many (Nat.le_of_not_lt last), List.mem_append,
        List.mem_singleton] at member
      rcases member with early | rfl
      · exact ih (n / base) (Nat.div_lt_self (by omega) many) early
      · exact ⟨n % base, Nat.mod_lt n (by omega), rfl⟩

theorem isAlphanum_digitChar : ∀ d < 16, (Nat.digitChar d).isAlphanum = true := by
  decide

section Alphanum

variable {c : Char}

theorem isAlphanum_of_mem_toDigits {base n : Nat} (many : 1 < base) (few : base ≤ 16)
    (member : c ∈ Nat.toDigits base n) : c.isAlphanum = true := by
  obtain ⟨d, small, rfl⟩ := exists_of_mem_toDigits many member
  exact isAlphanum_digitChar d (Nat.lt_of_lt_of_le small few)

theorem isAlphanum_of_mem_hexOffset {n : Nat} (member : c ∈ hexOffset n) :
    c.isAlphanum = true := by
  rw [hexOffset, List.mem_cons, List.mem_cons, List.leftpad, List.mem_append] at member
  rcases member with rfl | rfl | zero | digit
  · rfl
  · rfl
  · rw [List.eq_of_mem_replicate zero]
    rfl
  · exact isAlphanum_of_mem_toDigits (by decide) (by decide) digit

theorem isAlphanum_of_mem_hexByte {b : UInt8} (member : c ∈ hexByte b) : c.isAlphanum = true := by
  have byte := b.toNat_lt
  rw [hexByte, List.mem_cons, List.mem_singleton] at member
  rcases member with rfl | rfl
  · exact isAlphanum_digitChar _ (by omega)
  · exact isAlphanum_digitChar _ (by omega)

end Alphanum

/-- The value of a hexadecimal digit, given by its code. -/
def hexValue? (code : Nat) : Option Nat :=
  if 48 ≤ code ∧ code ≤ 57 then some (code - 48)
  else if 97 ≤ code ∧ code ≤ 102 then some (code - 87)
  else if 65 ≤ code ∧ code ≤ 70 then some (code - 55)
  else none

/-- A character with the value of a digit takes a single byte. -/
theorem ascii_of_hexValue? {code n : Nat} (found : hexValue? code = some n) : code ≤ 127 := by
  unfold hexValue? at found
  split at found
  · omega
  · split at found
    · omega
    · split at found
      · omega
      · cases found

theorem utf8Size_of_hexValue? {c : Char} {n : Nat} (found : hexValue? c.toNat = some n) :
    c.utf8Size = 1 :=
  Char.utf8Size_eq_one_iff.mpr (ascii_of_hexValue? found)

theorem hexValue?_digitChar : ∀ n < 16, hexValue? (Nat.digitChar n).toNat = some n := by
  decide

/-- The number that hexadecimal digits stand for. -/
def hexNumber (digits : List Char) : Nat :=
  digits.foldl (fun n c => 16 * n + (hexValue? c.toNat).getD 0) 0

theorem hexNumber_zeros (k : Nat) (digits : List Char) :
    hexNumber (List.replicate k '0' ++ digits) = hexNumber digits := by
  induction k with
  | zero => rfl
  | succ k ih => exact ih

theorem hexNumber_toDigits (n : Nat) : hexNumber (Nat.toDigits 16 n) = n := by
  induction n using Nat.strongRecOn with
  | ind n ih =>
    by_cases last : n < 16
    · rw [Nat.toDigits_of_lt_base last]
      simp [hexNumber, hexValue?_digitChar n last]
    · have below : n % 16 < 16 := Nat.mod_lt n (by decide)
      have higher := ih (n / 16) (by omega)
      rw [Nat.toDigits_of_base_le (by decide) (Nat.le_of_not_lt last), hexNumber,
        List.foldl_append, ← hexNumber, higher]
      simp only [List.foldl_cons, List.foldl_nil, hexValue?_digitChar _ below, Option.getD_some]
      exact Nat.div_add_mod n 16

/-- Zeros in front, however many, do not make two offsets look the same. -/
theorem hexOffset_injective {n n' : Nat} (same : hexOffset n = hexOffset n') : n = n' := by
  have number (n : Nat) : hexNumber ((hexOffset n).drop 2) = n := by
    rw [hexOffset, List.drop_succ_cons, List.drop_succ_cons, List.drop_zero, List.leftpad,
      hexNumber_zeros, hexNumber_toDigits]
  rw [← number n, same, number]

end EvmJumps.Text
