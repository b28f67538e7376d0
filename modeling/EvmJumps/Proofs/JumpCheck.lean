import Mathlib.Algebra.Group.Nat.Defs
import EvmJumps.Proofs.Destinations

namespace EvmJumps

namespace Word

variable {target : Word}

/-- A word takes few bits exactly if it is small. -/
theorem bits_le_iff {n : Nat} : target.bits ≤ n ↔ target.toNat < 2 ^ n := by
  by_cases zero : target = 0
  · rw [bits, if_pos zero, zero]
    exact iff_of_true (Nat.zero_le n) (Nat.two_pow_pos n)
  · have positive : target.toNat ≠ 0 := fun same => zero (BitVec.eq_of_toNat_eq same)
    rw [bits, if_neg zero, Nat.add_one_le_iff, Nat.log2_lt positive]

/-- Words that pass the test of their bits are not changed by dropping the higher ones, so no two
of them stand for one offset. -/
theorem offset?_eq_some_iff {o : Nat} :
    target.offset? = some o ↔ target.toNat < 2 ^ 64 ∧ target.toNat = o := by
  by_cases small : target.toNat < 2 ^ 64
  · have few : ¬ offsetBits < target.bits := Nat.not_lt.mpr (bits_le_iff.mpr small)
    have kept : (target.setWidth offsetBits).toNat = target.toNat := by
      rw [BitVec.toNat_setWidth]
      exact Nat.mod_eq_of_lt small
    rw [offset?, if_neg few, kept, Option.some.injEq, and_iff_right small]
  · have many : offsetBits < target.bits := Nat.lt_of_not_le fun few => small (bits_le_iff.mp few)
    rw [offset?, if_pos many]
    exact iff_of_false (Option.some_ne_none o).symm fun ⟨low, _⟩ => small low

theorem any_offset?_iff {p : Nat → Bool} :
    target.offset?.any p = true ↔ target.toNat < 2 ^ 64 ∧ p target.toNat = true := by
  simp only [Option.any_eq_true, offset?_eq_some_iff, and_assoc, exists_and_left,
    exists_eq_left']

end Word

section Checks

variable {code : List UInt8} {b : Bitmap} {target : Word} {p : Nat}

theorem JumpTable.isValidJump_iff {t : JumpTable} : t.isValidJump target = true ↔
    target.toNat < 2 ^ 64 ∧ target.toNat < t.codeSize ∧ t.bitmap.isSet target.toNat = true := by
  have check : t.isValidJump target =
      target.offset?.any fun o => o < t.codeSize && t.bitmap.isSet o := by
    rw [isValidJump]
    cases target.offset? <;> rfl
  rw [check, Word.any_offset?_iff, Bool.and_eq_true, decide_eq_true_eq]

theorem isValidJump_iff : isValidJump code b target = true ↔
    target.toNat < 2 ^ 64 ∧ code[target.toNat]? = some 0x5b ∧ b.isSet target.toNat = true := by
  have check : isValidJump code b target =
      target.offset?.any fun o => code[o]? == some 0x5b && b.isSet o := by
    rw [isValidJump]
    cases target.offset? <;> rfl
  rw [check, Word.any_offset?_iff, Bool.and_eq_true, beq_iff_eq]

theorem JumpTable.mem_jumpdests_iff :
    p ∈ (ofCode code).jumpdests ↔ (ofCode code).bitmap.isSet p = true :=
  Bitmap.mem_offsets

/-- A table has bits at markers of its own code only. -/
theorem JumpTable.marker_of_isSet (set : (ofCode code).bitmap.isSet p = true) :
    code[p]? = some 0x5b :=
  (mem_destinations_walk.mp (isSet_ofCode.mp set)).1

theorem JumpTable.isValidJump_ofCode :
    (ofCode code).isValidJump target = target.offset?.any (ofCode code).bitmap.isSet := by
  apply Bool.eq_iff_iff.mpr
  rw [isValidJump_iff, Word.any_offset?_iff]
  apply and_congr_right
  intro _
  refine ⟨And.right, ?_⟩
  intro set
  exact ⟨(List.getElem?_eq_some_iff.mp (marker_of_isSet set)).1, set⟩

theorem isValidJump_ofCode : isValidJump code (JumpTable.ofCode code).bitmap target =
    target.offset?.any (JumpTable.ofCode code).bitmap.isSet := by
  apply Bool.eq_iff_iff.mpr
  rw [isValidJump_iff, Word.any_offset?_iff]
  apply and_congr_right
  intro _
  refine ⟨And.right, ?_⟩
  intro set
  exact ⟨JumpTable.marker_of_isSet set, set⟩

end Checks

/-- For a code that 64 bits can address, a table accepts a word exactly if it is one of its
destinations, and so does the check that looks at the byte of the code again. No word beyond 64 bits
is accepted, whatever its low bits are. Both checks come to the bit at the offset: that the offset
is within the code, and that its byte is a marker, follows. With a bitmap of any origin the second
check accepts the markers of the code that the bitmap has. -/
theorem jump_checks_agree (code : List UInt8) (fits : code.length ≤ 2 ^ 64) :
    (∀ target : Word,
      ((JumpTable.ofCode code).isValidJump target = true ↔
        target.toNat ∈ (JumpTable.ofCode code).jumpdests) ∧
      (isValidJump code (JumpTable.ofCode code).bitmap target = true ↔
        target.toNat ∈ (JumpTable.ofCode code).jumpdests)) ∧
    (∀ target : Word, 2 ^ 64 ≤ target.toNat →
      (JumpTable.ofCode code).isValidJump target = false ∧
        ∀ b, isValidJump code b target = false) ∧
    (∀ target : Word,
      (JumpTable.ofCode code).isValidJump target =
        target.offset?.any (JumpTable.ofCode code).bitmap.isSet ∧
      isValidJump code (JumpTable.ofCode code).bitmap target =
        target.offset?.any (JumpTable.ofCode code).bitmap.isSet) ∧
    ∀ (b : Bitmap) (target : Word), isValidJump code b target = true ↔
      target.toNat < code.length ∧ code[target.toNat]? = some 0x5b ∧
        b.isSet target.toNat = true := by
  have addressed {p : Nat} (marker : code[p]? = some 0x5b) : p < code.length ∧ p < 2 ^ 64 := by
    have inside := (List.getElem?_eq_some_iff.mp marker).1
    exact ⟨inside, by omega⟩
  have bit (target : Word) : target.offset?.any (JumpTable.ofCode code).bitmap.isSet = true ↔
      target.toNat ∈ (JumpTable.ofCode code).jumpdests := by
    rw [Word.any_offset?_iff, JumpTable.mem_jumpdests_iff]
    exact and_iff_right_of_imp fun set => (addressed (JumpTable.marker_of_isSet set)).2
  refine ⟨?_, ?_, fun target => ⟨JumpTable.isValidJump_ofCode, isValidJump_ofCode⟩, ?_⟩
  · intro target
    rw [JumpTable.isValidJump_ofCode, isValidJump_ofCode]
    exact ⟨bit target, bit target⟩
  · intro target large
    refine ⟨Bool.eq_false_iff.mpr ?_, fun b => Bool.eq_false_iff.mpr ?_⟩
    · intro accepted
      exact absurd (JumpTable.isValidJump_iff.mp accepted).1 (Nat.not_lt.mpr large)
    · intro accepted
      exact absurd (isValidJump_iff.mp accepted).1 (Nat.not_lt.mpr large)
  · intro b target
    rw [isValidJump_iff]
    constructor
    · intro ⟨_, marker, set⟩
      exact ⟨(addressed marker).1, marker, set⟩
    · intro ⟨_, marker, set⟩
      exact ⟨(addressed marker).2, marker, set⟩

/-- The word 2 ^ 64 ends in the bits of the destination 0 and is refused. -/
theorem jump_checks_agree_wrapped :
    ([0x5b] : List UInt8).length ≤ 2 ^ 64 ∧
      (JumpTable.ofCode [0x5b]).isValidJump 0 = true ∧
      (JumpTable.ofCode [0x5b]).isValidJump 0x10000000000000000 = false := by
  have fits : ([0x5b] : List UInt8).length ≤ 2 ^ 64 := by decide
  obtain ⟨agree, large, _⟩ := jump_checks_agree [0x5b] fits
  have first : 0 ∈ (JumpTable.ofCode [0x5b]).jumpdests := by
    rw [JumpTable.jumpdests_ofCode, mem_destinations_walk]
    exact ⟨rfl, .here 0⟩
  exact ⟨fits, (agree 0).1.mpr first, (large _ (by decide)).1⟩

end EvmJumps
