import EvmJumps.Proofs.Walk

namespace EvmJumps

/-- Opcodes with their immediates, one behind the other. -/
def write (pairs : List (Opcode × List UInt8)) : List UInt8 :=
  pairs.flatMap fun pair => pair.1.byte :: pair.2

theorem write_cons (pair : Opcode × List UInt8) (pairs : List (Opcode × List UInt8)) :
    write (pair :: pairs) = pair.1.byte :: pair.2 ++ write pairs :=
  rfl

/-- The instructions that pairs make up when they are written from an offset on. -/
def layOut : Nat → List (Opcode × List UInt8) → List Instruction
  | _, [] => []
  | pc, (o, immediate) :: pairs =>
    ⟨pc, o, immediate⟩ :: layOut (Instruction.mk pc o immediate).nextPc pairs

theorem layOut_row (pc : Nat) (pairs : List (Opcode × List UInt8)) :
    Instruction.InRow pc (layOut pc pairs) := by
  induction pairs generalizing pc with
  | nil => exact trivial
  | cons pair pairs ih => exact ⟨rfl, ih _⟩

theorem encode_layOut (pc : Nat) (pairs : List (Opcode × List UInt8)) :
    (layOut pc pairs).flatMap Instruction.encode = write pairs := by
  induction pairs generalizing pc with
  | nil => rfl
  | cons pair pairs ih =>
    rw [layOut, List.flatMap_cons, ih]
    rfl

theorem parts_layOut (pc : Nat) (pairs : List (Opcode × List UInt8)) :
    (layOut pc pairs).map (fun i => (i.opcode, i.immediate)) = pairs := by
  induction pairs generalizing pc with
  | nil => rfl
  | cons pair pairs ih => rw [layOut, List.map_cons, ih]

theorem whole_layOut {pairs : List (Opcode × List UInt8)}
    (fits : ∀ pair ∈ pairs, pair.2.length = pair.1.immediateSize) (pc : Nat) :
    ∀ i ∈ layOut pc pairs, i.Whole := by
  intro i member
  apply fits (i.opcode, i.immediate)
  rw [← parts_layOut pc pairs]
  exact List.mem_map_of_mem member

/-- Each instruction stands where the ones before it end. -/
theorem pc_layOut {pc k : Nat} {pairs : List (Opcode × List UInt8)} {i : Instruction}
    (found : (layOut pc pairs)[k]? = some i) : i.pc = pc + (write (pairs.take k)).length := by
  induction pairs generalizing pc k with
  | nil => simp [layOut] at found
  | cons pair pairs ih =>
    cases k with
    | zero =>
      simp only [layOut, List.getElem?_cons_zero, Option.some.injEq] at found
      subst found
      rfl
    | succ k =>
      have further := ih found
      rw [Instruction.nextPc_eq] at further
      rw [further, List.take_succ_cons, write_cons, List.length_append, Nat.add_assoc]
      rfl

/-- How instructions make up a code up to an offset, and what the walk reports that stops there. -/
structure Parsed (code : List UInt8) (is : List Instruction) (s : Nat) (cut : Option Nat) :
    Prop where
  bytes : is.flatMap Instruction.encode = code.take s
  immediates : ∀ i ∈ is, i.immediate.length = i.opcode.immediateSize
  first : ∀ i, is.head? = some i → i.pc = 0
  later : ∀ k i j, is[k]? = some i → is[k + 1]? = some j → j.pc = i.nextPc
  within : s ≤ code.length
  cut_iff : cut = some s ↔ s < code.length
  uncut_iff : cut = none ↔ s = code.length
  stub : s < code.length → ∃ (o : Opcode) (n : Nat), code[s]? = some o.byte ∧ o.Pushes n ∧
    1 ≤ code.length - s ∧ code.length - s ≤ n
  unscanned : code.length - s ≤ 32

theorem Instruction.InRow.later {pc k : Nat} {is : List Instruction} {i j : Instruction}
    (row : InRow pc is) (one : is[k]? = some i) (next : is[k + 1]? = some j) :
    j.pc = i.nextPc := by
  induction is generalizing pc k with
  | nil => cases one
  | cons first others ih =>
    obtain ⟨_, row⟩ := row
    cases k with
    | zero =>
      cases one
      cases others with
      | nil => cases next
      | cons second others =>
        cases next
        exact row.1
    | succ k => exact ih row one next

theorem Reads.parsed {code tail : List UInt8} {is : List Instruction}
    (reads : Reads 0 code is tail) :
    Parsed code is (Walker.behind 0 is tail).position (Walker.behind 0 is tail).truncatedAt := by
  have bytes := reads.bytes
  have stop : (Walker.behind 0 is tail).position = (is.flatMap Instruction.encode).length :=
    Nat.zero_add _
  have cut : (Walker.behind 0 is tail).truncatedAt =
      if tail = [] then none else some (Walker.behind 0 is tail).position := rfl
  have size : code.length = (Walker.behind 0 is tail).position + tail.length := by
    rw [stop, bytes, List.length_append]
  have prefixed : is.flatMap Instruction.encode =
      code.take (Walker.behind 0 is tail).position := by
    rw [stop, bytes, List.take_left]
  have rest : tail = code.drop (Walker.behind 0 is tail).position := by
    rw [stop, bytes, List.drop_left]
  rw [cut]
  generalize (Walker.behind 0 is tail).position = s at size prefixed rest
  have first : ∀ i, is.head? = some i → i.pc = 0 := by
    intro i head
    cases is with
    | nil => cases head
    | cons i is =>
      cases head
      exact reads.row.1
  have unscanned := reads.left.length_le
  cases reads.left.eq_nil_or_pushes with
  | inl none =>
    subst none
    simp only [List.length_nil, Nat.add_zero] at size
    exact ⟨prefixed, reads.whole, first, fun k i j => reads.row.later, by omega,
      by simp; omega, by simp; omega, by omega, by omega⟩
  | inr some =>
    obtain ⟨o, n, head, push, short⟩ := some
    have present : tail ≠ [] := by
      intro empty
      rw [empty] at head
      cases head
    have positive := List.length_pos_iff.mpr present
    refine ⟨prefixed, reads.whole, first, fun k i j => reads.row.later, by omega, ?_, ?_, ?_,
      by omega⟩
    · simp only [present, if_false, true_iff]
      omega
    · simp only [present, if_false, reduceCtorEq, false_iff]
      omega
    · intro _
      refine ⟨o, n, ?_, push, by omega, by omega⟩
      rw [← head, rest, List.head?_drop]

theorem parsed_walk (code : List UInt8) :
    Parsed code (walk code).toList (walk code).exhausted.position
      (walk code).exhausted.truncatedAt := by
  rw [exhausted_walk]
  exact (reads_walk code).parsed

/-- The instructions of a code make up its bytes as far as the walk goes, and at most a PUSH with a
short immediate is left; and whatever is written as pairs of opcodes and immediates, with at most
such a PUSH behind them, is taken apart into the same pairs. -/
theorem disassembly_grammar :
    (∀ code : List UInt8,
      Parsed code (disassemble code).toList (walk code).exhausted.position
        (walk code).exhausted.truncatedAt) ∧
    ∀ (pairs : List (Opcode × List UInt8)) (tail : List UInt8),
      (∀ pair ∈ pairs, pair.2.length = pair.1.immediateSize) →
      (tail = [] ∨ ∃ (o : Opcode) (n : Nat), tail.head? = some o.byte ∧ o.Pushes n ∧
        1 ≤ tail.length ∧ tail.length ≤ n) →
      (disassemble (write pairs ++ tail)).toList.map (fun i => (i.opcode, i.immediate)) = pairs ∧
      (∀ k i, (disassemble (write pairs ++ tail)).toList[k]? = some i →
        i.pc = (write (pairs.take k)).length) ∧
      ((walk (write pairs ++ tail)).exhausted.truncatedAt = some (write pairs).length ↔
        tail ≠ []) ∧
      ((walk (write pairs ++ tail)).exhausted.truncatedAt = none ↔ tail = []) := by
  constructor
  · intro code
    rw [toList_disassemble, exhausted_walk]
    exact (reads_walk code).parsed
  · intro pairs tail fits ends
    have left : Stub tail := by
      rcases ends with rfl | ⟨o, n, head, push, _, short⟩
      · exact trivial
      · exact Stub.of_pushes head push short
    have reads := Reads.of_row (layOut_row 0 pairs) (whole_layOut fits 0) left
    rw [encode_layOut] at reads
    have cut : (walk (write pairs ++ tail)).exhausted.truncatedAt =
        if tail = [] then none else some (write pairs).length := by
      rw [reads.exhausted_eq]
      simp only [Walker.behind, encode_layOut, Nat.zero_add]
    rw [toList_disassemble, reads.toList_eq, cut]
    refine ⟨parts_layOut 0 pairs, ?_, ?_, ?_⟩
    · intro k i found
      rw [pc_layOut found, Nat.zero_add]
    · split <;> simp_all
    · split <;> simp_all

/-- A PUSH2 with both bytes of its immediate and a marker, in front of a PUSH2 with one. -/
theorem disassembly_grammar_push2 :
    (∀ pair ∈ [(Opcode.mk 0x61, [(0x5b : UInt8), 0x60]), (Opcode.jumpdest, [])],
      pair.2.length = pair.1.immediateSize) ∧
    (∃ (o : Opcode) (n : Nat), [(0x61 : UInt8), 0x5b].head? = some o.byte ∧ o.Pushes n ∧
      1 ≤ [(0x61 : UInt8), 0x5b].length ∧ [(0x61 : UInt8), 0x5b].length ≤ n) ∧
    (disassemble [0x61, 0x5b, 0x60, 0x5b, 0x61, 0x5b]).toList.map
      (fun i => (i.opcode, i.immediate)) = [(⟨0x61⟩, [0x5b, 0x60]), (Opcode.jumpdest, [])] ∧
    (walk [0x61, 0x5b, 0x60, 0x5b, 0x61, 0x5b]).exhausted.truncatedAt = some 4 := by
  have fits : ∀ pair ∈ [(Opcode.mk 0x61, [(0x5b : UInt8), 0x60]), (Opcode.jumpdest, [])],
      pair.2.length = pair.1.immediateSize := by decide
  have ends : ∃ (o : Opcode) (n : Nat), [(0x61 : UInt8), 0x5b].head? = some o.byte ∧
      o.Pushes n ∧ 1 ≤ [(0x61 : UInt8), 0x5b].length ∧ [(0x61 : UInt8), 0x5b].length ≤ n :=
    ⟨⟨0x61⟩, 2, rfl, ⟨by decide, by decide, rfl⟩, by decide, by decide⟩
  obtain ⟨parts, _, cut, _⟩ := disassembly_grammar.2 _ _ fits (Or.inr ends)
  exact ⟨fits, ends, parts, cut.mpr (by decide)⟩

end EvmJumps
