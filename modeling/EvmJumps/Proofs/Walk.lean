import EvmJumps.Walker

namespace EvmJumps

/-- The opcode is PUSHn, for an n from 1 to 32. -/
def Opcode.Pushes (o : Opcode) (n : Nat) : Prop :=
  1 ≤ n ∧ n ≤ 32 ∧ o.byte.toNat = 0x5f + n

theorem Opcode.isPush_iff {o : Opcode} :
    o.isPush = true ↔ 0x60 ≤ o.byte.toNat ∧ o.byte.toNat ≤ 0x7f := by
  simp only [isPush, Bool.and_eq_true, decide_eq_true_eq, UInt8.le_iff_toNat_le]
  rfl

theorem Opcode.Pushes.immediateSize {o : Opcode} {n : Nat} (h : o.Pushes n) :
    o.immediateSize = n := by
  obtain ⟨low, high, byte⟩ := h
  have push : o.isPush = true := isPush_iff.mpr ⟨by omega, by omega⟩
  simp only [Opcode.immediateSize, push, if_true]
  omega

theorem Opcode.pushes_of_immediateSize {o : Opcode} (h : 0 < o.immediateSize) :
    o.Pushes o.immediateSize := by
  cases push : o.isPush with
  | false => simp [Opcode.immediateSize, push] at h
  | true =>
    obtain ⟨low, high⟩ := isPush_iff.mp push
    have size : o.immediateSize = o.byte.toNat - 0x5f := by
      simp only [Opcode.immediateSize, push, if_true]
    exact ⟨by omega, by omega, by omega⟩

namespace Instruction

/-- The instruction carries as many bytes as its opcode asks for. -/
def Whole (i : Instruction) : Prop :=
  i.immediate.length = i.opcode.immediateSize

/-- Instructions that follow one another without a gap, the first at the given offset. -/
def InRow : Nat → List Instruction → Prop
  | _, [] => True
  | pc, i :: is => i.pc = pc ∧ InRow i.nextPc is

theorem nextPc_eq (i : Instruction) : i.nextPc = i.pc + i.encode.length := by
  rw [nextPc, length_encode]

theorem Whole.nextPc {i : Instruction} (whole : i.Whole) :
    i.nextPc = i.pc + 1 + i.opcode.immediateSize := by
  rw [← whole, Instruction.nextPc, size, Nat.add_assoc]

theorem InRow.pc_le {pc : Nat} {is : List Instruction} (row : InRow pc is) :
    ∀ i ∈ is, pc ≤ i.pc := by
  induction is generalizing pc with
  | nil => simp
  | cons i is ih =>
    obtain ⟨rfl, row⟩ := row
    intro j member
    rcases List.mem_cons.mp member with rfl | member
    · exact Nat.le_refl _
    · have further := ih row j member
      rw [nextPc_eq] at further
      omega

/-- Instructions in a row end where the bytes that they are made of end. -/
theorem InRow.nextPc_le {pc : Nat} {is : List Instruction} (row : InRow pc is) :
    ∀ i ∈ is, i.nextPc ≤ pc + (is.flatMap encode).length := by
  induction is generalizing pc with
  | nil => simp
  | cons first is ih =>
    obtain ⟨rfl, row⟩ := row
    rw [List.flatMap_cons, List.length_append, ← Nat.add_assoc, ← nextPc_eq]
    intro i member
    rcases List.mem_cons.mp member with rfl | member
    · exact Nat.le_add_right _ _
    · exact ih row i member

/-- The offsets of instructions in a row ascend. -/
theorem InRow.ascending {pc : Nat} {is : List Instruction} (row : InRow pc is) :
    (is.map Instruction.pc).Pairwise (· < ·) := by
  induction is generalizing pc with
  | nil => exact List.Pairwise.nil
  | cons i is ih =>
    obtain ⟨rfl, row⟩ := row
    rw [List.map_cons, List.pairwise_cons]
    refine ⟨?_, ih row⟩
    intro p member
    obtain ⟨j, found, rfl⟩ := List.mem_map.mp member
    have further := row.pc_le j found
    rw [nextPc_eq, length_encode, size] at further
    omega

end Instruction

/-- What a walk leaves behind: nothing, or a PUSH whose immediate the code does not hold whole. -/
def Stub : List UInt8 → Prop
  | [] => True
  | b :: immediate => immediate.length < (Opcode.mk b).immediateSize

theorem Stub.length_le {tail : List UInt8} (stub : Stub tail) : tail.length ≤ 32 := by
  cases tail with
  | nil => simp
  | cons b immediate =>
    have := (Opcode.mk b).immediateSize_le
    simp only [Stub, Opcode.maxImmediateSize] at stub this
    simp only [List.length_cons]
    omega

/-- A stub is empty, or starts with a PUSHn and has n bytes at most. -/
theorem Stub.eq_nil_or_pushes {tail : List UInt8} (stub : Stub tail) :
    tail = [] ∨ ∃ (o : Opcode) (n : Nat), tail.head? = some o.byte ∧ o.Pushes n ∧
      tail.length ≤ n := by
  cases tail with
  | nil => exact Or.inl rfl
  | cons b immediate =>
    have longer : immediate.length < (Opcode.mk b).immediateSize := stub
    exact Or.inr ⟨⟨b⟩, _, rfl, Opcode.pushes_of_immediateSize (by omega), longer⟩

theorem Stub.of_pushes {tail : List UInt8} {o : Opcode} {n : Nat}
    (head : tail.head? = some o.byte) (push : o.Pushes n) (short : tail.length ≤ n) :
    Stub tail := by
  cases tail with
  | nil => exact trivial
  | cons b immediate =>
    cases head
    show immediate.length < o.immediateSize
    rw [push.immediateSize]
    exact short

namespace Walker

theorem stub_of_split?_eq_none {pc : Nat} {code : List UInt8} (none : split? pc code = none) :
    Stub code := by
  cases code with
  | nil => exact trivial
  | cons b tail =>
    simp only [split?] at none
    split at none
    · rename_i short
      simp only [Stub]
      rw [List.length_take] at short
      omega
    · cases none

theorem split?_of_stub {tail : List UInt8} (stub : Stub tail) (pc : Nat) :
    split? pc tail = none := by
  cases tail with
  | nil => rfl
  | cons b immediate =>
    have short : (immediate.take (Opcode.mk b).immediateSize).length <
        (Opcode.mk b).immediateSize := by
      simp only [Stub] at stub
      rw [List.length_take]
      omega
    simp only [split?, short, if_true]

theorem whole_of_split? {pc : Nat} {code rest : List UInt8} {i : Instruction}
    (found : split? pc code = some (i, rest)) : i.pc = pc ∧ i.Whole := by
  cases code with
  | nil => cases found
  | cons b tail =>
    simp only [split?] at found
    split at found
    · cases found
    · rename_i long
      cases found
      refine ⟨rfl, ?_⟩
      simp only [Instruction.Whole, List.length_take] at long ⊢
      omega

end Walker

/-- Bytes that stand at an offset are read as instructions in a row and a stub. -/
inductive Reads : Nat → List UInt8 → List Instruction → List UInt8 → Prop
  | stub {pc : Nat} {tail : List UInt8} (left : Stub tail) : Reads pc tail [] tail
  | instruction {i : Instruction} {rest tail : List UInt8} {is : List Instruction}
    (whole : i.Whole) (further : Reads i.nextPc rest is tail) :
    Reads i.pc (i.encode ++ rest) (i :: is) tail

namespace Reads

variable {pc : Nat} {code tail : List UInt8} {is : List Instruction}

theorem bytes (reads : Reads pc code is tail) :
    code = is.flatMap Instruction.encode ++ tail := by
  induction reads with
  | stub left => rfl
  | instruction whole further ih =>
    rw [List.flatMap_cons, List.append_assoc, ← ih]

theorem whole (reads : Reads pc code is tail) : ∀ i ∈ is, i.Whole := by
  induction reads with
  | stub left => simp
  | instruction whole further ih => exact List.forall_mem_cons.mpr ⟨whole, ih⟩

theorem row (reads : Reads pc code is tail) : Instruction.InRow pc is := by
  induction reads with
  | stub left => exact trivial
  | instruction whole further ih => exact ⟨rfl, ih⟩

theorem left (reads : Reads pc code is tail) : Stub tail := by
  induction reads with
  | stub left => exact left
  | instruction whole further ih => exact ih

/-- Whole instructions in a row are read back, whatever stub follows them. -/
theorem of_row (row : Instruction.InRow pc is) (whole : ∀ i ∈ is, i.Whole) (left : Stub tail) :
    Reads pc (is.flatMap Instruction.encode ++ tail) is tail := by
  induction is generalizing pc with
  | nil => exact .stub left
  | cons i is ih =>
    obtain ⟨rfl, row⟩ := row
    obtain ⟨first, others⟩ := List.forall_mem_cons.mp whole
    rw [List.flatMap_cons, List.append_assoc]
    exact .instruction first (ih row others)

/-- Every code can be read, from every offset on. -/
theorem exist (pc : Nat) (code : List UInt8) : ∃ is tail, Reads pc code is tail := by
  cases found : Walker.split? pc code with
  | none => exact ⟨[], code, .stub (Walker.stub_of_split?_eq_none found)⟩
  | some pair =>
    obtain ⟨i, rest⟩ := pair
    obtain ⟨rfl, whole⟩ := Walker.whole_of_split? found
    have split := Walker.rest_of_split? found
    have shorter : rest.length < code.length := by
      rw [split, List.length_append, Instruction.length_encode, Instruction.size]
      omega
    obtain ⟨is, tail, further⟩ := exist i.nextPc rest
    exact ⟨i :: is, tail, split ▸ .instruction whole further⟩
termination_by code.length

end Reads

namespace Walker

/-- The walker behind some instructions, in front of a stub. -/
def behind (pc : Nat) (is : List Instruction) (tail : List UInt8) : Walker :=
  let position := pc + (is.flatMap Instruction.encode).length
  { rest := tail, position := position, truncatedAt := if tail = [] then none else some position }

theorem truncatedAt_behind (pc : Nat) (is : List Instruction) (tail : List UInt8) :
    (behind pc is tail).truncatedAt =
      if tail = [] then none else some (behind pc is tail).position :=
  rfl

/-- It stands there seen from the first instruction and from the second. -/
theorem behind_cons (i : Instruction) (is : List Instruction) (tail : List UInt8) :
    behind i.pc (i :: is) tail = behind i.nextPc is tail := by
  have place : i.pc + ((i :: is).flatMap Instruction.encode).length =
      i.nextPc + (is.flatMap Instruction.encode).length := by
    rw [Instruction.nextPc_eq, List.flatMap_cons, List.length_append, Nat.add_assoc]
  simp only [behind, place]

theorem next_of_stub {tail : List UInt8} (stub : Stub tail) (pc : Nat) :
    next ⟨tail, pc, none⟩ = (none, behind pc [] tail) := by
  simp only [next, split?_of_stub stub]
  cases tail <;> rfl

theorem next_of_whole {i : Instruction} (whole : i.Whole) (rest : List UInt8) :
    next ⟨i.encode ++ rest, i.pc, none⟩ = (some i, ⟨rest, i.nextPc, none⟩) := by
  simp only [next, split?_encode whole]

end Walker

namespace Reads

variable {pc : Nat} {code tail : List UInt8} {is : List Instruction}

/-- The walk yields what the bytes are read as, and stops behind it. -/
theorem walk_eq (reads : Reads pc code is tail) :
    (Walker.mk code pc none).toList = is ∧
      (Walker.mk code pc none).exhausted = Walker.behind pc is tail := by
  induction reads with
  | stub left =>
    have stop := Walker.next_of_stub left
    exact ⟨Walker.toList_none (stop _), Walker.exhausted_none (stop _)⟩
  | @instruction i rest tail is whole further ih =>
    have step := Walker.next_of_whole whole rest
    rw [Walker.toList_some step, Walker.exhausted_some step, ih.1, ih.2]
    exact ⟨rfl, (Walker.behind_cons i is tail).symm⟩

theorem toList_eq (reads : Reads 0 code is tail) : (walk code).toList = is :=
  reads.walk_eq.1

theorem exhausted_eq (reads : Reads 0 code is tail) :
    (walk code).exhausted = Walker.behind 0 is tail :=
  reads.walk_eq.2

end Reads

/-- A walk reads its code. -/
theorem reads_walk (code : List UInt8) :
    Reads 0 code (walk code).toList (walk code).exhausted.rest := by
  obtain ⟨is, tail, reads⟩ := Reads.exist 0 code
  rw [reads.toList_eq, reads.exhausted_eq]
  exact reads

theorem exhausted_walk (code : List UInt8) :
    (walk code).exhausted = Walker.behind 0 (walk code).toList (walk code).exhausted.rest :=
  (reads_walk code).exhausted_eq

/-- The walk stops behind every instruction that it yields. -/
theorem pc_lt_position {code : List UInt8} {i : Instruction} (walked : i ∈ (walk code).toList) :
    i.pc < (walk code).exhausted.position := by
  have next := (reads_walk code).row.nextPc_le i walked
  rw [Instruction.nextPc, Instruction.size] at next
  rw [exhausted_walk]
  simp only [Walker.behind]
  omega

theorem toList_disassemble (code : List UInt8) :
    (disassemble code).toList = (walk code).toList := by
  rw [disassemble, Walker.collect_eq]

end EvmJumps
