import EvmJumps.Proofs.Destinations

namespace EvmJumps

/-- The same instruction further on in a code. -/
def Instruction.shift (n : Nat) (i : Instruction) : Instruction :=
  { i with pc := n + i.pc }

theorem Instruction.nextPc_shift (n : Nat) (i : Instruction) :
    (i.shift n).nextPc = n + i.nextPc :=
  Nat.add_assoc n i.pc i.size

theorem encode_shift (n : Nat) (is : List Instruction) :
    (is.map (Instruction.shift n)).flatMap Instruction.encode = is.flatMap Instruction.encode := by
  rw [List.flatMap_map]
  rfl

namespace Reads

variable {pc : Nat} {code tail : List UInt8} {is : List Instruction}

/-- Bytes that are added behind a code are read together with its stub. -/
theorem append {more left : List UInt8} {js : List Instruction} (reads : Reads pc code is tail)
    (further : Reads (pc + (is.flatMap Instruction.encode).length) (tail ++ more) js left) :
    Reads pc (code ++ more) (is ++ js) left := by
  induction reads with
  | stub _ => exact further
  | @instruction i rest tail is whole others ih =>
    rw [List.append_assoc, List.cons_append]
    refine .instruction whole (ih ?_)
    rw [List.flatMap_cons, List.length_append, ← Nat.add_assoc, ← Instruction.nextPc_eq] at further
    exact further

theorem shift (reads : Reads pc code is tail) (n : Nat) :
    Reads (n + pc) code (is.map (Instruction.shift n)) tail := by
  induction reads with
  | stub left => exact .stub left
  | @instruction i rest tail is whole others ih =>
    rw [← Instruction.nextPc_shift] at ih
    exact .instruction (i := i.shift n) whole ih

end Reads

/-- Strides from opcode to opcode look at nothing but the opcodes that they pass. -/
theorem Leads.congr {code code' : List UInt8} {i p : Nat} (leads : Leads code i p)
    (same : ∀ q, Leads code i q → q < p → code'[q]? = code[q]?) : Leads code' i p := by
  induction leads with
  | here p => exact .here p
  | @stride i p inside further ih =>
    have passed := further.le
    have found : code'[i]? = some code[i] :=
      (same i (.here i) (by omega)).trans (List.getElem?_eq_getElem inside)
    obtain ⟨inside', byte⟩ := List.getElem?_eq_some_iff.mp found
    refine .stride inside' ?_
    rw [byte]
    exact ih fun q reached before => same q (.stride inside reached) before

section Prefix

variable {a b code code' : List UInt8} {p : Nat}

theorem isJumpdest_of_take (same : code.take (p + 1) = code'.take (p + 1))
    (set : (JumpTable.ofCode code).isJumpdest p = true) :
    (JumpTable.ofCode code').isJumpdest p = true := by
  have byte {q : Nat} (early : q < p + 1) : code'[q]? = code[q]? := by
    rw [← List.getElem?_take_of_lt early, ← same, List.getElem?_take_of_lt early]
  obtain ⟨marker, leads⟩ := JumpTable.isJumpdest_ofCode.mp set
  refine JumpTable.isJumpdest_ofCode.mpr ⟨(byte (Nat.lt_succ_self p)).trans marker, ?_⟩
  exact leads.congr fun q _ before => byte (Nat.lt_succ_of_lt before)

/-- Whether an offset is a destination depends on the bytes up to it. -/
theorem isJumpdest_congr (same : code.take (p + 1) = code'.take (p + 1)) :
    (JumpTable.ofCode code).isJumpdest p = (JumpTable.ofCode code').isJumpdest p :=
  Bool.eq_iff_iff.mpr ⟨isJumpdest_of_take same, isJumpdest_of_take same.symm⟩

theorem toList_walk_append_prefix (a b : List UInt8) :
    (walk a).toList <+: (walk (a ++ b)).toList := by
  obtain ⟨js, left, further⟩ := Reads.exist
    (0 + ((walk a).toList.flatMap Instruction.encode).length) ((walk a).exhausted.rest ++ b)
  rw [((reads_walk a).append further).toList_eq]
  exact List.prefix_append _ js

end Prefix

theorem destinations_append (is js : List Instruction) :
    destinations (is ++ js) = destinations is ++ destinations js := by
  rw [destinations, List.filter_append, List.map_append]
  rfl

theorem destinations_shift (n : Nat) (is : List Instruction) :
    destinations (is.map (Instruction.shift n)) = (destinations is).map (n + ·) := by
  rw [destinations, destinations, List.filter_map, List.map_map, List.map_map]
  rfl

/-- The end of a walk through two codes, seen from the second. -/
theorem Walker.behind_shift {n : Nat} {is : List Instruction}
    (size : (is.flatMap Instruction.encode).length = n) (js : List Instruction)
    (tail : List UInt8) :
    (behind 0 (is ++ js.map (Instruction.shift n)) tail).position =
      n + (behind 0 js tail).position ∧
    (behind 0 (is ++ js.map (Instruction.shift n)) tail).truncatedAt =
      (behind 0 js tail).truncatedAt.map (n + ·) := by
  have place : (behind 0 (is ++ js.map (Instruction.shift n)) tail).position =
      n + (behind 0 js tail).position := by
    simp only [behind, List.flatMap_append, List.length_append, encode_shift, size, Nat.zero_add]
  refine ⟨place, ?_⟩
  rw [truncatedAt_behind, truncatedAt_behind, place]
  split <;> rfl

section Split

variable {a : List UInt8}

/-- The instructions of a code whose walk no PUSH has cut off are all of it. -/
theorem encode_walk_of_not_truncated
    (uncut : (JumpTable.ofCode a).outcome.isTruncated = false) :
    (walk a).exhausted.rest = [] ∧ (walk a).toList.flatMap Instruction.encode = a := by
  have nothing : (walk a).exhausted.rest = [] := by
    rw [Outcome.isTruncated, JumpTable.outcome_ofCode, exhausted_walk,
      Walker.truncatedAt_behind] at uncut
    by_contra left
    simp [left] at uncut
  have bytes := (reads_walk a).bytes
  rw [nothing, List.append_nil] at bytes
  exact ⟨nothing, bytes.symm⟩

theorem reads_append_of_not_truncated
    (uncut : (JumpTable.ofCode a).outcome.isTruncated = false) (b : List UInt8) :
    Reads 0 (a ++ b) ((walk a).toList ++ (walk b).toList.map (Instruction.shift a.length))
      (walk b).exhausted.rest := by
  obtain ⟨nothing, all⟩ := encode_walk_of_not_truncated uncut
  apply (reads_walk a).append
  rw [nothing, all, List.nil_append, Nat.add_comm]
  exact (reads_walk b).shift a.length

theorem toList_walk_append (uncut : (JumpTable.ofCode a).outcome.isTruncated = false)
    (b : List UInt8) : (walk (a ++ b)).toList =
      (walk a).toList ++ (walk b).toList.map (Instruction.shift a.length) :=
  (reads_append_of_not_truncated uncut b).toList_eq

theorem exhausted_walk_append (uncut : (JumpTable.ofCode a).outcome.isTruncated = false)
    (b : List UInt8) :
    (walk (a ++ b)).exhausted.position = a.length + (walk b).exhausted.position ∧
    (walk (a ++ b)).exhausted.truncatedAt =
      (walk b).exhausted.truncatedAt.map (a.length + ·) := by
  have size := congrArg List.length (encode_walk_of_not_truncated uncut).2
  have ends := Walker.behind_shift size (walk b).toList (walk b).exhausted.rest
  rw [← exhausted_walk b, ← (reads_append_of_not_truncated uncut b).exhausted_eq] at ends
  exact ends

end Split

/-- Bytes added behind a code change nothing in front of them. The instructions that were found
before come first, also where the code ended within an immediate; an offset in the first part is a
destination of both or of none, as no more than the bytes up to it decide. Where the first code ends
with a whole instruction, the second is read on its own, with its offsets moved behind the first. -/
theorem added_code_is_read_apart :
    (∀ a b : List UInt8, (disassemble a).toList <+: (disassemble (a ++ b)).toList) ∧
    (∀ (a b : List UInt8) (p : Nat), p < a.length →
      (JumpTable.ofCode (a ++ b)).isJumpdest p = (JumpTable.ofCode a).isJumpdest p) ∧
    (∀ (code code' : List UInt8) (p : Nat), code.take (p + 1) = code'.take (p + 1) →
      (JumpTable.ofCode code).isJumpdest p = (JumpTable.ofCode code').isJumpdest p) ∧
    ∀ a b : List UInt8, (JumpTable.ofCode a).outcome.isTruncated = false →
      (disassemble (a ++ b)).toList =
        (disassemble a).toList ++ (disassemble b).toList.map (Instruction.shift a.length) ∧
      (JumpTable.ofCode (a ++ b)).jumpdests =
        (JumpTable.ofCode a).jumpdests ++ (JumpTable.ofCode b).jumpdests.map (a.length + ·) ∧
      (JumpTable.ofCode (a ++ b)).outcome.scanned =
        a.length + (JumpTable.ofCode b).outcome.scanned ∧
      (JumpTable.ofCode (a ++ b)).outcome.truncatedAt =
        (JumpTable.ofCode b).outcome.truncatedAt.map (a.length + ·) := by
  refine ⟨?_, ?_, fun code code' p => isJumpdest_congr, ?_⟩
  · intro a b
    rw [toList_disassemble, toList_disassemble]
    exact toList_walk_append_prefix a b
  · intro a b p inside
    apply isJumpdest_congr
    exact List.take_append_of_le_length inside
  · intro a b uncut
    have instructions := toList_walk_append uncut b
    obtain ⟨position, truncatedAt⟩ := exhausted_walk_append uncut b
    refine ⟨?_, ?_, ?_, ?_⟩
    · rw [toList_disassemble, toList_disassemble, toList_disassemble]
      exact instructions
    · rw [JumpTable.jumpdests_ofCode, JumpTable.jumpdests_ofCode, JumpTable.jumpdests_ofCode,
        instructions, destinations_append, destinations_shift]
    · rw [JumpTable.outcome_ofCode, JumpTable.outcome_ofCode]
      exact position
    · rw [JumpTable.outcome_ofCode, JumpTable.outcome_ofCode]
      exact truncatedAt

/-- A PUSH2 with a marker in its immediate, cut off or not, and a whole PUSH1 in front of a code
that ends with a cut PUSH2. -/
theorem added_code_is_read_apart_push :
    1 < ([0x61, 0x5b] : List UInt8).length ∧
      (JumpTable.ofCode ([0x61, 0x5b] ++ [0x5b])).isJumpdest 1 =
        (JumpTable.ofCode [0x61, 0x5b]).isJumpdest 1 ∧
    ([0x5b, 0x60] : List UInt8).take 1 = [0x5b, 0x01].take 1 ∧
      (JumpTable.ofCode [0x5b, 0x60]).isJumpdest 0 = (JumpTable.ofCode [0x5b, 0x01]).isJumpdest 0 ∧
    (JumpTable.ofCode [0x60, 0x5b]).outcome.isTruncated = false ∧
      (JumpTable.ofCode ([0x60, 0x5b] ++ [0x5b, 0x61])).outcome.truncatedAt =
        (JumpTable.ofCode [0x5b, 0x61]).outcome.truncatedAt.map (2 + ·) := by
  obtain ⟨_, inside, upTo, apart⟩ := added_code_is_read_apart
  have early : 1 < ([0x61, 0x5b] : List UInt8).length := by decide
  have reads : Reads 0 [0x60, 0x5b] [⟨0, ⟨0x60⟩, [0x5b]⟩] [] :=
    .instruction (i := ⟨0, ⟨0x60⟩, [0x5b]⟩) rfl (.stub trivial)
  have uncut : (JumpTable.ofCode [0x60, 0x5b]).outcome.isTruncated = false := by
    rw [JumpTable.outcome_ofCode, reads.exhausted_eq]
    rfl
  obtain ⟨_, _, _, truncatedAt⟩ := apart [0x60, 0x5b] [0x5b, 0x61] uncut
  exact ⟨early, inside [0x61, 0x5b] [0x5b] 1 early, rfl, upTo [0x5b, 0x60] [0x5b, 0x01] 0 rfl,
    uncut, truncatedAt⟩

end EvmJumps
