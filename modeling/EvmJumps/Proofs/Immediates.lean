import EvmJumps.Proofs.Destinations

namespace EvmJumps

/-- The offsets at which instructions start: of those that a walk yields, and of the PUSH that ends
it. -/
def starts (code : List UInt8) : List Nat :=
  (walk code).toList.map Instruction.pc ++ (walk code).exhausted.truncatedAt.toList

/-- An instruction without its immediate. -/
def Instruction.head (i : Instruction) : Nat × Opcode :=
  (i.pc, i.opcode)

/-- Where a code has an instruction, every code of its size with the same opcode has one too. -/
theorem Instruction.Whole.twin {i : Instruction} {rest code' : List UInt8} (whole : i.Whole)
    (size : code'.length = (i.encode ++ rest).length) (opcode : code'[0]? = some i.opcode.byte) :
    ∃ (i' : Instruction) (rest' : List UInt8), i'.Whole ∧ i'.head = i.head ∧ i'.size = i.size ∧
      code' = i'.encode ++ rest' ∧ rest'.length = rest.length := by
  cases code' with
  | nil => cases opcode
  | cons b bytes =>
    cases opcode
    rw [List.length_append, List.length_cons, length_encode, Instruction.size] at size
    have long : (bytes.take i.immediate.length).length = i.immediate.length := by
      rw [List.length_take]
      omega
    refine ⟨⟨i.pc, i.opcode, bytes.take i.immediate.length⟩, bytes.drop i.immediate.length,
      long.trans whole, rfl, congrArg (1 + ·) long, ?_, ?_⟩
    · rw [encode, List.cons_append, List.take_append_drop]
    · rw [List.length_drop]
      omega

theorem Instruction.getElem?_behind (i : Instruction) (rest : List UInt8) (k : Nat) :
    (i.encode ++ rest)[i.size + k]? = rest[k]? := by
  rw [← length_encode, List.getElem?_append_right (Nat.le_add_right _ _), Nat.add_sub_cancel_left]

/-- A code of the same size whose first byte is that of a stub is one too. -/
theorem Stub.twin {tail code' : List UInt8} (left : Stub tail) (size : code'.length = tail.length)
    (opcode : tail ≠ [] → code'[0]? = tail[0]?) : Stub code' := by
  cases tail with
  | nil =>
    rw [List.length_eq_zero_iff.mp size]
    exact trivial
  | cons b immediate =>
    have first : code'[0]? = some b := opcode (List.cons_ne_nil b immediate)
    cases code' with
    | nil => cases first
    | cons b' immediate' =>
      cases first
      have shorter : immediate.length < (Opcode.mk b).immediateSize := left
      rw [List.length_cons, List.length_cons, Nat.add_right_cancel_iff] at size
      rw [← size] at shorter
      exact shorter

/-- A code that agrees where instructions start is read in the same pieces. -/
theorem Reads.lockstep {pc : Nat} {code tail : List UInt8} {is : List Instruction}
    (reads : Reads pc code is tail) {code' : List UInt8} (size : code'.length = code.length)
    (same : ∀ k, pc + k ∈ is.map Instruction.pc ++ (Walker.behind pc is tail).truncatedAt.toList →
      code'[k]? = code[k]?) :
    ∃ is' tail', Reads pc code' is' tail' ∧ is'.map Instruction.head = is.map Instruction.head ∧
      tail'.length = tail.length := by
  induction reads generalizing code' with
  | @stub pc tail left =>
    refine ⟨[], code', .stub (left.twin size ?_), rfl, size⟩
    intro cut
    apply same 0
    simp [Walker.behind, cut]
  | @instruction i rest tail is whole further ih =>
    have opcode : code'[0]? = some i.opcode.byte := same 0 List.mem_cons_self
    obtain ⟨i', rest', whole', head, length, rfl, size'⟩ := whole.twin size opcode
    have pc : i'.pc = i.pc := congrArg Prod.fst head
    have place : i'.nextPc = i.nextPc := by rw [Instruction.nextPc, pc, length, Instruction.nextPc]
    obtain ⟨is', tail', reads', heads, short⟩ := ih size' fun k start => by
      rw [← i'.getElem?_behind rest' k, ← i.getElem?_behind rest k, length]
      apply same
      rw [Walker.behind_cons, ← Nat.add_assoc]
      exact List.mem_cons_of_mem _ start
    rw [← place] at reads'
    refine ⟨i' :: is', tail', pc ▸ .instruction whole' reads', ?_, short⟩
    rw [List.map_cons, List.map_cons, head, heads]

theorem destinations_eq_of_heads {is is' : List Instruction}
    (heads : is'.map Instruction.head = is.map Instruction.head) :
    destinations is' = destinations is := by
  have view (js : List Instruction) : destinations js =
      ((js.map Instruction.head).filter fun head => head.2.isJumpdest).map Prod.fst := by
    rw [destinations, List.filter_map, List.map_map]
    rfl
  rw [view, view, heads]

section Twins

variable {code code' : List UInt8} (size : code'.length = code.length)
  (same : ∀ p ∈ starts code, code'[p]? = code[p]?)
include size same

/-- The two walks yield the same but for the immediates, and stop at the same place. -/
theorem walk_twin :
    (walk code').toList.map Instruction.head = (walk code).toList.map Instruction.head ∧
    (walk code').exhausted.position = (walk code).exhausted.position ∧
    (walk code').exhausted.truncatedAt = (walk code).exhausted.truncatedAt := by
  have reads := reads_walk code
  obtain ⟨is', tail', reads', heads, short⟩ := reads.lockstep size fun k start =>
    same k (by
      rw [starts, exhausted_walk]
      exact Nat.zero_add k ▸ start)
  have length := congrArg List.length reads.bytes
  have length' := congrArg List.length reads'.bytes
  rw [List.length_append] at length length'
  have place : (Walker.behind 0 is' tail').position =
      (Walker.behind 0 (walk code).toList (walk code).exhausted.rest).position := by
    simp only [Walker.behind]
    omega
  have ends : tail' = [] ↔ (walk code).exhausted.rest = [] := by
    rw [← List.length_eq_zero_iff, short, List.length_eq_zero_iff]
  rw [reads'.toList_eq, reads'.exhausted_eq, exhausted_walk code]
  refine ⟨heads, place, ?_⟩
  rw [Walker.truncatedAt_behind, Walker.truncatedAt_behind, place]
  simp only [ends]

theorem ofCode_twin : JumpTable.ofCode code' = JumpTable.ofCode code := by
  obtain ⟨heads, position, truncatedAt⟩ := walk_twin size same
  simp only [JumpTable.ofCode, scan_eq, destinations_eq_of_heads heads, position, truncatedAt, size]

end Twins

/-- Of a code, only the bytes at which instructions start count. A second code of its size that has
these bytes, and any others elsewhere, is walked over the same offsets and opcodes to the same end,
and it has the same jump table. So a byte that starts no instruction, in an immediate or behind the
PUSH that ends the walk, can be overwritten with any other. -/
theorem immediates_do_not_interfere :
    (∀ code code' : List UInt8, code'.length = code.length →
      (∀ p ∈ starts code, code'[p]? = code[p]?) →
      (disassemble code').toList.map Instruction.head =
        (disassemble code).toList.map Instruction.head ∧
      (walk code').exhausted.position = (walk code).exhausted.position ∧
      (walk code').exhausted.truncatedAt = (walk code).exhausted.truncatedAt ∧
      JumpTable.ofCode code' = JumpTable.ofCode code) ∧
    ∀ (code : List UInt8) (p : Nat) (b : UInt8), p ∉ starts code →
      JumpTable.ofCode (code.set p b) = JumpTable.ofCode code := by
  constructor
  · intro code code' size same
    obtain ⟨heads, position, truncatedAt⟩ := walk_twin size same
    rw [toList_disassemble, toList_disassemble]
    exact ⟨heads, position, truncatedAt, ofCode_twin size same⟩
  · intro code p b elsewhere
    apply ofCode_twin List.length_set
    intro q start
    apply List.getElem?_set_ne
    rintro rfl
    exact elsewhere start

/-- The immediate of a PUSH1 and the tail behind a PUSH2 that is cut off, overwritten with a PUSH1
and a marker. -/
theorem immediates_do_not_interfere_push :
    (∀ p ∈ starts [0x60, 0x5b, 0x5b, 0x61, 0x00],
      ([0x60, 0x60, 0x5b, 0x61, 0x5b] : List UInt8)[p]? =
        ([0x60, 0x5b, 0x5b, 0x61, 0x00] : List UInt8)[p]?) ∧
    JumpTable.ofCode [0x60, 0x60, 0x5b, 0x61, 0x5b] =
      JumpTable.ofCode [0x60, 0x5b, 0x5b, 0x61, 0x00] ∧
    1 ∉ starts [0x60, 0x5b, 0x5b, 0x61, 0x00] ∧
    JumpTable.ofCode (([0x60, 0x5b, 0x5b, 0x61, 0x00] : List UInt8).set 1 0x7f) =
      JumpTable.ofCode [0x60, 0x5b, 0x5b, 0x61, 0x00] := by
  have cut : Stub [0x61, 0x00] := by
    show 1 < (Opcode.mk 0x61).immediateSize
    decide
  have reads : Reads 0 [0x60, 0x5b, 0x5b, 0x61, 0x00]
      [⟨0, ⟨0x60⟩, [0x5b]⟩, ⟨2, ⟨0x5b⟩, []⟩] [0x61, 0x00] :=
    .instruction (i := ⟨0, ⟨0x60⟩, [0x5b]⟩) rfl
      (.instruction (i := ⟨2, ⟨0x5b⟩, []⟩) rfl (.stub cut))
  have places : starts [0x60, 0x5b, 0x5b, 0x61, 0x00] = [0, 2, 3] := by
    rw [starts, reads.toList_eq, reads.exhausted_eq]
    rfl
  have same : ∀ p ∈ starts [0x60, 0x5b, 0x5b, 0x61, 0x00],
      ([0x60, 0x60, 0x5b, 0x61, 0x5b] : List UInt8)[p]? =
        ([0x60, 0x5b, 0x5b, 0x61, 0x00] : List UInt8)[p]? := by
    rw [places]
    decide
  have elsewhere : 1 ∉ starts [0x60, 0x5b, 0x5b, 0x61, 0x00] := by
    rw [places]
    decide
  obtain ⟨twins, overwritten⟩ := immediates_do_not_interfere
  have twin := twins [0x60, 0x5b, 0x5b, 0x61, 0x00] [0x60, 0x60, 0x5b, 0x61, 0x5b] rfl same
  exact ⟨same, twin.2.2.2, elsewhere,
    overwritten [0x60, 0x5b, 0x5b, 0x61, 0x00] 1 0x7f elsewhere⟩

end EvmJumps
