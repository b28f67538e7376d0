import Mathlib.Data.List.Sort
import EvmJumps.JumpTable
import EvmJumps.Proofs.Bitmap
import EvmJumps.Proofs.Stride
import EvmJumps.Proofs.Walk

namespace EvmJumps

/-- The offsets of the markers among instructions. -/
def destinations (is : List Instruction) : List Nat :=
  (is.filter fun i => i.opcode.isJumpdest).map Instruction.pc

theorem mem_destinations {p : Nat} {is : List Instruction} :
    p ∈ destinations is ↔ ∃ i ∈ is, i.opcode = Opcode.jumpdest ∧ i.pc = p := by
  simp [destinations, Opcode.isJumpdest, and_assoc]

theorem destinations_ascending {pc : Nat} {is : List Instruction}
    (row : Instruction.InRow pc is) : (destinations is).Pairwise (· < ·) :=
  row.ascending.sublist (List.filter_sublist.map _)

theorem foldl_mark (is : List Instruction) (b : Bitmap) (n : Nat) :
    is.foldl mark (b, n) = (b.setAll (destinations is), n + (destinations is).length) := by
  induction is generalizing b n with
  | nil => rfl
  | cons i is ih =>
    rw [List.foldl_cons]
    cases marker : i.opcode.isJumpdest with
    | false => simp [mark, destinations, marker, ih]
    | true =>
      simp only [mark, marker, if_true, ih]
      simp [destinations, marker, Bitmap.setAll]
      omega

/-- A scan sets the destinations that the walk yields, in their order. -/
theorem scan_eq (code : List UInt8) (b : Bitmap) :
    scan code b = (b.reset.setAll (destinations (walk code).toList),
      { scanned := (walk code).exhausted.position
        jumpdests := (destinations (walk code).toList).length
        truncatedAt := (walk code).exhausted.truncatedAt }) := by
  simp only [scan, Walker.foldl_eq, foldl_mark, Nat.zero_add]

theorem JumpTable.isSet_ofCode {code : List UInt8} {p : Nat} :
    (ofCode code).bitmap.isSet p = true ↔ p ∈ destinations (walk code).toList := by
  simp only [ofCode, scan_eq, Bitmap.isSet_shrink, Bitmap.isSet_setAll, Bitmap.isSet_reset,
    Bool.false_or, decide_eq_true_eq]

theorem JumpTable.outcome_ofCode (code : List UInt8) : (ofCode code).outcome =
    { scanned := (walk code).exhausted.position
      jumpdests := (destinations (walk code).toList).length
      truncatedAt := (walk code).exhausted.truncatedAt } := by
  simp only [ofCode, scan_eq]

/-- A table lists the markers among the instructions of its code. -/
theorem JumpTable.jumpdests_ofCode (code : List UInt8) :
    (ofCode code).jumpdests = destinations (walk code).toList := by
  apply List.Pairwise.eq_of_mem_iff (Bitmap.offsets_ascending _)
    (destinations_ascending (reads_walk code).row)
  intro p
  rw [Bitmap.mem_offsets, isSet_ofCode]

/-- The first byte behind some part of a code. -/
theorem getElem?_behind_part {code before rest : List UInt8} {b : UInt8} {pc : Nat}
    (split : code = before ++ b :: rest) (place : before.length = pc) : code[pc]? = some b := by
  rw [split, ← place, List.getElem?_append_right (Nat.le_refl _), Nat.sub_self,
    List.getElem?_cons_zero]

/-- The markers that a reading of the rest of a code yields are those that the stride reaches: a
PUSH at the end takes the stride beyond the code. -/
theorem Reads.mem_destinations_iff {pc p : Nat} {code rest tail : List UInt8}
    {is : List Instruction} (reads : Reads pc rest is tail) (before : List UInt8)
    (split : code = before ++ rest) (place : before.length = pc) :
    p ∈ destinations is ↔ code[p]? = some 0x5b ∧ Leads code pc p := by
  induction reads generalizing before with
  | @stub pc tail left =>
    simp only [destinations, List.filter_nil, List.map_nil, List.not_mem_nil, false_iff]
    intro ⟨marker, leads⟩
    have size : code.length = pc + tail.length := by
      rw [split, List.length_append, place]
    have inside := (List.getElem?_eq_some_iff.mp marker).1
    have reached := leads.le
    cases tail with
    | nil =>
      simp only [List.length_nil] at size
      omega
    | cons b immediate =>
      have found : code[pc]? = some (Opcode.mk b).byte := getElem?_behind_part split place
      have longer : immediate.length < (Opcode.mk b).immediateSize := left
      simp only [List.length_cons] at size
      rcases (Leads.iff_next found).mp leads with rfl | further
      · rw [marker] at found
        cases found
        cases longer
      · have := further.le
        omega
  | @instruction i rest tail is whole further ih =>
    have found : code[i.pc]? = some i.opcode.byte := getElem?_behind_part split place
    have others := ih (before ++ i.encode) (by rw [split, List.append_assoc])
      (by rw [List.length_append, place, Instruction.nextPc_eq])
    rw [Leads.iff_next found, ← whole.nextPc, and_or_left, ← others, mem_destinations,
      mem_destinations, List.exists_mem_cons_iff]
    have first : (i.opcode = Opcode.jumpdest ∧ i.pc = p) ↔ code[p]? = some 0x5b ∧ p = i.pc := by
      constructor
      · intro ⟨marker, here⟩
        rw [← here, found, marker]
        exact ⟨rfl, rfl⟩
      · intro ⟨marker, here⟩
        subst here
        rw [found] at marker
        exact ⟨congrArg Opcode.mk (Option.some.inj marker), rfl⟩
    rw [first]

theorem mem_destinations_walk {code : List UInt8} {p : Nat} :
    p ∈ destinations (walk code).toList ↔ code[p]? = some 0x5b ∧ Leads code 0 p :=
  (reads_walk code).mem_destinations_iff [] rfl rfl

theorem JumpTable.isJumpdest_ofCode {code : List UInt8} {p : Nat} :
    (ofCode code).isJumpdest p = true ↔ code[p]? = some 0x5b ∧ Leads code 0 p := by
  rw [isJumpdest, isSet_ofCode, mem_destinations_walk]

theorem unflaggedMarkers_eq (code : List UInt8) :
    unflaggedMarkers code = destinations (walk code).toList := by
  apply List.Pairwise.eq_of_mem_iff (unflaggedMarkers_ascending code)
    (destinations_ascending (reads_walk code).row)
  intro p
  rw [mem_unflaggedMarkers, mem_destinations_walk]

/-- The table of a code lists, in ascending order, the markers that the stride reaches: that the
walk stops at a PUSH whose immediate is cut off loses none of them and adds none. No byte of an
immediate is set. Two passes, over the data and over the markers, find the same list. -/
theorem jumpdests_reached (code : List UInt8) :
    (JumpTable.ofCode code).jumpdests.Pairwise (· < ·) ∧
    (∀ p, p ∈ (JumpTable.ofCode code).jumpdests ↔
      p < code.length ∧ code[p]? = some 0x5b ∧ Leads code 0 p) ∧
    (∀ (i p n : Nat) (o : Opcode), Leads code 0 i → code[i]? = some o.byte → o.Pushes n →
      i < p → p ≤ i + n → (JumpTable.ofCode code).bitmap.isSet p = false) ∧
    unflaggedMarkers code = (JumpTable.ofCode code).jumpdests := by
  refine ⟨Bitmap.offsets_ascending _, ?_, ?_, ?_⟩
  · intro p
    rw [JumpTable.jumpdests_ofCode, mem_destinations_walk]
    constructor
    · intro ⟨marker, leads⟩
      exact ⟨(List.getElem?_eq_some_iff.mp marker).1, marker, leads⟩
    · intro ⟨_, marker, leads⟩
      exact ⟨marker, leads⟩
  · intro i p n o opcode found push behind within
    apply Bool.eq_false_iff.mpr
    intro set
    have leads := (mem_destinations_walk.mp (JumpTable.isSet_ofCode.mp set)).2
    have next := opcode.next_le leads found behind
    rw [push.immediateSize] at next
    omega
  · rw [JumpTable.jumpdests_ofCode, unflaggedMarkers_eq]

/-- The markers within a PUSH3 that is one byte short are not set. -/
theorem jumpdests_reached_push3 :
    Leads [0x5b, 0x62, 0x5b, 0x5b] 0 1 ∧ Opcode.Pushes ⟨0x62⟩ 3 ∧
      (JumpTable.ofCode [0x5b, 0x62, 0x5b, 0x5b]).bitmap.isSet 3 = false := by
  have leads : Leads [0x5b, 0x62, 0x5b, 0x5b] 0 1 :=
    (Leads.iff_next (o := Opcode.jumpdest) rfl).mpr (Or.inr (.here 1))
  have push : Opcode.Pushes ⟨0x62⟩ 3 := ⟨by decide, by decide, rfl⟩
  exact ⟨leads, push, (jumpdests_reached [0x5b, 0x62, 0x5b, 0x5b]).2.2.1 1 3 3 ⟨0x62⟩ leads rfl
    push (by decide) (by decide)⟩

end EvmJumps
