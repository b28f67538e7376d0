import EvmJumps.Proofs.Grammar
import EvmJumps.Proofs.Mnemonics

namespace EvmJumps

section Fields

variable {α : Type} [DecidableEq α] {c : α} {field field' rest rest' : List α}

/-- Where a field of any width ends is told by the character behind it, which is not within. -/
theorem takeWhile_field (apart : c ∉ field) (ends : ∀ d ∈ rest.head?, d = c) :
    (field ++ rest).takeWhile (· != c) = field := by
  have inside : ∀ d ∈ field, (d != c) = true := by
    intro d member
    apply bne_iff_ne.mpr
    rintro rfl
    exact apart member
  rw [List.takeWhile_append_of_pos inside]
  cases rest with
  | nil => simp
  | cons d rest =>
    rw [ends d rfl]
    simp

theorem fields_eq (apart : c ∉ field) (apart' : c ∉ field') (ends : ∀ d ∈ rest.head?, d = c)
    (ends' : ∀ d ∈ rest'.head?, d = c) (same : field ++ rest = field' ++ rest') :
    field = field' ∧ rest = rest' := by
  have first : field = field' := by
    rw [← takeWhile_field apart ends, same, takeWhile_field apart' ends']
  subst first
  exact ⟨rfl, List.append_cancel_left same⟩

end Fields

namespace Instruction

/-- What stands behind the name of an opcode. -/
def immediateText (immediate : List UInt8) : List Char :=
  if immediate = [] then [] else ' ' :: '0' :: 'x' :: Text.hexBytes immediate

theorem text_eq (i : Instruction) : i.text =
    Text.hexOffset i.pc ++ ':' :: ' ' :: (i.opcode.display ++ immediateText i.immediate) := by
  rw [text, List.append_assoc]
  rfl

theorem space_of_head_immediateText {c : Char} {immediate : List UInt8}
    (head : c ∈ (immediateText immediate).head?) : c = ' ' := by
  rw [immediateText] at head
  split at head
  · cases head
  · cases head
    rfl

theorem immediateText_injective {immediate immediate' : List UInt8}
    (same : immediateText immediate = immediateText immediate') : immediate = immediate' := by
  rw [immediateText, immediateText] at same
  split at same
  · rename_i none
    split at same
    · rename_i none'
      rw [none, none']
    · cases same
  · split at same
    · cases same
    · simp only [List.cons.injEq, true_and] at same
      exact Hex.hexBytes_injective same

/-- The line of an instruction tells its offset, its opcode and its immediate. -/
theorem text_injective {i j : Instruction} (same : i.text = j.text) : i = j := by
  have colon (n : Nat) : ':' ∉ Text.hexOffset n := by
    intro member
    exact absurd (Text.isAlphanum_of_mem_hexOffset member) (by decide)
  have space (o : Opcode) : ' ' ∉ o.display := by
    intro member
    exact absurd (Opcode.mem_display member) (by decide)
  rw [text_eq, text_eq] at same
  obtain ⟨place, same⟩ := fields_eq (colon _) (colon _) (by simp) (by simp) same
  simp only [List.cons.injEq, true_and] at same
  obtain ⟨name, same⟩ := fields_eq (space _) (space _) (fun _ => space_of_head_immediateText)
    (fun _ => space_of_head_immediateText) same
  obtain ⟨pc, o, immediate⟩ := i
  obtain ⟨pc', o', immediate'⟩ := j
  rw [mk.injEq]
  exact ⟨Text.hexOffset_injective place, Opcode.display_injective name,
    immediateText_injective same⟩

end Instruction

/-- The lines of the disassembly of a code. -/
def listing (code : List UInt8) : List (List Char) :=
  (disassemble code).toList.map Instruction.text

/-- The bytes of a code up to where the walk stops. -/
def scanned (code : List UInt8) : List UInt8 :=
  code.take (walk code).exhausted.position

theorem length_scanned (code : List UInt8) :
    (scanned code).length = (walk code).exhausted.position := by
  rw [scanned, List.length_take]
  exact Nat.min_eq_left (parsed_walk code).within

theorem scanned_of_not_truncated {code : List UInt8}
    (whole : (walk code).exhausted.truncatedAt = none) : scanned code = code := by
  rw [scanned, (parsed_walk code).uncut_iff.mp whole, List.take_length]

/-- What the walk goes through is read as the same instructions without what is left behind it. -/
theorem toList_walk_scanned (code : List UInt8) :
    (walk (scanned code)).toList = (walk code).toList := by
  have reads := reads_walk code
  have empty : Stub [] := trivial
  have again := Reads.of_row reads.row reads.whole empty
  rw [List.append_nil, (parsed_walk code).bytes] at again
  exact again.toList_eq

theorem listing_eq_iff {code code' : List UInt8} :
    listing code = listing code' ↔ scanned code = scanned code' := by
  rw [listing, listing, toList_disassemble, toList_disassemble]
  constructor
  · intro lines
    have instructions : (walk code).toList = (walk code').toList :=
      List.map_injective_iff.mpr (fun _ _ => Instruction.text_injective) lines
    rw [scanned, ← (parsed_walk code).bytes, instructions, (parsed_walk code').bytes, scanned]
  · intro bytes
    rw [← toList_walk_scanned code, bytes, toList_walk_scanned]

/-- Two instructions have the same line only if they are the same, at the same offset. So two codes
have the same disassembly exactly if the walks through them go through the same bytes, and as far;
and if neither ends within an instruction, exactly if they are the same code. -/
theorem listing_tells_scanned_bytes :
    (∀ i j : Instruction, i.text = j.text ↔ i = j) ∧
    (∀ code code' : List UInt8, listing code = listing code' ↔ scanned code = scanned code') ∧
    (∀ code, (scanned code).length = (walk code).exhausted.position) ∧
    ∀ code code' : List UInt8, (walk code).exhausted.truncatedAt = none →
      (walk code').exhausted.truncatedAt = none →
      (listing code = listing code' ↔ code = code') := by
  refine ⟨?_, fun code code' => listing_eq_iff, length_scanned, ?_⟩
  · intro i j
    exact ⟨Instruction.text_injective, congrArg Instruction.text⟩
  · intro code code' whole whole'
    rw [listing_eq_iff, scanned_of_not_truncated whole, scanned_of_not_truncated whole']

/-- A marker and a PUSH1, and a marker and a PUSH2, are listed as different codes. -/
theorem listing_tells_scanned_bytes_push :
    (walk [0x5b, 0x60, 0x5b]).exhausted.truncatedAt = none ∧
    (walk [0x5b, 0x61, 0x5b, 0x5b]).exhausted.truncatedAt = none ∧
    listing [0x5b, 0x60, 0x5b] ≠ listing [0x5b, 0x61, 0x5b, 0x5b] := by
  have one : Reads 0 [0x5b, 0x60, 0x5b] [⟨0, ⟨0x5b⟩, []⟩, ⟨1, ⟨0x60⟩, [0x5b]⟩] [] :=
    .instruction (i := ⟨0, ⟨0x5b⟩, []⟩) rfl
      (.instruction (i := ⟨1, ⟨0x60⟩, [0x5b]⟩) rfl (.stub trivial))
  have other : Reads 0 [0x5b, 0x61, 0x5b, 0x5b] [⟨0, ⟨0x5b⟩, []⟩, ⟨1, ⟨0x61⟩, [0x5b, 0x5b]⟩] [] :=
    .instruction (i := ⟨0, ⟨0x5b⟩, []⟩) rfl
      (.instruction (i := ⟨1, ⟨0x61⟩, [0x5b, 0x5b]⟩) rfl (.stub trivial))
  have whole : (walk [0x5b, 0x60, 0x5b]).exhausted.truncatedAt = none := by
    rw [one.exhausted_eq]
    rfl
  have whole' : (walk [0x5b, 0x61, 0x5b, 0x5b]).exhausted.truncatedAt = none := by
    rw [other.exhausted_eq]
    rfl
  refine ⟨whole, whole', ?_⟩
  intro same
  have codes := (listing_tells_scanned_bytes.2.2.2 _ _ whole whole').mp same
  cases codes

end EvmJumps
