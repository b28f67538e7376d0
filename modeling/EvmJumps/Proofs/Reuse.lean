import EvmJumps.Analyzer
import EvmJumps.Proofs.OffsetSet

namespace EvmJumps

namespace Bitmap

variable {b : Bitmap} {s : Finset Nat}

/-- Storage in which all offsets have room is never outgrown. -/
theorem reserved_setAll {os : List Nat} (room : ∀ o ∈ os, o / group + 1 ≤ b.reserved) :
    (b.setAll os).reserved = b.reserved := by
  induction os generalizing b with
  | nil => rfl
  | cons o os ih =>
    obtain ⟨first, others⟩ := List.forall_mem_cons.mp room
    have kept : (b.set o).reserved = b.reserved := if_pos first
    exact (ih (kept ▸ others)).trans kept

theorem reserved_withCapacity (b : Bitmap) : (withCapacity b.lenBits).reserved = b.bytes.size := by
  simp only [withCapacity, lenBits, group]
  omega

theorem Holds.byte_inside (holds : b.Holds s) {o : Nat} (member : o ∈ s) :
    o / group + 1 ≤ b.bytes.size := by
  rw [holds.size_eq]
  exact Finset.le_sup (f := fun o => o / group + 1) member

/-- Copying the offsets one after the other stays within the room for the bits. -/
theorem Holds.reserved_copy (holds : b.Holds s) (copied : Nat) :
    ((withCapacity b.lenBits).setAll (b.offsets.take copied)).reserved =
      (withCapacity b.lenBits).reserved := by
  apply reserved_setAll
  intro o early
  rw [reserved_withCapacity]
  exact holds.byte_inside (holds.isSet_iff.mp (mem_offsets.mp (List.mem_of_mem_take early)))

theorem Holds.copy (holds : b.Holds s) : ((withCapacity b.lenBits).setAll b.offsets).Holds s := by
  have copy := (holds_fresh (some b.lenBits)).setAll b.offsets
  rw [Finset.empty_union, holds.offsets_eq, Finset.sort_toFinset] at copy
  rw [holds.offsets_eq]
  exact copy

/-- The copy of a bitmap, offset by offset, is the bitmap without room to spare. -/
theorem Holds.copy_eq_shrink (holds : b.Holds s) :
    (withCapacity b.lenBits).setAll b.offsets = b.shrink := by
  have room := holds.reserved_copy b.offsets.length
  rw [List.take_length, reserved_withCapacity] at room
  have bytes := holds.copy.bytes_eq holds
  calc
    _ = Bitmap.mk ((withCapacity b.lenBits).setAll b.offsets).bytes
          ((withCapacity b.lenBits).setAll b.offsets).reserved := rfl
    _ = b.shrink := by rw [room, bytes, shrink]

end Bitmap

/-- What a scan leaves and reports does not depend on the bitmap that it was given. -/
theorem scan_any (code : List UInt8) (b : Bitmap) :
    (scan code b).1.bytes = (JumpTable.ofCode code).bitmap.bytes ∧
      (scan code b).2 = (JumpTable.ofCode code).outcome := by
  refine ⟨?_, ?_⟩
  · change (scan code b).1.bytes = (scan code .empty).1.bytes
    exact (Bitmap.holds_scan code b).bytes_eq (Bitmap.holds_scan code .empty)
  · rw [scan_eq, JumpTable.outcome_ofCode]

namespace Analyzer

theorem freeze_eq_ofCode (a : Analyzer) (code : List UInt8) :
    (a.freeze code).1 = JumpTable.ofCode code := by
  obtain ⟨bytes, outcome⟩ := scan_any code a.bitmap
  have copy := (Bitmap.holds_scan code a.bitmap).copy_eq_shrink
  have same : (scan code a.bitmap).1.shrink = (JumpTable.ofCode code).bitmap := by
    rw [Bitmap.shrink, bytes]
    rfl
  calc
    (a.freeze code).1 = JumpTable.mk ((Bitmap.withCapacity (scan code a.bitmap).1.lenBits).setAll
        (scan code a.bitmap).1.offsets) code.length (scan code a.bitmap).2 := rfl
    _ = JumpTable.ofCode code := by
      rw [copy, same, outcome]
      rfl

/-- Whatever an analyzer was used for, it freezes a code to the table that a new analysis gives;
both tables have the room that their bits take and no more, and the copy never outgrows the room
that was reserved for it. Having analyzed or frozen a code, the analyzer holds the bytes and the
outcome of that table; and so does any bitmap into which the code was scanned, whatever it held. -/
theorem used_analyzer_is_as_new (calls : List Call) (code : List UInt8) :
    let a := ({} : Analyzer).run calls
    ((a.freeze code).1 = JumpTable.ofCode code ∧
      (a.freeze code).1.bitmap.capacityBits = (a.freeze code).1.bitmap.lenBits ∧
      (JumpTable.ofCode code).bitmap.capacityBits = (JumpTable.ofCode code).bitmap.lenBits ∧
      ∀ copied, ((Bitmap.withCapacity (a.analyze code).bitmap.lenBits).setAll
        ((a.analyze code).bitmap.offsets.take copied)).reserved =
          (Bitmap.withCapacity (a.analyze code).bitmap.lenBits).reserved) ∧
    ((a.analyze code).bitmap.bytes = (JumpTable.ofCode code).bitmap.bytes ∧
      (a.analyze code).last = (JumpTable.ofCode code).outcome ∧
      (a.freeze code).2.bitmap.bytes = (JumpTable.ofCode code).bitmap.bytes ∧
      (a.freeze code).2.last = (JumpTable.ofCode code).outcome) ∧
    ∀ b : Bitmap, (scan code b).1.bytes = (JumpTable.ofCode code).bitmap.bytes ∧
      (scan code b).2 = (JumpTable.ofCode code).outcome := by
  intro a
  obtain ⟨bytes, outcome⟩ := scan_any code a.bitmap
  have exact : (JumpTable.ofCode code).bitmap.capacityBits =
      (JumpTable.ofCode code).bitmap.lenBits := rfl
  refine ⟨⟨a.freeze_eq_ofCode code, ?_, exact, ?_⟩, ⟨bytes, outcome, bytes, outcome⟩,
    fun b => scan_any code b⟩
  · rw [freeze_eq_ofCode]
    exact exact
  · exact (Bitmap.holds_scan code a.bitmap).reserved_copy

end Analyzer

end EvmJumps
