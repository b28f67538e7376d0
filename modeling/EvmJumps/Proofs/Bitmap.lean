import EvmJumps.Bitmap

namespace EvmJumps.Bitmap

theorem isSet_setAll (b : Bitmap) (os : List Nat) (p : Nat) :
    (b.setAll os).isSet p = (b.isSet p || decide (p ∈ os)) := by
  induction os generalizing b with
  | nil => simp [setAll]
  | cons o os ih =>
    have further := ih (b.set o)
    rw [isSet_set] at further
    rw [setAll, List.foldl_cons, ← setAll, further, Bool.or_assoc]
    simp

theorem byteOffsets_ascending (byte : UInt8) : (byteOffsets byte).Pairwise (· < ·) :=
  List.pairwise_lt_range.filter _

/-- The offsets that bytes stand for when they are stored from some place on. -/
def offsetsFrom (start : Nat) (bytes : List UInt8) : List Nat :=
  (bytes.zipIdx start).flatMap fun (byte, i) => (byteOffsets byte).map (i * group + ·)

theorem le_of_mem_offsetsFrom {start o : Nat} {bytes : List UInt8}
    (member : o ∈ offsetsFrom start bytes) : start * group ≤ o := by
  obtain ⟨⟨byte, i⟩, found, inside⟩ := List.mem_flatMap.mp member
  obtain ⟨k, _, rfl⟩ := List.mem_map.mp inside
  have place : start ≤ i := List.le_snd_of_mem_zipIdx found
  have := Nat.mul_le_mul_right group place
  omega

theorem offsetsFrom_ascending (start : Nat) (bytes : List UInt8) :
    (offsetsFrom start bytes).Pairwise (· < ·) := by
  induction bytes generalizing start with
  | nil => exact List.Pairwise.nil
  | cons byte bytes ih =>
    rw [offsetsFrom, List.zipIdx_cons, List.flatMap_cons, List.pairwise_append]
    refine ⟨?_, ih (start + 1), ?_⟩
    · rw [List.pairwise_map]
      exact (byteOffsets_ascending byte).imp (fun h => Nat.add_lt_add_left h _)
    · intro o first p later
      obtain ⟨k, low, rfl⟩ := List.mem_map.mp first
      have inside := (mem_byteOffsets.mp low).1
      have behind := le_of_mem_offsetsFrom later
      rw [Nat.add_mul] at behind
      omega

theorem offsets_ascending (b : Bitmap) : b.offsets.Pairwise (· < ·) :=
  offsetsFrom_ascending 0 b.bytes.toList

end EvmJumps.Bitmap
