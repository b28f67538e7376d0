import Mathlib.Combinatorics.Colex
import Mathlib.Data.Nat.BitIndices
import EvmJumps.Proofs.OffsetSet

namespace EvmJumps

/-- The number that bytes spell, the least significant first. -/
def littleEndian : List UInt8 → Nat
  | [] => 0
  | byte :: bytes => 2 ^ 8 * littleEndian bytes + byte.toNat

theorem testBit_littleEndian (bytes : List UInt8) (o : Nat) :
    (littleEndian bytes).testBit o = (bytes.getD (o / 8) 0).toNat.testBit (o % 8) := by
  induction bytes generalizing o with
  | nil => simp [littleEndian]
  | cons byte bytes ih =>
    rw [littleEndian, Nat.testBit_two_pow_mul_add _ byte.toNat_lt]
    by_cases first : o < 8
    · rw [if_pos first, Nat.div_eq_of_lt first, Nat.mod_eq_of_lt first]
      rfl
    · have place : o / 8 = (o - 8) / 8 + 1 := by omega
      have bit : o % 8 = (o - 8) % 8 := by omega
      rw [if_neg first, ih, place, bit]
      rfl

namespace Bitmap

variable {b b' : Bitmap} {s : Finset Nat}

theorem testBit_bytes (b : Bitmap) (o : Nat) :
    (littleEndian b.bytes.toList).testBit o = b.isSet o := by
  rw [testBit_littleEndian, isSet_eq, Array.getD_eq_getD_getElem?, List.getD_eq_getElem?_getD,
    Array.getElem?_toList]
  rfl

theorem Holds.littleEndian_eq (holds : b.Holds s) :
    littleEndian b.bytes.toList = ∑ o ∈ s, 2 ^ o := by
  have bits : (littleEndian b.bytes.toList).bitIndices.toFinset = s := by
    ext o
    rw [List.mem_toFinset, Nat.mem_bitIndices, testBit_bytes, holds.isSet_iff]
  rw [← Finset.sum_toFinset_bitIndices_two_pow (littleEndian b.bytes.toList), bits]

/-- The last byte is there because of an offset in it. -/
theorem Holds.last_ne_zero (holds : b.Holds s) :
    b.bytes = #[] ∨ ∃ last, b.bytes.back? = some last ∧ last ≠ 0 := by
  rcases s.eq_empty_or_nonempty with rfl | some
  · exact Or.inl (Array.eq_empty_of_size_eq_zero holds.size_eq)
  · obtain ⟨o, member, greatest⟩ := Finset.exists_mem_eq_sup s some fun o => o / group + 1
    have size : b.bytes.size = o / group + 1 := holds.size_eq.trans greatest
    have inside : o / group < b.bytes.size := by omega
    have last : b.bytes.back? = Option.some b.bytes[o / group] := by
      rw [← Array.getElem?_eq_getElem inside, Array.back?, size, Nat.add_sub_cancel]
    refine Or.inr ⟨_, last, ?_⟩
    intro zero
    have on : b.isSet o = true := holds.isSet_iff.mpr member
    rw [isSet_eq, Array.getD_eq_getD_getElem?, Array.getElem?_eq_getElem inside,
      Option.getD_some, zero, UInt8.toNat_zero, Nat.zero_testBit] at on
    cases on

theorem Holds.beq_iff {s' : Finset Nat} (holds : b.Holds s) (holds' : b'.Holds s') :
    (b == b') = true ↔ ∀ o, b.isSet o = b'.isSet o := by
  rw [Bitmap.beq_iff]
  constructor
  · intro same o
    rw [isSet_eq, isSet_eq, same]
  · intro agree
    have sets : s = s' := by
      ext o
      rw [← holds.isSet_iff, ← holds'.isSet_iff, agree]
    exact holds.bytes_eq (sets ▸ holds')

/-- Whatever room they began with and whatever was done to them, two bitmaps are equal exactly if
the same offsets are set in them. The bytes of a bitmap are none or end with one that is not zero,
and they spell the sum of the powers of two at its offsets. Setting the same offsets, in any order
and any number of times, leaves the same bytes. -/
theorem beq_iff_isSet_agrees :
    (∀ (room room' : Option Nat) (calls calls' : List Call),
      ((fresh room).run calls == (fresh room').run calls') = true ↔
        ∀ o, ((fresh room).run calls).isSet o = ((fresh room').run calls').isSet o) ∧
    (∀ (room : Option Nat) (calls : List Call),
      (((fresh room).run calls).bytes = #[] ∨
        ∃ last, ((fresh room).run calls).bytes.back? = some last ∧ last ≠ 0) ∧
      (∀ o, o ∈ offsetSet calls ↔ ((fresh room).run calls).isSet o = true) ∧
      littleEndian ((fresh room).run calls).bytes.toList = ∑ o ∈ offsetSet calls, 2 ^ o) ∧
    ∀ (room room' : Option Nat) (calls : List Call) (os os' : List Nat),
      (∀ o, o ∈ os ↔ o ∈ os') →
      (((fresh room).run calls).setAll os == ((fresh room').run calls).setAll os') = true ∧
      (((fresh room).run calls).setAll os).bytes =
        (((fresh room').run calls).setAll os').bytes := by
  refine ⟨?_, ?_, ?_⟩
  · intro room room' calls calls'
    exact (holds_run room calls).beq_iff (holds_run room' calls')
  · intro room calls
    have holds := holds_run room calls
    exact ⟨holds.last_ne_zero, fun o => holds.isSet_iff.symm, holds.littleEndian_eq⟩
  · intro room room' calls os os' same
    have members : os.toFinset = os'.toFinset := by
      ext o
      rw [List.mem_toFinset, List.mem_toFinset, same]
    have holds := (holds_run room calls).setAll os
    have holds' := (holds_run room' calls).setAll os'
    rw [← members] at holds'
    have bytes := holds.bytes_eq holds'
    exact ⟨Bitmap.beq_iff.mpr bytes, bytes⟩

theorem beq_iff_isSet_agrees_repeated :
    (∀ o, o ∈ [17, 3] ↔ o ∈ [3, 17, 3]) ∧
      (((fresh none).run [.scan [0x5b]]).setAll [17, 3] ==
        ((fresh (some 64)).run [.scan [0x5b]]).setAll [3, 17, 3]) = true := by
  have same : ∀ o, o ∈ [17, 3] ↔ o ∈ [3, 17, 3] := by simp [or_comm]
  exact ⟨same, (beq_iff_isSet_agrees.2.2 none (some 64) [.scan [0x5b]] [17, 3] [3, 17, 3] same).1⟩

end Bitmap

end EvmJumps
