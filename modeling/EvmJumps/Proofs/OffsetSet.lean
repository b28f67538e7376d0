import Mathlib.Data.Finset.Lattice.Fold
import Mathlib.Data.Finset.Sort
import Mathlib.Order.Lattice.Nat
import EvmJumps.Proofs.Destinations

namespace EvmJumps

/-- The jump destinations of a code: the markers that the stride from opcode to opcode reaches. -/
def destinationSet (code : List UInt8) : Finset Nat :=
  (unflaggedMarkers code).toFinset

namespace Bitmap

/-- What can be done to a bitmap. -/
inductive Call where
  | set (o : Nat)
  | reset
  | shrink
  | scan (code : List UInt8)
  deriving Repr

def call (b : Bitmap) : Call → Bitmap
  | .set o => b.set o
  | .reset => b.reset
  | .shrink => b.shrink
  | .scan code => (EvmJumps.scan code b).1

/-- The bitmap after a history of calls. -/
def run (b : Bitmap) (calls : List Call) : Bitmap :=
  calls.foldl call b

/-- An empty bitmap, with room for the offsets below a bound if there is one. -/
def fresh : Option Nat → Bitmap
  | none => .empty
  | some bits => .withCapacity bits

/-- What a call does to a set of offsets. -/
def Call.apply (s : Finset Nat) : Call → Finset Nat
  | .set o => insert o s
  | .reset => ∅
  | .shrink => s
  | .scan code => destinationSet code

/-- The set that a history of calls leaves. -/
def offsetSet (calls : List Call) : Finset Nat :=
  calls.foldl Call.apply ∅

/-- The bits that are set are those of the offsets in the set, and the bytes reach to the greatest
of them. -/
structure Holds (b : Bitmap) (s : Finset Nat) : Prop where
  isSet_iff : ∀ {o}, b.isSet o = true ↔ o ∈ s
  size_eq : b.bytes.size = s.sup fun o => o / group + 1

variable {b : Bitmap} {s : Finset Nat}

theorem holds_reset (b : Bitmap) : b.reset.Holds ∅ := by
  refine ⟨?_, rfl⟩
  intro o
  rw [isSet_reset]
  simp

theorem holds_fresh (room : Option Nat) : (fresh room).Holds ∅ := by
  have empty : (fresh room).reset = fresh room := by cases room <;> rfl
  rw [← empty]
  exact holds_reset _

theorem Holds.set (holds : b.Holds s) (o : Nat) : (b.set o).Holds (insert o s) := by
  refine ⟨?_, ?_⟩
  · intro p
    rw [isSet_set, Bool.or_eq_true, decide_eq_true_eq, holds.isSet_iff, Finset.mem_insert, or_comm]
  · rw [size_set, holds.size_eq, Finset.sup_insert, Nat.max_comm]

theorem Holds.setAll (holds : b.Holds s) (os : List Nat) :
    (b.setAll os).Holds (s ∪ os.toFinset) := by
  induction os generalizing b s with
  | nil =>
    rw [List.toFinset_nil, Finset.union_empty]
    exact holds
  | cons o os ih =>
    rw [List.toFinset_cons, Finset.union_insert, ← Finset.insert_union]
    exact ih (holds.set o)

/-- A scan leaves the destinations of its code, whatever the bitmap held. -/
theorem holds_scan (code : List UInt8) (b : Bitmap) :
    (EvmJumps.scan code b).1.Holds (destinationSet code) := by
  have holds := (holds_reset b).setAll (destinations (walk code).toList)
  rw [Finset.empty_union, ← unflaggedMarkers_eq] at holds
  rw [scan_eq, ← unflaggedMarkers_eq]
  exact holds

theorem Holds.call (holds : b.Holds s) (call : Call) : (b.call call).Holds (call.apply s) := by
  cases call with
  | set o => exact holds.set o
  | reset => exact holds_reset b
  | shrink => exact ⟨holds.isSet_iff, holds.size_eq⟩
  | scan code => exact holds_scan code b

theorem Holds.run (holds : b.Holds s) (calls : List Call) :
    (b.run calls).Holds (calls.foldl Call.apply s) := by
  induction calls generalizing b s with
  | nil => exact holds
  | cons call calls ih => exact ih (holds.call call)

theorem holds_run (room : Option Nat) (calls : List Call) :
    ((fresh room).run calls).Holds (offsetSet calls) :=
  (holds_fresh room).run calls

theorem isSet_group (b : Bitmap) (i : Nat) {k : Nat} (small : k < group) :
    b.isSet (i * group + k) = (b.bytes.getD i 0).toNat.testBit k := by
  have quotient : (i * group + k) / group = i := by
    simp only [group] at small ⊢
    omega
  have remainder : (i * group + k) % group = k := by
    simp only [group] at small ⊢
    omega
  rw [isSet_eq, quotient, remainder]

/-- A set of offsets has one form as bytes. -/
theorem Holds.bytes_eq {b' : Bitmap} (holds : b.Holds s) (holds' : b'.Holds s) :
    b.bytes = b'.bytes := by
  have size : b.bytes.size = b'.bytes.size := by rw [holds.size_eq, holds'.size_eq]
  apply Array.ext size
  intro i inside inside'
  have byte : b.bytes.getD i 0 = b'.bytes.getD i 0 := by
    apply UInt8.toNat_inj.mp
    apply Nat.eq_of_testBit_eq
    intro k
    by_cases small : k < group
    · rw [← isSet_group b i small, ← isSet_group b' i small]
      exact Bool.eq_iff_iff.mpr (holds.isSet_iff.trans holds'.isSet_iff.symm)
    · have high (x : UInt8) : x.toNat.testBit k = false :=
        Nat.testBit_lt_two_pow (x.toNat_lt.trans_le
          (Nat.pow_le_pow_right (by decide) (Nat.le_of_not_lt small)))
      rw [high, high]
  simpa [Array.getD, inside, inside'] using byte

theorem Holds.offsets_eq (holds : b.Holds s) : b.offsets = s.sort (· ≤ ·) := by
  apply List.Pairwise.eq_of_mem_iff (offsets_ascending b) s.sortedLT_sort.pairwise
  intro o
  rw [mem_offsets, holds.isSet_iff, Finset.mem_sort]

theorem Holds.count_eq (holds : b.Holds s) : b.count = s.card := by
  rw [← length_offsets, holds.offsets_eq, Finset.length_sort]

/-- A bitmap without bytes is one without offsets: no byte stands behind the last offset. -/
theorem Holds.isEmpty_iff (holds : b.Holds s) : b.isEmpty = true ↔ s = ∅ := by
  rw [isEmpty, Array.isEmpty_iff_size_eq_zero, holds.size_eq, ← Nat.bot_eq_zero,
    Finset.sup_eq_bot_iff, Finset.eq_empty_iff_forall_notMem]
  apply forall₂_congr
  intro o _
  exact iff_of_false (Nat.succ_ne_zero _) id

theorem Holds.lenBits_eq (holds : b.Holds s) :
    b.lenBits = if some : s.Nonempty then 8 * (s.max' some / 8 + 1) else 0 := by
  rw [lenBits, holds.size_eq]
  split
  · rename_i some
    have reached : (s.sup fun o => o / group + 1) = s.max' some / group + 1 := by
      apply Nat.le_antisymm
      · apply Finset.sup_le
        intro o member
        exact Nat.succ_le_succ (Nat.div_le_div_right (s.le_max' o member))
      · exact Finset.le_sup (f := fun o => o / group + 1) (s.max'_mem some)
    rw [reached, Nat.mul_comm]
    rfl
  · rename_i none
    rw [Finset.not_nonempty_iff_eq_empty.mp none]
    rfl

/-- After any history of calls on an empty bitmap an offset is set exactly if it is in the set that
the history leaves; the offsets are listed in ascending order, each once; the count is their number;
the bitmap is empty exactly if the set is; and its bytes end with that of the greatest offset. -/
theorem queries_tell_offsetSet (room : Option Nat) (calls : List Call) :
    (∀ o, ((fresh room).run calls).isSet o = true ↔ o ∈ offsetSet calls) ∧
    ((fresh room).run calls).offsets = (offsetSet calls).sort (· ≤ ·) ∧
    ((fresh room).run calls).count = (offsetSet calls).card ∧
    (((fresh room).run calls).isEmpty = true ↔ offsetSet calls = ∅) ∧
    ((fresh room).run calls).lenBits =
      if some : (offsetSet calls).Nonempty then 8 * ((offsetSet calls).max' some / 8 + 1)
      else 0 := by
  have holds := holds_run room calls
  refine ⟨fun o => holds.isSet_iff, ?_, ?_, ?_, ?_⟩
  · exact holds.offsets_eq
  · exact holds.count_eq
  · exact holds.isEmpty_iff
  · exact holds.lenBits_eq

example : ((fresh none).run [.set 17, .set 3]).offsets = [3, 17] := by decide

end Bitmap

end EvmJumps
