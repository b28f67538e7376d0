namespace EvmJumps

/-- Offsets packed into bytes, the least significant bit first, and how many bytes the storage has
room for. The bytes reach to the greatest offset that was set and no further. -/
structure Bitmap where
  bytes : Array UInt8 := #[]
  reserved : Nat := 0
  deriving Repr, Inhabited

namespace Bitmap

/-- Offsets per byte of storage. -/
def group : Nat := 8

/-- Bitmaps are compared by their bytes; the room of their storage does not count. -/
instance : BEq Bitmap where
  beq a b := a.bytes == b.bytes

theorem beq_iff {a b : Bitmap} : (a == b) = true ↔ a.bytes = b.bytes :=
  beq_iff_eq (a := a.bytes) (b := b.bytes)

def empty : Bitmap := {}

/-- An empty bitmap with room for the offsets below a bound. -/
def withCapacity (bits : Nat) : Bitmap where
  reserved := (bits + group - 1) / group

/-- Storage that is outgrown doubles at least, and never has room for less than eight bytes. -/
def grow (reserved needed : Nat) : Nat :=
  if needed ≤ reserved then reserved else max (2 * reserved) (max needed 8)

def set (b : Bitmap) (o : Nat) : Bitmap :=
  let needed := o / group + 1
  let bytes := b.bytes ++ Array.replicate (needed - b.bytes.size) 0
  { bytes := bytes.modify (o / group) (· ||| (1 <<< (o % group).toUInt8))
    reserved := grow b.reserved needed }

/-- Whether one bit of a byte is set. -/
def hasBit (byte : UInt8) (k : Nat) : Bool :=
  byte &&& (1 <<< k.toUInt8) != 0

/-- Offsets beyond the storage are not set. -/
def isSet (b : Bitmap) (o : Nat) : Bool :=
  hasBit (b.bytes.getD (o / group) 0) (o % group)

/-- Empties the bitmap and keeps the room of its storage. -/
def reset (b : Bitmap) : Bitmap :=
  { b with bytes := #[] }

/-- Gives up the room that the bytes do not need. -/
def shrink (b : Bitmap) : Bitmap :=
  { b with reserved := b.bytes.size }

def lenBits (b : Bitmap) : Nat :=
  b.bytes.size * group

def capacityBits (b : Bitmap) : Nat :=
  b.reserved * group

def isEmpty (b : Bitmap) : Bool :=
  b.bytes.isEmpty

/-- The bits of one byte that are set, in ascending order. -/
def byteOffsets (byte : UInt8) : List Nat :=
  (List.range group).filter (hasBit byte)

/-- How many bits of a byte are set. -/
def weight (byte : UInt8) : Nat :=
  byte.toBitVec.cpop.toNat

/-- How many offsets are set. -/
def count (b : Bitmap) : Nat :=
  b.bytes.foldl (fun n byte => n + weight byte) 0

/-- The offsets that are set, in ascending order. -/
def offsets (b : Bitmap) : List Nat :=
  b.bytes.toList.zipIdx.flatMap fun (byte, i) => (byteOffsets byte).map (i * group + ·)

def setAll (b : Bitmap) (os : List Nat) : Bitmap :=
  os.foldl set b

theorem testBit_bit {k : Nat} (small : k < 8) (j : Nat) :
    ((1 : UInt8) <<< k.toUInt8).toNat.testBit j = decide (k = j) := by
  have amount : k.toUInt8.toNat % 8 = k := by
    rw [UInt8.toNat_ofNat']
    omega
  have value : ((1 : UInt8) <<< k.toUInt8).toNat = 2 ^ k := by
    rw [UInt8.toNat_shiftLeft, amount, UInt8.toNat_one, Nat.one_shiftLeft]
    exact Nat.mod_eq_of_lt (Nat.pow_lt_pow_right (by decide) small)
  rw [value, Nat.testBit_two_pow]

theorem hasBit_eq (byte : UInt8) {k : Nat} (small : k < 8) :
    hasBit byte k = byte.toNat.testBit k := by
  have masked (j : Nat) : (byte &&& (1 <<< k.toUInt8)).toNat.testBit j =
      (byte.toNat.testBit j && decide (k = j)) := by
    rw [UInt8.toNat_and, Nat.testBit_and, testBit_bit small]
  cases on : byte.toNat.testBit k with
  | true =>
    refine bne_iff_ne.mpr ?_
    intro zero
    have bit := masked k
    rw [zero, on] at bit
    simp at bit
  | false =>
    have zero : byte &&& (1 <<< k.toUInt8) = 0 := by
      apply UInt8.toNat_inj.mp
      apply Nat.eq_of_testBit_eq
      intro j
      rw [masked]
      by_cases same : k = j
      · simp [← same, on]
      · simp [same]
    simp [hasBit, zero]

theorem isSet_eq (b : Bitmap) (o : Nat) :
    b.isSet o = (b.bytes.getD (o / group) 0).toNat.testBit (o % group) :=
  hasBit_eq _ (Nat.mod_lt o (by decide))

theorem isSet_reset (b : Bitmap) (o : Nat) : b.reset.isSet o = false := by
  simp [isSet_eq, reset]

theorem isSet_shrink (b : Bitmap) (o : Nat) : b.shrink.isSet o = b.isSet o :=
  rfl

theorem size_set (b : Bitmap) (o : Nat) :
    (b.set o).bytes.size = max b.bytes.size (o / group + 1) := by
  simp only [set, Array.size_modify, Array.size_append, Array.size_replicate]
  omega

theorem testBit_mark (x : UInt8) {k : Nat} (small : k < 8) (j : Nat) :
    (x ||| (1 <<< k.toUInt8)).toNat.testBit j = (x.toNat.testBit j || decide (j = k)) := by
  rw [UInt8.toNat_or, Nat.testBit_or, testBit_bit small]
  simp [eq_comm]

theorem getD_set (b : Bitmap) (o i : Nat) :
    (b.set o).bytes.getD i 0 =
      if o / group = i then b.bytes.getD i 0 ||| (1 <<< (o % group).toUInt8)
      else b.bytes.getD i 0 := by
  simp only [set, Array.getD_eq_getD_getElem?, Array.getElem?_modify, Array.getElem?_append,
    Array.getElem?_replicate]
  by_cases same : o / group = i
  · subst same
    by_cases inside : o / group < b.bytes.size
    · simp [inside]
    · have outside : b.bytes[o / group]? = none := Array.getElem?_eq_none (by omega)
      simp only [inside, if_false, if_true, outside]
      rw [if_pos (by omega)]
      rfl
  · by_cases inside : i < b.bytes.size
    · simp [inside, same]
    · have outside : b.bytes[i]? = none := Array.getElem?_eq_none (by omega)
      simp only [inside, same, if_false, outside]
      split <;> rfl

theorem isSet_set (b : Bitmap) (o p : Nat) : (b.set o).isSet p = (b.isSet p || decide (p = o)) := by
  have below (n : Nat) : n % group < 8 := Nat.mod_lt n (by decide)
  rw [isSet_eq, getD_set]
  by_cases same : o / group = p / group
  · rw [if_pos same, testBit_mark _ (below o), ← isSet_eq]
    have : p % group = o % group ↔ p = o := by
      simp only [group] at same ⊢
      omega
    simp only [this]
  · have : p ≠ o := by
      rintro rfl
      exact same rfl
    simp [same, this, isSet_eq]

theorem mem_byteOffsets {byte : UInt8} {k : Nat} :
    k ∈ byteOffsets byte ↔ k < group ∧ byte.toNat.testBit k := by
  rw [byteOffsets, List.mem_filter, List.mem_range]
  apply and_congr_right
  intro small
  rw [hasBit_eq byte small]

/-- Counting the bits of a byte and listing them come to the same. -/
theorem length_byteOffsets (byte : UInt8) : (byteOffsets byte).length = weight byte := by
  have steps (n : Nat) (small : n ≤ 8) : ((List.range n).filter (hasBit byte)).length =
      byte.toBitVec.cpopNatRec n 0 := by
    induction n with
    | zero => rfl
    | succ n ih =>
      have bit : hasBit byte n = byte.toBitVec.getLsbD n := hasBit_eq byte small
      rw [List.range_succ, List.filter_append, List.length_append, ih (by omega),
        BitVec.cpopNatRec_succ, BitVec.cpopNatRec_add, List.filter_cons, bit]
      cases byte.toBitVec.getLsbD n <;> rfl
  rw [byteOffsets, steps group (Nat.le_refl 8), weight, BitVec.toNat_cpop]
  rfl

theorem mem_offsets {b : Bitmap} {o : Nat} : o ∈ b.offsets ↔ b.isSet o := by
  simp only [offsets, List.mem_flatMap, List.mem_map, mem_byteOffsets, isSet_eq]
  constructor
  · rintro ⟨⟨byte, i⟩, found, k, ⟨low, on⟩, rfl⟩
    have at_i : b.bytes[i]? = some byte := by
      simpa [List.mem_zipIdx_iff_getElem?] using found
    have quotient : (i * group + k) / group = i := by
      simp only [group] at low ⊢
      omega
    have remainder : (i * group + k) % group = k := by
      simp only [group] at low ⊢
      omega
    rw [quotient, remainder, Array.getD_eq_getD_getElem?, at_i]
    exact on
  · intro on
    have inside : o / group < b.bytes.size := by
      apply Classical.byContradiction
      intro outside
      rw [Array.getD_eq_getD_getElem?, Array.getElem?_eq_none (by omega)] at on
      simp at on
    have low : o % group < group := Nat.mod_lt o (by decide)
    refine ⟨(b.bytes[o / group], o / group), ?_, o % group, ⟨low, ?_⟩, ?_⟩
    · simp [List.mem_zipIdx_iff_getElem?, inside]
    · simpa [Array.getD_eq_getD_getElem?, inside] using on
    · simp only [group]
      omega

theorem length_offsets (b : Bitmap) : b.offsets.length = b.count := by
  have total (bytes : List UInt8) (start n : Nat) :
      n + ((bytes.zipIdx start).flatMap fun (byte, i) =>
        (byteOffsets byte).map (i * group + ·)).length =
      bytes.foldl (fun n byte => n + weight byte) n := by
    induction bytes generalizing start n with
    | nil => rfl
    | cons byte bytes ih =>
      rw [List.zipIdx_cons, List.flatMap_cons, List.length_append, List.length_map,
        length_byteOffsets, List.foldl_cons, ← ih (start + 1), Nat.add_assoc]
  rw [offsets, count, ← Array.foldl_toList, ← total b.bytes.toList 0 0, Nat.zero_add]

end Bitmap

end EvmJumps
