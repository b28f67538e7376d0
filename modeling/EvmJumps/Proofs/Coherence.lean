import EvmJumps.Proofs.Grammar
import EvmJumps.Proofs.Reuse

namespace EvmJumps

/-- What a pass reports and the bitmap that it leaves tell of the same offsets, all of which it
covered. -/
structure Coherent (b : Bitmap) (o : Outcome) : Prop where
  count_eq : o.jumpdests = b.count
  listed : b.offsets.length = b.count
  covered : ∀ p, b.isSet p = true → p < o.scanned
  lenBits_le : b.lenBits ≤ (o.scanned + 7) / 8 * 8

/-- A table agrees with itself and with its code. -/
structure JumpTable.Describes (t : JumpTable) (code : List UInt8) : Prop where
  coherent : Coherent t.bitmap t.outcome
  markers : t.outcome.jumpdests =
    (disassemble code).toList.countP fun i => i.opcode = Opcode.jumpdest
  codeSize_eq : t.codeSize = code.length
  scanned_le : t.outcome.scanned ≤ t.codeSize
  cut_iff : t.outcome.truncatedAt = some t.outcome.scanned ↔ t.outcome.scanned < t.codeSize
  uncut_iff : t.outcome.truncatedAt = none ↔ t.outcome.scanned = t.codeSize
  unscanned : t.codeSize - t.outcome.scanned ≤ 32

/-- The bytes of a bitmap end with that of its last offset, so they reach no further than a pass
that covered all offsets. -/
theorem Bitmap.Holds.coherent {b : Bitmap} {s : Finset Nat} {o : Outcome} (holds : b.Holds s)
    (number : o.jumpdests = s.card) (covered : ∀ p ∈ s, p < o.scanned) : Coherent b o := by
  refine ⟨?_, b.length_offsets, ?_, ?_⟩
  · rw [number, holds.count_eq]
  · intro p set
    exact covered p (holds.isSet_iff.mp set)
  · rw [Bitmap.lenBits, holds.size_eq]
    apply Nat.mul_le_mul_right
    apply Finset.sup_le
    intro p member
    have before := covered p member
    simp only [Bitmap.group]
    omega

/-- No offset is set twice, for the instructions stand at ascending offsets. -/
theorem card_destinationSet (code : List UInt8) :
    (destinationSet code).card = (destinations (walk code).toList).length := by
  have apart := (unflaggedMarkers_ascending code).imp fun less => Nat.ne_of_lt less
  rw [destinationSet, List.toFinset_card_of_nodup apart, unflaggedMarkers_eq]

theorem lt_of_mem_destinationSet {code : List UInt8} {p : Nat} (member : p ∈ destinationSet code) :
    p < (walk code).exhausted.position := by
  rw [destinationSet, List.mem_toFinset, unflaggedMarkers_eq, mem_destinations] at member
  obtain ⟨i, walked, _, rfl⟩ := member
  exact pc_lt_position walked

theorem Bitmap.Holds.coherent_scan {code : List UInt8} {b : Bitmap}
    (holds : b.Holds (destinationSet code)) (given : Bitmap) :
    Coherent b (scan code given).2 := by
  rw [scan_eq]
  exact holds.coherent (card_destinationSet code).symm fun p => lt_of_mem_destinationSet

namespace JumpTable

theorem describes_ofCode (code : List UInt8) : (ofCode code).Describes code := by
  have holds := (Bitmap.holds_scan code .empty).call .shrink
  have parsed := parsed_walk code
  refine ⟨holds.coherent_scan .empty, ?_, rfl, ?_, ?_, ?_, ?_⟩ <;> rw [outcome_ofCode]
  · rw [toList_disassemble, List.countP_eq_length_filter]
    simp only [destinations, List.length_map, Opcode.isJumpdest, beq_eq_decide]
  · exact parsed.within
  · exact parsed.cut_iff
  · exact parsed.uncut_iff
  · exact parsed.unscanned

end JumpTable

namespace Analyzer

variable {a : Analyzer}

theorem coherent_call (a : Analyzer) (call : Call) :
    Coherent (a.call call).bitmap (a.call call).last := by
  cases call with
  | analyze code => exact (Bitmap.holds_scan code a.bitmap).coherent_scan a.bitmap
  | freeze code => exact (Bitmap.holds_scan code a.bitmap).coherent_scan a.bitmap
  | reset => exact (Bitmap.holds_reset a.bitmap).coherent rfl (by simp)

theorem coherent_run (coherent : Coherent a.bitmap a.last) (calls : List Call) :
    Coherent (a.run calls).bitmap (a.run calls).last := by
  induction calls generalizing a with
  | nil => exact coherent
  | cons call calls ih => exact ih (a.coherent_call call)

end Analyzer

/-- In a new table of a code, in one that a used analyzer freezes, and in an analyzer after any
history, the counter is the number of offsets in the bitmap, however these are counted, and all of
them lie before the end of the pass, the bytes of the bitmap too. The counter of a table is the
number of markers among the instructions of its code; the pass ends early exactly if it reports a
PUSH that is cut off, and then at that PUSH, with at most 32 bytes left. -/
theorem passes_are_coherent :
    (∀ code, (JumpTable.ofCode code).Describes code) ∧
    (∀ calls code, ((({} : Analyzer).run calls).freeze code).1.Describes code) ∧
    ∀ calls, Coherent (({} : Analyzer).run calls).bitmap (({} : Analyzer).run calls).last := by
  refine ⟨JumpTable.describes_ofCode, ?_, ?_⟩
  · intro calls code
    rw [Analyzer.freeze_eq_ofCode]
    exact JumpTable.describes_ofCode code
  · intro calls
    apply Analyzer.coherent_run
    exact (Bitmap.holds_fresh none).coherent rfl (by simp)

end EvmJumps
