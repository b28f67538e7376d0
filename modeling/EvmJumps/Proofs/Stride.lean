import EvmJumps.Opcode

namespace EvmJumps

/-- One offset is reached from another by striding over opcodes and the sizes of their immediates,
as long as the code goes on. A PUSH is strode over even if the code ends within its immediate. -/
inductive Leads (code : List UInt8) : Nat → Nat → Prop
  | here (p : Nat) : Leads code p p
  | stride {i p : Nat} (inside : i < code.length)
    (further : Leads code (i + 1 + (Opcode.mk code[i]).immediateSize) p) : Leads code i p

namespace Leads

variable {code : List UInt8} {a i p : Nat}

theorem le (leads : Leads code i p) : i ≤ p := by
  induction leads with
  | here p => exact Nat.le_refl p
  | stride inside further ih => omega

theorem iff_next {o : Opcode} (found : code[i]? = some o.byte) :
    Leads code i p ↔ p = i ∨ Leads code (i + 1 + o.immediateSize) p := by
  obtain ⟨inside, byte⟩ := List.getElem?_eq_some_iff.mp found
  constructor
  · intro leads
    cases leads with
    | here => exact Or.inl rfl
    | stride _ further =>
      rw [byte] at further
      exact Or.inr further
  · intro reached
    rcases reached with rfl | further
    · exact .here _
    · refine .stride inside ?_
      rw [byte]
      exact further

/-- Strides do not cross: behind a reached opcode, the next reached offset is behind its
immediate. -/
theorem next_le {o : Opcode} (one : Leads code a i) (other : Leads code a p)
    (found : code[i]? = some o.byte) (behind : i < p) : i + 1 + o.immediateSize ≤ p := by
  induction one with
  | here i =>
    rcases (iff_next found).mp other with rfl | further
    · omega
    · exact further.le
  | @stride a i inside further ih =>
    have first : code[a]? = some (Opcode.mk code[a]).byte := List.getElem?_eq_getElem inside
    rcases (iff_next first).mp other with rfl | later
    · have := further.le
      omega
    · exact ih later found behind

end Leads

/-- Raises the flags from one offset up to another. -/
def fill (flags : List Bool) (i j : Nat) : List Bool :=
  flags.mapIdx fun k flag => flag || (decide (i ≤ k) && decide (k < j))

/-- The first pass: flags the immediates from an offset on, and all that is left when it comes to a
PUSH whose immediate is cut off. -/
def flagData (code : List UInt8) (flags : List Bool) (i : Nat) : List Bool :=
  if inside : i < code.length then
    let op := code[i]
    if 0x60 ≤ op ∧ op ≤ 0x7f then
      let n := (op - 0x5f).toNat
      if code.length ≤ i + n then fill flags i code.length
      else flagData code (fill flags (i + 1) (i + n + 1)) (i + (n + 1))
    else flagData code flags (i + 1)
  else flags
termination_by code.length - i

/-- The second pass. -/
def unflaggedMarkers (code : List UInt8) : List Nat :=
  let flags := flagData code (List.replicate code.length false) 0
  (List.range code.length).filter fun p => code[p]? == some 0x5b && !flags.getD p false

theorem length_fill (flags : List Bool) (i j : Nat) : (fill flags i j).length = flags.length :=
  List.length_mapIdx

theorem getD_fill {flags : List Bool} {k : Nat} (known : k < flags.length) (i j : Nat) :
    (fill flags i j).getD k false = true ↔ flags.getD k false = true ∨ i ≤ k ∧ k < j := by
  simp [fill, List.getD_eq_getElem?_getD, known]

/-- How far a PUSH of the first pass jumps. -/
theorem push_size {op : UInt8} (push : 0x60 ≤ op ∧ op ≤ 0x7f) :
    (Opcode.mk op).immediateSize = (op - 0x5f).toNat := by
  have isPush : (Opcode.mk op).isPush = true := by
    simp only [Opcode.isPush, Bool.and_eq_true, decide_eq_true_eq]
    exact push
  have low : (0x5f : UInt8) ≤ op := UInt8.le_trans (by decide) push.1
  rw [UInt8.toNat_sub_of_le _ _ low]
  simp only [Opcode.immediateSize, isPush, if_true]
  rfl

theorem plain_size {op : UInt8} (plain : ¬ (0x60 ≤ op ∧ op ≤ 0x7f)) :
    (Opcode.mk op).immediateSize = 0 := by
  have isPush : (Opcode.mk op).isPush = false := by
    simp only [Opcode.isPush, Bool.and_eq_false_iff, decide_eq_false_iff_not]
    exact Classical.not_and_iff_not_or_not.mp plain
  simp only [Opcode.immediateSize, isPush, Bool.false_eq_true, if_false]

section Marker

variable {code : List UInt8} {i p : Nat} {op : UInt8} (marker : code[p]? = some 0x5b)
  (found : code[i]? = some (Opcode.mk op).byte) (push : 0x60 ≤ op ∧ op ≤ 0x7f)
include marker found push

theorem marker_ne_push : p ≠ i := by
  intro here
  subst here
  rw [marker] at found
  have same : 0x5b = op := Option.some.inj found
  rw [← same] at push
  exact absurd push (by decide)

/-- A marker is reached from a PUSH if it is reached from behind its immediate. -/
theorem leads_push_iff : Leads code i p ↔ Leads code (i + ((op - 0x5f).toNat + 1)) p := by
  have next : i + 1 + (Opcode.mk op).immediateSize = i + ((op - 0x5f).toNat + 1) := by
    rw [push_size push]
    omega
  rw [Leads.iff_next found, next]
  exact or_iff_right (marker_ne_push marker found push)

end Marker

/-- The first pass flags a marker from its offset on exactly if the stride misses it. -/
theorem flagData_iff {code : List UInt8} {p : Nat} (marker : code[p]? = some 0x5b)
    (flags : List Bool) (i : Nat) (full : flags.length = code.length) :
    (flagData code flags i).getD p false = true ↔
      flags.getD p false = true ∨ i ≤ p ∧ ¬ Leads code i p := by
  have inCode : p < code.length := (List.getElem?_eq_some_iff.mp marker).1
  fun_induction flagData code flags i with
  | case1 flags i inside op push n cut =>
    have found : code[i]? = some (Opcode.mk op).byte := List.getElem?_eq_getElem inside
    have missed : ¬ Leads code i p := by
      rw [leads_push_iff marker found push]
      intro further
      have := further.le
      omega
    rw [getD_fill (by omega)]
    simp only [missed, not_false_eq_true, and_true, inCode]
  | case2 flags i inside op push n fits ih =>
    have found : code[i]? = some (Opcode.mk op).byte := List.getElem?_eq_getElem inside
    refine (ih (by rw [length_fill, full])).trans ?_
    rw [getD_fill (by omega), leads_push_iff marker found push]
    constructor
    · intro raised
      rcases raised with (already | ⟨low, high⟩) | ⟨low, missed⟩
      · exact Or.inl already
      · refine Or.inr ⟨by omega, ?_⟩
        intro further
        have := further.le
        omega
      · exact Or.inr ⟨by omega, missed⟩
    · intro raised
      rcases raised with already | ⟨low, missed⟩
      · exact Or.inl (Or.inl already)
      · have distinct := marker_ne_push marker found push
        by_cases high : p < i + n + 1
        · exact Or.inl (Or.inr ⟨by omega, high⟩)
        · exact Or.inr ⟨by omega, missed⟩
  | case3 flags i inside op plain ih =>
    have found : code[i]? = some (Opcode.mk op).byte := List.getElem?_eq_getElem inside
    refine (ih full).trans ?_
    rw [Leads.iff_next found, plain_size plain, Nat.add_zero]
    constructor
    · intro raised
      rcases raised with already | ⟨low, missed⟩
      · exact Or.inl already
      · refine Or.inr ⟨by omega, ?_⟩
        intro reached
        rcases reached with rfl | further
        · omega
        · exact missed further
    · intro raised
      rcases raised with already | ⟨low, missed⟩
      · exact Or.inl already
      · have distinct : p ≠ i := fun same => missed (Or.inl same)
        exact Or.inr ⟨by omega, fun further => missed (Or.inr further)⟩
  | case4 flags i outside =>
    have : ¬ i ≤ p := by omega
    simp only [this, false_and, or_false]

theorem getD_noFlags (size p : Nat) : (List.replicate size false).getD p false = false := by
  rw [List.getD_eq_getElem?_getD, List.getElem?_replicate]
  split <;> rfl

theorem mem_unflaggedMarkers {code : List UInt8} {p : Nat} :
    p ∈ unflaggedMarkers code ↔ code[p]? = some 0x5b ∧ Leads code 0 p := by
  have flagged (marker : code[p]? = some 0x5b) :
      (flagData code (List.replicate code.length false) 0).getD p false = true ↔
        ¬ Leads code 0 p := by
    rw [flagData_iff marker _ 0 List.length_replicate, getD_noFlags]
    simp
  simp only [unflaggedMarkers, List.mem_filter, List.mem_range, Bool.and_eq_true, beq_iff_eq,
    Bool.not_eq_true']
  constructor
  · intro ⟨_, marker, kept⟩
    refine ⟨marker, ?_⟩
    apply Classical.byContradiction
    intro missed
    rw [(flagged marker).mpr missed] at kept
    cases kept
  · intro ⟨marker, leads⟩
    refine ⟨(List.getElem?_eq_some_iff.mp marker).1, marker, ?_⟩
    apply Bool.eq_false_iff.mpr
    intro raised
    exact (flagged marker).mp raised leads

theorem unflaggedMarkers_ascending (code : List UInt8) :
    (unflaggedMarkers code).Pairwise (· < ·) :=
  List.pairwise_lt_range.filter _

end EvmJumps
