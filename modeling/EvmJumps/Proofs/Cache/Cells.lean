import Mathlib.Data.List.Nodup
import EvmJumps.Proofs.Cache.Turns
import EvmJumps.Proofs.Recency

namespace EvmJumps.Cache

/-- The call in flight got the cell. -/
def Stage.holds (c : Nat) : Stage → Bool
  | .idle => false
  | .holding _ i | .analyzing _ i | .publishing i _ => i == c

/-- The call in flight has claimed the cell, and no table was published in it yet. -/
def Stage.fills (c : Nat) : Stage → Bool
  | .idle | .holding _ _ => false
  | .analyzing _ i | .publishing i _ => i == c

/-- The call in flight has a table for the cell. -/
def Stage.publishes (c : Nat) : Stage → Bool
  | .idle | .holding _ _ | .analyzing _ _ => false
  | .publishing i _ => i == c

def Cell.isBusy : Cell → Bool
  | .busy => true
  | .vacant | .filled _ => false

def Cell.isFilled : Cell → Bool
  | .filled _ => true
  | .vacant | .busy => false

theorem Stage.holds_of_fills {stage : Stage} {c : Nat} (fills : stage.fills c = true) :
    stage.holds c = true := by
  cases stage with
  | idle => cases fills
  | holding code i => cases fills
  | analyzing code i => exact fills
  | publishing i table => exact fills

theorem Stage.fills_of_publishes {stage : Stage} {c : Nat} (publishes : stage.publishes c = true) :
    stage.fills c = true := by
  cases stage with
  | idle => cases publishes
  | holding code i => cases publishes
  | analyzing code i => cases publishes
  | publishing i table => exact publishes

namespace Shared

variable {s s' : Shared} {t t' : Thread} {i : Nat} {cells : List Nat}

/-- A cell that is added is vacant, as cells are taken to be that were not made yet. -/
theorem cell_push (s : Shared) (c : Nat) :
    ({ s with cells := s.cells.push .vacant } : Shared).cell c = s.cell c := by
  simp only [cell, Array.getD_eq_getD_getElem?, Array.getElem?_push]
  by_cases last : c = s.cells.size
  · simp [last]
  · simp [last]

theorem cell_setCell {c : Nat} (inside : i < s.cells.size) (cell : Cell) :
    (s.setCell i cell).cell c = if i = c then cell else s.cell c := by
  simp only [Shared.cell, setCell, Array.getD_eq_getD_getElem?, Array.getElem?_setIfInBounds]
  by_cases same : i = c
  · subst same
    simp [inside]
  · simp [same]

theorem vacant_of_setCell {c : Nat} {cell : Cell} (inside : i < s.cells.size)
    (taken : cell ≠ .vacant) (vacant : (s.setCell i cell).cell c = .vacant) :
    i ≠ c ∧ s.cell c = .vacant := by
  rw [cell_setCell inside] at vacant
  split at vacant
  · exact absurd vacant taken
  · rename_i other
    exact ⟨other, vacant⟩

/-- Where entries lead after a step: where they led before, or to the new cell of the thread. -/
theorem Moves.entry (moves : Moves s t t' s') {hash : Digest} {c : Nat}
    (found : s'.recent.find? hash = some c) :
    s.recent.find? hash = some c ∨ c = s.cells.size ∧ s'.cells.size = s.cells.size + 1 ∧
      ∃ code : Bytecode, code.hash = hash ∧ t'.stage = .holding code c := by
  cases moves with
  | taken fits on place => exact Or.inl ((Recency.find?_touch _ _ _).symm.trans found)
  | got => exact Or.inl ((Recency.find?_touch _ _ _).symm.trans found)
  | cleared => cases found
  | @made _ _ code fits on missing =>
    rcases Recency.find?_push found with ⟨rfl, rfl⟩ | old
    · exact Or.inr ⟨rfl, Array.size_push _, code, rfl, rfl⟩
    · exact Or.inl old
  | refused | uncached | looked | claimed | read | analyzed | published => exact Or.inl found

theorem Moves.size_le (moves : Moves s t t' s') : s.cells.size ≤ s'.cells.size := by
  cases moves
  case made => simp
  all_goals simp [setCell]

/-- Entries and calls in flight have cells that were made, and a cell that was made is vacant only
as long as some call in flight has got it. -/
structure Reserved (s : Shared) : Prop where
  entry : ∀ hash c, s.recent.find? hash = some c → c < s.cells.size
  made : ∀ c, s.cells.size ≤ c → s.tally (Stage.holds c) = 0
  waiting : ∀ c < s.cells.size, s.cell c = .vacant → 0 < s.tally (Stage.holds c)

theorem Reserved.lt (reserved : s.Reserved) (place : s.threads[i]? = some t) {c : Nat}
    (holds : t.stage.holds c = true) : c < s.cells.size := by
  have positive := tally_pos place holds
  by_contra beyond
  have := reserved.made c (Nat.le_of_not_lt beyond)
  omega

/-- A cell with one thread that fills it is busy, all others have none; and each analysis for a cell
ended with its table, or is about to. -/
structure Filled (cells : List Nat) (s : Shared) : Prop where
  busy : ∀ c, s.tally (Stage.fills c) = (s.cell c).isBusy.toNat
  analyzed : ∀ c, cells.count c = (s.cell c).isFilled.toNat + s.tally (Stage.publishes c)

/-- What a step does to a cell it does to its thread: a thread begins to fill a cell as the cell
becomes busy, and ends as the table is published; an analysis gives it a table to publish. -/
theorem Moves.balance (moves : Moves s t t' s')
    (inside : ∀ c, t.stage.holds c = true → c < s.cells.size)
    (busy : ∀ c, t.stage.fills c = true → s.cell c = .busy) (d : Nat) :
    (s'.cell d).isBusy.toNat + (t.stage.fills d).toNat =
      (s.cell d).isBusy.toNat + (t'.stage.fills d).toNat ∧
    (analysis? t).toList.count d + (s.cell d).isFilled.toNat + (t.stage.publishes d).toNat =
      (s'.cell d).isFilled.toNat + (t'.stage.publishes d).toNat := by
  cases moves with
  | refused | uncached | taken | got | looked | cleared | read =>
    exact ⟨rfl, congrArg (· + 0) (Nat.zero_add _)⟩
  | made =>
    have same := cell_push s d
    exact ⟨congrArg (fun cell => cell.isBusy.toNat) same,
      congrArg (· + 0) ((Nat.zero_add _).trans
        (congrArg (fun cell => cell.isFilled.toNat) same.symm))⟩
  | @claimed c _ _ _ vacant =>
    rw [cell_setCell (inside c (beq_self_eq_true c))]
    by_cases here : c = d
    · subst here
      simp [vacant, Cell.isBusy, Cell.isFilled, Stage.fills, Stage.publishes, analysis?]
    · simp [here, Stage.fills, Stage.publishes, analysis?]
  | @analyzed _ _ c =>
    refine ⟨rfl, ?_⟩
    change [c].count d + (s.cell d).isFilled.toNat + 0 = (s.cell d).isFilled.toNat + (c == d).toNat
    rw [List.count_singleton, Nat.add_zero, Nat.add_comm]
    cases c == d <;> rfl
  | @published _ c =>
    have before := busy c (beq_self_eq_true c)
    rw [cell_setCell (inside c (beq_self_eq_true c))]
    by_cases here : c = d
    · subst here
      simp [before, Cell.isBusy, Cell.isFilled, Stage.fills, Stage.publishes, analysis?]
    · simp [here, Stage.fills, Stage.publishes, analysis?]

theorem Filled.busy_of_fills (filled : Filled cells s) (place : s.threads[i]? = some t) {c : Nat}
    (fills : t.stage.fills c = true) : s.cell c = .busy := by
  have positive := tally_pos place fills
  rw [filled.busy] at positive
  cases cell : s.cell c with
  | busy => rfl
  | vacant | filled => simp [cell, Cell.isBusy] at positive

theorem Filled.step (filled : Filled cells s) (reserved : s.Reserved)
    (place : s.threads[i]? = some t) (moves : Moves s t t' s') :
    Filled (cells ++ (analysis? t).toList) (s'.setThread i t') := by
  have balance := moves.balance (fun _ => reserved.lt place) fun _ => filled.busy_of_fills place
  refine ⟨fun c => ?_, fun c => ?_⟩
  · have count := moves.tally place (Stage.fills c)
    have before := filled.busy c
    have busy := (balance c).1
    change _ = (s'.cell c).isBusy.toNat
    omega
  · have count := moves.tally place (Stage.publishes c)
    have before := filled.analyzed c
    have analyzed := (balance c).2
    change _ = (s'.cell c).isFilled.toNat + _
    rw [List.count_append]
    omega

theorem Reserved.lt_of_moves (reserved : s.Reserved) (place : s.threads[i]? = some t)
    (moves : Moves s t t' s') {c : Nat} (holds : t'.stage.holds c = true) :
    c < s'.cells.size := by
  have inside {c : Nat} (holds : t.stage.holds c = true) := reserved.lt place holds
  cases moves with
  | refused | uncached | got | looked | cleared | read | published => cases holds
  | taken fits on found => exact eq_of_beq holds ▸ reserved.entry _ _ found
  | made =>
    rw [← eq_of_beq holds, Array.size_push]
    exact Nat.lt_succ_self _
  | claimed vacant =>
    rw [setCell, Array.size_setIfInBounds]
    exact inside holds
  | analyzed => exact inside holds

/-- A cell that is vacant after a step was vacant before and not given up by the thread, or the
thread has got it. -/
theorem Reserved.vacant_of_moves (reserved : s.Reserved) (place : s.threads[i]? = some t)
    (moves : Moves s t t' s') {c : Nat} (made : c < s'.cells.size) (vacant : s'.cell c = .vacant) :
    t'.stage.holds c = true ∨
      t.stage.holds c = false ∧ c < s.cells.size ∧ s.cell c = .vacant := by
  have inside {c : Nat} (holds : t.stage.holds c = true) := reserved.lt place holds
  cases moves with
  | refused | uncached | taken | got | looked | cleared => exact Or.inr ⟨rfl, made, vacant⟩
  | made =>
    rw [Array.size_push] at made
    rcases Nat.lt_succ_iff_lt_or_eq.mp made with before | rfl
    · exact Or.inr ⟨rfl, before, (cell_push s c).symm.trans vacant⟩
    · exact Or.inl (beq_self_eq_true _)
  | @claimed j =>
    rw [setCell, Array.size_setIfInBounds] at made
    have ⟨other, before⟩ := vacant_of_setCell (inside (beq_self_eq_true j)) (by nofun) vacant
    exact Or.inr ⟨beq_false_of_ne other, made, before⟩
  | @read j table _ _ _ filled =>
    have other : j ≠ c := by
      rintro rfl
      simp [filled] at vacant
    exact Or.inr ⟨beq_false_of_ne other, made, vacant⟩
  | @analyzed _ _ j =>
    cases same : j == c with
    | true => exact Or.inl same
    | false => exact Or.inr ⟨same, made, vacant⟩
  | @published _ j =>
    rw [setCell, Array.size_setIfInBounds] at made
    have ⟨other, before⟩ := vacant_of_setCell (inside (beq_self_eq_true j)) (by nofun) vacant
    exact Or.inr ⟨beq_false_of_ne other, made, before⟩

theorem Reserved.step (reserved : s.Reserved) (place : s.threads[i]? = some t)
    (moves : Moves s t t' s') : (s'.setThread i t').Reserved := by
  have grown := moves.size_le
  refine ⟨fun hash c found => ?_, fun c beyond => ?_, fun c made vacant => ?_⟩
  · rcases moves.entry found with old | ⟨rfl, one, _⟩
    · exact (reserved.entry hash c old).trans_le grown
    · exact one ▸ Nat.lt_succ_self _
  · have count := moves.tally place (Stage.holds c)
    have before := reserved.made c (grown.trans beyond)
    have none : t'.stage.holds c = false := by
      apply Bool.eq_false_iff.mpr
      intro holds
      exact absurd (reserved.lt_of_moves place moves holds) (Nat.not_lt.mpr beyond)
    rw [none, before, Bool.toNat_false] at count
    omega
  · have count := moves.tally place (Stage.holds c)
    rcases reserved.vacant_of_moves place moves made vacant with gets | ⟨keeps, before, same⟩
    · have here : (t.stage.holds c).toNat ≤ s.tally (Stage.holds c) := by
        cases holds : t.stage.holds c with
        | true => exact tally_pos place holds
        | false => exact Nat.zero_le _
      rw [gets, Bool.toNat_true] at count
      omega
    · have waits := reserved.waiting c before same
      rw [keeps, Bool.toNat_false] at count
      omega

/-- A code is analyzed for a cell once at most. -/
theorem Filled.once (filled : Filled cells s) : cells.Nodup := by
  rw [List.nodup_iff_count_le_one]
  intro c
  -- a filled cell is not busy, so no thread has another table for it
  have fewer : s.tally (Stage.publishes c) ≤ s.tally (Stage.fills c) := by
    apply List.countP_mono_left
    intro t _ publishes
    exact Stage.fills_of_publishes publishes
  rw [filled.busy] at fewer
  rw [filled.analyzed]
  cases cell : s.cell c <;> simp_all [Cell.isBusy, Cell.isFilled]

theorem lt_of_isFilled {c : Nat} (isFilled : (s.cell c).isFilled = true) : c < s.cells.size := by
  by_contra beyond
  simp [cell, Array.getD, beyond, Cell.isFilled] at isFilled

theorem Filled.made (filled : Filled cells s) (reserved : s.Reserved) :
    cells ⊆ List.range s.cells.size := by
  intro c member
  have positive := List.count_pos_iff.mpr member
  rw [filled.analyzed] at positive
  rw [List.mem_range]
  cases isFilled : (s.cell c).isFilled with
  | true => exact lt_of_isFilled isFilled
  | false =>
    rw [isFilled, Bool.toNat_false, Nat.zero_add] at positive
    obtain ⟨i, t, place, publishes⟩ := exists_of_tally_pos positive
    exact reserved.lt place (Stage.holds_of_fills (Stage.fills_of_publishes publishes))

theorem Filled.length_le (filled : Filled cells s) (reserved : s.Reserved) :
    cells.length ≤ s.cells.size := by
  have shorter := (List.subperm_of_subset filled.once (filled.made reserved)).length_le
  rwa [List.length_range] at shorter

theorem tally_of_idle (idle : ∀ t ∈ s.threads, t.stage = .idle) {p : Stage → Bool}
    (none : p .idle = false) : s.tally p = 0 := by
  apply List.countP_eq_zero.mpr
  intro t member here
  rw [idle t member, none] at here
  cases here

/-- When no call is in flight, a code was analyzed for every cell. -/
theorem Filled.length_eq (filled : Filled cells s) (reserved : s.Reserved)
    (idle : ∀ t ∈ s.threads, t.stage = .idle) : cells.length = s.cells.size := by
  have all : List.range s.cells.size ⊆ cells := by
    intro c inside
    have made := List.mem_range.mp inside
    apply List.count_pos_iff.mp
    rw [filled.analyzed]
    have busy := filled.busy c
    have waiting := reserved.waiting c made
    rw [tally_of_idle idle rfl] at busy waiting
    cases cell : s.cell c with
    | vacant => exact absurd (waiting cell) (Nat.lt_irrefl 0)
    | busy => simp [cell, Cell.isBusy] at busy
    | filled table => exact Nat.add_pos_left Nat.one_pos _
  have longer := (List.subperm_of_subset List.nodup_range all).length_le
  rw [List.length_range] at longer
  exact Nat.le_antisymm (filled.length_le reserved) longer

/-- A thread waits only for another that can move. -/
theorem Filled.progress (filled : Filled cells s) (place : s.threads[i]? = some t)
    (unfinished : t.stage ≠ .idle ∨ t.calls ≠ []) : ∃ j, (s.step j).isSome := by
  have moving {j : Nat} {u : Thread} (here : s.threads[j]? = some u)
      (able : (s.stepThread u).isSome) : ∃ j, (s.step j).isSome :=
    ⟨j, by simpa [Shared.step, here] using able⟩
  obtain ⟨calls, stage, answers⟩ := t
  cases stage with
  | idle =>
    cases calls with
    | nil => simp at unfinished
    | cons call calls => exact moving place rfl
  | analyzing code c => exact moving place rfl
  | publishing c table => exact moving place rfl
  | holding code c =>
    cases cell : s.cell c with
    | vacant => exact moving place (by simp [stepThread, cell])
    | filled table => exact moving place (by simp [stepThread, cell])
    | busy =>
      have busy := filled.busy c
      rw [cell] at busy
      have positive : 0 < s.tally (Stage.fills c) := by
        rw [busy]
        exact Nat.one_pos
      obtain ⟨j, u, here, fills⟩ := exists_of_tally_pos positive
      obtain ⟨calls, stage, answers⟩ := u
      cases stage with
      | idle | holding => cases fills
      | analyzing | publishing => exact moving here rfl

end Shared

end EvmJumps.Cache
