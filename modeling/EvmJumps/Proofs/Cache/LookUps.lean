import EvmJumps.Proofs.Cache.Cells

namespace EvmJumps.Cache.Shared

variable {s s' : Shared} {t t' : Thread} {i : Nat} {cells : List Nat} {looks : List LookUp}
  {o : LookUp}

/-- The thread is still in the call that made the look-up. -/
def LookUp.InFlight (o : LookUp) (t : Thread) : Prop :=
  t.answers.length = o.call ∧
    match t.stage with
    | .idle => False
    | .holding code c | .analyzing code c => code = o.code ∧ c = o.cell
    | .publishing c table => c = o.cell ∧ table = .ofCode o.code.bytes

/-- The call that made the look-up answered with the table of its cell. -/
def LookUp.Answered (o : LookUp) (s : Shared) (t : Thread) : Prop :=
  ∃ table, s.table? o.cell = some table ∧ t.answers.reverse[o.call]? = some (.table (.ok table))

theorem table?_eq_some {c : Nat} {table : JumpTable} :
    s.table? c = some table ↔ s.cell c = .filled table := by
  rw [table?]
  cases s.cell c <;> simp

theorem LookUp.InFlight.holds (flight : o.InFlight t) : t.stage.holds o.cell = true := by
  obtain ⟨calls, stage, answers⟩ := t
  cases stage with
  | idle => exact flight.2.elim
  | holding => exact beq_iff_eq.mpr flight.2.2
  | analyzing => exact beq_iff_eq.mpr flight.2.2
  | publishing => exact beq_iff_eq.mpr flight.2.1

/-- The thread of a step, and the others, which stay where they were. -/
theorem Moves.thread (moves : Moves s t t' s') (place : s.threads[i]? = some t) (j : Nat) :
    (s'.setThread i t').threads[j]? = if i = j then some t' else s.threads[j]? := by
  have inside := (List.getElem?_eq_some_iff.mp place).1
  simp [setThread, moves.fixed.1, List.getElem?_set, inside]

/-- A step takes no answer back. -/
theorem Moves.answered (moves : Moves s t t' s') {k : Nat} {a : Answer}
    (given : t.answers.reverse[k]? = some a) : t'.answers.reverse[k]? = some a := by
  have more : ∃ latest, t'.answers = latest ++ t.answers := by
    cases moves with
    | taken | made | claimed | analyzed => exact ⟨[], rfl⟩
    | refused | uncached | got | looked | cleared | read | published => exact ⟨[_], rfl⟩
  obtain ⟨latest, split⟩ := more
  rw [split, List.reverse_append,
    List.getElem?_append_left (List.getElem?_eq_some_iff.mp given).1]
  exact given

/-- What a step can do to a cell: nothing, or its thread claims the cell, or publishes a table in
it. -/
theorem Moves.cell_cases (moves : Moves s t t' s')
    (inside : ∀ c, t.stage.holds c = true → c < s.cells.size) (c : Nat) :
    s'.cell c = s.cell c ∨ s.cell c = .vacant ∧ s'.cell c = .busy ∨
      ∃ table, t.stage = .publishing c table ∧ s'.cell c = .filled table := by
  cases moves with
  | refused | uncached | taken | got | looked | cleared | read | analyzed => exact Or.inl rfl
  | made => exact Or.inl (cell_push s c)
  | @claimed j _ _ _ vacant =>
    rw [cell_setCell (inside j (beq_self_eq_true j))]
    by_cases here : j = c
    · exact Or.inr (Or.inl ⟨here ▸ vacant, if_pos here⟩)
    · exact Or.inl (if_neg here)
  | @published _ j table =>
    rw [cell_setCell (inside j (beq_self_eq_true j))]
    by_cases here : j = c
    · exact Or.inr (Or.inr ⟨table, by rw [here], if_pos here⟩)
    · exact Or.inl (if_neg here)

/-- A table that was published stands for good, as only cells without a table are set. -/
theorem Moves.stands (moves : Moves s t t' s')
    (inside : ∀ c, t.stage.holds c = true → c < s.cells.size)
    (busy : ∀ c, t.stage.fills c = true → s.cell c = .busy) {c : Nat} {table : JumpTable}
    (stands : s.table? c = some table) : s'.table? c = some table := by
  rw [table?_eq_some] at stands ⊢
  rcases moves.cell_cases inside c with same | ⟨vacant, _⟩ | ⟨_, stage, _⟩
  · exact same.trans stands
  · simp [vacant] at stands
  · simp [busy c (by rw [stage]; exact beq_self_eq_true c)] at stands

/-- The table of a cell stood there before the step, or the thread had it to publish. -/
theorem Moves.published_of_table? (moves : Moves s t t' s')
    (inside : ∀ c, t.stage.holds c = true → c < s.cells.size) {c : Nat} {table : JumpTable}
    (stands : s'.table? c = some table) :
    s.table? c = some table ∨ t.stage = .publishing c table := by
  rw [table?_eq_some] at stands ⊢
  rcases moves.cell_cases inside c with same | ⟨_, busy⟩ | ⟨_, stage, filled⟩
  · exact Or.inl (same.symm.trans stands)
  · simp [busy] at stands
  · cases filled.symm.trans stands
    exact Or.inr stage

/-- A step with a look-up begins a call with an accepted code, which holds the cell then. -/
theorem Moves.of_lookUp? (moves : Moves s t t' s') (made : s.lookUp? i t = some o) :
    o.thread = i ∧ o.InFlight t' ∧ o.call = t.answers.length ∧ t.stage = .idle ∧
      t.calls = .getOrAnalyze o.code :: t'.calls ∧ o.code.size ≤ s.config.maxCodeSize ∧
      (s.recent.find? o.code.hash = some o.cell ∨ o.cell = s.cells.size) := by
  cases moves with
  | refused long => simp [lookUp?, Nat.not_le.mpr long] at made
  | uncached fits off => simp [lookUp?, off] at made
  | got | looked | cleared | claimed | read | analyzed | published => cases made
  | taken fits on found =>
    simp only [lookUp?, fits, on, lookUp, found] at made
    cases made
    exact ⟨rfl, ⟨rfl, rfl, rfl⟩, rfl, rfl, rfl, fits, Or.inl found⟩
  | made fits on missing =>
    simp only [lookUp?, fits, on, lookUp, missing] at made
    cases made
    exact ⟨rfl, ⟨rfl, rfl, rfl⟩, rfl, rfl, rfl, fits, Or.inr rfl⟩

/-- A call that is not finished with its first step makes a look-up. -/
theorem Moves.lookUp?_of_busy (moves : Moves s t t' s') (idle : t.stage = .idle)
    (busy : t'.stage ≠ .idle) : (s.lookUp? i t).isSome := by
  cases moves with
  | refused | uncached | got | looked | cleared => exact absurd rfl busy
  | claimed | read | analyzed | published => cases idle
  | taken fits on found => simp [lookUp?, fits, on]
  | made fits on missing => simp [lookUp?, fits, on]

/-- A call in flight goes on, or it answers with the table of its cell. -/
theorem LookUp.InFlight.step (flight : o.InFlight t) (moves : Moves s t t' s')
    (inside : o.cell < s.cells.size) :
    o.InFlight t' ∨ t'.stage = .idle ∧ o.Answered s' t' := by
  cases moves with
  | refused | uncached | taken | made | got | looked | cleared => exact flight.2.elim
  | claimed => exact Or.inl flight
  | @analyzed =>
    obtain ⟨number, rfl, here⟩ := flight
    exact Or.inl ⟨number, here, rfl⟩
  | @read c table _ _ _ filled =>
    obtain ⟨number, _, rfl⟩ := flight
    refine Or.inr ⟨rfl, table, table?_eq_some.mpr filled, ?_⟩
    simp [← number]
  | @published _ c table =>
    obtain ⟨number, rfl, _⟩ := flight
    refine Or.inr ⟨rfl, table, ?_, ?_⟩
    · rw [table?_eq_some, cell_setCell inside, if_pos rfl]
    · simp [← number]

/-- All look-ups so far, and the cells, entries and calls in flight that they account for. -/
structure Traced (looks : List LookUp) (s : Shared) : Prop where
  served : ∀ o ∈ looks, ∃ t, s.threads[o.thread]? = some t ∧ (o.InFlight t ∨ o.Answered s t)
  flight : ∀ i t, s.threads[i]? = some t → t.stage ≠ .idle →
    ∃ o ∈ looks, o.thread = i ∧ o.InFlight t
  entry : ∀ hash c, s.recent.find? hash = some c → ∃ o ∈ looks, o.cell = c ∧ o.code.hash = hash
  source : ∀ c table, s.table? c = some table →
    ∃ o ∈ looks, o.cell = c ∧ table = .ofCode o.code.bytes
  digest : ∀ o ∈ looks, ∀ p ∈ looks, o.cell = p.cell → o.code.hash = p.code.hash

theorem Traced.lt (traced : Traced looks s) (reserved : s.Reserved) (member : o ∈ looks) :
    o.cell < s.cells.size := by
  obtain ⟨t, place, flight | ⟨table, stands, _⟩⟩ := traced.served o member
  · exact reserved.lt place flight.holds
  · apply lt_of_isFilled
    rw [table?_eq_some.mp stands]
    rfl

section step

variable (traced : Traced looks s) (reserved : s.Reserved) (moves : Moves s t t' s')
  (place : s.threads[i]? = some t) (filled : Filled cells s)

include traced reserved moves

/-- A new look-up gets the cell of an entry, or one that no call has got before. -/
theorem Traced.digest_new {p : LookUp} (old : o ∈ looks) (new : s.lookUp? i t = some p)
    (same : o.cell = p.cell) : o.code.hash = p.code.hash := by
  obtain ⟨_, _, _, _, _, _, found | fresh⟩ := moves.of_lookUp? new
  · obtain ⟨q, member, cell, hash⟩ := traced.entry _ _ found
    exact (traced.digest o old q member (same.trans cell.symm)).trans hash
  · -- the cell that the step makes is beyond those of all earlier look-ups
    have inside := traced.lt reserved old
    omega

include place

theorem Traced.flight_step {j : Nat} {u : Thread}
    (there : (s'.setThread i t').threads[j]? = some u) (busy : u.stage ≠ .idle) :
    ∃ o ∈ looks ++ (s.lookUp? i t).toList, o.thread = j ∧ o.InFlight u := by
  rw [moves.thread place] at there
  split at there
  · rename_i own
    subst own
    cases there
    by_cases idle : t.stage = .idle
    · obtain ⟨o, made⟩ := Option.isSome_iff_exists.mp (moves.lookUp?_of_busy (i := i) idle busy)
      obtain ⟨own, flight, _⟩ := moves.of_lookUp? made
      exact ⟨o, by simp [made], own, flight⟩
    · obtain ⟨o, member, own, flight⟩ := traced.flight i t place idle
      refine ⟨o, List.mem_append_left _ member, own, ?_⟩
      rcases flight.step moves (traced.lt reserved member) with on | ⟨done, _⟩
      · exact on
      · exact absurd done busy
  · obtain ⟨o, member, own, flight⟩ := traced.flight j u there busy
    exact ⟨o, List.mem_append_left _ member, own, flight⟩

theorem Traced.entry_step {hash : Digest} {c : Nat} (found : s'.recent.find? hash = some c) :
    ∃ o ∈ looks ++ (s.lookUp? i t).toList, o.cell = c ∧ o.code.hash = hash := by
  rcases moves.entry found with old | ⟨_, _, code, rfl, stage⟩
  · obtain ⟨o, member, rest⟩ := traced.entry hash c old
    exact ⟨o, List.mem_append_left _ member, rest⟩
  · have here := (moves.thread place i).trans (if_pos rfl)
    obtain ⟨o, member, _, _, same⟩ :=
      traced.flight_step reserved moves place here (by simp [stage])
    rw [stage] at same
    exact ⟨o, member, same.2.symm, by rw [same.1]⟩

theorem Traced.source_step {c : Nat} {table : JumpTable} (stands : s'.table? c = some table) :
    ∃ o ∈ looks ++ (s.lookUp? i t).toList, o.cell = c ∧ table = .ofCode o.code.bytes := by
  rcases moves.published_of_table? (fun _ => reserved.lt place) stands with old | stage
  · obtain ⟨o, member, rest⟩ := traced.source c table old
    exact ⟨o, List.mem_append_left _ member, rest⟩
  · obtain ⟨o, member, _, _, own⟩ := traced.flight i t place (by simp [stage])
    rw [stage] at own
    exact ⟨o, List.mem_append_left _ member, own.1.symm, own.2⟩

include filled

theorem Traced.served_step (member : o ∈ looks ++ (s.lookUp? i t).toList) :
    ∃ u, (s'.setThread i t').threads[o.thread]? = some u ∧ (o.InFlight u ∨ o.Answered s' u) := by
  have keeps {u u' : Thread} (answered : o.Answered s u)
      (same : ∀ a, u.answers.reverse[o.call]? = some a → u'.answers.reverse[o.call]? = some a) :
      o.Answered s' u' := by
    obtain ⟨table, stands, given⟩ := answered
    exact ⟨table, moves.stands (fun _ => reserved.lt place) (fun _ => filled.busy_of_fills place)
      stands, same _ given⟩
  rw [moves.thread place]
  rcases List.mem_append.mp member with old | new
  · obtain ⟨u, there, kind⟩ := traced.served o old
    by_cases own : i = o.thread
    · -- only this thread can have gone on; a call of another is as it was, its table too
      rw [← own, place] at there
      cases there
      refine ⟨t', if_pos own, ?_⟩
      rcases kind with flight | answered
      · exact (flight.step moves (traced.lt reserved old)).imp_right And.right
      · exact Or.inr (keeps answered fun _ => moves.answered)
    · exact ⟨u, (if_neg own).trans there, kind.imp_right (keeps · fun _ => id)⟩
  · rw [Option.mem_toList] at new
    obtain ⟨own, flight, _⟩ := moves.of_lookUp? new
    exact ⟨t', if_pos own.symm, Or.inl flight⟩

theorem Traced.step : Traced (looks ++ (s.lookUp? i t).toList) (s'.setThread i t') where
  served _ := traced.served_step reserved moves place filled
  flight _ _ := traced.flight_step reserved moves place
  entry _ _ := traced.entry_step reserved moves place
  source _ _ := traced.source_step reserved moves place
  digest o first p second same := by
    rw [List.mem_append, Option.mem_toList] at first second
    rcases first with first | first <;> rcases second with second | second
    · exact traced.digest o first p second same
    · exact traced.digest_new reserved moves first second same
    · exact (traced.digest_new reserved moves second first same.symm).symm
    · rw [Option.some.inj (first.symm.trans second)]

end step

/-- A finished call that got a cell answered with the table of the cell. -/
theorem Traced.answer (traced : Traced looks s) (member : o ∈ looks) {a : Answer}
    (answer : s.answer? o.thread o.call = some a) :
    ∃ table, s.table? o.cell = some table ∧ a = .table (.ok table) := by
  obtain ⟨t, place, kind⟩ := traced.served o member
  rw [answer?, place, Option.bind_some] at answer
  rcases kind with ⟨number, _⟩ | ⟨table, stands, given⟩
  · have inside := (List.getElem?_eq_some_iff.mp answer).1
    rw [List.length_reverse, number] at inside
    exact absurd inside (Nat.lt_irrefl _)
  · exact ⟨table, stands, Option.some.inj (answer.symm.trans given)⟩

/-- The table of a cell is of a code with the digest of every code with which the cell was got. -/
theorem Traced.table (traced : Traced looks s) (member : o ∈ looks) {table : JumpTable}
    (stands : s.table? o.cell = some table) :
    ∃ p ∈ looks, p.code.hash = o.code.hash ∧ table = .ofCode p.code.bytes := by
  obtain ⟨p, source, cell, rfl⟩ := traced.source _ _ stands
  exact ⟨p, source, traced.digest p source o member cell, rfl⟩

end EvmJumps.Cache.Shared
