import EvmJumps.Cache.Shared

namespace EvmJumps.Cache.Shared

/-- All that a step can do to its thread and to what is shared, one constructor for each kind. A
thread whose cell is being filled, or that has no call left, has no step. -/
inductive Moves (s : Shared) : Thread → Thread → Shared → Prop
  | refused {code : Bytecode} (long : s.config.maxCodeSize < code.size) :
    Moves s ⟨.getOrAnalyze code :: calls, .idle, answers⟩
      ⟨calls, .idle, .table (.error (.codeTooLong code.size s.config.maxCodeSize)) :: answers⟩ s
  | uncached {code : Bytecode} (fits : code.size ≤ s.config.maxCodeSize)
    (off : s.config.enableCache = false) :
    Moves s ⟨.getOrAnalyze code :: calls, .idle, answers⟩
      ⟨calls, .idle, .table (.ok (.ofCode code.bytes)) :: answers⟩
      { s with stats := s.stats.analyzed }
  | taken {code : Bytecode} (fits : code.size ≤ s.config.maxCodeSize)
    (on : s.config.enableCache = true) (found : s.recent.find? code.hash = some i) :
    Moves s ⟨.getOrAnalyze code :: calls, .idle, answers⟩ ⟨calls, .holding code i, answers⟩
      { s with recent := s.recent.touch code.hash, stats := s.stats.hit }
  | made {code : Bytecode} (fits : code.size ≤ s.config.maxCodeSize)
    (on : s.config.enableCache = true) (missing : s.recent.find? code.hash = none) :
    Moves s ⟨.getOrAnalyze code :: calls, .idle, answers⟩
      ⟨calls, .holding code s.cells.size, answers⟩
      { s with
        recent := s.recent.push code.hash s.cells.size
        cells := s.cells.push .vacant
        stats := s.stats.miss s.recent.isFull }
  | got {hash : Digest} :
    Moves s ⟨.get hash :: calls, .idle, answers⟩
      ⟨calls, .idle, .found ((s.recent.find? hash).bind s.table?) :: answers⟩
      { s with recent := s.recent.touch hash }
  | looked {hash : Digest} :
    Moves s ⟨.contains hash :: calls, .idle, answers⟩
      ⟨calls, .idle, .held (s.recent.contains hash) :: answers⟩ s
  | cleared :
    Moves s ⟨.clear :: calls, .idle, answers⟩ ⟨calls, .idle, .cleared :: answers⟩
      { s with recent := s.recent.clear }
  | claimed (vacant : s.cell i = .vacant) :
    Moves s ⟨calls, .holding code i, answers⟩ ⟨calls, .analyzing code i, answers⟩
      (s.setCell i .busy)
  | read (filled : s.cell i = .filled table) :
    Moves s ⟨calls, .holding code i, answers⟩ ⟨calls, .idle, .table (.ok table) :: answers⟩ s
  | analyzed :
    Moves s ⟨calls, .analyzing code i, answers⟩
      ⟨calls, .publishing i (.ofCode code.bytes), answers⟩ { s with stats := s.stats.analyzed }
  | published :
    Moves s ⟨calls, .publishing i table, answers⟩ ⟨calls, .idle, .table (.ok table) :: answers⟩
      (s.setCell i (.filled table))

theorem Moves.stepThread_eq {s s' : Shared} {t t' : Thread} (moves : Moves s t t' s') :
    s.stepThread t = some (t', s') := by
  cases moves with
  | refused long => simp [stepThread, start, long, Thread.reply]
  | uncached fits off => simp [stepThread, start, Nat.not_lt.mpr fits, off, Thread.reply]
  | taken fits on found => simp [stepThread, start, Nat.not_lt.mpr fits, on, lookUp, found]
  | made fits on missing => simp [stepThread, start, Nat.not_lt.mpr fits, on, lookUp, missing]
  | got => rfl
  | looked => rfl
  | cleared => rfl
  | claimed vacant => simp [stepThread, vacant]
  | read filled => simp [stepThread, filled, Thread.reply]
  | analyzed => rfl
  | published => rfl

theorem moves_of_start {s s' : Shared} {calls : List Call} {answers : List Answer} {call : Call}
    {t' : Thread} (start : s.start ⟨calls, .idle, answers⟩ call = (t', s')) :
    Moves s ⟨call :: calls, .idle, answers⟩ t' s' := by
  cases call with
  | getOrAnalyze code =>
    by_cases long : s.config.maxCodeSize < code.size
    · simp only [Shared.start, long, if_true] at start
      cases start
      exact .refused long
    · have fits := Nat.le_of_not_lt long
      cases on : s.config.enableCache with
      | false =>
        simp only [Shared.start, long, on, if_false, Bool.not_false, if_true] at start
        cases start
        exact .uncached fits on
      | true =>
        simp only [Shared.start, long, on, if_false, Bool.not_true, Bool.false_eq_true] at start
        cases found : s.recent.find? code.hash with
        | none =>
          simp only [lookUp, found] at start
          cases start
          exact .made fits on found
        | some i =>
          simp only [lookUp, found] at start
          cases start
          exact .taken fits on found
  | get hash =>
    cases start
    exact .got
  | contains hash =>
    cases start
    exact .looked
  | clear =>
    cases start
    exact .cleared

/-- Nothing else is a step. -/
theorem moves_of_stepThread {s s' : Shared} {t t' : Thread}
    (step : s.stepThread t = some (t', s')) : Moves s t t' s' := by
  obtain ⟨calls, stage, answers⟩ := t
  cases stage with
  | idle =>
    cases calls with
    | nil => cases step
    | cons call calls => exact moves_of_start (Option.some.inj step)
  | holding code i =>
    cases cell : s.cell i with
    | vacant =>
      simp only [stepThread, cell] at step
      cases step
      exact .claimed cell
    | busy =>
      simp only [stepThread, cell] at step
      cases step
    | filled table =>
      simp only [stepThread, cell] at step
      cases step
      exact .read cell
  | analyzing code i =>
    cases step
    exact .analyzed
  | publishing i table =>
    cases step
    exact .published

/-- A step changes no thread but its own, and not the configuration. -/
theorem Moves.fixed {s s' : Shared} {t t' : Thread} (moves : Moves s t t' s') :
    s'.threads = s.threads ∧ s'.config = s.config := by
  cases moves <;> exact ⟨rfl, rfl⟩

/-- The machine with one thread. -/
def alone (s : Shared) (t : Thread) : Shared :=
  { s with threads := [t] }

/-- A step does not look at the threads. -/
theorem Moves.alone {s s' : Shared} {t t' : Thread} (moves : Moves s t t' s') (u : Thread) :
    Moves (s.alone u) t t' (s'.alone u) := by
  cases moves with
  | refused long => exact .refused long
  | uncached fits off => exact .uncached fits off
  | taken fits on found => exact .taken fits on found
  | made fits on missing => exact .made fits on missing
  | got => exact .got
  | looked => exact .looked
  | cleared => exact .cleared
  | claimed vacant => exact .claimed vacant
  | read filled => exact .read filled
  | analyzed => exact .analyzed
  | published => exact .published

/-- The only thread takes a number of turns. -/
def turns (s : Shared) (n : Nat) : Shared :=
  s.follow (List.replicate n 0)

theorem turns_add (s : Shared) (m n : Nat) : s.turns (m + n) = (s.turns m).turns n := by
  rw [turns, ← List.replicate_append_replicate, follow, List.foldl_append]
  rfl

theorem turns_of_moves {s s' : Shared} {t t' : Thread} (moves : Moves s t t' s') (n : Nat) :
    (s.alone t).turns (n + 1) = (s'.alone t').turns n := by
  have step : (s.alone t).step 0 = some (s'.alone t') := by
    change ((s.alone t).stepThread t).map _ = _
    rw [(moves.alone t).stepThread_eq]
    rfl
  rw [turns, List.replicate_succ, follow, List.foldl_cons, step]
  rfl

/-- A thread without calls lets its turns pass. -/
theorem turns_done (s : Shared) (answers : List Answer) (n : Nat) :
    (s.alone ⟨[], .idle, answers⟩).turns n = s.alone ⟨[], .idle, answers⟩ := by
  induction n with
  | zero => rfl
  | succ n ih => exact ih

end EvmJumps.Cache.Shared
