import EvmJumps.Proofs.Cache.LookUps
import EvmJumps.Proofs.Cache.Run

namespace EvmJumps.Cache

/-- How many of its calls a thread has begun. -/
def Thread.begun (t : Thread) : Nat :=
  match t.stage with
  | .idle => t.answers.length
  | .holding _ _ | .analyzing _ _ | .publishing _ _ => t.answers.length + 1

namespace Shared

variable {s s' : Shared} {t t' : Thread} {i : Nat} {cells : List Nat} {looks : List LookUp}
  {config : Config} {threads : List (List Call)}

/-- What became of a call that a thread has begun: a code that is too long was refused, and any
other was looked up. -/
def Told (looks : List LookUp) (config : Config) (i k : Nat) (t : Thread) : Call → Prop
  | .getOrAnalyze code =>
    (config.maxCodeSize < code.size → t.answers.reverse[k]? =
      some (.table (.error (.codeTooLong code.size config.maxCodeSize)))) ∧
    (code.size ≤ config.maxCodeSize → ∃ o ∈ looks, o.thread = i ∧ o.call = k ∧ o.code = code)
  | .get _ | .contains _ | .clear => True

theorem Told.mono {call : Call} {k : Nat} {more : List LookUp}
    (told : Told looks config i k t call) (further : looks ⊆ more)
    (answered : ∀ a, t.answers.reverse[k]? = some a → t'.answers.reverse[k]? = some a) :
    Told more config i k t' call := by
  cases call with
  | get | contains | clear => trivial
  | getOrAnalyze code =>
    refine ⟨fun long => answered _ (told.1 long), fun fits => ?_⟩
    obtain ⟨o, member, same⟩ := told.2 fits
    exact ⟨o, further member, same⟩

/-- A step goes on with the call in flight, or it begins the next one. -/
theorem Moves.begun (moves : Moves s t t' s') (on : s.config.enableCache = true) (i : Nat) :
    (t'.begun = t.begun ∧ t'.calls = t.calls) ∨
    ∃ call, t.calls = call :: t'.calls ∧ t'.begun = t.begun + 1 ∧
      Told (s.lookUp? i t).toList s.config i t.begun t' call := by
  cases moves with
  | claimed | read | analyzed | published => exact Or.inl ⟨rfl, rfl⟩
  | got | looked | cleared => exact Or.inr ⟨_, rfl, rfl, trivial⟩
  | uncached fits off => simp [on] at off
  | @refused _ answers code long =>
    refine Or.inr ⟨_, rfl, rfl, fun _ => ?_, fun fits => absurd long (Nat.not_lt.mpr fits)⟩
    simp [Thread.begun]
  | taken fits _ found =>
    refine Or.inr ⟨_, rfl, rfl, fun long => absurd long (Nat.not_lt.mpr fits), fun _ => ?_⟩
    simp [lookUp?, fits, on, Thread.begun]
  | made fits _ missing =>
    refine Or.inr ⟨_, rfl, rfl, fun long => absurd long (Nat.not_lt.mpr fits), fun _ => ?_⟩
    simp [lookUp?, fits, on, Thread.begun]

/-- Each thread takes the calls that it was given one after the other, and look-ups are made for
these calls only. -/
structure InOrder (threads : List (List Call)) (looks : List LookUp) (s : Shared) : Prop where
  asked : ∀ o ∈ looks, ∃ own, threads[o.thread]? = some own ∧
    own[o.call]? = some (.getOrAnalyze o.code)
  length : s.threads.length = threads.length
  left : ∀ i t, s.threads[i]? = some t → ∃ own, threads[i]? = some own ∧
    t.calls = own.drop t.begun ∧
    ∀ k < t.begun, ∀ call, own[k]? = some call → Told looks s.config i k t call

theorem InOrder.asked_step (inOrder : InOrder threads looks s) (place : s.threads[i]? = some t)
    (moves : Moves s t t' s') {o : LookUp} (member : o ∈ looks ++ (s.lookUp? i t).toList) :
    ∃ own, threads[o.thread]? = some own ∧ own[o.call]? = some (.getOrAnalyze o.code) := by
  rcases List.mem_append.mp member with old | new
  · exact inOrder.asked o old
  · rw [Option.mem_toList] at new
    obtain ⟨rfl, _, number, idle, calls, _⟩ := moves.of_lookUp? new
    obtain ⟨own, given, left, _⟩ := inOrder.left o.thread t place
    have begun : t.begun = o.call := by rw [Thread.begun, idle, number]
    refine ⟨own, given, ?_⟩
    rw [← begun, ← Nat.add_zero t.begun, ← List.getElem?_drop, ← left, calls]
    rfl

theorem InOrder.step (inOrder : InOrder threads looks s) (on : s.config.enableCache = true)
    (place : s.threads[i]? = some t) (moves : Moves s t t' s') :
    InOrder threads (looks ++ (s.lookUp? i t).toList) (s'.setThread i t') := by
  refine ⟨fun o => inOrder.asked_step place moves, ?_, fun j u there => ?_⟩
  · rw [← inOrder.length, setThread, List.length_set, moves.fixed.1]
  have same : (s'.setThread i t').config = s.config := moves.fixed.2
  rw [moves.thread place] at there
  rw [same]
  split at there
  · rename_i here
    subst here
    cases there
    obtain ⟨own, given, left, told⟩ := inOrder.left i t place
    have before : ∀ k < t.begun, ∀ call, own[k]? = some call →
        Told (looks ++ (s.lookUp? i t).toList) s.config i k t' call :=
      fun k begun call kth => (told k begun call kth).mono (List.subset_append_left _ _)
        fun _ => moves.answered
    refine ⟨own, given, ?_⟩
    rcases moves.begun on i with ⟨begun, calls⟩ | ⟨call, calls, begun, new⟩
    · rw [begun, calls]
      exact ⟨left, before⟩
    · have next : own.drop t.begun = call :: t'.calls := left.symm.trans calls
      rw [begun]
      refine ⟨?_, fun k earlier call' kth => ?_⟩
      · rw [← List.tail_drop, next, List.tail_cons]
      · rcases Nat.lt_succ_iff_lt_or_eq.mp earlier with old | rfl
        · exact before k old call' kth
        · rw [← Nat.add_zero t.begun, ← List.getElem?_drop, next] at kth
          cases kth
          exact new.mono (List.subset_append_right _ _) fun _ => id
  · obtain ⟨own, given, left, told⟩ := inOrder.left j u there
    exact ⟨own, given, left, fun k begun call kth =>
      (told k begun call kth).mono (List.subset_append_left _ _) fun _ => id⟩

/-- A step that adds a cell counts an insertion and a miss for it; a step that looks something up
counts a hit or a miss, a step that analyzes counts an analysis. -/
theorem Moves.counts (moves : Moves s t t' s') (on : s.config.enableCache = true) (i : Nat) :
    s'.stats.inserts + s.cells.size = s.stats.inserts + s'.cells.size ∧
    s'.stats.misses + s.cells.size = s.stats.misses + s'.cells.size ∧
    s'.stats.hits + s'.stats.misses =
      s.stats.hits + s.stats.misses + (s.lookUp? i t).toList.length ∧
    s'.stats.analyses = s.stats.analyses + (analysis? t).toList.length := by
  cases moves with
  | uncached fits off => simp [on] at off
  | refused long => simp [lookUp?, Nat.not_le.mpr long, analysis?]
  | got | looked | cleared | read | analyzed => exact ⟨rfl, rfl, rfl, rfl⟩
  | claimed | published => simp [setCell, lookUp?, analysis?]
  | taken fits _ found =>
    refine ⟨rfl, rfl, ?_, rfl⟩
    simp only [lookUp?, fits, on, Stats.hit]
    exact Nat.add_right_comm _ _ _
  | made fits _ missing =>
    rw [Array.size_push]
    refine ⟨Nat.add_right_comm _ _ _, Nat.add_right_comm _ _ _, ?_, rfl⟩
    simp only [lookUp?, fits, on, Stats.miss]
    rfl

/-- Each cell was inserted for a miss, each look-up is a hit or a miss, and each analysis counts. -/
structure Tallied (looks : List LookUp) (cells : List Nat) (s : Shared) : Prop where
  inserts : s.stats.inserts = s.cells.size
  misses : s.stats.misses = s.cells.size
  lookUps : s.stats.hits + s.stats.misses = looks.length
  analyses : s.stats.analyses = cells.length

theorem Tallied.step (tallied : Tallied looks cells s) (on : s.config.enableCache = true)
    (moves : Moves s t t' s') : Tallied (looks ++ (s.lookUp? i t).toList)
      (cells ++ (analysis? t).toList) (s'.setThread i t') := by
  obtain ⟨inserts, misses, lookUps, analyses⟩ := moves.counts on i
  refine ⟨?_, ?_, ?_, ?_⟩
  · change s'.stats.inserts = s'.cells.size
    have before := tallied.inserts
    omega
  · change s'.stats.misses = s'.cells.size
    have before := tallied.misses
    omega
  · change s'.stats.hits + s'.stats.misses = _
    rw [List.length_append, lookUps, tallied.lookUps]
  · change s'.stats.analyses = _
    rw [List.length_append, analyses, tallied.analyses]

/-- The entries keep within the capacity. -/
structure Bounded (config : Config) (s : Shared) : Prop where
  configured : s.config = config
  capacity : s.recent.capacity = config.cacheCapacity
  orderly : s.recent.Orderly

theorem Bounded.step (bounded : Bounded config s) (room : 0 < config.cacheCapacity)
    (moves : Moves s t t' s') : Bounded config (s'.setThread i t') := by
  refine ⟨moves.fixed.2.trans bounded.configured, ?_, ?_⟩
  · change s'.recent.capacity = _
    rw [← bounded.capacity]
    cases moves with
    | taken | got => exact Recency.capacity_touch _ _
    | refused | uncached | made | looked | cleared | claimed | read | analyzed | published => rfl
  · change s'.recent.Orderly
    have orderly := bounded.orderly
    cases moves with
    | taken | got => exact orderly.touch _
    | made fits on missing =>
      exact orderly.push (bounded.capacity ▸ room) (Recency.not_mem_keys_of_find? missing) _
    | cleared => exact .of_empty rfl
    | refused | uncached | looked | claimed | read | analyzed | published => exact orderly

/-- All that holds of the machine in the course of a schedule. -/
structure Consistent (config : Config) (threads : List (List Call)) (looks : List LookUp)
    (cells : List Nat) (s : Shared) : Prop where
  bounded : Bounded config s
  tallied : Tallied looks cells s
  reserved : s.Reserved
  filled : Filled cells s
  traced : Traced looks s
  inOrder : InOrder threads looks s

theorem Consistent.step (consistent : Consistent config threads looks cells s)
    (room : 0 < config.cacheCapacity) (on : config.enableCache = true)
    (place : s.threads[i]? = some t) (moves : Moves s t t' s') :
    Consistent config threads (looks ++ (s.lookUp? i t).toList)
      (cells ++ (analysis? t).toList) (s'.setThread i t') := by
  obtain ⟨bounded, tallied, reserved, filled, traced, inOrder⟩ := consistent
  have enabled : s.config.enableCache = true := bounded.configured ▸ on
  exact ⟨bounded.step room moves, tallied.step enabled moves, reserved.step place moves,
    filled.step reserved place moves, traced.step reserved moves place filled,
    inOrder.step enabled place moves⟩

theorem consistent_share (config : Config) (threads : List (List Call)) :
    Consistent config threads [] [] ((fresh config).share threads) := by
  have vacant (c : Nat) : ((fresh config).share threads).cell c = .vacant := rfl
  have missing (hash : Digest) : ((fresh config).share threads).recent.find? hash = none := rfl
  have started {i : Nat} {t : Thread}
      (there : ((fresh config).share threads).threads[i]? = some t) :
      ∃ own, threads[i]? = some own ∧ ({ calls := own } : Thread) = t := by
    rwa [share, List.getElem?_map, Option.map_eq_some_iff] at there
  have idle : ∀ t ∈ ((fresh config).share threads).threads, t.stage = .idle := by
    intro t member
    obtain ⟨i, there⟩ := List.getElem?_of_mem member
    obtain ⟨own, _, rfl⟩ := started there
    rfl
  have unused {p : Stage → Bool} (none : p .idle = false) := tally_of_idle idle none
  constructor
  case bounded => exact ⟨rfl, rfl, .of_empty rfl⟩
  case tallied => exact ⟨rfl, rfl, rfl, rfl⟩
  case reserved =>
    refine ⟨fun hash c found => ?_, fun c _ => unused rfl, nofun⟩
    simp [missing] at found
  case filled =>
    refine ⟨fun c => ?_, fun c => ?_⟩
    · rw [unused rfl, vacant]
      rfl
    · rw [unused rfl, vacant]
      rfl
  case traced =>
    refine ⟨fun o member => ?_, fun i t there busy => ?_, fun hash c found => ?_,
      fun c table stands => ?_, fun o member => ?_⟩
    · cases member
    · exact absurd (idle t (List.mem_of_getElem? there)) busy
    · simp [missing] at found
    · rw [table?_eq_some, vacant] at stands
      cases stands
    · cases member
  case inOrder =>
    refine ⟨fun o member => ?_, List.length_map _, fun i t there => ?_⟩
    · cases member
    · obtain ⟨own, given, rfl⟩ := started there
      exact ⟨own, given, rfl, fun k begun => absurd begun (Nat.not_lt_zero k)⟩

theorem consistent_follow (room : 0 < config.cacheCapacity) (on : config.enableCache = true)
    (threads : List (List Call)) (schedule : List Nat) :
    Consistent config threads (((fresh config).share threads).lookUps schedule)
      (((fresh config).share threads).analyses schedule)
      (((fresh config).share threads).follow schedule) :=
  follow_induction (consistent_share config threads)
    (fun _ _ _ _ _ _ _ consistent => consistent.step room on) schedule

/-- What a finished call was told. -/
theorem InOrder.told (inOrder : InOrder threads looks s) {own : List Call} {k : Nat} {call : Call}
    {a : Answer} (given : threads[i]? = some own) (kth : own[k]? = some call)
    (answer : s.answer? i k = some a) :
    ∃ t, t.answers.reverse[k]? = some a ∧ Told looks s.config i k t call := by
  obtain ⟨t, place, answered⟩ := Option.bind_eq_some_iff.mp answer
  obtain ⟨own', given', _, told⟩ := inOrder.left i t place
  obtain rfl : own' = own := Option.some.inj (given'.symm.trans given)
  have inside := (List.getElem?_eq_some_iff.mp answered).1
  rw [List.length_reverse] at inside
  have begun : t.answers.length ≤ t.begun := by
    unfold Thread.begun
    split <;> omega
  exact ⟨t, answered, told k (inside.trans_le begun) call kth⟩

/-- A call without an answer waits only for a thread that can move. -/
theorem InOrder.progress (inOrder : InOrder threads looks s) (filled : Filled cells s)
    {own : List Call} {k : Nat} (given : threads[i]? = some own) (made : k < own.length)
    (waiting : s.answer? i k = none) : ∃ j, (s.step j).isSome := by
  have inside : i < s.threads.length :=
    inOrder.length.symm ▸ (List.getElem?_eq_some_iff.mp given).1
  have place : s.threads[i]? = some s.threads[i] := List.getElem?_eq_getElem inside
  obtain ⟨own', given', left, _⟩ := inOrder.left i _ place
  obtain rfl : own' = own := Option.some.inj (given'.symm.trans given)
  apply filled.progress place
  by_contra finished
  obtain ⟨idle, done⟩ := not_or.mp finished
  rw [not_not] at idle done
  rw [answer?, place, Option.bind_some, List.getElem?_eq_none_iff, List.length_reverse] at waiting
  have begun : s.threads[i].begun = s.threads[i].answers.length := by rw [Thread.begun, idle]
  rw [done, begun] at left
  have all := List.drop_eq_nil_iff.mp left.symm
  omega

end Shared

/-- The guarantees of an enabled cache to threads with any calls, at any point of any schedule. No
cell that was inserted is analyzed twice, so there are no more analyses than misses, which are as
many as insertions, and as many analyses as misses once no call is in flight. Each look-up is a hit
or a miss, and the entries keep within the capacity. All finished calls that got one cell gave the
same table. A finished call refused its code because of its size, or it looked the code up; then its
answer is the table of a new analysis, if no two codes that are given have one digest. As long as a
call has no answer some thread can move. -/
theorem threads_share_analyses (config : Config) (capacity : 0 < config.cacheCapacity)
    (limit : 0 < config.maxCodeSize) (on : config.enableCache = true)
    (threads : List (List Call)) :
    ∃ c, Cache.ofConfig config = .ok c ∧ ∀ schedule,
      let looks := (c.share threads).lookUps schedule
      let analyzed := (c.share threads).analyses schedule
      let s := (c.share threads).follow schedule
      analyzed.Nodup ∧ (∀ cell ∈ analyzed, cell < s.cells.size) ∧
      s.stats.inserts = s.cells.size ∧
      s.stats.misses = s.stats.inserts ∧
      s.stats.analyses = analyzed.length ∧
      s.stats.analyses ≤ s.stats.misses ∧
      ((∀ t ∈ s.threads, t.stage = .idle) → s.stats.analyses = s.stats.misses) ∧
      s.stats.hits + s.stats.misses = looks.length ∧
      s.recent.size ≤ config.cacheCapacity ∧
      (∀ o ∈ looks, ∀ p ∈ looks, o.cell = p.cell → ∀ a b,
        s.answer? o.thread o.call = some a → s.answer? p.thread p.call = some b →
        ∃ table, a = .table (.ok table) ∧ b = .table (.ok table)) ∧
      (∀ i own k code answer, threads[i]? = some own → own[k]? = some (.getOrAnalyze code) →
        s.answer? i k = some answer →
        (config.maxCodeSize < code.size →
          answer = .table (.error (.codeTooLong code.size config.maxCodeSize))) ∧
        (code.size ≤ config.maxCodeSize →
          (∃ o ∈ looks, o.thread = i ∧ o.call = k ∧ o.code = code) ∧
          ((∀ a b : Bytecode, .getOrAnalyze a ∈ threads.flatten →
            .getOrAnalyze b ∈ threads.flatten → a.hash = b.hash → a = b) →
            answer = .table (.ok (.ofCode code.bytes))))) ∧
      (∀ i own k, threads[i]? = some own → k < own.length → s.answer? i k = none →
        ∃ j, (s.step j).isSome) := by
  refine ⟨fresh config, ofConfig_of_pos capacity limit, ?_⟩
  intro schedule looks analyzed s
  obtain ⟨bounded, tallied, reserved, filled, traced, inOrder⟩ :=
    Shared.consistent_follow capacity on threads schedule
  have inserts := tallied.misses.trans tallied.inserts.symm
  refine ⟨filled.once, ?_, tallied.inserts, inserts, tallied.analyses, ?_, ?_, tallied.lookUps,
    ?_, ?_, ?_, ?_⟩
  · intro cell member
    exact List.mem_range.mp (filled.made reserved member)
  · rw [tallied.analyses, tallied.misses]
    exact filled.length_le reserved
  · intro idle
    rw [tallied.analyses, tallied.misses]
    exact filled.length_eq reserved idle
  · exact bounded.orderly.bounded.trans_eq bounded.capacity
  · intro o first p second same a b answer answer'
    obtain ⟨table, stands, rfl⟩ := traced.answer first answer
    obtain ⟨table', stands', rfl⟩ := traced.answer second answer'
    rw [← same, stands] at stands'
    cases stands'
    exact ⟨table, rfl, rfl⟩
  · intro i own k code answer given kth finished
    obtain ⟨t, answered, refused, looked⟩ := inOrder.told given kth finished
    rw [bounded.configured] at refused looked
    refine ⟨fun long => Option.some.inj (answered.symm.trans (refused long)), fun fits => ?_⟩
    obtain ⟨o, member, rfl, rfl, rfl⟩ := looked fits
    refine ⟨⟨o, member, rfl, rfl, rfl⟩, fun faithful => ?_⟩
    have asked {p : Shared.LookUp} (there : p ∈ looks) :
        .getOrAnalyze p.code ∈ threads.flatten := by
      obtain ⟨own, given, kth⟩ := inOrder.asked p there
      exact List.mem_flatten.mpr ⟨own, List.mem_of_getElem? given, List.mem_of_getElem? kth⟩
    obtain ⟨table, stands, rfl⟩ := traced.answer member finished
    obtain ⟨p, source, hash, rfl⟩ := traced.table member stands
    rw [faithful p.code o.code (asked source) (asked member) hash]
  · intro i own k given made waiting
    exact inOrder.progress filled given made waiting

/-- A code that is given again behind a clear, while its first cell is still being filled, gets a
cell of its own. -/
theorem threads_share_analyses_cleared :
    ∃ c, Cache.ofConfig {} = .ok c ∧
      let s := (c.share [[.getOrAnalyze (.ofBytes [0x5b])], [.clear],
        [.getOrAnalyze (.ofBytes [0x5b])]]).follow [0, 0, 1, 2, 2, 0, 2, 0, 2]
      s.stats.misses = 2 ∧ s.stats.analyses = 2 ∧
      s.answer? 2 0 = some (.table (.ok (.ofCode [0x5b]))) := by
  obtain ⟨c, made, accounts⟩ := threads_share_analyses {} (by decide) (by decide) rfl
    [[.getOrAnalyze (.ofBytes [0x5b])], [.clear], [.getOrAnalyze (.ofBytes [0x5b])]]
  obtain ⟨_, _, _, _, _, _, rest, _, _, _, tables, _⟩ :=
    accounts [0, 0, 1, 2, 2, 0, 2, 0, 2]
  refine ⟨c, made, ?_⟩
  intro s
  cases made
  have idle : ∀ t ∈ s.threads, t.stage = .idle := by
    have threads : s.threads.map Thread.stage = [.idle, .idle, .idle] := rfl
    intro t member
    have among : t.stage ∈ s.threads.map Thread.stage := List.mem_map.mpr ⟨t, member, rfl⟩
    simpa [threads] using among
  have two : s.stats.misses = 2 := rfl
  obtain ⟨answer, finished⟩ : ∃ answer, s.answer? 2 0 = some answer := ⟨_, rfl⟩
  have table := ((tables 2 _ 0 (.ofBytes [0x5b]) answer rfl rfl finished).2 (by decide)).2 (by simp)
  exact ⟨two, (rest idle).trans two, table ▸ finished⟩

end EvmJumps.Cache
