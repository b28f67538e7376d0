import EvmJumps.Proofs.Cache.Run
import EvmJumps.Proofs.Cache.Steps

namespace EvmJumps.Cache

/-- The cells of the machine are filled, with the tables that the cache has in their places. -/
structure Mirrors (c : Cache) (s : Shared) : Prop where
  config : s.config = c.config
  stats : s.stats = c.stats
  recent : s.recent.mapValues s.table? = c.recent.mapValues some

variable {c c' : Cache} {s : Shared} {call : Call} {answer : Answer} {hash : Digest} {i : Nat}
  {table : JumpTable}

theorem Mirrors.find? (mirrors : Mirrors c s) (hash : Digest) :
    (s.recent.find? hash).map s.table? = (c.recent.find? hash).map some := by
  rw [← Recency.find?_mapValues, mirrors.recent, Recency.find?_mapValues]

theorem Mirrors.missing (mirrors : Mirrors c s) (missing : c.recent.find? hash = none) :
    s.recent.find? hash = none := by
  simpa [missing] using mirrors.find? hash

theorem Mirrors.found (mirrors : Mirrors c s) (found : c.recent.find? hash = some table) :
    ∃ i, s.recent.find? hash = some i ∧ s.table? i = some table := by
  simpa [found] using mirrors.find? hash

theorem Mirrors.get_eq (mirrors : Mirrors c s) (hash : Digest) :
    (s.recent.find? hash).bind s.table? = c.recent.find? hash := by
  cases found : c.recent.find? hash with
  | none => rw [mirrors.missing found, Option.bind_none]
  | some table =>
    obtain ⟨i, place, filled⟩ := mirrors.found found
    rw [place, Option.bind_some, filled]

theorem Mirrors.contains_eq (mirrors : Mirrors c s) (hash : Digest) :
    s.recent.contains hash = c.recent.contains hash := by
  have same := congrArg Option.isSome (mirrors.find? hash)
  rw [Option.isSome_map, Option.isSome_map] at same
  exact same

theorem cell_of_table? (filled : s.table? i = some table) : s.cell i = .filled table := by
  unfold Shared.table? at filled
  cases cell : s.cell i with
  | vacant => simp [cell] at filled
  | busy => simp [cell] at filled
  | filled other => simpa [cell] using filled

/-- Only cells that were made are filled. -/
theorem lt_of_table? (filled : s.table? i = some table) : i < s.cells.size := by
  by_contra beyond
  have cell := cell_of_table? filled
  simp [Shared.cell, Array.getD, beyond] at cell

theorem Mirrors.touch (mirrors : Mirrors c s) (hash : Digest) (stats : Stats) :
    Mirrors { c with recent := c.recent.touch hash, stats := stats }
      { s with recent := s.recent.touch hash, stats := stats } := by
  refine ⟨mirrors.config, rfl, ?_⟩
  exact (Recency.touch_mapValues _ _ _).trans
    ((congrArg (Recency.touch · hash) mirrors.recent).trans (Recency.touch_mapValues _ _ _).symm)

/-- The places of the entries come before a cell that is added. -/
theorem Mirrors.mapValues_push (mirrors : Mirrors c s) (cell : Cell) :
    s.recent.mapValues ({ s with cells := s.cells.push cell } : Shared).table? =
      c.recent.mapValues some := by
  rw [← mirrors.recent, Recency.mapValues, Recency.mapValues]
  congr 1
  apply List.map_congr_left
  intro entry member
  have filled : ∃ table, s.table? entry.2 = some table := by
    have image : (entry.1, s.table? entry.2) ∈ (s.recent.mapValues s.table?).entries :=
      List.mem_map.mpr ⟨entry, member, rfl⟩
    rw [mirrors.recent] at image
    obtain ⟨source, _, same⟩ := List.mem_map.mp image
    exact ⟨source.2, (congrArg Prod.snd same).symm⟩
  obtain ⟨table, filled⟩ := filled
  have early := lt_of_table? filled
  simp [Shared.table?, Shared.cell, Array.getD, Array.getElem_push, early, Nat.lt_succ_of_lt early]

/-- A new entry with its filled cell. -/
theorem Mirrors.push (mirrors : Mirrors c s) (hash : Digest) (table : JumpTable) (stats : Stats) :
    Mirrors { c with recent := c.recent.push hash table, stats := stats }
      { s with
        recent := s.recent.push hash s.cells.size
        cells := s.cells.push (.filled table)
        stats := stats } := by
  refine ⟨mirrors.config, rfl, ?_⟩
  let grown : Shared := { s with cells := s.cells.push (.filled table) }
  have filled : grown.table? s.cells.size = some table := by
    simp [grown, Shared.table?, Shared.cell, Array.getD]
  change (s.recent.push hash s.cells.size).mapValues grown.table? = _
  rw [Recency.push_mapValues, Recency.push_mapValues, filled, mirrors.mapValues_push]

/-- A thread that finds no entry makes a cell and fills it, in four steps. -/
theorem turns_miss {code : Bytecode} (fits : code.size ≤ s.config.maxCodeSize)
    (on : s.config.enableCache = true) (missing : s.recent.find? code.hash = none)
    (calls : List Call) (answers : List Answer) :
    (s.alone ⟨.getOrAnalyze code :: calls, .idle, answers⟩).turns 4 =
      Shared.alone { s with
        recent := s.recent.push code.hash s.cells.size
        cells := s.cells.push (.filled (.ofCode code.bytes))
        stats := (s.stats.miss s.recent.isFull).analyzed }
        ⟨calls, .idle, .table (.ok (.ofCode code.bytes)) :: answers⟩ := by
  rw [Shared.turns_of_moves (.made fits on missing), Shared.turns_of_moves (.claimed ?vacant),
    Shared.turns_of_moves .analyzed, Shared.turns_of_moves .published]
  case vacant => simp [Shared.cell, Array.getD]
  simp [Shared.turns, Shared.follow, Shared.setCell, Shared.alone, Array.setIfInBounds,
    Array.set_push]

/-- A thread makes the whole of a call in four steps or less. -/
theorem Mirrors.serve (mirrors : Mirrors c s) (serves : Serves c call answer c')
    (calls : List Call) (answers : List Answer) :
    ∃ n ≤ 4, ∃ s', Mirrors c' s' ∧ (s.alone ⟨call :: calls, .idle, answers⟩).turns n =
      s'.alone ⟨calls, .idle, answer :: answers⟩ := by
  have config := mirrors.config
  cases serves with
  | refused long =>
    refine ⟨1, by omega, s, mirrors, ?_⟩
    rw [← config]
    exact Shared.turns_of_moves (.refused (config ▸ long)) 0
  | uncached fits off =>
    refine ⟨1, by omega, _, ?_, Shared.turns_of_moves (.uncached (config ▸ fits) (config ▸ off)) 0⟩
    exact ⟨config, congrArg Stats.analyzed mirrors.stats, mirrors.recent⟩
  | hit fits on found =>
    obtain ⟨i, place, filled⟩ := mirrors.found found
    refine ⟨2, by omega, _, mirrors.touch _ _, ?_⟩
    rw [Shared.turns_of_moves (.taken (config ▸ fits) (config ▸ on) place), mirrors.stats]
    refine Shared.turns_of_moves (.read ?_) 0
    exact cell_of_table? filled
  | miss fits on missing =>
    refine ⟨4, by omega, _, mirrors.push _ _ _, ?_⟩
    have full : s.recent.isFull = c.recent.isFull := by
      rw [← Recency.isFull_mapValues s.table?, mirrors.recent, Recency.isFull_mapValues]
    rw [turns_miss (config ▸ fits) (config ▸ on) (mirrors.missing missing), mirrors.stats, full]
  | got found =>
    refine ⟨1, by omega, _, mirrors.touch _ _, ?_⟩
    rw [Shared.turns_of_moves .got, mirrors.get_eq, found, ← mirrors.stats]
    rfl
  | @absent hash missing =>
    have same : s.recent.touch hash = s.recent := by rw [Recency.touch, mirrors.missing missing]
    refine ⟨1, by omega, s, mirrors, ?_⟩
    rw [Shared.turns_of_moves .got, mirrors.get_eq, missing, same]
    rfl
  | looked =>
    refine ⟨1, by omega, s, mirrors, ?_⟩
    rw [Shared.turns_of_moves .looked, mirrors.contains_eq]
    rfl
  | cleared =>
    refine ⟨1, by omega, _, ?_, Shared.turns_of_moves .cleared 0⟩
    exact ⟨config, mirrors.stats, congrArg Recency.clear mirrors.recent⟩

/-- The machine follows a run of the cache, call by call. -/
theorem Mirrors.run (mirrors : Mirrors c s) (calls : List Call) (answers : List Answer) :
    ∃ n ≤ 4 * calls.length, ∃ s', Mirrors (c.after calls) s' ∧
      (s.alone ⟨calls, .idle, answers⟩).turns n =
        s'.alone ⟨[], .idle, (c.run calls).1.reverse ++ answers⟩ := by
  induction calls generalizing c s answers with
  | nil => exact ⟨0, Nat.zero_le _, s, mirrors, rfl⟩
  | cons call calls ih =>
    obtain ⟨m, few, between, midway, start⟩ := mirrors.serve (serves_call c call) calls answers
    obtain ⟨n, rest, s', behind, finish⟩ := ih midway ((c.call call).1 :: answers)
    refine ⟨m + n, ?_, s', behind, ?_⟩
    · rw [List.length_cons]
      omega
    · rw [Shared.turns_add, start, finish, run_cons, List.reverse_cons, List.append_assoc]
      rfl

theorem mirrors_share (c : Cache) (threads : List (List Call)) : Mirrors c (c.share threads) := by
  refine ⟨rfl, rfl, ?_⟩
  have entries : ((c.share threads).recent.mapValues (c.share threads).table?).entries =
      (c.recent.mapValues some).entries := by
    apply List.ext_getElem
    · simp [Recency.mapValues, share]
    · intro i early late
      have place : i < c.recent.entries.length := by simpa [Recency.mapValues] using late
      simp [Recency.mapValues, share, Shared.table?, Shared.cell, Array.getD, place]
  exact congrArg (Recency.mk c.recent.capacity) entries

/-- What the machine leaves is the cache. -/
theorem Mirrors.join_eq (mirrors : Mirrors c s) : s.join = c := by
  let held : Digest × Option JumpTable → Option (Digest × JumpTable) :=
    fun entry => entry.2.map fun table => (entry.1, table)
  have capacity : s.recent.capacity = c.recent.capacity := congrArg Recency.capacity mirrors.recent
  have entries : s.join.recent.entries = c.recent.entries := by
    calc
      _ = (s.recent.mapValues s.table?).entries.filterMap held := by
        rw [Recency.mapValues, List.filterMap_map]
        rfl
      _ = (c.recent.mapValues some).entries.filterMap held := by rw [mirrors.recent]
      _ = c.recent.entries := by simp [Recency.mapValues, List.filterMap_map, held]
  have parts : s.join = ⟨s.config, ⟨s.recent.capacity, s.join.recent.entries⟩, s.stats⟩ := rfl
  rw [parts, mirrors.config, mirrors.stats, capacity, entries]

/-- The calls of a single thread, in atomic steps. -/
def runAlone (c : Cache) (calls : List Call) : Shared :=
  (c.share [calls]).turns (4 * calls.length)

/-- A single thread finishes its calls with the answers of the cache and leaves the same cache. -/
theorem runAlone_mirrors (c : Cache) (calls : List Call) :
    (c.runAlone calls).threads = [⟨[], .idle, (c.run calls).1.reverse⟩] ∧
      Mirrors (c.after calls) (c.runAlone calls) := by
  obtain ⟨n, few, s', mirrors, finish⟩ := (mirrors_share c [calls]).run calls []
  have ends : c.runAlone calls = s'.alone ⟨[], .idle, (c.run calls).1.reverse⟩ := by
    have start : (c.share [calls]).alone ⟨calls, .idle, []⟩ = c.share [calls] := rfl
    rw [runAlone, ← Nat.add_sub_cancel' few, Shared.turns_add, ← start, finish, Shared.turns_done,
      List.append_nil]
  rw [ends]
  exact ⟨rfl, mirrors.config, mirrors.stats, mirrors.recent⟩

end EvmJumps.Cache
