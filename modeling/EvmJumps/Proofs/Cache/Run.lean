import Mathlib.Data.List.Induction
import EvmJumps.Cache
import EvmJumps.Proofs.Recency

namespace EvmJumps.Cache

theorem contains_of_find? {c : Cache} {hash : Digest} {table : JumpTable}
    (found : c.recent.find? hash = some table) : c.contains hash = true := by
  rw [Cache.contains, Recency.contains, found]
  rfl

theorem not_contains_of_find? {c : Cache} {hash : Digest}
    (missing : c.recent.find? hash = none) : c.contains hash = false := by
  rw [Cache.contains, Recency.contains, missing]
  rfl

/-- All that a call can do: its answer, and the cache that it leaves. -/
inductive Serves (c : Cache) : Call → Answer → Cache → Prop
  | refused {code : Bytecode} (long : c.config.maxCodeSize < code.size) :
    Serves c (.getOrAnalyze code)
      (.table (.error (.codeTooLong code.size c.config.maxCodeSize))) c
  | uncached {code : Bytecode} (fits : code.size ≤ c.config.maxCodeSize)
    (off : c.config.enableCache = false) :
    Serves c (.getOrAnalyze code) (.table (.ok (.ofCode code.bytes)))
      { c with stats := c.stats.analyzed }
  | hit {code : Bytecode} {table : JumpTable} (fits : code.size ≤ c.config.maxCodeSize)
    (on : c.config.enableCache = true) (found : c.recent.find? code.hash = some table) :
    Serves c (.getOrAnalyze code) (.table (.ok table))
      { c with recent := c.recent.touch code.hash, stats := c.stats.hit }
  | miss {code : Bytecode} (fits : code.size ≤ c.config.maxCodeSize)
    (on : c.config.enableCache = true) (missing : c.recent.find? code.hash = none) :
    Serves c (.getOrAnalyze code) (.table (.ok (.ofCode code.bytes)))
      { c with
        recent := c.recent.push code.hash (.ofCode code.bytes)
        stats := (c.stats.miss c.recent.isFull).analyzed }
  | got {hash : Digest} {table : JumpTable} (found : c.recent.find? hash = some table) :
    Serves c (.get hash) (.found (some table)) { c with recent := c.recent.touch hash }
  | absent {hash : Digest} (missing : c.recent.find? hash = none) :
    Serves c (.get hash) (.found none) c
  | looked {hash : Digest} : Serves c (.contains hash) (.held (c.recent.contains hash)) c
  | cleared : Serves c .clear .cleared c.clear

theorem serves_call (c : Cache) (call : Call) : Serves c call (c.call call).1 (c.call call).2 := by
  cases call with
  | getOrAnalyze code =>
    by_cases long : c.config.maxCodeSize < code.size
    · simp only [Cache.call, getOrAnalyze, long, if_true]
      exact .refused long
    · have fits := Nat.le_of_not_lt long
      cases on : c.config.enableCache with
      | false =>
        simp only [Cache.call, getOrAnalyze, long, on, if_false, Bool.not_false, if_true]
        exact .uncached fits on
      | true =>
        cases found : c.recent.find? code.hash with
        | none =>
          simp only [Cache.call, getOrAnalyze, long, on, found, if_false, Bool.not_true,
            Bool.false_eq_true]
          exact .miss fits on found
        | some table =>
          simp only [Cache.call, getOrAnalyze, long, on, found, if_false, Bool.not_true,
            Bool.false_eq_true]
          exact .hit fits on found
  | get hash =>
    cases found : c.recent.find? hash with
    | none =>
      have same : c.recent.touch hash = c.recent := by rw [Recency.touch, found]
      simp only [Cache.call, get, found, same]
      exact .absent found
    | some table =>
      simp only [Cache.call, get, found]
      exact .got found
  | contains hash => exact .looked
  | clear => exact .cleared

theorem Serves.call_eq {c c' : Cache} {call : Call} {answer : Answer}
    (serves : Serves c call answer c') : c.call call = (answer, c') := by
  cases serves with
  | refused long => simp [Cache.call, getOrAnalyze, long]
  | uncached fits off => simp [Cache.call, getOrAnalyze, Nat.not_lt.mpr fits, off]
  | hit fits on found => simp [Cache.call, getOrAnalyze, Nat.not_lt.mpr fits, on, found]
  | miss fits on missing => simp [Cache.call, getOrAnalyze, Nat.not_lt.mpr fits, on, missing]
  | got found => simp [Cache.call, get, found]
  | absent missing => simp [Cache.call, get, Recency.touch, missing]
  | looked => rfl
  | cleared => rfl

/-- The configuration and the capacity of a cache never change. -/
theorem Serves.fixed {c c' : Cache} {call : Call} {answer : Answer}
    (serves : Serves c call answer c') :
    c'.config = c.config ∧ c'.recent.capacity = c.recent.capacity := by
  cases serves
  case hit | got => exact ⟨rfl, Recency.capacity_touch _ _⟩
  all_goals exact ⟨rfl, rfl⟩

/-- The cache behind a history. -/
def after (c : Cache) (calls : List Call) : Cache :=
  (c.run calls).2

theorem run_cons (c : Cache) (call : Call) (calls : List Call) :
    c.run (call :: calls) =
      ((c.call call).1 :: ((c.call call).2.run calls).1, ((c.call call).2.run calls).2) :=
  rfl

theorem run_append (c : Cache) (calls later : List Call) :
    c.run (calls ++ later) =
      ((c.run calls).1 ++ ((c.after calls).run later).1, (c.after calls).after later) := by
  induction calls generalizing c with
  | nil => rfl
  | cons call calls ih =>
    rw [List.cons_append, run_cons, ih]
    rfl

theorem after_append (c : Cache) (calls later : List Call) :
    c.after (calls ++ later) = (c.after calls).after later := by
  rw [after, run_append]

theorem length_answers (c : Cache) (calls : List Call) :
    (c.run calls).1.length = calls.length := by
  induction calls generalizing c with
  | nil => rfl
  | cons call calls ih => rw [run_cons, List.length_cons, ih, List.length_cons]

/-- The answer to a call depends on the calls before it alone. -/
theorem answer_at (c : Cache) (earlier later : List Call) (call : Call) :
    (c.run (earlier ++ call :: later)).1[earlier.length]? =
      some ((c.after earlier).call call).1 := by
  rw [run_append, ← length_answers c earlier, List.getElem?_append_right (Nat.le_refl _),
    Nat.sub_self, run_cons, List.getElem?_cons_zero]

/-- Follows a history from its start, call by call. -/
theorem after_induction {c : Cache} {P : List Call → Cache → Prop} (start : P [] c)
    (next : ∀ calls call answer c', P calls (c.after calls) →
      Serves (c.after calls) call answer c' → P (calls ++ [call]) c')
    (calls : List Call) : P calls (c.after calls) := by
  induction calls using List.reverseRecOn with
  | nil => exact start
  | append_singleton calls call ih =>
    rw [after_append]
    exact next calls call _ _ ih (serves_call (c.after calls) call)

theorem fixed_after (c : Cache) (calls : List Call) :
    (c.after calls).config = c.config ∧ (c.after calls).recent.capacity = c.recent.capacity := by
  apply after_induction (P := fun _ c' => c'.config = c.config ∧
    c'.recent.capacity = c.recent.capacity) ⟨rfl, rfl⟩
  intro calls call answer c' fixed serves
  exact ⟨serves.fixed.1.trans fixed.1, serves.fixed.2.trans fixed.2⟩

theorem Serves.orderly {c c' : Cache} {call : Call} {answer : Answer}
    (serves : Serves c call answer c') (room : 0 < c.recent.capacity)
    (orderly : c.recent.Orderly) : c'.recent.Orderly := by
  cases serves with
  | refused long => exact orderly
  | uncached fits off => exact orderly
  | hit fits on found => exact orderly.touch _
  | miss fits on missing => exact orderly.push room (Recency.not_mem_keys_of_find? missing) _
  | got found => exact orderly.touch _
  | absent missing => exact orderly
  | looked => exact orderly
  | cleared => exact .of_empty rfl

theorem room_after {config : Config} (capacity : 0 < config.cacheCapacity) (calls : List Call) :
    0 < ((fresh config).after calls).recent.capacity :=
  (fixed_after (fresh config) calls).2 ▸ capacity

/-- A cache has one entry for a digest at most, and no more entries than there is room for. -/
theorem orderly_after {config : Config} (capacity : 0 < config.cacheCapacity) (calls : List Call) :
    ((fresh config).after calls).recent.Orderly := by
  apply after_induction (P := fun _ c' => c'.recent.Orderly) (.of_empty rfl)
  intro calls call answer c' orderly serves
  exact serves.orderly (room_after capacity calls) orderly

/-- A call of some kind was made in a history, and the cache was not cleared behind it. -/
def SinceClear (P : List Call → Call → Prop) (calls : List Call) : Prop :=
  ∃ earlier call later, calls = earlier ++ call :: later ∧ P earlier call ∧ Call.clear ∉ later

theorem not_sinceClear_nil (P : List Call → Call → Prop) : ¬ SinceClear P [] := by
  intro ⟨earlier, call, later, split, _⟩
  cases earlier <;> cases split

theorem sinceClear_snoc {P : List Call → Call → Prop} {calls : List Call} {call : Call} :
    SinceClear P (calls ++ [call]) ↔ P calls call ∨ SinceClear P calls ∧ call ≠ .clear := by
  constructor
  · intro ⟨earlier, made, later, split, kind, kept⟩
    rcases List.eq_nil_or_concat later with empty | ⟨between, last, snoc⟩
    · subst empty
      obtain ⟨rfl, same⟩ := List.append_inj' split rfl
      cases same
      exact Or.inl kind
    · subst snoc
      rw [List.concat_eq_append, ← List.cons_append, ← List.append_assoc] at split
      obtain ⟨same, tail⟩ := List.append_inj' split rfl
      cases tail
      rw [List.concat_eq_append, List.mem_append, not_or] at kept
      exact Or.inr ⟨⟨earlier, made, between, same, kind, kept.1⟩,
        fun clear => kept.2 (List.mem_singleton.mpr clear.symm)⟩
  · intro made
    rcases made with kind | ⟨⟨earlier, made, later, split, kind, kept⟩, other⟩
    · exact ⟨calls, call, [], rfl, kind, List.not_mem_nil⟩
    · refine ⟨earlier, made, later ++ [call], by rw [split]; simp, kind, ?_⟩
      rw [List.mem_append, List.mem_singleton, not_or]
      exact ⟨kept, fun clear => other clear.symm⟩

/-- Only valid configurations make a cache, and it is empty then. -/
theorem ofConfig_of_pos {config : Config} (capacity : 0 < config.cacheCapacity)
    (size : 0 < config.maxCodeSize) : ofConfig config = .ok (fresh config) := by
  rw [ofConfig, Config.flaw?_eq_none_iff.mpr ⟨capacity, size⟩]

/-- A single JUMPDEST and a single STOP are told apart by their digests. -/
theorem hash_jumpdest_ne_hash_stop :
    (Bytecode.ofBytes [0x5b]).hash ≠ (Bytecode.ofBytes [0x00]).hash := by
  decide +kernel

end EvmJumps.Cache
