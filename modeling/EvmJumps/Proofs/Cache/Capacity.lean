import EvmJumps.Proofs.Cache.Run

namespace EvmJumps

theorem dropLast_sublist_dropLast {l m : List κ} (sub : l.Sublist m) :
    l.dropLast.Sublist m.dropLast := by
  have tails := sub.reverse.tail
  rwa [List.tail_reverse, List.tail_reverse, List.reverse_sublist] at tails

namespace Recency

/-- The keys of the smaller map stand in the larger one in the same order. As long as the smaller is
not full there are no others in the larger. -/
structure Within (small large : Recency κ α) : Prop where
  capacity : small.capacity ≤ large.capacity
  keys : small.keys.Sublist large.keys
  same : small.isFull = false → small.keys = large.keys

variable {small large : Recency κ α} {k : κ}

theorem isFull_iff {r : Recency κ α} : r.isFull = true ↔ r.capacity ≤ r.keys.length := by
  rw [isFull, size_eq, decide_eq_true_iff]

theorem not_isFull_iff {r : Recency κ α} : r.isFull = false ↔ r.keys.length < r.capacity := by
  rw [isFull, size_eq, decide_eq_false_iff_not, Nat.not_le]

theorem isFull_push {r : Recency κ α} (full : r.isFull = true) (k : κ) (v : α) :
    (r.push k v).isFull = true := by
  rw [isFull, decide_eq_true_iff] at full
  have capacity : (r.push k v).capacity = r.capacity := rfl
  rw [isFull, decide_eq_true_iff, size_push, capacity]
  omega

theorem Within.full_of_full (within : small.Within large) (full : large.isFull = true) :
    small.isFull = true := by
  have more := within.capacity
  cases room : small.isFull with
  | true => rfl
  | false =>
    rw [isFull_iff, ← within.same room] at full
    rw [not_isFull_iff] at room
    omega

/-- Only a full map lacks keys of a larger one. -/
theorem Within.full_of_mem (within : small.Within large) (absent : k ∉ small.keys)
    (held : k ∈ large.keys) : small.isFull = true := by
  cases room : small.isFull with
  | true => rfl
  | false => exact absurd (within.same room ▸ held) absent

theorem Within.clear (within : small.Within large) : small.clear.Within large.clear :=
  ⟨within.capacity, .slnil, fun _ => rfl⟩

/-- What stays beside a new entry in the smaller map stays in the larger. -/
theorem Within.take (within : small.Within large) (fits : small.Orderly) (bounded : large.Orderly) :
    (small.keys.take (small.capacity - 1)).Sublist (large.keys.take (large.capacity - 1)) := by
  have less := fits.bounded
  have most := bounded.bounded
  rw [size_eq] at less most
  cases full : small.isFull with
  | false =>
    rw [within.same full]
    exact List.take_sublist_take_left (Nat.sub_le_sub_right within.capacity 1)
  | true =>
    rw [isFull_iff] at full
    by_cases room : large.keys.length ≤ large.capacity - 1
    · rw [List.take_of_length_le room]
      exact (List.take_sublist _ _).trans within.keys
    · have last : small.capacity - 1 = small.keys.length - 1 := by omega
      have last' : large.capacity - 1 = large.keys.length - 1 := by omega
      rw [last, last', ← List.dropLast_eq_take, ← List.dropLast_eq_take]
      exact dropLast_sublist_dropLast within.keys

theorem Within.push (within : small.Within large) (fits : small.Orderly) (bounded : large.Orderly)
    (k : κ) (v w : α) : (small.push k v).Within (large.push k w) := by
  refine ⟨within.capacity, ?_, ?_⟩
  · rw [keys_push, keys_push]
    exact (within.take fits bounded).cons_cons k
  · intro room
    have before : small.isFull = false := by
      apply Bool.eq_false_iff.mpr
      intro full
      rw [isFull_push full] at room
      cases room
    have few := not_isFull_iff.mp before
    have more := within.capacity
    rw [keys_push, keys_push, ← within.same before, List.take_of_length_le (by omega),
      List.take_of_length_le (by omega)]

variable [BEq κ] [LawfulBEq κ]

theorem Within.filter (within : small.Within large) (absent : k ∉ small.keys) :
    small.keys.Sublist (large.keys.filter (· != k)) := by
  rw [← filter_ne_of_not_mem absent]
  exact within.keys.filter _

/-- A use may move a key in the larger map that the smaller does not have. -/
theorem Within.touch (within : small.Within large) (fits : small.Orderly) (k : κ) :
    (small.touch k).Within (large.touch k) := by
  by_cases here : k ∈ small.keys
  · have there := within.keys.subset here
    refine ⟨?_, ?_, ?_⟩
    · rw [capacity_touch, capacity_touch]
      exact within.capacity
    · rw [keys_touch here, keys_touch there]
      exact (within.keys.filter _).cons_cons k
    · intro room
      rw [isFull, size_touch fits.once, capacity_touch] at room
      rw [keys_touch here, keys_touch there, within.same room]
  · rw [touch_of_not_mem here]
    by_cases there : k ∈ large.keys
    · have full := within.full_of_mem here there
      refine ⟨?_, ?_, ?_⟩
      · rw [capacity_touch]
        exact within.capacity
      · rw [keys_touch there]
        exact (within.filter here).cons k
      · intro room
        rw [full] at room
        cases room
    · rw [touch_of_not_mem there]
      exact within

/-- The smaller map makes an entry for a key that the larger still has. -/
theorem Within.push_touch (within : small.Within large) (absent : k ∉ small.keys)
    (held : k ∈ large.keys) (v : α) : (small.push k v).Within (large.touch k) := by
  have full := within.full_of_mem absent held
  refine ⟨?_, ?_, ?_⟩
  · rw [capacity_touch]
    exact within.capacity
  · rw [keys_push, keys_touch held]
    exact ((List.take_sublist _ _).trans (within.filter absent)).cons_cons k
  · intro room
    rw [isFull_push full] at room
    cases room

end Recency

namespace Cache

/-- The second counters tell of more hits, and of less misses, insertions, analyses and displaced
entries. -/
structure Outdone (small large : Stats) : Prop where
  hits : small.hits ≤ large.hits
  misses : large.misses ≤ small.misses
  inserts : large.inserts ≤ small.inserts
  analyses : large.analyses ≤ small.analyses
  evictions : large.evictions ≤ small.evictions

/-- What the smaller cache holds the larger holds too, and the larger had less to do. -/
structure Within (small large : Cache) : Prop where
  recent : small.recent.Within large.recent
  stats : Outdone small.stats large.stats

section Counters

variable {small large : Stats}

theorem Outdone.hit_hit (outdone : Outdone small large) : Outdone small.hit large.hit := by
  obtain ⟨hits, misses, inserts, analyses, evictions⟩ := outdone
  exact ⟨Nat.succ_le_succ hits, misses, inserts, analyses, evictions⟩

theorem Outdone.miss_hit (outdone : Outdone small large) (full : Bool) :
    Outdone (small.miss full).analyzed large.hit := by
  obtain ⟨hits, misses, inserts, analyses, evictions⟩ := outdone
  refine ⟨Nat.le_succ_of_le hits, Nat.le_succ_of_le misses, Nat.le_succ_of_le inserts,
    Nat.le_succ_of_le analyses, ?_⟩
  change large.evictions ≤ (small.miss full).evictions
  rw [small.evictions_miss]
  exact Nat.le_add_right_of_le evictions

/-- Both make an entry, and the larger displaces one only if the smaller does. -/
theorem Outdone.miss_miss (outdone : Outdone small large) {full full' : Bool}
    (only : full' = true → full = true) :
    Outdone (small.miss full).analyzed (large.miss full').analyzed := by
  obtain ⟨hits, misses, inserts, analyses, evictions⟩ := outdone
  refine ⟨hits, Nat.succ_le_succ misses, Nat.succ_le_succ inserts, Nat.succ_le_succ analyses, ?_⟩
  change (large.miss full').evictions ≤ (small.miss full).evictions
  rw [large.evictions_miss, small.evictions_miss]
  exact Nat.add_le_add evictions (Bool.toNat_le_toNat only)

end Counters

variable {small large : Cache} {code : Bytecode}

theorem Within.accepted (within : small.Within large) (fits : small.recent.Orderly)
    (bounded : large.recent.Orderly) (small_on : small.config.enableCache = true)
    (large_on : large.config.enableCache = true)
    (small_limit : code.size ≤ small.config.maxCodeSize)
    (large_limit : code.size ≤ large.config.maxCodeSize) :
    (small.call (.getOrAnalyze code)).2.Within (large.call (.getOrAnalyze code)).2 := by
  obtain ⟨recent, stats⟩ := within
  cases here : small.recent.find? code.hash with
  | some table =>
    have held := recent.keys.subset (Recency.mem_keys_of_find? here)
    cases there : large.recent.find? code.hash with
    | some other =>
      rw [(Serves.hit small_limit small_on here).call_eq,
        (Serves.hit large_limit large_on there).call_eq]
      exact ⟨recent.touch fits _, stats.hit_hit⟩
    | none => exact absurd held (Recency.not_mem_keys_of_find? there)
  | none =>
    have absent := Recency.not_mem_keys_of_find? here
    cases there : large.recent.find? code.hash with
    | some other =>
      have held := Recency.mem_keys_of_find? there
      rw [(Serves.miss small_limit small_on here).call_eq,
        (Serves.hit large_limit large_on there).call_eq]
      exact ⟨recent.push_touch absent held _, stats.miss_hit _⟩
    | none =>
      rw [(Serves.miss small_limit small_on here).call_eq,
        (Serves.miss large_limit large_on there).call_eq]
      exact ⟨recent.push fits bounded _ _ _, stats.miss_miss recent.full_of_full⟩

theorem Within.call (within : small.Within large) (fits : small.recent.Orderly)
    (bounded : large.recent.Orderly) (small_on : small.config.enableCache = true)
    (large_on : large.config.enableCache = true)
    (limits : small.config.maxCodeSize = large.config.maxCodeSize) (call : Call) :
    (small.call call).2.Within (large.call call).2 := by
  cases call with
  | getOrAnalyze code =>
    by_cases long : small.config.maxCodeSize < code.size
    · rw [(Serves.refused long).call_eq, (Serves.refused (limits ▸ long)).call_eq]
      exact within
    · have limit := Nat.le_of_not_lt long
      exact within.accepted fits bounded small_on large_on limit (limits ▸ limit)
  | get hash =>
    exact ⟨within.recent.touch fits hash, within.stats⟩
  | contains hash => exact within
  | clear =>
    exact ⟨within.recent.clear, within.stats⟩

theorem within_after {config : Config} {capacity : Nat} (room : 0 < config.cacheCapacity)
    (more : config.cacheCapacity ≤ capacity) (on : config.enableCache = true) (calls : List Call) :
    ((fresh config).after calls).Within
      ((fresh { config with cacheCapacity := capacity }).after calls) := by
  induction calls using List.reverseRecOn with
  | nil =>
    refine ⟨⟨more, .slnil, fun _ => rfl⟩, ?_⟩
    exact ⟨Nat.le_refl _, Nat.le_refl _, Nat.le_refl _, Nat.le_refl _, Nat.le_refl _⟩
  | append_singleton calls call ih =>
    have small_config := (fixed_after (fresh config) calls).1
    have large_config := (fixed_after (fresh { config with cacheCapacity := capacity }) calls).1
    rw [after_append, after_append]
    refine ih.call (orderly_after room calls) (orderly_after (room.trans_le more) calls)
      ?_ ?_ ?_ call
    · rw [small_config]
      exact on
    · rw [large_config]
      exact on
    · rw [small_config, large_config]
      rfl

/-- Two enabled caches that differ in nothing but their capacities get the same calls. After any
history of them the digests of the one with less room stand among those of the other, in the same
order of use, so it contains no digest that the other lacks; and the other had at least as many hits
and at most as many misses, insertions, analyses and displaced entries. -/
theorem larger_cache_dominates (config : Config) (capacity : Nat)
    (room : 0 < config.cacheCapacity) (more : config.cacheCapacity ≤ capacity)
    (limit : 0 < config.maxCodeSize) (on : config.enableCache = true) :
    ∃ small large, Cache.ofConfig config = .ok small ∧
      Cache.ofConfig { config with cacheCapacity := capacity } = .ok large ∧ ∀ calls,
      (small.after calls).recent.keys.Sublist (large.after calls).recent.keys ∧
      (∀ hash, (small.after calls).contains hash = true →
        (large.after calls).contains hash = true) ∧
      (small.after calls).stats.hits ≤ (large.after calls).stats.hits ∧
      (large.after calls).stats.misses ≤ (small.after calls).stats.misses ∧
      (large.after calls).stats.inserts ≤ (small.after calls).stats.inserts ∧
      (large.after calls).stats.analyses ≤ (small.after calls).stats.analyses ∧
      (large.after calls).stats.evictions ≤ (small.after calls).stats.evictions := by
  refine ⟨fresh config, fresh { config with cacheCapacity := capacity },
    ofConfig_of_pos room limit, ofConfig_of_pos (room.trans_le more) limit, ?_⟩
  intro calls
  have within := within_after room more on calls
  obtain ⟨hits, misses, inserts, analyses, evictions⟩ := within.stats
  refine ⟨within.recent.keys, ?_, hits, misses, inserts, analyses, evictions⟩
  intro hash held
  exact Recency.contains_iff.mpr (within.recent.keys.subset (Recency.contains_iff.mp held))

/-- The larger cache keeps the first code that the smaller has displaced when it is asked for. -/
theorem larger_cache_dominates_two :
    ∃ small large, Cache.ofConfig { cacheCapacity := 1 } = .ok small ∧
      Cache.ofConfig { cacheCapacity := 2 } = .ok large ∧
      (small.after [.getOrAnalyze (.ofBytes [0x5b]), .getOrAnalyze (.ofBytes [0x00]),
        .get (Bytecode.ofBytes [0x5b]).hash]).recent.keys.Sublist
      (large.after [.getOrAnalyze (.ofBytes [0x5b]), .getOrAnalyze (.ofBytes [0x00]),
        .get (Bytecode.ofBytes [0x5b]).hash]).recent.keys := by
  obtain ⟨small, large, small_made, large_made, dominates⟩ :=
    larger_cache_dominates { cacheCapacity := 1 } 2 (by decide) (by decide) (by decide) rfl
  exact ⟨small, large, small_made, large_made, (dominates _).1⟩

end Cache

end EvmJumps
