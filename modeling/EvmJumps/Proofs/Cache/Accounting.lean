import Mathlib.Algebra.Ring.Nat
import EvmJumps.Proofs.Cache.Alone

namespace EvmJumps.Cache

/-- The call gives a code that is not too long. -/
def Call.accepted (limit : Nat) : Call → Bool
  | .getOrAnalyze code => code.size ≤ limit
  | .get _ | .contains _ | .clear => false

/-- The call gives a code whose digest has an entry. -/
def Call.resident (c : Cache) : Call → Bool
  | .getOrAnalyze code => c.contains code.hash
  | .get _ | .contains _ | .clear => false

/-- How many entries the call drops, beside those that others displace. -/
def Call.drops (c : Cache) : Call → Nat
  | .clear => c.size
  | .getOrAnalyze _ | .get _ | .contains _ => 0

/-- The calls of a history, each with the cache that it comes to. -/
def moments (c : Cache) : List Call → List (Cache × Call)
  | [] => []
  | call :: calls => (c, call) :: moments (c.call call).2 calls

def acceptedCalls (c : Cache) (calls : List Call) : Nat :=
  calls.countP (Call.accepted c.config.maxCodeSize)

/-- How many accepted codes of a history had an entry just before they were given. -/
def residentCalls (c : Cache) (calls : List Call) : Nat :=
  (c.moments calls).countP fun moment =>
    moment.2.accepted c.config.maxCodeSize && moment.2.resident moment.1

/-- How many entries there were whenever the cache was cleared, all added up. -/
def dropped (c : Cache) (calls : List Call) : Nat :=
  ((c.moments calls).map fun moment => moment.2.drops moment.1).sum

theorem moments_snoc (c : Cache) (calls : List Call) (call : Call) :
    c.moments (calls ++ [call]) = c.moments calls ++ [(c.after calls, call)] := by
  induction calls generalizing c with
  | nil => rfl
  | cons first calls ih =>
    rw [List.cons_append, moments, ih]
    rfl

theorem acceptedCalls_snoc (c : Cache) (calls : List Call) (call : Call) :
    c.acceptedCalls (calls ++ [call]) =
      c.acceptedCalls calls + (call.accepted c.config.maxCodeSize).toNat := by
  rw [acceptedCalls, List.countP_append, List.countP_singleton]
  cases call.accepted c.config.maxCodeSize <;> rfl

theorem residentCalls_snoc (c : Cache) (calls : List Call) (call : Call) :
    c.residentCalls (calls ++ [call]) = c.residentCalls calls +
      (call.accepted c.config.maxCodeSize && call.resident (c.after calls)).toNat := by
  rw [residentCalls, moments_snoc, List.countP_append, List.countP_singleton]
  cases call.accepted c.config.maxCodeSize && call.resident (c.after calls) <;> rfl

theorem dropped_snoc (c : Cache) (calls : List Call) (call : Call) :
    c.dropped (calls ++ [call]) = c.dropped calls + call.drops (c.after calls) := by
  rw [dropped, moments_snoc, List.map_append, List.sum_append]
  simp [dropped]

variable {c c' : Cache} {call : Call} {answer : Answer}

theorem accepted_of_le {code : Bytecode} {limit : Nat} (fits : code.size ≤ limit) :
    Call.accepted limit (.getOrAnalyze code) = true :=
  decide_eq_true fits

theorem not_accepted_of_lt {code : Bytecode} {limit : Nat} (long : limit < code.size) :
    Call.accepted limit (.getOrAnalyze code) = false :=
  decide_eq_false (Nat.not_le.mpr long)

/-- A call that gives no acceptable code counts nowhere. -/
theorem Serves.stats_eq (serves : Serves c call answer c')
    (rejected : call.accepted c.config.maxCodeSize = false) : c'.stats = c.stats := by
  cases serves with
  | refused long => rfl
  | uncached fits off => simp [accepted_of_le fits] at rejected
  | hit fits on found => simp [accepted_of_le fits] at rejected
  | miss fits on missing => simp [accepted_of_le fits] at rejected
  | got found => rfl
  | absent missing => rfl
  | looked => rfl
  | cleared => rfl

/-- The log tells what the call did: that it refused the code, or its analysis if it counted one. -/
theorem Serves.events_eq {code : Bytecode} (serves : Serves c (.getOrAnalyze code) answer c') :
    c.events code =
      if c.config.maxCodeSize < code.size then [Cache.refused code c.config.maxCodeSize]
      else if c'.stats.analyses = c.stats.analyses then [] else analysisEvents code := by
  cases serves with
  | refused long => rw [events, if_pos long, if_pos long]
  | uncached fits off => simp [events, Nat.not_lt.mpr fits, off, Stats.analyzed]
  | hit fits on found => simp [events, Nat.not_lt.mpr fits, on, found, Stats.hit]
  | miss fits on missing =>
    simp [events, Nat.not_lt.mpr fits, on, missing, Stats.miss, Stats.analyzed]

/-- What one call adds to the insertions it adds to the entries, the displaced and the dropped. -/
theorem Serves.balance (serves : Serves c call answer c') (room : 0 < c.recent.capacity)
    (orderly : c.recent.Orderly) :
    c'.stats.misses + c.stats.inserts = c.stats.misses + c'.stats.inserts ∧
    c'.stats.inserts + c.size + c.stats.evictions =
      c.stats.inserts + c'.size + c'.stats.evictions + call.drops c := by
  have touched (hash : Digest) : (c.recent.touch hash).size = c.recent.size :=
    Recency.size_touch orderly.once hash
  cases serves with
  | refused long => exact ⟨rfl, rfl⟩
  | uncached fits off => exact ⟨rfl, rfl⟩
  | hit fits on found =>
    refine ⟨rfl, ?_⟩
    simp only [Cache.size, touched, Stats.hit, Call.drops, Nat.add_zero]
  | @miss code fits on missing =>
    have grown := orderly.size_push room code.hash (JumpTable.ofCode code.bytes)
    have displaced := c.stats.evictions_miss c.recent.isFull
    simp only [Cache.size, Stats.analyzed, Call.drops]
    refine ⟨?_, ?_⟩
    · simp only [Stats.miss]
      omega
    · have inserted : (c.stats.miss c.recent.isFull).inserts = c.stats.inserts + 1 := rfl
      omega
  | got found =>
    refine ⟨rfl, ?_⟩
    simp only [Cache.size, touched, Call.drops, Nat.add_zero]
  | absent missing => exact ⟨rfl, rfl⟩
  | looked => exact ⟨rfl, rfl⟩
  | cleared =>
    have empty : c.clear.size = 0 := rfl
    refine ⟨rfl, ?_⟩
    rw [empty, Call.drops]
    simp only [Cache.clear]
    omega

/-- An enabled cache looks each accepted code up, and analyzes it if it has no entry for it. -/
theorem Serves.counts (serves : Serves c call answer c') (on : c.config.enableCache = true) :
    c'.stats.hits = c.stats.hits +
      (call.accepted c.config.maxCodeSize && call.resident c).toNat ∧
    c'.stats.hits + c'.stats.misses = c.stats.hits + c.stats.misses +
      (call.accepted c.config.maxCodeSize).toNat ∧
    c'.stats.analyses + c.stats.misses = c.stats.analyses + c'.stats.misses := by
  cases serves with
  | refused long =>
    rw [not_accepted_of_lt long]
    exact ⟨rfl, rfl, rfl⟩
  | uncached fits off => simp [on] at off
  | @hit code table fits on found =>
    have held : Call.resident c (.getOrAnalyze code) = true := contains_of_find? found
    rw [accepted_of_le fits, held]
    exact ⟨rfl, Nat.add_right_comm _ _ _, rfl⟩
  | @miss code fits on missing =>
    have absent : Call.resident c (.getOrAnalyze code) = false := not_contains_of_find? missing
    rw [accepted_of_le fits, absent]
    exact ⟨rfl, rfl, Nat.add_right_comm _ _ _⟩
  | got found => exact ⟨rfl, rfl, rfl⟩
  | absent missing => exact ⟨rfl, rfl, rfl⟩
  | looked => exact ⟨rfl, rfl, rfl⟩
  | cleared => exact ⟨rfl, rfl, rfl⟩

/-- A disabled cache counts analyses and nothing else. -/
theorem Serves.uncached_stats (serves : Serves c call answer c')
    (off : c.config.enableCache = false) (empty : c.recent.entries = []) :
    c'.recent.entries = [] ∧ c'.stats = { c.stats with
      analyses := c.stats.analyses + (call.accepted c.config.maxCodeSize).toNat } := by
  cases serves with
  | refused long =>
    rw [not_accepted_of_lt long]
    exact ⟨empty, rfl⟩
  | uncached fits off =>
    rw [accepted_of_le fits]
    exact ⟨empty, rfl⟩
  | hit fits on found => simp [off] at on
  | miss fits on missing => simp [off] at on
  | got found => simp [Recency.find?, empty] at found
  | absent missing => exact ⟨empty, rfl⟩
  | looked => exact ⟨empty, rfl⟩
  | cleared => exact ⟨rfl, rfl⟩

/-- Misses and insertions go together; an entry that was inserted is still there, or was displaced,
or was dropped. -/
structure Balanced (c : Cache) (calls : List Call) (c' : Cache) : Prop where
  misses : c'.stats.misses = c'.stats.inserts
  inserts : c'.stats.inserts = c'.size + c'.stats.evictions + c.dropped calls

/-- Each accepted code was looked up, and analyzed if it had no entry. -/
structure Counted (c : Cache) (calls : List Call) (c' : Cache) : Prop where
  hits : c'.stats.hits = c.residentCalls calls
  lookups : c'.stats.hits + c'.stats.misses = c.acceptedCalls calls
  analyses : c'.stats.analyses = c'.stats.misses

variable {config : Config}

theorem balanced_fresh (capacity : 0 < config.cacheCapacity) (calls : List Call) :
    Balanced (fresh config) calls ((fresh config).after calls) := by
  apply after_induction (P := Balanced (fresh config)) ⟨rfl, rfl⟩
  intro calls call answer c' balanced serves
  obtain ⟨misses, inserts⟩ :=
    serves.balance (room_after capacity calls) (orderly_after capacity calls)
  have before := balanced.misses
  have entries := balanced.inserts
  refine ⟨by omega, ?_⟩
  rw [dropped_snoc]
  omega

theorem counted_fresh (on : config.enableCache = true) (calls : List Call) :
    Counted (fresh config) calls ((fresh config).after calls) := by
  apply after_induction (P := Counted (fresh config)) ⟨rfl, rfl, rfl⟩
  intro calls call answer c' counted serves
  have same := (fixed_after (fresh config) calls).1
  obtain ⟨hits, lookups, analyses⟩ := serves.counts (same ▸ on)
  rw [same] at hits lookups
  have before := counted.analyses
  refine ⟨?_, ?_, by omega⟩
  · rw [residentCalls_snoc, hits, counted.hits]
  · rw [acceptedCalls_snoc, lookups, counted.lookups]

theorem uncounted_fresh (off : config.enableCache = false) (calls : List Call) :
    ((fresh config).after calls).recent.entries = [] ∧ ((fresh config).after calls).stats =
      { hits := 0, misses := 0, inserts := 0, evictions := 0
        analyses := (fresh config).acceptedCalls calls } := by
  apply after_induction (P := fun calls c' => c'.recent.entries = [] ∧ c'.stats =
    { hits := 0, misses := 0, inserts := 0, evictions := 0
      analyses := (fresh config).acceptedCalls calls }) ⟨rfl, rfl⟩
  intro calls call answer c' ⟨empty, stats⟩ serves
  have same := (fixed_after (fresh config) calls).1
  obtain ⟨still, counted⟩ := serves.uncached_stats (same ▸ off) empty
  refine ⟨still, ?_⟩
  rw [counted, stats, acceptedCalls_snoc, same]

/-- The accounts of a cache after any history of calls. Its digests are distinct, and no more than
there is room for. There were as many insertions as misses, and what was inserted is still there, or
was counted as displaced, or was dropped when the cache was cleared. An enabled cache has a hit for
each accepted code that was resident when it was given, a miss for each other accepted code, and an
analysis for each miss. A disabled cache stays empty and has an analysis for each accepted code.
No other call changes a counter. Where a single thread makes the same calls in atomic steps, which
count look-ups and analyses apart, the counters come to the same. -/
theorem counters_add_up (config : Config) (capacity : 0 < config.cacheCapacity)
    (limit : 0 < config.maxCodeSize) :
    ∃ c, Cache.ofConfig config = .ok c ∧ ∀ calls,
      (c.after calls).recent.keys.Nodup ∧
      (c.after calls).size ≤ config.cacheCapacity ∧
      (c.after calls).stats.misses = (c.after calls).stats.inserts ∧
      (c.after calls).stats.inserts =
        (c.after calls).size + (c.after calls).stats.evictions + c.dropped calls ∧
      (config.enableCache = true →
        (c.after calls).stats.hits + (c.after calls).stats.misses = c.acceptedCalls calls ∧
        (c.after calls).stats.hits = c.residentCalls calls ∧
        (c.after calls).stats.analyses = (c.after calls).stats.misses) ∧
      (config.enableCache = false →
        (c.after calls).recent.entries = [] ∧ (c.after calls).stats =
          { hits := 0, misses := 0, inserts := 0, evictions := 0
            analyses := c.acceptedCalls calls }) ∧
      (∀ call, call.accepted config.maxCodeSize = false →
        ((c.after calls).call call).2.stats = (c.after calls).stats) ∧
      (c.runAlone calls).stats = (c.after calls).stats := by
  refine ⟨fresh config, ofConfig_of_pos capacity limit, ?_⟩
  intro calls
  have orderly := orderly_after capacity calls
  have balanced := balanced_fresh capacity calls
  obtain ⟨same, room⟩ := fixed_after (fresh config) calls
  refine ⟨orderly.once, ?_, balanced.misses, balanced.inserts, ?_,
    fun off => uncounted_fresh off calls, ?_, ?_⟩
  · exact orderly.bounded.trans_eq room
  · intro on
    have counted := counted_fresh on calls
    exact ⟨counted.lookups, counted.hits, counted.analyses⟩
  · intro call rejected
    exact (serves_call _ call).stats_eq (same ▸ rejected)
  · exact (runAlone_mirrors (fresh config) calls).2.stats

/-- Of two codes that are given, with a clear between them, one is too long. -/
theorem counters_add_up_cleared :
    ∃ c, Cache.ofConfig { maxCodeSize := 1 } = .ok c ∧
      (c.after [.getOrAnalyze (.ofBytes [0x5b]), .clear,
        .getOrAnalyze (.ofBytes [0x5b, 0x00])]).stats.hits +
      (c.after [.getOrAnalyze (.ofBytes [0x5b]), .clear,
        .getOrAnalyze (.ofBytes [0x5b, 0x00])]).stats.misses = 1 := by
  obtain ⟨c, made, accounts⟩ := counters_add_up { maxCodeSize := 1 } (by decide) (by decide)
  obtain ⟨_, _, _, _, enabled, _⟩ := accounts [.getOrAnalyze (.ofBytes [0x5b]), .clear,
    .getOrAnalyze (.ofBytes [0x5b, 0x00])]
  refine ⟨c, made, (enabled rfl).1.trans ?_⟩
  cases made
  rfl

end EvmJumps.Cache
