import EvmJumps.Proofs.Cache.Alone

namespace EvmJumps

namespace Stats

instance : Add Stats where
  add s t :=
    { hits := s.hits + t.hits
      misses := s.misses + t.misses
      inserts := s.inserts + t.inserts
      evictions := s.evictions + t.evictions
      analyses := s.analyses + t.analyses }

theorem add_analyzed (s t : Stats) : s + t.analyzed = (s + t).analyzed :=
  rfl

theorem add_miss (s t : Stats) (full : Bool) : s + t.miss full = (s + t).miss full := by
  cases full <;> rfl

end Stats

namespace Cache

/-- The same entries, with counters that go on from other counters. -/
def countingFrom (c : Cache) (start : Stats) : Cache :=
  { c with stats := start + c.stats }

variable {c c' : Cache} {call : Call} {answer : Answer}

/-- No call looks at the counters; it only adds to them. -/
theorem Serves.countingFrom (serves : Serves c call answer c') (start : Stats) :
    Serves (c.countingFrom start) call answer (c'.countingFrom start) := by
  cases serves with
  | refused long => exact .refused long
  | uncached fits off => exact .uncached fits off
  | hit fits on found => exact .hit fits on found
  | @miss code fits on missing =>
    have counters : start + (c.stats.miss c.recent.isFull).analyzed =
        ((start + c.stats).miss c.recent.isFull).analyzed := by
      rw [Stats.add_analyzed, Stats.add_miss]
    have next := Serves.miss (c := c.countingFrom start) fits on missing
    simp only [Cache.countingFrom] at next ⊢
    rw [counters]
    exact next
  | got found => exact .got found
  | absent missing => exact .absent missing
  | looked => exact .looked
  | cleared => exact .cleared

theorem run_countingFrom (c : Cache) (start : Stats) (calls : List Call) :
    (c.countingFrom start).run calls = ((c.run calls).1, (c.after calls).countingFrom start) := by
  induction calls generalizing c with
  | nil => rfl
  | cons call calls ih =>
    rw [run_cons, ((serves_call c call).countingFrom start).call_eq, ih]
    rfl

/-- Beside the counters nothing but the configuration survives. -/
theorem clear_after (config : Config) (calls : List Call) :
    ((fresh config).after calls).clear =
      (fresh config).countingFrom ((fresh config).after calls).stats := by
  obtain ⟨same, capacity⟩ := fixed_after (fresh config) calls
  generalize (fresh config).after calls = c at same capacity
  obtain ⟨_, ⟨_, entries⟩, stats⟩ := c
  cases same
  cases capacity
  rfl

theorem run_cleared (config : Config) (earlier later : List Call) :
    (fresh config).run (earlier ++ .clear :: later) =
      (((fresh config).run earlier).1 ++ .cleared :: ((fresh config).run later).1,
        ((fresh config).after later).countingFrom ((fresh config).after earlier).stats) := by
  have tail : ((fresh config).after earlier).run (.clear :: later) =
      (.cleared :: ((fresh config).run later).1,
        ((fresh config).after later).countingFrom ((fresh config).after earlier).stats) := by
    have cleared : (((fresh config).after earlier).call .clear).2 =
        (fresh config).countingFrom ((fresh config).after earlier).stats :=
      clear_after config earlier
    rw [run_cons, cleared, run_countingFrom]
    rfl
  calc
    _ = (((fresh config).run earlier).1 ++
          (((fresh config).after earlier).run (.clear :: later)).1,
        (((fresh config).after earlier).run (.clear :: later)).2) := run_append _ _ _
    _ = _ := by rw [tail]

/-- Whatever a cache went through before it is cleared, from then on it answers as a new one, and
what it holds is what a new one holds, in the same order of use. Each of its counters is what it was
when the cache was cleared and what a new one has counted together; so it is where a single thread
makes the calls in atomic steps. -/
theorem cleared_cache_is_as_new (config : Config) (capacity : 0 < config.cacheCapacity)
    (limit : 0 < config.maxCodeSize) :
    ∃ c, Cache.ofConfig config = .ok c ∧ ∀ earlier later,
      (c.run (earlier ++ .clear :: later)).1 =
        (c.run earlier).1 ++ .cleared :: (c.run later).1 ∧
      (c.after (earlier ++ .clear :: later)).recent = (c.after later).recent ∧
      (∀ hash, (c.after (earlier ++ .clear :: later)).contains hash =
        (c.after later).contains hash) ∧
      (c.after (earlier ++ .clear :: later)).size = (c.after later).size ∧
      (c.after (earlier ++ .clear :: later)).stats =
        (c.after earlier).stats + (c.after later).stats ∧
      (c.runAlone (earlier ++ .clear :: later)).stats =
        (c.runAlone earlier).stats + (c.runAlone later).stats := by
  refine ⟨fresh config, ofConfig_of_pos capacity limit, ?_⟩
  intro earlier later
  have run := run_cleared config earlier later
  have state := congrArg Prod.snd run
  have recent := congrArg Cache.recent state
  have stats := congrArg Cache.stats state
  refine ⟨congrArg Prod.fst run, recent, ?_, ?_, stats, ?_⟩
  · intro hash
    exact congrArg (fun r => r.contains hash) recent
  · exact congrArg Recency.size recent
  · rw [(runAlone_mirrors _ _).2.stats, (runAlone_mirrors _ _).2.stats,
      (runAlone_mirrors _ _).2.stats]
    exact stats

/-- The code that displaced another before the cache was cleared is analyzed again behind that. -/
theorem cleared_cache_is_as_new_one :
    ∃ c, Cache.ofConfig { cacheCapacity := 1 } = .ok c ∧
      (c.after ([.getOrAnalyze (.ofBytes [0x5b]), .getOrAnalyze (.ofBytes [0x00])] ++
        .clear :: [.getOrAnalyze (.ofBytes [0x00])])).stats =
      (c.after [.getOrAnalyze (.ofBytes [0x5b]), .getOrAnalyze (.ofBytes [0x00])]).stats +
        (c.after [.getOrAnalyze (.ofBytes [0x00])]).stats := by
  obtain ⟨c, made, asNew⟩ := cleared_cache_is_as_new { cacheCapacity := 1 } (by decide) (by decide)
  obtain ⟨_, _, _, _, stats, _⟩ := asNew
    [.getOrAnalyze (.ofBytes [0x5b]), .getOrAnalyze (.ofBytes [0x00])]
    [.getOrAnalyze (.ofBytes [0x00])]
  exact ⟨c, made, stats⟩

end Cache

end EvmJumps
