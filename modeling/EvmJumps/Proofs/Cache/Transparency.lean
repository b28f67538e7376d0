import EvmJumps.Proofs.Cache.Alone

namespace EvmJumps.Cache

/-- The code was asked for, and the cache was not cleared since. -/
def Presented (code : Bytecode) : List Call → Prop :=
  SinceClear fun _ call => call = .getOrAnalyze code

/-- Every entry holds the table of a code that was presented and accepted, under its digest. -/
def Sound (calls : List Call) (c : Cache) : Prop :=
  ∀ hash table, c.recent.find? hash = some table → ∃ code : Bytecode, Presented code calls ∧
    code.size ≤ c.config.maxCodeSize ∧ code.hash = hash ∧ table = .ofCode code.bytes

theorem presented_of_mem {code : Bytecode} {calls : List Call} (presented : Presented code calls) :
    .getOrAnalyze code ∈ calls := by
  obtain ⟨earlier, call, later, rfl, rfl, _⟩ := presented
  simp

theorem Sound.of_same {calls : List Call} {call : Call} {c c' : Cache} (sound : Sound calls c)
    (config : c'.config = c.config)
    (same : ∀ hash, c'.recent.find? hash = c.recent.find? hash) (kept : call ≠ .clear) :
    Sound (calls ++ [call]) c' := by
  intro hash table found
  rw [same] at found
  obtain ⟨code, presented, fits, key, value⟩ := sound hash table found
  rw [config]
  exact ⟨code, sinceClear_snoc.mpr (Or.inr ⟨presented, kept⟩), fits, key, value⟩

theorem Sound.serves {calls : List Call} {call : Call} {answer : Answer} {c c' : Cache}
    (sound : Sound calls c) (serves : Serves c call answer c') : Sound (calls ++ [call]) c' := by
  cases serves with
  | refused long => exact sound.of_same rfl (fun _ => rfl) (by simp)
  | uncached fits off => exact sound.of_same rfl (fun _ => rfl) (by simp)
  | hit fits on found => exact sound.of_same rfl (Recency.find?_touch _ _) (by simp)
  | @miss code fits on missing =>
    have before : Sound (calls ++ [.getOrAnalyze code]) c :=
      sound.of_same rfl (fun _ => rfl) (by simp)
    intro hash table found
    rcases Recency.find?_push found with ⟨key, value⟩ | old
    · exact ⟨code, sinceClear_snoc.mpr (Or.inl rfl), fits, key.symm, value⟩
    · exact before hash table old
  | got found => exact sound.of_same rfl (Recency.find?_touch _ _) (by simp)
  | absent missing => exact sound.of_same rfl (fun _ => rfl) (by simp)
  | looked => exact sound.of_same rfl (fun _ => rfl) (by simp)
  | cleared =>
    intro hash table found
    cases found

theorem sound_after (config : Config) (calls : List Call) :
    Sound calls ((fresh config).after calls) := by
  refine after_induction (P := Sound) ?_ (fun calls call answer c' => Sound.serves) calls
  intro hash table found
  cases found

/-- A code is refused because of its size, or it gets the table of an analysis: an entry under its
digest is its own, because no other code with that digest was presented. -/
theorem Sound.answer {calls : List Call} {code : Bytecode} {answer : Answer} {c c' : Cache}
    (sound : Sound calls c) (serves : Serves c (.getOrAnalyze code) answer c')
    (alone : ∀ other, Presented other calls → other.hash = code.hash → other = code) :
    answer = .table (if c.config.maxCodeSize < code.size
      then .error (.codeTooLong code.size c.config.maxCodeSize)
      else .ok (.ofCode code.bytes)) := by
  cases serves with
  | refused long => rw [if_pos long]
  | uncached fits off => rw [if_neg (Nat.not_lt.mpr fits)]
  | miss fits on missing => rw [if_neg (Nat.not_lt.mpr fits)]
  | hit fits on found =>
    obtain ⟨other, presented, _, key, rfl⟩ := sound _ _ found
    rw [if_neg (Nat.not_lt.mpr fits), alone other presented key]

theorem contains_iff_get (c : Cache) (hash : Digest) :
    c.contains hash = true ↔ ∃ table, (c.get hash).1 = some table :=
  Option.isSome_iff_exists

/-- Caching shows in no answer. A run from a fresh cache, with any capacity, size limit and switch,
refuses each code that is too long and gives the table of a new analysis for every other, if no two
codes in it have one digest. A digest only gets the table of an accepted code that was presented
under it after the last clear, and a digest is contained exactly if it gets a table. The same is
true of the calls of a single thread in atomic steps, whose entries lead to cells: wherever a run
arrives, they gave the same answers and left no entry without a table. -/
theorem run_transparent (config : Config) (capacity : 0 < config.cacheCapacity)
    (limit : 0 < config.maxCodeSize) (calls : List Call)
    (faithful : ∀ a b : Bytecode, .getOrAnalyze a ∈ calls → .getOrAnalyze b ∈ calls →
      a.hash = b.hash → a = b) :
    ∃ c, Cache.ofConfig config = .ok c ∧
      (c.run calls).1.length = calls.length ∧
      (∀ earlier code later, calls = earlier ++ .getOrAnalyze code :: later →
        ∃ result, (c.run calls).1[earlier.length]? = some (.table result) ∧
          (config.maxCodeSize < code.size → ∃ e : Error, result = .error e ∧
            e.kind = .validation ∧
            e.detail = "código com " ++ toString code.size ++ " bytes excede o limite de " ++
              toString config.maxCodeSize) ∧
          (code.size ≤ config.maxCodeSize → result = .ok (.ofCode code.bytes))) ∧
      (∀ earlier hash later table, calls = earlier ++ .get hash :: later →
        (c.run calls).1[earlier.length]? = some (.found (some table)) →
        ∃ code : Bytecode, Presented code earlier ∧ code.size ≤ config.maxCodeSize ∧
          code.hash = hash ∧ table = .ofCode code.bytes) ∧
      (∀ earlier hash, (c.run earlier).2.contains hash = true ↔
        ∃ table, ((c.run earlier).2.get hash).1 = some table) ∧
      ∀ earlier,
        (c.runAlone earlier).threads = [⟨[], .idle, (c.run earlier).1.reverse⟩] ∧
        (c.runAlone earlier).join = (c.run earlier).2 ∧
        ∀ hash, (c.runAlone earlier).recent.contains hash = true ↔
          ∃ table, ((c.runAlone earlier).recent.find? hash).bind (c.runAlone earlier).table? =
            some table := by
  have fixed (earlier : List Call) : ((fresh config).after earlier).config = config :=
    (fixed_after _ earlier).1
  refine ⟨fresh config, ofConfig_of_pos capacity limit, length_answers _ _, ?_, ?_,
    fun earlier => contains_iff_get _, ?_⟩
  · intro earlier code later split
    have sound := sound_after config earlier
    have serves := serves_call ((fresh config).after earlier) (.getOrAnalyze code)
    have answer := sound.answer serves fun other presented key =>
      faithful other code
        (split ▸ List.mem_append_left _ (presented_of_mem presented))
        (split ▸ List.mem_append_right _ List.mem_cons_self) key
    rw [fixed] at answer
    refine ⟨_, split ▸ (answer_at _ _ _ _).trans (congrArg some answer), ?_, ?_⟩
    · intro long
      rw [if_pos long]
      exact ⟨_, rfl, rfl, rfl⟩
    · intro fits
      rw [if_neg (Nat.not_lt.mpr fits)]
  · intro earlier hash later table split found
    rw [split, answer_at] at found
    have sound := sound_after config earlier
    have held : ((fresh config).after earlier).recent.find? hash = some table := by
      simpa [call, get] using found
    rw [← fixed earlier]
    exact sound hash table held
  · intro earlier
    obtain ⟨threads, mirrors⟩ := runAlone_mirrors (fresh config) earlier
    refine ⟨threads, mirrors.join_eq, ?_⟩
    intro hash
    rw [mirrors.contains_eq, mirrors.get_eq]
    exact Option.isSome_iff_exists

/-- There is room for one of two codes, so that the first is analyzed anew when it comes back. -/
theorem run_transparent_displaced :
    let a := Bytecode.ofBytes [0x5b]
    let b := Bytecode.ofBytes [0x00]
    let calls : List Call := [.getOrAnalyze a, .getOrAnalyze b, .getOrAnalyze a]
    ∃ c, Cache.ofConfig { cacheCapacity := 1 } = .ok c ∧
      (c.run calls).1[1]? = some (.table (.ok (.ofCode b.bytes))) ∧
      (c.run calls).1[2]? = some (.table (.ok (.ofCode a.bytes))) := by
  intro a b calls
  have apart : a.hash ≠ b.hash := hash_jumpdest_ne_hash_stop
  have given (x : Bytecode) (member : .getOrAnalyze x ∈ calls) : x = a ∨ x = b := by
    simp only [calls, List.mem_cons, List.not_mem_nil, or_false, Call.getOrAnalyze.injEq] at member
    rcases member with first | second | again
    · exact .inl first
    · exact .inr second
    · exact .inl again
  have faithful (x y : Bytecode) (here : .getOrAnalyze x ∈ calls) (there : .getOrAnalyze y ∈ calls)
      (same : x.hash = y.hash) : x = y := by
    rcases given x here with rfl | rfl <;> rcases given y there with rfl | rfl
    · rfl
    · exact absurd same apart
    · exact absurd same.symm apart
    · rfl
  obtain ⟨c, made, _, tables, _⟩ :=
    run_transparent { cacheCapacity := 1 } (by decide) (by decide) calls faithful
  obtain ⟨_, second, _, accepted⟩ := tables [.getOrAnalyze a] b [.getOrAnalyze a] rfl
  obtain ⟨_, third, _, again⟩ := tables [.getOrAnalyze a, .getOrAnalyze b] a [] rfl
  rw [accepted (by decide)] at second
  rw [again (by decide)] at third
  exact ⟨c, made, second, third⟩

end EvmJumps.Cache
