import EvmJumps.Proofs.Cache.Run

namespace EvmJumps.Cache

def Call.isClear : Call → Bool
  | .clear => true
  | .getOrAnalyze _ | .get _ | .contains _ => false

/-- The digest that a call used: that of a code which was accepted, or one that was asked for and
got a table. -/
def use? (limit : Nat) : Call × Answer → Option Digest
  | (.getOrAnalyze code, _) => if code.size ≤ limit then some code.hash else none
  | (.get hash, .found (some _)) => some hash
  | _ => none

/-- The calls of a history with their answers, the latest first. -/
def past (c : Cache) (calls : List Call) : List (Call × Answer) :=
  (calls.zip (c.run calls).1).reverse

/-- The digests that a history used, the latest first. -/
def uses (c : Cache) (calls : List Call) : List Digest :=
  (c.past calls).filterMap (use? c.config.maxCodeSize)

/-- The same behind the last time that the cache was cleared. -/
def usesSinceClear (c : Cache) (calls : List Call) : List Digest :=
  ((c.past calls).takeWhile fun made => !made.1.isClear).filterMap (use? c.config.maxCodeSize)

/-- The call puts an entry under the digest: its code is accepted, and there was no entry. -/
def Inserts (c : Cache) (hash : Digest) (call : Call) : Prop :=
  ∃ code : Bytecode, call = .getOrAnalyze code ∧ code.hash = hash ∧
    code.size ≤ c.config.maxCodeSize ∧ c.contains hash = false

/-- An entry was put under the digest, and the cache was not cleared since. -/
def Inserted (c : Cache) (hash : Digest) : List Call → Prop :=
  SinceClear fun earlier => (c.after earlier).Inserts hash

/-- Calls that use nothing and clear nothing. -/
def Idle (c : Cache) : Call → Prop
  | .getOrAnalyze code => c.config.maxCodeSize < code.size
  | .get hash => c.contains hash = false
  | .contains _ => True
  | .clear => False

theorem past_snoc (c : Cache) (calls : List Call) (call : Call) :
    c.past (calls ++ [call]) = (call, ((c.after calls).call call).1) :: c.past calls := by
  rw [past, run_append, List.zip_append (length_answers c calls).symm, List.reverse_append]
  rfl

/-- The uses since the cache was cleared, with one more call. -/
def addUse (limit : Nat) (uses : List Digest) (made : Call × Answer) : List Digest :=
  if made.1.isClear then [] else (use? limit made).toList ++ uses

theorem usesSinceClear_snoc (c : Cache) (calls : List Call) (call : Call) :
    c.usesSinceClear (calls ++ [call]) = addUse c.config.maxCodeSize (c.usesSinceClear calls)
      (call, ((c.after calls).call call).1) := by
  rw [usesSinceClear, past_snoc, List.takeWhile_cons, addUse]
  cases call.isClear with
  | true => rfl
  | false =>
    cases used : use? c.config.maxCodeSize (call, ((c.after calls).call call).1) with
    | none => exact List.filterMap_cons_none used
    | some hash => exact List.filterMap_cons_some used

variable {c c' : Cache} {calls : List Call} {call : Call} {answer : Answer} {uses : List Digest}
  {hash : Digest}

/-- What was used later than a digest since the cache was cleared is what was used later at all. -/
theorem takeWhile_uses (used : hash ∈ c.usesSinceClear calls) :
    (c.uses calls).takeWhile (· != hash) = (c.usesSinceClear calls).takeWhile (· != hash) := by
  have split : c.uses calls = c.usesSinceClear calls ++
      ((c.past calls).dropWhile fun made => !made.1.isClear).filterMap
        (use? c.config.maxCodeSize) := by
    rw [Cache.uses, usesSinceClear, ← List.filterMap_append, List.takeWhile_append_dropWhile]
  rw [split, takeWhile_append_of_mem used]

theorem Inserts.used (inserts : c.Inserts hash call) (answer : Answer) :
    use? c.config.maxCodeSize (call, answer) = some hash := by
  obtain ⟨code, rfl, rfl, fits, _⟩ := inserts
  exact if_pos fits

/-- What a call uses was there, or is there by this call. -/
theorem Serves.used (serves : Serves c call answer c') (on : c.config.enableCache = true)
    (used : use? c.config.maxCodeSize (call, answer) = some hash) :
    c.contains hash = true ∨ c.Inserts hash call := by
  cases serves with
  | refused long => simp [use?, Nat.not_le.mpr long] at used
  | uncached fits off => simp [on] at off
  | @hit code table fits on found =>
    have same : code.hash = hash := by simpa [use?, fits] using used
    exact Or.inl (contains_of_find? (same ▸ found))
  | @miss code fits on missing =>
    have same : code.hash = hash := by simpa [use?, fits] using used
    exact Or.inr ⟨code, rfl, same, fits, not_contains_of_find? (same ▸ missing)⟩
  | @got key table found =>
    have same : key = hash := by simpa [use?] using used
    exact Or.inl (contains_of_find? (same ▸ found))
  | absent missing => cases used
  | looked => cases used
  | cleared => cases used

/-- If the entries are the digests used latest, they are so after one more call. -/
theorem Serves.keeps (serves : Serves c call answer c') (on : c.config.enableCache = true)
    (room : 0 < c.recent.capacity) (keeps : c.recent.Keeps uses) :
    c'.recent.Keeps (addUse c.config.maxCodeSize uses (call, answer)) := by
  cases serves with
  | refused long => simpa [addUse, Call.isClear, use?, Nat.not_le.mpr long] using keeps
  | uncached fits off => simp [on] at off
  | hit fits on found =>
    have held := Recency.mem_keys_of_find? found
    simpa [addUse, Call.isClear, use?, fits] using keeps.touch held
  | @miss code fits on missing =>
    have absent := Recency.not_mem_keys_of_find? missing
    simpa [addUse, Call.isClear, use?, fits] using keeps.push room absent _
  | got found =>
    have held := Recency.mem_keys_of_find? found
    simpa [addUse, Call.isClear, use?] using keeps.touch held
  | absent missing => simpa [addUse, Call.isClear, use?] using keeps
  | looked => simpa [addUse, Call.isClear, use?] using keeps
  | cleared => exact Recency.Keeps.of_empty rfl

theorem Serves.stays (serves : Serves c call answer c') (idle : c.Idle call) : c' = c := by
  cases serves with
  | refused long => rfl
  | uncached fits off => exact absurd idle (Nat.not_lt.mpr fits)
  | hit fits on found => exact absurd idle (Nat.not_lt.mpr fits)
  | miss fits on missing => exact absurd idle (Nat.not_lt.mpr fits)
  | got found => exact absurd (contains_of_find? found) (Bool.eq_false_iff.mp idle)
  | absent missing => rfl
  | looked => rfl
  | cleared => exact idle.elim

/-- The entries are the digests used latest since the cache was cleared, and each digest that was
used since got its entry since. -/
structure Tracks (c : Cache) (calls : List Call) : Prop where
  keeps : (c.after calls).recent.Keeps (c.usesSinceClear calls)
  inserted : ∀ hash, c.Inserted hash calls ↔ hash ∈ c.usesSinceClear calls

theorem Tracks.used (tracks : c.Tracks calls) (held : (c.after calls).contains hash = true) :
    hash ∈ c.usesSinceClear calls := by
  have place := Recency.contains_iff.mp held
  rw [tracks.keeps] at place
  exact mem_order.mp (List.mem_of_mem_take place)

theorem mem_addUse {limit : Nat} : hash ∈ addUse limit uses (call, answer) ↔
    (use? limit (call, answer) = some hash ∨ hash ∈ uses) ∧ call ≠ .clear := by
  cases call <;> simp [addUse, Call.isClear]

theorem Tracks.snoc (tracks : c.Tracks calls) (on : c.config.enableCache = true)
    (room : 0 < c.recent.capacity) (call : Call) : c.Tracks (calls ++ [call]) := by
  obtain ⟨config, capacity⟩ := fixed_after c calls
  have serves := serves_call (c.after calls) call
  refine ⟨?_, ?_⟩
  · have keeps := serves.keeps (config ▸ on) (capacity ▸ room) tracks.keeps
    rw [usesSinceClear_snoc, after_append, ← config]
    exact keeps
  · intro hash
    rw [usesSinceClear_snoc, mem_addUse, Inserted, sinceClear_snoc, ← Inserted, tracks.inserted]
    constructor
    · intro made
      rcases made with inserts | ⟨used, kept⟩
      · have used := inserts.used ((c.after calls).call call).1
        obtain ⟨code, rfl, _⟩ := inserts
        exact ⟨Or.inl (config ▸ used), by simp⟩
      · exact ⟨Or.inr used, kept⟩
    · intro ⟨used, kept⟩
      rcases used with now | before
      · rcases serves.used (config ▸ on) (config ▸ now) with held | inserts
        · exact Or.inr ⟨tracks.used held, kept⟩
        · exact Or.inl inserts
      · exact Or.inr ⟨before, kept⟩

theorem tracks_fresh {config : Config} (capacity : 0 < config.cacheCapacity)
    (on : config.enableCache = true) (calls : List Call) : (fresh config).Tracks calls := by
  induction calls using List.reverseRecOn with
  | nil =>
    refine ⟨Recency.Keeps.of_empty rfl, ?_⟩
    intro hash
    exact iff_of_false (not_sinceClear_nil _) List.not_mem_nil
  | append_singleton calls call ih => exact ih.snoc on capacity call

theorem Tracks.contains_iff (tracks : c.Tracks calls) :
    (c.after calls).contains hash = true ↔ c.Inserted hash calls ∧
      ((c.uses calls).takeWhile (· != hash)).toFinset.card < c.recent.capacity := by
  rw [← (fixed_after c calls).2, Cache.contains, Recency.contains_iff, tracks.keeps,
    mem_take_order, tracks.inserted]
  apply and_congr_right
  intro used
  rw [takeWhile_uses used]

theorem Tracks.size_eq (tracks : c.Tracks calls) :
    (c.after calls).size = min c.recent.capacity (c.usesSinceClear calls).toFinset.card := by
  rw [Cache.size, Recency.size_eq, tracks.keeps, List.length_take, length_order,
    (fixed_after c calls).2]

/-- An idle call changes nothing that comes behind it. -/
theorem run_idle (idle : (c.after calls).Idle call) (later : List Call) :
    c.after (calls ++ call :: later) = c.after (calls ++ later) ∧
      (c.run (calls ++ call :: later)).1.drop (calls.length + 1) =
        (c.run (calls ++ later)).1.drop calls.length := by
  have stays : ((c.after calls).call call).2 = c.after calls :=
    (serves_call (c.after calls) call).stays idle
  constructor
  · rw [after_append, after_append]
    exact congrArg (fun c' => c'.after later) stays
  · rw [run_append, run_append, run_cons, stays, ← length_answers c calls, List.drop_left,
      ← List.drop_drop, List.drop_left, List.drop_one, List.tail_cons]

/-- Which digests are resident in an enabled cache after a run: those that got an entry since the
cache was cleared and that are among the digests used latest, so that less than the capacity of
others were used behind their own latest use. There are as many as were used since the cache was
cleared, or as there is room for. Looking, asking for a digest that is not resident and giving a
code that is too long have no influence on what stays and on what is answered later. -/
theorem resident_iff_recently_used (config : Config) (capacity : 0 < config.cacheCapacity)
    (limit : 0 < config.maxCodeSize) (on : config.enableCache = true) :
    ∃ c, Cache.ofConfig config = .ok c ∧ ∀ calls,
      (∀ hash, (c.run calls).2.contains hash = true ↔ c.Inserted hash calls ∧
        ((c.uses calls).takeWhile (· != hash)).toFinset.card < config.cacheCapacity) ∧
      (c.run calls).2.size =
        min config.cacheCapacity (c.usesSinceClear calls).toFinset.card ∧
      ∀ call, (c.run calls).2.Idle call → ∀ later,
        (c.run (calls ++ call :: later)).2 = (c.run (calls ++ later)).2 ∧
          (c.run (calls ++ call :: later)).1.drop (calls.length + 1) =
            (c.run (calls ++ later)).1.drop calls.length := by
  refine ⟨fresh config, ofConfig_of_pos capacity limit, ?_⟩
  intro calls
  have tracks := tracks_fresh capacity on calls
  refine ⟨fun hash => tracks.contains_iff, tracks.size_eq, ?_⟩
  intro call idle later
  exact run_idle idle later

/-- There is room for one of two codes: the later displaces the earlier, and a look at the earlier
in between makes no difference. -/
theorem resident_iff_recently_used_displaced :
    let a := Bytecode.ofBytes [0x5b]
    let b := Bytecode.ofBytes [0x00]
    let early : List Call := [.getOrAnalyze a, .contains a.hash]
    let late : List Call := [.getOrAnalyze a, .contains a.hash, .getOrAnalyze b]
    ∃ c, Cache.ofConfig { cacheCapacity := 1 } = .ok c ∧
      (c.run early).2.contains a.hash = true ∧ (c.run early).2.contains b.hash = false ∧
      (c.run late).2.contains a.hash = false ∧ (c.run late).2.contains b.hash = true ∧
      (c.run late).2.size = 1 ∧
      (c.run late).2 = (c.run [.getOrAnalyze a, .getOrAnalyze b]).2 := by
  intro a b early late
  have apart : a.hash ≠ b.hash := hash_jumpdest_ne_hash_stop
  obtain ⟨c, made, law⟩ := resident_iff_recently_used { cacheCapacity := 1 }
    (by decide) (by decide) rfl
  have fits : a.size ≤ c.config.maxCodeSize ∧ b.size ≤ c.config.maxCodeSize := by
    cases made
    decide
  have empty : c.contains a.hash = false := by
    cases made
    rfl
  have use_a (answer : Answer) : use? c.config.maxCodeSize (.getOrAnalyze a, answer) = a.hash :=
    if_pos fits.1
  have use_b (answer : Answer) : use? c.config.maxCodeSize (.getOrAnalyze b, answer) = b.hash :=
    if_pos fits.2
  have look (answer : Answer) : use? c.config.maxCodeSize (.contains a.hash, answer) = none := rfl
  -- from here on the codes are told apart by their digests alone
  clear_value a b
  have uses_early : c.uses early = [a.hash] := by
    simp [early, Cache.uses, past, run, use_a, look]
  have uses_late : c.uses late = [b.hash, a.hash] := by
    simp [late, Cache.uses, past, run, use_a, use_b, look]
  obtain ⟨_, _, idle⟩ := law [.getOrAnalyze a]
  obtain ⟨before, _⟩ := law early
  obtain ⟨behind, size, _⟩ := law late
  have absent : (c.run early).2.contains b.hash = false := by
    rw [Bool.eq_false_iff, ne_eq, before, uses_early]
    simp [apart]
  have first : c.Inserted a.hash early :=
    ⟨[], _, [.contains a.hash], rfl, ⟨a, rfl, rfl, fits.1, empty⟩, by simp⟩
  have second : c.Inserted b.hash late :=
    ⟨early, _, [], rfl, ⟨b, rfl, rfl, (fixed_after c early).1 ▸ fits.2, absent⟩, List.not_mem_nil⟩
  refine ⟨c, made, ?_, absent, ?_, ?_, ?_, ?_⟩
  · rw [before, uses_early]
    simp [first]
  · rw [Bool.eq_false_iff, ne_eq, behind, uses_late]
    simp [apart.symm]
  · rw [behind, uses_late]
    simp [second]
  · rw [size]
    simp [late, usesSinceClear, past, run, use_a, use_b, look, Call.isClear, apart.symm]
  · exact (idle (.contains a.hash) trivial [.getOrAnalyze b]).1

end EvmJumps.Cache
