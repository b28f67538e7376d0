import EvmJumps.Proofs.Config.Places

namespace EvmJumps.Config

open Json

/-- At least one member, and all of them with the same key, which names no field. -/
structure Repeats (name : List Char) (ms : List Member) : Prop where
  unknown : ∀ f : Field, name ≠ f.name.toList
  nonempty : ms ≠ []
  spaced : ∀ m ∈ ms, m.Spaced
  key : ∀ m ∈ ms, Spells m.key name
  value : ∀ m ∈ ms, Written .value m.value

section Known

variable {before s w key : List Char} {settings : List Setting} {f : Field}

theorem Reading.name_repeated {r : Reading} (given : r.draft.has f = true) :
    r.name f.name.toList = .error (.repeated f) := by
  rw [name, Field.ofName?_eq_some_iff.mpr rfl]
  exact if_pos given

/-- The mark that closes the second key is the last character that is read. -/
theorem Reading.run_repeated (start : Spaces before) (earlier : Earlier s settings)
    (once : (settings.filterMap Setting.field?).Nodup)
    (given : f ∈ settings.filterMap Setting.field?) (blank : Spaces w)
    (spells : Spells key f.name.toList) (rest : List Char) :
    run {} (before ++ '\x7b' :: (s ++ (w ++ '\"' :: (key ++ '\"' :: rest)))) =
      .error (.repeated f) := by
  have has : (settings.foldl Draft.give {}).has f = true :=
    (Draft.has_foldl_give settings {} f).mpr (Or.inr given)
  have key_text : key ++ '\"' :: rest = key ++ ['\"'] ++ rest := by simp
  rw [run_toKey start earlier once blank, key_text,
    run_keyText (r := ⟨settings.foldl Draft.give {}, .object, .key⟩) spells, name_repeated has]
  rfl

end Known

section Unknown

variable {name : List Char} {m : Member} {ms : List Member} {others : List Setting}

theorem Repeats.sets (repeats : Repeats name ms) (member : m ∈ ms) : Sets m .other :=
  .other (repeats.key m member) repeats.unknown (repeats.value m member)

theorem Repeats.members (repeats : Repeats name ms) :
    Members ([','].intercalate (ms.map Member.text)) (ms.map fun _ => .other) := by
  have all : ∀ m ∈ ms, m.Spaced ∧ Sets m .other :=
    fun m member => ⟨repeats.spaced m member, repeats.sets member⟩
  have nonempty := repeats.nonempty
  clear repeats
  induction ms with
  | nil => exact absurd rfl nonempty
  | cons m ms ih =>
    obtain ⟨⟨spaced, sets⟩, more⟩ := List.forall_mem_cons.mp all
    cases ms with
    | nil =>
      have last := Members.last spaced sets
      simpa [List.intercalate] using last
    | cons m' ms =>
      have members := Members.more spaced sets (ih more (by simp))
      simpa [List.intercalate] using members

theorem filterMap_field?_others (settings settings' : List Setting) (ms : List Member) :
    (settings ++ (ms.map (fun _ => Setting.other) ++ settings')).filterMap Setting.field? =
      (settings ++ settings').filterMap Setting.field? := by
  have none : (ms.map fun _ => Setting.other).filterMap Setting.field? = [] := by
    simp [List.filterMap_eq_nil_iff, Setting.field?]
  rw [List.filterMap_append, List.filterMap_append, none, List.nil_append, List.filterMap_append]

/-- Members with other keys leave no trace in the configuration. -/
theorem config_others (settings settings' : List Setting) (ms : List Member) :
    Setting.config (settings ++ (ms.map (fun _ => Setting.other) ++ settings')) =
      Setting.config (settings ++ settings') := by
  have silent {α : Type} {read : Setting → Option α} (other : read .other = none) :
      (ms.map fun _ => Setting.other).findSome? read = none := by
    rw [List.findSome?_eq_none_iff]
    intro setting member
    obtain ⟨_, _, rfl⟩ := List.mem_map.mp member
    exact other
  have capacity := silent (rfl : Setting.other.cacheCapacity? = none)
  have codeSize := silent (rfl : Setting.other.maxCodeSize? = none)
  have enabled := silent (rfl : Setting.other.enableCache? = none)
  simp only [Setting.config, List.findSome?_append, capacity, codeSize, enabled, Option.none_or]

end Unknown

/-- A second key for a field of the configuration is the fault of its text, in any spelling, and
whatever its value and the value before it are, and whatever follows the key. Keys that name no
field may be repeated: the rest of the object is read as if their members were not there. -/
theorem repeated_field_refused_at_once :
    (∀ before s settings w key rest f, Spaces before → Earlier s settings →
      (settings.filterMap Setting.field?).Nodup → f ∈ settings.filterMap Setting.field? →
      Spaces w → Spells key f.name.toList →
      ofJson (before ++ '\x7b' :: (s ++ (w ++ '\"' :: (key ++ '\"' :: rest)))) =
        .error (.configText (.repeated f))) ∧
    (∀ f, (Error.configText (.repeated f)).kind = .decoding ∧
      (Error.configText (.repeated f)).message =
        "Erro de decodificação: configuração inválida: duplicate field `" ++ f.name ++ "`") ∧
    ∀ before s settings name ms t settings', Spaces before → Earlier s settings →
      Repeats name ms → Later t settings' →
      ((settings ++ settings').filterMap Setting.field?).Nodup →
      ofJson (before ++ '\x7b' :: (s ++ ([','].intercalate (ms.map Member.text) ++ t))) =
        (Setting.config (settings ++ settings')).validate.map fun _ =>
          Setting.config (settings ++ settings') := by
  refine ⟨?_, ?_, ?_⟩
  · intro before s settings w key rest f start earlier once given blank spells
    exact ofJson_of_run (Reading.run_repeated start earlier once given blank spells rest)
  · intro f
    refine ⟨rfl, ?_⟩
    cases f <;> decide
  · intro before s settings name ms t settings' start earlier repeats later once
    have object := earlier.objectText repeats.members later start
    rw [← filterMap_field?_others _ _ ms] at once
    rw [ofJson_of_parse (parse_objectText object once), config_others]

/-- A capacity of zero, the same key with an escape in it, and text behind that is no object; and
a key that stands twice but names no field. -/
theorem repeated_field_refused_at_once_escaped :
    Earlier "\"cache_capacity\":0,".toList [.cacheCapacity 0] ∧
    Spells "cache\\u005Fcapacity".toList "cache_capacity".toList ∧
    ofJson "\x7b\"cache_capacity\":0, \"cache\\u005Fcapacity\"?]".toList =
      .error (.configText (.repeated .cacheCapacity)) ∧
    Repeats ['a'] [{ key := ['a'], value := ['1'] }, { key := ['a'], value := ['[', ']'] }] ∧
    ofJson "\x7b\"a\":1,\"a\":[]\x7d".toList = .ok {} := by
  obtain ⟨refused, _, repeated⟩ := repeated_field_refused_at_once
  let capacity : Member := { key := "cache_capacity".toList, value := Text.decimal 0 }
  have sets : Sets capacity (.cacheCapacity 0) :=
    .cacheCapacity (.of_plain (by decide)) (by decide) rfl
  have earlier : Earlier (capacity.text ++ [',']) [.cacheCapacity 0] :=
    .member (spaced_compact _ _) sets .none
  have underscore : FourDigits ['0', '0', '5', 'F'] 0x5f :=
    .digits (i := 0) (j := 0) (k := 5) (l := 15) rfl rfl rfl rfl
  have spells : Spells "cache\\u005Fcapacity".toList "cache_capacity".toList :=
    Spells.plain_append (s := ['c', 'a', 'c', 'h', 'e']) (by decide)
      (.unit underscore (Or.inl (by decide)) (.of_plain (by decide)))
  have digit : WholeText ['1'] := .digits rfl (by decide) (by simp [Digits])
  have one : Written .value ['1'] := .number (.natural digit .absent .absent)
  have repeats : Repeats ['a']
      [{ key := ['a'], value := ['1'] }, { key := ['a'], value := ['[', ']'] }] := by
    refine ⟨fun f => by cases f <;> decide, by simp, ?_, ?_, ?_⟩
    · simp only [List.forall_mem_cons]
      exact ⟨spaced_compact _ _, spaced_compact _ _, List.forall_mem_nil _⟩
    · simp only [List.forall_mem_cons]
      exact ⟨.of_plain (by decide), .of_plain (by decide), List.forall_mem_nil _⟩
    · simp only [List.forall_mem_cons]
      exact ⟨one, .emptyList spaces_nil, List.forall_mem_nil _⟩
  have first := refused [] _ _ [' '] _ ['?', ']'] .cacheCapacity spaces_nil earlier (by decide)
    (by decide) (by decide) spells
  have again := repeated [] [] [] _ _ _ [] spaces_nil .none repeats (.none spaces_nil) (by decide)
  exact ⟨earlier, spells, first, repeats, again⟩

end EvmJumps.Config
