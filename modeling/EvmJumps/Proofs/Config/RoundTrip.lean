import EvmJumps.Proofs.Config.Members
import EvmJumps.Proofs.Config.Words

namespace EvmJumps.Config

open Json

section Written

variable {c : Config}

/-- What the configuration has to say for a field. -/
def setting (c : Config) : Field → Setting
  | .cacheCapacity => .cacheCapacity c.cacheCapacity
  | .maxCodeSize => .maxCodeSize c.maxCodeSize
  | .enableCache => .enableCache c.enableCache

theorem field?_setting (c : Config) (f : Field) : (c.setting f).field? = some f := by
  cases f <;> rfl

theorem config_settings (c : Config) : Setting.config (Field.all.map c.setting) = c := rfl

/-- The member that is written for a field. -/
def member (c : Config) (f : Field) : Member :=
  { key := f.name.toList, value := c.valueText f }

theorem text_member (c : Config) (f : Field) : (c.member f).text = c.memberText f := by
  simp [Member.text, member, memberText]

theorem written_valueText (c : Config) (f : Field) : Written .value (c.valueText f) := by
  have decimal (n : Nat) : Written .value (Text.decimal n) := by
    have number := NumberText.natural (wholeText_decimal n) .absent .absent
    rw [List.append_nil, List.append_nil] at number
    exact .number number
  cases f with
  | cacheCapacity => exact decimal _
  | maxCodeSize => exact decimal _
  | enableCache =>
    rw [valueText]
    cases c.enableCache
    · exact .no
    · exact .yes

theorem Fits.sets (fits : c.Fits) (f : Field) : Sets (c.member f) (c.setting f) := by
  have key : Spells f.name.toList f.name.toList := .of_plain (by cases f <;> decide)
  cases f with
  | cacheCapacity => exact .cacheCapacity key fits.capacity rfl
  | maxCodeSize => exact .maxCodeSize key fits.codeSize rfl
  | enableCache => exact .enableCache key rfl

theorem Fits.objectText (fits : c.Fits) : ObjectText c.toJson (Field.all.map c.setting) := by
  have spaced (f : Field) : (c.member f).Spaced := spaced_compact _ _
  have members := Members.more (spaced .cacheCapacity) (fits.sets .cacheCapacity)
    (.more (spaced .maxCodeSize) (fits.sets .maxCodeSize)
      (.last (spaced .enableCache) (fits.sets .enableCache)))
  have object := ObjectText.members spaces_nil members spaces_nil
  simp only [text_member] at object
  have text : c.toJson = '\x7b' :: (c.memberText .cacheCapacity ++ ',' ::
      (c.memberText .maxCodeSize ++ ',' :: c.memberText .enableCache) ++ ['\x7d']) := by
    simp [toJson, Field.all, List.intercalate]
  rw [text]
  exact object

theorem Fits.parse_toJson (fits : c.Fits) : parse c.toJson = .ok c := by
  have fields : (Field.all.map c.setting).filterMap Setting.field? = Field.all := rfl
  have once : Field.all.Nodup := by decide
  rw [parse_objectText fits.objectText (fields ▸ once), config_settings]

end Written

namespace Reading

section List

variable {c : Config} {s : List Char}

/-- Where an element of a list is due, a value is read as one. -/
theorem run_element (value : Written .value s) (d : Draft) (f : Field) (t : List Char) :
    run ⟨d, .list, .element f⟩ (s ++ t) = run ⟨d, .list, .value f⟩ (s ++ t) := by
  obtain ⟨x, u, rfl, solid, other⟩ := begins value
  apply run_congr
  simp only [step, solid, other, openField, await, Bool.false_eq_true, if_false]

theorem run_firstElement (value : Written .value s) (d : Draft) (t : List Char) :
    run ⟨d, .list, .opened⟩ (s ++ t) = run ⟨d, .list, .value .cacheCapacity⟩ (s ++ t) := by
  obtain ⟨x, u, rfl, solid, other⟩ := begins value
  apply run_congr
  simp only [step, solid, other, openField, await, Bool.false_eq_true, if_false]

theorem run_valueText (fits : c.Fits) {r : Reading} {f : Field} (free : r.draft.has f = false)
    {x : Char} (delimiter : Delimiter x) (t : List Char) :
    { r with due := .value f }.run (c.valueText f ++ x :: t) =
      { r with draft := r.draft.give (c.setting f), due := .after (some f) }.run (x :: t) := by
  have value := run_value (r := r) (fits.sets f) (by simpa [field?_setting] using free) spaces_nil
    delimiter t
  rw [field?_setting] at value
  exact value

/-- A field of a list, with the comma behind it. -/
theorem run_valueText_comma (fits : c.Fits) {d : Draft} {f g : Field} (free : d.has f = false)
    (next : f.next? = some g) (t : List Char) :
    run ⟨d, .list, .value f⟩ (c.valueText f ++ ',' :: (c.valueText g ++ t)) =
      run ⟨d.give (c.setting f), .list, .value g⟩ (c.valueText g ++ t) := by
  have comma : step ⟨d.give (c.setting f), .list, .after (some f)⟩ ',' =
      .ok ⟨d.give (c.setting f), .list, .element g⟩ := by
    simp [step, afterValue, afterListValue, next, await, isSpace]
  rw [run_valueText fits (r := ⟨d, .list, .value f⟩) free delimiter_comma,
    run_step comma]
  exact run_element (written_valueText c g) _ g t

end List

end Reading

theorem Fits.parse_toJsonList {c : Config} (fits : c.Fits) : parse c.toJsonList = .ok c := by
  have text : c.toJsonList = '[' :: (c.valueText .cacheCapacity ++ ',' ::
      (c.valueText .maxCodeSize ++ ',' :: (c.valueText .enableCache ++ [']']))) := by
    simp [toJsonList, Field.all, List.intercalate]
  have bracket : Reading.step {} '[' = .ok ⟨{}, .list, .opened⟩ := rfl
  have closed (d : Draft) : Reading.step ⟨d, .list, .after (some .enableCache)⟩ ']' =
      .ok ⟨d, .list, .nothing⟩ := rfl
  rw [parse, text, Reading.run_step bracket,
    Reading.run_firstElement (written_valueText c .cacheCapacity),
    Reading.run_valueText_comma fits rfl rfl, Reading.run_valueText_comma fits rfl rfl,
    Reading.run_valueText fits (r := ⟨_, .list, .value .enableCache⟩) rfl
      delimiter_bracket,
    Reading.run_step (closed _)]
  rfl

/-- Both texts of a configuration are judged as the configuration itself. -/
theorem Fits.ofJson_eq {c : Config} (fits : c.Fits) {s : List Char}
    (written : s = c.toJson ∨ s = c.toJsonList) : ofJson s = c.validate.map fun _ => c := by
  rcases written with rfl | rfl
  · exact ofJson_of_parse fits.parse_toJson
  · exact ofJson_of_parse fits.parse_toJsonList

theorem Fits.eq_of_toJson {c d : Config} (fits : c.Fits) (fits' : d.Fits)
    (same : c.toJson = d.toJson) : c = d := by
  have read := fits.parse_toJson
  rw [same, fits'.parse_toJson] at read
  exact (Except.ok.inj read).symm

/-- Reading undoes writing. The text of the object and the text of the list both give a
configuration of words again, or else its own flaw; so different configurations have different
texts. A configuration that was read from any text is one of words, and writing it and reading it
again changes neither it nor its text. -/
theorem written_config_reads_back :
    (∀ c : Config,
      c.toJson = "\x7b\"cache_capacity\":".toList ++ Text.decimal c.cacheCapacity ++
        ",\"max_code_size\":".toList ++ Text.decimal c.maxCodeSize ++
        ",\"enable_cache\":".toList ++ boolText c.enableCache ++ ['\x7d'] ∧
      c.toJsonList = '[' :: Text.decimal c.cacheCapacity ++ ',' :: Text.decimal c.maxCodeSize ++
        ',' :: boolText c.enableCache ++ [']']) ∧
    (∀ c : Config, c.Fits → ∀ s, s = c.toJson ∨ s = c.toJsonList →
      (0 < c.cacheCapacity ∧ 0 < c.maxCodeSize → ofJson s = .ok c) ∧
      (c.cacheCapacity = 0 ∨ c.maxCodeSize = 0 →
        ∃ e, c.validate = .error e ∧ ofJson s = .error e)) ∧
    (∀ c d : Config, c.Fits → d.Fits → c.toJson = d.toJson → c = d) ∧
    ∀ s c, ofJson s = .ok c → c.Fits ∧
      ofJson c.toJson = .ok c ∧ (ofJson c.toJson).map toJson = .ok c.toJson := by
  refine ⟨?_, ?_, fun c d => Fits.eq_of_toJson, ?_⟩
  · intro c
    constructor
    · simp [toJson, memberText, valueText, Field.all, Field.name, List.intercalate]
    · simp [toJsonList, valueText, Field.all, List.intercalate]
  · intro c fits s written
    rw [fits.ofJson_eq written, validate_eq]
    constructor
    · rintro ⟨capacity, codeSize⟩
      rw [if_neg (Nat.ne_of_gt capacity), if_neg (Nat.ne_of_gt codeSize)]
      rfl
    · intro zero
      by_cases capacity : c.cacheCapacity = 0
      · exact ⟨_, if_pos capacity, by rw [if_pos capacity]; rfl⟩
      · have codeSize := zero.resolve_left capacity
        rw [if_neg capacity, if_pos codeSize]
        exact ⟨_, rfl, rfl⟩
  · intro s c accepted
    obtain ⟨parsed, judged⟩ := judged_of_ofJson accepted
    have again : ofJson c.toJson = .ok c := by
      rw [(fits_of_parse parsed).ofJson_eq (Or.inl rfl), judged]
      rfl
    refine ⟨fits_of_parse parsed, again, ?_⟩
    rw [again]
    rfl

/-- The greatest word is read to its last digit, a zero is refused as it is when judged, and a list
with blanks gives a configuration that is written without them. -/
theorem written_config_reads_back_greatest :
    Fits { cacheCapacity := 18446744073709551615, maxCodeSize := 1 } ∧
    ofJson ("\x7b\"cache_capacity\":18446744073709551615,\"max_code_size\":1," ++
      "\"enable_cache\":true\x7d").toList =
        .ok { cacheCapacity := 18446744073709551615, maxCodeSize := 1 } ∧
    (∃ e, validate { maxCodeSize := 0 } = .error e ∧ ofJson "[1024,0,true]".toList = .error e) ∧
    toJson { maxCodeSize := 1 } ≠ toJson { maxCodeSize := 2 } ∧
    ofJson " [ 1, 2 ,true]".toList = .ok { cacheCapacity := 1, maxCodeSize := 2 } ∧
    ofJson (toJson { cacheCapacity := 1, maxCodeSize := 2 }) =
      .ok { cacheCapacity := 1, maxCodeSize := 2 } := by
  have greatest : Fits { cacheCapacity := 18446744073709551615, maxCodeSize := 1 } :=
    ⟨by decide, by decide⟩
  have zero : Fits { maxCodeSize := 0 } := ⟨by decide, by decide⟩
  have one : Fits { maxCodeSize := 1 } := ⟨by decide, by decide⟩
  have two : Fits { maxCodeSize := 2 } := ⟨by decide, by decide⟩
  obtain ⟨_, reads, different, again⟩ := written_config_reads_back
  have list : ofJson " [ 1, 2 ,true]".toList = .ok { cacheCapacity := 1, maxCodeSize := 2 } := rfl
  refine ⟨greatest, ?_, ?_, ?_, list, (again _ _ list).2.1⟩
  · exact (reads _ greatest _ (Or.inl rfl)).1 (by decide)
  · exact (reads _ zero _ (Or.inr rfl)).2 (Or.inr rfl)
  · intro same
    cases different _ _ one two same

end EvmJumps.Config
