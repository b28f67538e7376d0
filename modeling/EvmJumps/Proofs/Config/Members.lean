import EvmJumps.Proofs.Config.Passing
import EvmJumps.Proofs.Config.Settings
import EvmJumps.Proofs.Json.Naturals

namespace EvmJumps.Config

open Json

namespace Reading

section Values

variable {r : Reading} {f : Field} {c : Char} {d : Draft}

theorem step_value {token : Token} (solid : isSpace c = false)
    (opens : Opening.of? .use c = some (.token token)) :
    { r with due := .value f }.step c = .ok { r with due := .token f token } := by
  simp [step, solid, openField, opens, await]

theorem step_token (r : Reading) (f : Field) (token : Token) (c : Char) :
    { r with due := .token f token }.step c = (lift (token.step c)).bind fun
      | .more token => .ok { r with due := .token f token }
      | .last l => r.take f l
      | .past l => (r.take f l).bind fun q => q.afterValue (some f) c :=
  rfl

theorem step_token_more {token token' : Token} (fed : token.step c = .ok (.more token')) :
    { r with due := .token f token }.step c = .ok { r with due := .token f token' } := by
  rw [step_token, fed]
  rfl

theorem step_token_last {token : Token} {l : Lexeme} (fed : token.step c = .ok (.last l)) :
    { r with due := .token f token }.step c = r.take f l := by
  rw [step_token, fed]
  rfl

theorem take_eq {l : Lexeme} {found : Outline} (outline : Outline.ofLexeme l = .ok found)
    (fill : r.draft.fill f found = .ok d) :
    r.take f l = .ok { r with draft := d, due := .after (some f) } := by
  rw [take, outline]
  change (r.draft.fill f found).bind (fun d => .ok (⟨d, r.frame, .after (some f)⟩ : Reading)) = _
  rw [fill]
  rfl

/-- A decimal number for a field, with what follows it. -/
theorem run_natural {n : Nat} (small : n < wordLimit)
    (fill : r.draft.fill f (.number (.natural n)) = .ok d) (delimiter : Delimiter c)
    (t : List Char) : { r with due := .value f }.run (Text.decimal n ++ c :: t) =
      { r with draft := d, due := .after (some f) }.run (c :: t) := by
  obtain ⟨digit, s, x, y, text, first, opens, takes, part, positive, value⟩ := takes_decimal n
  have complete : y.part.complete = true := by
    rcases part with part | part <;> rw [part] <;> rfl
  have start := step_value (r := r) (f := f) (solid_of_isDigit first)
    (opening_number .use (Or.inr first) opens)
  have outline : Outline.ofLexeme (.number y) = .ok (.number (.natural n)) := by
    rw [Outline.ofLexeme, Numeric.value?_natural part positive value small]
  rw [text, List.cons_append, run_step start,
    run_takes (fun token => { r with due := .token f token }) takes fun _ _ _ => step_token_more]
  apply run_congr
  rw [step_token, Token.step_delimiter complete delimiter]
  change (r.take f (.number y)).bind (fun q => q.afterValue (some f) c) = _
  rw [take_eq outline fill]
  rfl

/-- A truth value for a field. -/
theorem run_bool {b : Bool} (fill : r.draft.fill f (.bool b) = .ok d) (t : List Char) :
    { r with due := .value f }.run (boolText b ++ t) =
      { r with draft := d, due := .after (some f) }.run t := by
  have closed {c d' : Char} {left : List Char} (solid : isSpace c = false)
      (opens : Opening.of? .use c = some (.token (.word (d' :: left) (.bool b)))) :
      { r with due := .value f }.run (c :: (d' :: left ++ t)) =
        { r with draft := d, due := .after (some f) }.run t := by
    have word := Token.closes_word d' left (.bool b)
    rw [run_step (step_value solid opens),
      run_closes (fun token => { r with due := .token f token }) (r.take f) word
        (fun _ _ _ => step_token_more) (fun _ _ => step_token_last),
      take_eq rfl fill]
    rfl
  cases b <;> exact closed rfl rfl

end Values

section Objects

variable {r : Reading} {m : Member} {setting : Setting} {c : Char}

theorem step_keyText (r : Reading) (q : Quote) (c : Char) :
    { r with due := .keyText q }.step c = (lift (q.step c)).bind fun
      | .more q => .ok { r with due := .keyText q }
      | .last s | .past s => r.name s :=
  rfl

/-- A key is taken as the text that it spells. -/
theorem run_keyText {key name : List Char} (spells : Spells key name) (t : List Char) :
    { r with due := .keyText { purpose := .use } }.run (key ++ ['\"'] ++ t) =
      (r.name name).bind fun q => q.run t := by
  refine run_closes (fun q => { r with due := .keyText q }) r.name spells.closes ?_ ?_ t
  · intro x c y fed
    rw [step_keyText, fed]
    rfl
  · intro x c fed
    rw [step_keyText, fed]
    rfl

theorem ofName?_of_unknown {name : List Char} (unknown : ∀ f : Field, name ≠ f.name.toList) :
    Field.ofName? name = none := by
  cases found : Field.ofName? name with
  | none => rfl
  | some f => exact absurd (Field.ofName?_eq_some_iff.mp found) (unknown f)

theorem name_known {f : Field} (free : r.draft.has f = false) :
    r.name f.name.toList = .ok { r with due := .colon (some f) } := by
  rw [name, Field.ofName?_eq_some_iff.mpr rfl]
  simp only [free]
  rfl

theorem name_unknown {name : List Char} (unknown : ∀ f : Field, name ≠ f.name.toList) :
    r.name name = .ok { r with due := .colon none } := by
  rw [Reading.name, ofName?_of_unknown unknown]
  rfl

/-- The place behind the colon of a member. -/
def behindColon (r : Reading) : Option Field → Reading
  | some f => { r with due := .value f }
  | none => { r with due := .skip {} }

theorem step_colon (r : Reading) (f : Option Field) :
    { r with due := .colon f }.step ':' = .ok (r.behindColon f) := by
  cases f <;> rfl

theorem rests_behindColon (r : Reading) (f : Option Field) : (r.behindColon f).Rests := by
  cases f with
  | some f => exact rests_between r (.value f) trivial
  | none =>
    have rests : (r.passing [] .value).Rests := rests_passing (Or.inl rfl)
    exact rests

/-- A field that was not given yet is filled as the setting says. -/
theorem fill_eq_give {d : Draft} :
    (∀ n, d.has .cacheCapacity = false →
      d.fill .cacheCapacity (.number (.natural n)) = .ok (d.give (.cacheCapacity n))) ∧
    (∀ n, d.has .maxCodeSize = false →
      d.fill .maxCodeSize (.number (.natural n)) = .ok (d.give (.maxCodeSize n))) ∧
    ∀ b, d.has .enableCache = false →
      d.fill .enableCache (.bool b) = .ok (d.give (.enableCache b)) := by
  obtain ⟨capacity, size, enabled⟩ := d
  refine ⟨?_, ?_, ?_⟩
  · intro n free
    cases capacity <;> cases free
    rfl
  · intro n free
    cases size <;> cases free
    rfl
  · intro b free
    cases enabled <;> cases free
    rfl

/-- The value of a member, and the blanks behind it. -/
theorem run_value (sets : Sets m setting)
    (free : ∀ f, setting.field? = some f → r.draft.has f = false) {w : List Char} (blank : Spaces w)
    (delimiter : Delimiter c) (t : List Char) :
    (r.behindColon setting.field?).run (m.value ++ (w ++ c :: t)) =
      { r with draft := r.draft.give setting, due := .after setting.field? }.run (c :: t) := by
  obtain ⟨fillCapacity, fillSize, fillEnabled⟩ := fill_eq_give (d := r.draft)
  -- A number is ended by a blank as well as by what follows the blanks.
  obtain ⟨d, u, split, first⟩ := delimiter_of_spaces blank delimiter t
  have rests : { r with draft := r.draft.give setting, due := .after setting.field? }.Rests :=
    rests_between { r with draft := r.draft.give setting } _ trivial
  rw [← rests.run blank, split]
  cases sets with
  | cacheCapacity key small value =>
    rw [value]
    exact run_natural small (fillCapacity _ (free _ rfl)) first u
  | maxCodeSize key small value =>
    rw [value]
    exact run_natural small (fillSize _ (free _ rfl)) first u
  | enableCache key value =>
    rw [value]
    exact run_bool (fillEnabled _ (free _ rfl)) (d :: u)
  | other key unknown value => exact passesOver value r [] d u first

theorem exists_name (sets : Sets m setting)
    (free : ∀ f, setting.field? = some f → r.draft.has f = false) :
    ∃ name, Spells m.key name ∧ r.name name = .ok { r with due := .colon setting.field? } := by
  cases sets with
  | cacheCapacity key small value => exact ⟨_, key, name_known (free .cacheCapacity rfl)⟩
  | maxCodeSize key small value => exact ⟨_, key, name_known (free .maxCodeSize rfl)⟩
  | enableCache key value => exact ⟨_, key, name_known (free .enableCache rfl)⟩
  | other key unknown value => exact ⟨_, key, name_unknown unknown⟩

/-- A member, with what follows it. -/
theorem run_member (spaced : m.Spaced) (sets : Sets m setting)
    (free : ∀ f, setting.field? = some f → r.draft.has f = false) (delimiter : Delimiter c)
    (t : List Char) : { r with due := .key }.run (m.text ++ c :: t) =
      { r with draft := r.draft.give setting, due := .after setting.field? }.run (c :: t) := by
  obtain ⟨name, spells, named⟩ := exists_name sets free
  have quote : { r with due := .key }.step '\"' =
      .ok { r with due := .keyText { purpose := .use } } := rfl
  rw [m.text_append, (rests_between r .key trivial).run spaced.front, run_step quote,
    run_keyText spells, named]
  simp only [Except.bind]
  rw [(rests_between r (.colon _) trivial).run spaced.beforeColon, run_step (step_colon r _),
    (rests_behindColon r _).run spaced.afterColon]
  exact run_value sets free spaced.back delimiter t

theorem run_member_comma (object : r.frame = .object) (spaced : m.Spaced) (sets : Sets m setting)
    (free : ∀ f, setting.field? = some f → r.draft.has f = false) (t : List Char) :
    { r with due := .key }.run (m.text ++ ',' :: t) =
      { r with draft := r.draft.give setting, due := .key }.run t := by
  rw [run_member spaced sets free delimiter_comma]
  apply run_step
  simp [step, afterValue, object, afterObjectValue, await, isSpace]

/-- The first key of an object is due as every other. -/
theorem run_firstKey (object : r.frame = .object) {w : List Char} (blank : Spaces w)
    (t : List Char) : { r with due := .opened }.run (w ++ '\"' :: t) =
      { r with due := .key }.run (w ++ '\"' :: t) := by
  rw [(rests_between r .opened trivial).run blank, (rests_between r .key trivial).run blank]
  apply run_congr
  simp [step, object, openKey, await, isSpace]

theorem run_firstMember (object : r.frame = .object) (spaced : m.Spaced) (t : List Char) :
    { r with due := .opened }.run (m.text ++ t) = { r with due := .key }.run (m.text ++ t) := by
  rw [m.text_append]
  exact run_firstKey object spaced.front _

theorem run_firstMembers {s : List Char} {settings : List Setting} (object : r.frame = .object)
    (members : Members s settings) (t : List Char) :
    { r with due := .opened }.run (s ++ t) = { r with due := .key }.run (s ++ t) := by
  cases members with
  | last spaced sets => exact run_firstMember object spaced t
  | more spaced sets others =>
    rw [List.append_assoc]
    exact run_firstMember object spaced _

/-- The members of an object leave the settings that they say, by induction on the members: what
is set by the first is not among the fields of the others. -/
theorem run_members {s : List Char} {settings : List Setting} (members : Members s settings)
    (object : r.frame = .object) (free : r.draft.Free settings) (t : List Char) :
    { r with due := .key }.run (s ++ '\x7d' :: t) =
      { r with draft := settings.foldl Draft.give r.draft, due := .nothing }.run t := by
  induction members generalizing r with
  | @last m setting spaced sets =>
    rw [run_member spaced sets free.first delimiter_brace]
    apply run_step
    simp [step, afterValue, object, afterObjectValue, await, isSpace]
  | @more m setting s settings spaced sets others ih =>
    rw [List.append_assoc, List.cons_append, run_member_comma object spaced sets free.first]
    exact ih (r := { r with draft := r.draft.give setting }) object free.others

/-- An object whose members do not repeat a field leaves their settings. -/
theorem run_objectText {s : List Char} {settings : List Setting} (object : ObjectText s settings)
    (once : (settings.filterMap Setting.field?).Nodup) :
    run {} s =
      .ok { draft := settings.foldl Draft.give {}, frame := .object, due := .nothing } := by
  have brace : step {} '\x7b' = .ok { frame := .object, due := .opened } := rfl
  have ends (d : Draft) {w : List Char} (blank : Spaces w) :
      run ⟨d, .object, .nothing⟩ w = .ok ⟨d, .object, .nothing⟩ := by
    have rests := (rests_between ⟨d, .object, .nothing⟩ .nothing trivial).run blank []
    rw [List.append_nil] at rests
    exact rests
  cases object with
  | empty before inside behind =>
    have close : step { frame := .object, due := .opened } '\x7d' =
      .ok { frame := .object, due := .nothing } := rfl
    rw [(rests_between {} .config trivial).run before, run_step brace,
      (rests_between { frame := .object } .opened trivial).run inside, run_step close]
    exact ends {} behind
  | members before members behind =>
    have free : Draft.Free {} settings := ⟨once, fun f _ => by cases f <;> rfl⟩
    rw [(rests_between {} .config trivial).run before, run_step brace,
      run_firstMembers (r := { frame := .object }) rfl members,
      run_members (r := { frame := .object }) members rfl free]
    exact ends _ behind

end Objects

end Reading

theorem parse_objectText {s : List Char} {settings : List Setting} (object : ObjectText s settings)
    (once : (settings.filterMap Setting.field?).Nodup) :
    parse s = .ok (Setting.config settings) := by
  rw [parse, Reading.run_objectText object once, ← Draft.config_foldl_give]
  rfl

/-- A text that gives a configuration is judged by that configuration alone. -/
theorem ofJson_of_parse {s : List Char} {c : Config} (parsed : parse s = .ok c) :
    ofJson s = c.validate.map fun _ => c := by
  rw [ofJson, parsed]
  change (c.validate.bind fun _ => .ok c) = c.validate.map fun _ => c
  cases c.validate <;> rfl

theorem validate_eq (c : Config) : c.validate =
    if c.cacheCapacity = 0 then .error (.config .zeroCapacity)
    else if c.maxCodeSize = 0 then .error (.config .zeroCodeSize)
    else .ok () := by
  rw [validate, flaw?]
  split <;> split <;> simp_all

/-- Any object in which no field of the configuration is given twice is read as the values that it
gives, with the defaults for all others: in any order and with any blanks, whatever the spelling of
the keys, and among members with other keys and any values. If a number is zero the configuration is
refused because of it, the capacity first. -/
theorem ofJson_objectText {s : List Char} {settings : List Setting} (object : ObjectText s settings)
    (once : (settings.filterMap Setting.field?).Nodup) :
    ofJson s =
      (if (Setting.config settings).cacheCapacity = 0 then .error (.config .zeroCapacity)
      else if (Setting.config settings).maxCodeSize = 0 then .error (.config .zeroCodeSize)
      else .ok (Setting.config settings)) ∧
    (Error.config .zeroCapacity).message =
      "Erro de validação: cache_capacity deve ser maior que zero" ∧
    (Error.config .zeroCodeSize).message =
      "Erro de validação: max_code_size deve ser maior que zero" := by
  refine ⟨?_, by decide, by decide⟩
  rw [ofJson_of_parse (parse_objectText object once), validate_eq]
  split
  · rfl
  · split <;> rfl

/-- An escape in a known key, a list under an unknown one that ends in a quotation mark, and the
capacity left to its default. -/
theorem ofJson_objectText_escaped :
    ObjectText "\x7b\"enable\\u005Fcache\":false, \"x\\\"\":[null,[]]\x7d".toList
      [.enableCache false, .other] ∧
    ([.enableCache false, .other].filterMap Setting.field?).Nodup ∧
    ofJson "\x7b\"enable\\u005Fcache\":false, \"x\\\"\":[null,[]]\x7d".toList =
      .ok { cacheCapacity := 1024, maxCodeSize := 24576, enableCache := false } := by
  let first : Member := { key := "enable\\u005Fcache".toList, value := boolText false }
  let second : Member := { front := [' '], key := "x\\\"".toList, value := "[null,[]]".toList }
  have underscore : FourDigits ['0', '0', '5', 'F'] 0x5f :=
    .digits (i := 0) (j := 0) (k := 5) (l := 15) rfl rfl rfl rfl
  have enable : Spells first.key "enable_cache".toList :=
    Spells.plain_append (s := ['e', 'n', 'a', 'b', 'l', 'e']) (by decide)
      (.unit underscore (Or.inl (by decide)) (.of_plain (by decide)))
  have unknown : Spells second.key ['x', '\"'] := .plain (by decide) (.short .quote .nil)
  have nested : Written .value second.value :=
    .list (.element (w := []) spaces_nil .null spaces_nil
      (.lastElement (w := []) spaces_nil (.emptyList spaces_nil) spaces_nil))
  have spaced : second.Spaced := ⟨by decide, spaces_nil, spaces_nil, spaces_nil⟩
  have members : Members (first.text ++ ',' :: second.text) [.enableCache false, .other] :=
    .more (spaced_compact _ _) (.enableCache enable rfl)
      (.last spaced (.other unknown (fun f => by cases f <;> decide) nested))
  have object : ObjectText _ _ := .members spaces_nil members spaces_nil
  have once : ([.enableCache false, .other].filterMap Setting.field?).Nodup := by decide
  exact ⟨object, once, (ofJson_objectText object once).1⟩

end EvmJumps.Config
