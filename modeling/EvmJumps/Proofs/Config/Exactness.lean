import EvmJumps.Proofs.Config.Places
import EvmJumps.Proofs.Config.Provenance

namespace EvmJumps.Config

open Json

/-- An object in which the value of a field is left out: the text before it and the text behind it,
and what the other members say. None of them gives the field, and no field is given twice. -/
inductive Around (f : Field) : List Char → List Char → List Setting → Prop
  | member {w s t : List Char} {m : Member} {settings settings' : List Setting} (start : Spaces w)
    (earlier : Earlier s settings) (spaced : m.Spaced) (key : Spells m.key f.name.toList)
    (later : Later t settings')
    (once : (f :: (settings ++ settings').filterMap Setting.field?).Nodup) :
    Around f (w ++ '\x7b' :: (s ++ m.lead)) (m.back ++ t) (settings ++ settings')

/-- A minus sign in front, a fraction or an exponent, or a zero in front of another digit. -/
def Irregular (s : List Char) : Prop :=
  s.head? = some '-' ∨ (∃ c ∈ s, c = '.' ∨ c = 'e' ∨ c = 'E') ∨
    ∃ d ds, s = '0' :: d :: ds ∧ d.isDigit = true

section Literals

variable {s : List Char}

theorem Irregular.ne_decimal (irregular : Irregular s) (n : Nat) : s ≠ Text.decimal n := by
  rintro rfl
  obtain ⟨_, digits⟩ := (wholeText_decimal n).all_digits
  rcases irregular with sign | ⟨c, member, mark⟩ | ⟨d, ds, zeros, _⟩
  · have digit := digits _ (List.mem_of_mem_head? sign)
    cases digit
  · have digit := digits c member
    rcases mark with rfl | rfl | rfl <;> cases digit
  · have whole := wholeText_decimal n
    rw [zeros] at whole
    cases whole with
    | digits _ nonzero _ => exact nonzero rfl

end Literals

section Values

variable {w s t : List Char} {m : Member} {settings settings' : List Setting} {f : Field}
  {a : Amount}

/-- Where the value of a field begins, the reader knows the settings before it. -/
theorem Reading.run_toValue (start : Spaces w) (earlier : Earlier s settings) (spaced : m.Spaced)
    (key : Spells m.key f.name.toList) (once : (f :: settings.filterMap Setting.field?).Nodup)
    (u : List Char) : run {} (w ++ '\x7b' :: (s ++ m.lead) ++ u) =
      run ⟨settings.foldl Draft.give {}, .object, .value f⟩ u := by
  obtain ⟨fresh, once⟩ := List.nodup_cons.mp once
  let r : Reading := ⟨settings.foldl Draft.give {}, .object, .key⟩
  have free : r.draft.has f = false := by
    cases has : r.draft.has f with
    | false => rfl
    | true =>
      rcases (Draft.has_foldl_give settings {} f).mp has with given | given
      · cases f <;> cases given
      · exact absurd given fresh
  have text : w ++ '\x7b' :: (s ++ m.lead) ++ u = w ++ '\x7b' :: (s ++ (m.front ++
      '\"' :: (m.key ++ ['\"'] ++ (m.beforeColon ++ ':' :: (m.afterColon ++ u))))) := by
    simp [Member.lead]
  rw [text, run_toKey start earlier once spaced.front, run_keyText (r := r) key, name_known free]
  simp only [Except.bind]
  rw [(rests_between r (.colon _) trivial).run spaced.beforeColon, run_step (step_colon r _),
    (rests_behindColon r _).run spaced.afterColon]
  rfl

/-- Behind a value stands a character that no number goes on with. -/
theorem Later.delimiter (later : Later t settings) (blank : Spaces w) :
    ∃ c u, w ++ t = c :: u ∧ Delimiter c := by
  cases later with
  | none _ => exact Reading.delimiter_of_spaces blank delimiter_brace _
  | members _ _ => exact Reading.delimiter_of_spaces blank delimiter_comma _

theorem Amount.sets {n : Nat} (a : Amount) (key : Spells m.key a.field.name.toList)
    (small : n < 2 ^ 64) (value : m.value = Text.decimal n) : Sets m (a.setting n) := by
  cases a with
  | cacheCapacity => exact .cacheCapacity key small value
  | maxCodeSize => exact .maxCodeSize key small value

theorem Amount.field?_setting (a : Amount) (n : Nat) : (a.setting n).field? = some a.field := by
  cases a <;> rfl

theorem Amount.field?_of_said? {setting : Setting} {n : Nat} (said : a.said? setting = some n) :
    setting.field? = some a.field := by
  cases a <;> cases setting <;> first | rfl | cases said

theorem Amount.findSome?_said (ungiven : a.field ∉ settings.filterMap Setting.field?) :
    settings.findSome? a.said? = none := by
  rw [List.findSome?_eq_none_iff]
  intro setting member
  cases said : a.said? setting with
  | none => rfl
  | some n =>
    exact absurd (List.mem_filterMap.mpr ⟨setting, member, field?_of_said? said⟩) ungiven

/-- A setting for a field that the others do not give is put into what they make. -/
theorem config_setting (a : Amount) (n : Nat)
    (ungiven : a.field ∉ settings.filterMap Setting.field?) :
    Setting.config (settings ++ a.setting n :: settings') =
      a.put (Setting.config (settings ++ settings')) n := by
  have silent := Amount.findSome?_said ungiven
  cases a <;> simp only [Amount.said?] at silent <;>
    simp [Setting.config, Amount.setting, Amount.put, silent, List.findSome?_cons,
      Setting.cacheCapacity?, Setting.maxCodeSize?, Setting.enableCache?]

end Values

section Around

variable {a : Amount} {before behind lit : List Char} {others : List Setting} {n : Nat}
  {c : Config}

/-- A literal that is not the decimal of a word is a fault of the text. -/
theorem Around.refuses (around : Around a.field before behind others) (literal : Literal lit)
    (other : ∀ n < 2 ^ 64, lit ≠ Text.decimal n) :
    ∃ fault, ofJson (before ++ lit ++ behind) = .error (.configText fault) := by
  cases around with
  | @member w s t m settings settings' start earlier spaced key later once =>
    rw [List.filterMap_append, ← List.cons_append] at once
    obtain ⟨c, u, split, delimiter⟩ := later.delimiter spaced.back
    let r : Reading := ⟨settings.foldl Draft.give {}, .object, .nothing⟩
    rcases Reading.run_literal literal delimiter r a with ⟨n, small, text⟩ | faulty
    · exact absurd text (other n small)
    · obtain ⟨e, failed⟩ := faulty u
      refine ⟨e, ofJson_of_run ?_⟩
      rw [List.append_assoc, Reading.run_toValue start earlier spaced key
        (once.sublist (List.sublist_append_left _ _)), split]
      exact failed

/-- The decimal of a word is read as that number, among all that the other members say. -/
theorem Around.parse_decimal (around : Around a.field before behind others) (small : n < 2 ^ 64) :
    parse (before ++ Text.decimal n ++ behind) = .ok (a.put (Setting.config others) n) := by
  cases around with
  | @member w s t m settings settings' start earlier spaced key later once =>
    let given : Member := { m with value := Text.decimal n }
    have spaced : given.Spaced := ⟨spaced.front, spaced.beforeColon, spaced.afterColon, spaced.back⟩
    have sets : Sets given (a.setting n) := a.sets key small rfl
    have object := earlier.objectText (.last spaced sets) later start
    have text : w ++ '\x7b' :: (s ++ m.lead) ++ Text.decimal n ++ (m.back ++ t) =
        w ++ '\x7b' :: (s ++ (given.text ++ t)) := by
      simp [given, Member.text_eq, Member.lead]
    have ungiven : a.field ∉ settings.filterMap Setting.field? := by
      rw [List.filterMap_append] at once
      exact fun member => (List.nodup_cons.mp once).1 (List.mem_append_left _ member)
    have once : ((settings ++ ([a.setting n] ++ settings')).filterMap Setting.field?).Nodup := by
      rw [List.filterMap_append] at once
      rw [List.filterMap_append, List.singleton_append,
        List.filterMap_cons_some (a.field?_setting n)]
      exact List.perm_middle.nodup_iff.mpr once
    rw [text, parse_objectText object once, List.singleton_append, config_setting a n ungiven]

/-- With every other number in order, the configuration is judged by this one. -/
theorem validate_put (a : Amount) (valid : c.validate = .ok ()) (n : Nat) :
    (a.put c n).validate = if n = 0 then .error (.config a.flaw) else .ok () := by
  rw [validate_eq] at valid ⊢
  cases a <;> simp only [Amount.put, Amount.flaw] <;> grind

theorem Amount.of_put (a : Amount) (c : Config) (n : Nat) : a.of (a.put c n) = n := by
  cases a <;> rfl

theorem Around.ofJson_decimal (around : Around a.field before behind others)
    (valid : (Setting.config others).validate = .ok ()) (small : n < 2 ^ 64) :
    ofJson (before ++ Text.decimal n ++ behind) = if n = 0 then .error (.config a.flaw)
      else .ok (a.put (Setting.config others) n) := by
  rw [ofJson_of_parse (around.parse_decimal small), validate_put a valid]
  split <;> rfl

end Around
/-- A number that is given is read exactly or refused. As the value of its field, in an object that
is in order without it, the decimal of a number from one to the greatest word is read as that
number; zero is the flaw of the field; every greater number is a fault of the text, and so is every
literal with a minus sign, a fraction, an exponent or a leading zero. What is accepted there is the
decimal of the number that is read, and everything else is as the other members say. Whatever text
is accepted, a number of its configuration is a default or stands in the text as its decimal. -/
theorem amounts_exact_or_refused :
    (∀ (a : Amount) before behind others, Around a.field before behind others →
      (Setting.config others).validate = .ok () →
      (∀ n, (∃ c, ofJson (before ++ Text.decimal n ++ behind) = .ok c ∧ a.of c = n) ↔
        1 ≤ n ∧ n ≤ 2 ^ 64 - 1) ∧
      ofJson (before ++ Text.decimal 0 ++ behind) = .error (.config a.flaw) ∧
      (∀ n, 2 ^ 64 ≤ n →
        ∃ fault, ofJson (before ++ Text.decimal n ++ behind) = .error (.configText fault)) ∧
      (∀ lit, Literal lit → Irregular lit →
        ∃ fault, ofJson (before ++ lit ++ behind) = .error (.configText fault)) ∧
      ∀ lit c, Literal lit → ofJson (before ++ lit ++ behind) = .ok c →
        lit = Text.decimal (a.of c) ∧ c = a.put (Setting.config others) (a.of c)) ∧
    (∀ s c, ofJson s = .ok c → ∀ a : Amount, a.of c = a.of {} ∨ Stands s (a.of c)) ∧
    (∀ fault, (Error.configText fault).kind = .decoding) ∧
    ∀ a : Amount, (Error.config a.flaw).kind = .validation ∧ (Error.config a.flaw).message =
      "Erro de validação: " ++ a.field.name ++ " deve ser maior que zero" := by
  refine ⟨?_, ?_, fun _ => rfl, ?_⟩
  · intro a before behind others around valid
    have read {n : Nat} (small : n < 2 ^ 64) := around.ofJson_decimal valid small
    have exceeds {n : Nat} (large : 2 ^ 64 ≤ n) :
        ∃ fault, ofJson (before ++ Text.decimal n ++ behind) = .error (.configText fault) := by
      refine around.refuses (literal_decimal n) ?_
      intro k small same
      rw [decimal_injective same] at large
      omega
    refine ⟨?_, read (by decide), fun _ => exceeds, ?_, ?_⟩
    · intro n
      constructor
      · rintro ⟨c, accepted, _⟩
        by_cases small : n < 2 ^ 64
        · rw [read small] at accepted
          split at accepted
          · cases accepted
          · omega
        · obtain ⟨fault, refused⟩ := exceeds (Nat.le_of_not_lt small)
          rw [refused] at accepted
          cases accepted
      · rintro ⟨positive, small⟩
        refine ⟨_, (read (by omega)).trans (if_neg (by omega)), a.of_put _ n⟩
    · intro lit literal irregular
      exact around.refuses literal fun n _ => irregular.ne_decimal n
    · intro lit c literal accepted
      by_cases word : ∃ n < 2 ^ 64, lit = Text.decimal n
      · obtain ⟨n, small, rfl⟩ := word
        rw [read small] at accepted
        split at accepted
        · cases accepted
        · cases accepted
          rw [a.of_put]
          exact ⟨rfl, rfl⟩
      · obtain ⟨fault, refused⟩ := around.refuses literal fun n small same => word ⟨n, small, same⟩
        rw [refused] at accepted
        cases accepted
  · intro s c accepted a
    exact stands_of_parse (judged_of_ofJson accepted).1 a
  · intro a
    cases a <;> decide

/-- The greatest word and the number behind it, a zero, and numbers in range that are written with
a fraction, an exponent or leading zeros. -/
theorem amounts_exact_or_refused_edges :
    Around .cacheCapacity "\x7b\"enable_cache\":false,\"cache_capacity\":".toList ['\x7d']
      [.enableCache false] ∧
    (Setting.config [.enableCache false]).validate = .ok () ∧
    ofJson ("\x7b\"enable_cache\":false,\"cache_capacity\":".toList ++
      "18446744073709551615".toList ++ ['\x7d']) =
        .ok { cacheCapacity := 18446744073709551615, enableCache := false } ∧
    Stands ("\x7b\"enable_cache\":false,\"cache_capacity\":".toList ++
      "18446744073709551615".toList ++ ['\x7d']) 18446744073709551615 ∧
    ofJson ("\x7b\"enable_cache\":false,\"cache_capacity\":".toList ++ ['0'] ++ ['\x7d']) =
      .error (.config .zeroCapacity) ∧
    ∀ lit ∈ ["18446744073709551616", "-0", "8.0", "1e3", "007"], ∃ fault,
      ofJson ("\x7b\"enable_cache\":false,\"cache_capacity\":".toList ++ lit.toList ++ ['\x7d']) =
        .error (.configText fault) := by
  let enabled : Member := { key := "enable_cache".toList, value := boolText false }
  let capacity : Member := { key := "cache_capacity".toList, value := [] }
  have sets : Sets enabled (.enableCache false) := .enableCache (.of_plain (by decide)) rfl
  have front : '\x7b' :: (enabled.text ++ [','] ++ capacity.lead) =
      "\x7b\"enable_cache\":false,\"cache_capacity\":".toList := by decide
  have around : Around .cacheCapacity ('\x7b' :: (enabled.text ++ [','] ++ capacity.lead))
      ['\x7d'] [.enableCache false] :=
    .member spaces_nil (.member (spaced_compact _ _) sets .none) (spaced_compact _ _)
      (.of_plain (by decide)) (.none spaces_nil) (by decide)
  rw [front] at around
  have valid : (Setting.config [.enableCache false]).validate = .ok () := rfl
  obtain ⟨given, stands, _⟩ := amounts_exact_or_refused
  obtain ⟨accepts, zero, exceeds, irregular, whole⟩ := given .cacheCapacity _ _ _ around valid
  obtain ⟨c, greatest, amount⟩ := (accepts 18446744073709551615).mpr (by decide)
  obtain ⟨_, rest⟩ := whole _ _ (literal_decimal _) greatest
  have last : Text.decimal 18446744073709551615 = "18446744073709551615".toList := by decide
  have next : Text.decimal 18446744073709551616 = "18446744073709551616".toList := by decide
  rw [rest, amount, last] at greatest
  have large := exceeds 18446744073709551616 (by decide)
  rw [next] at large
  have inside := (stands _ _ greatest .cacheCapacity).resolve_left (by decide)
  refine ⟨around, valid, greatest, inside, zero, ?_⟩
  simp only [List.forall_mem_cons]
  refine ⟨large, ?_, ?_, ?_, ?_, List.forall_mem_nil _⟩
  · exact irregular _ (by decide) (Or.inl rfl)
  · exact irregular _ (by decide) (Or.inr (Or.inl ⟨'.', by decide⟩))
  · exact irregular _ (by decide) (Or.inr (Or.inl ⟨'e', by decide⟩))
  · exact irregular _ (by decide) (Or.inr (Or.inr ⟨'0', ['7'], rfl, rfl⟩))

end EvmJumps.Config
