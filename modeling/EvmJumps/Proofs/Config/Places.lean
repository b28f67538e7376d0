import EvmJumps.Proofs.Config.Members

namespace EvmJumps.Config

open Json

/-- The first members of an object, each with the comma behind it, and what they say. -/
inductive Earlier : List Char → List Setting → Prop
  | none : Earlier [] []
  | member {m : Member} {setting : Setting} {s : List Char} {settings : List Setting}
    (spaced : m.Spaced) (sets : Sets m setting) (others : Earlier s settings) :
    Earlier (m.text ++ ',' :: s) (setting :: settings)

/-- What stands behind a member up to the end of the text, and what the members there say. -/
inductive Later : List Char → List Setting → Prop
  | none {w : List Char} (behind : Spaces w) : Later ('\x7d' :: w) []
  | members {s w : List Char} {settings : List Setting} (members : Members s settings)
    (behind : Spaces w) : Later (',' :: (s ++ '\x7d' :: w)) settings

section Texts

variable {w s t mid : List Char} {settings others settings' : List Setting}

theorem Earlier.members (earlier : Earlier s settings) (members : Members t others) :
    Members (s ++ t) (settings ++ others) := by
  induction earlier with
  | none => exact members
  | member spaced sets _ ih =>
    rw [List.append_assoc, List.cons_append]
    exact .more spaced sets ih

theorem Members.append (members : Members s settings) (more : Members t others) :
    Members (s ++ ',' :: t) (settings ++ others) := by
  induction members with
  | last spaced sets => exact .more spaced sets more
  | more spaced sets _ ih =>
    rw [List.append_assoc, List.cons_append]
    exact .more spaced sets ih

theorem Earlier.objectText (earlier : Earlier s settings) (members : Members mid others)
    (later : Later t settings') (before : Spaces w) :
    ObjectText (w ++ '\x7b' :: (s ++ (mid ++ t))) (settings ++ (others ++ settings')) := by
  cases later with
  | none behind =>
    have object := ObjectText.members before (earlier.members members) behind
    simpa using object
  | members more behind =>
    have object := ObjectText.members before (earlier.members (members.append more)) behind
    simpa using object

end Texts

namespace Draft

theorem has_foldl_give (settings : List Setting) (d : Draft) (f : Field) :
    (settings.foldl give d).has f = true ↔
      d.has f = true ∨ f ∈ settings.filterMap Setting.field? := by
  induction settings generalizing d with
  | nil => simp
  | cons setting settings ih =>
    rw [List.foldl_cons, ih, has_give, Bool.or_eq_true, beq_iff_eq, or_assoc, List.filterMap_cons]
    cases setting.field? with
    | none => simp
    | some g => rw [List.mem_cons, Option.some.injEq, eq_comm (a := g)]

end Draft

namespace Reading

variable {r : Reading} {s t w : List Char} {settings : List Setting}

/-- The first members are read as they stand, by induction on them; a key is due behind them. -/
theorem run_earlier (object : r.frame = .object) (earlier : Earlier s settings)
    (free : r.draft.Free settings) (t : List Char) :
    { r with due := .key }.run (s ++ t) =
      { r with draft := settings.foldl Draft.give r.draft, due := .key }.run t := by
  induction earlier generalizing r with
  | none => rfl
  | @member m setting s settings spaced sets others ih =>
    rw [List.append_assoc, List.cons_append, run_member_comma object spaced sets free.first]
    exact ih (r := { r with draft := r.draft.give setting }) object free.others

theorem run_firstEarlier (object : r.frame = .object) (earlier : Earlier s settings)
    (blank : Spaces w) (t : List Char) :
    { r with due := .opened }.run (s ++ (w ++ '\"' :: t)) =
      { r with due := .key }.run (s ++ (w ++ '\"' :: t)) := by
  cases earlier with
  | none => exact run_firstKey object blank t
  | member spaced sets others =>
    rw [List.append_assoc]
    exact run_firstMember object spaced _

/-- Where a key of the object begins, the reader knows the settings of the members before it. -/
theorem run_toKey {before : List Char} (start : Spaces before) (earlier : Earlier s settings)
    (once : (settings.filterMap Setting.field?).Nodup) (blank : Spaces w) (t : List Char) :
    run {} (before ++ '\x7b' :: (s ++ (w ++ '\"' :: t))) =
      run ⟨settings.foldl Draft.give {}, .object, .keyText { purpose := .use }⟩ t := by
  have brace : step {} '\x7b' = .ok { frame := .object, due := .opened } := rfl
  have free : Draft.Free {} settings := ⟨once, fun f _ => by cases f <;> rfl⟩
  have quote (d : Draft) : step ⟨d, .object, .key⟩ '\"' =
      .ok ⟨d, .object, .keyText { purpose := .use }⟩ := rfl
  rw [(rests_between {} .config trivial).run start, run_step brace,
    run_firstEarlier (r := { frame := .object }) rfl earlier blank,
    run_earlier (r := { frame := .object }) rfl earlier free,
    (rests_between ⟨settings.foldl Draft.give {}, .object, .key⟩ .key trivial).run blank,
    run_step (quote _)]

end Reading

/-- A text whose reading fails is refused with that fault, before its values are judged. -/
theorem ofJson_of_run {s : List Char} {e : Fault} (failed : Reading.run {} s = .error e) :
    ofJson s = .error (.configText e) := by
  rw [ofJson, parse, failed]
  rfl

end EvmJumps.Config
