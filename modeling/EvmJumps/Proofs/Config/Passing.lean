import EvmJumps.Config.Reader
import EvmJumps.Proofs.Json.Feeding

namespace EvmJumps.Config.Reading

open Json

variable {r q : Reading} {c : Char} {s t : List Char}

theorem run_step (step : r.step c = .ok q) (s : List Char) : r.run (c :: s) = q.run s := by
  rw [run, step]

theorem run_congr (same : r.step c = q.step c) (s : List Char) :
    r.run (c :: s) = q.run (c :: s) := by
  rw [run, run, same]

/-- Blanks are passed over wherever a token is due. -/
def Rests (r : Reading) : Prop :=
  ∀ c, isSpace c = true → r.step c = .ok r

theorem Rests.run (rests : r.Rests) {w : List Char} (blank : Spaces w) (s : List Char) :
    r.run (w ++ s) = r.run s := by
  induction w with
  | nil => rfl
  | cons c w ih =>
    obtain ⟨first, others⟩ := List.forall_mem_cons.mp blank
    exact (run_step (rests c first) (w ++ s)).trans (ih others)

/-- No token has begun. -/
def Between : Due → Prop
  | .refusal _ | .keyText _ | .token _ _ | .skip _ => False
  | _ => True

theorem rests_between (r : Reading) (due : Due) (between : Between due) :
    { r with due := due }.Rests := by
  obtain ⟨draft, frame, _⟩ := r
  intro c space
  cases due with
  | refusal | keyText | token | skip => cases between
  | after => cases frame <;> simp [step, afterValue, afterObjectValue, afterListValue, space]
  | _ => simp [step, space]

/-- A part of the text that is fed to a reader of its own within this reader. -/
theorem run_takes {σ α : Type} {feed : σ → Char → Except Json.Fault (Fed σ α)} {x y : σ}
    (enter : σ → Reading) (takes : Takes feed x s y)
    (goes : ∀ x c y, feed x c = .ok (.more y) → (enter x).step c = .ok (enter y))
    (t : List Char) : (enter x).run (s ++ t) = (enter y).run t := by
  induction takes with
  | nil x => rfl
  | cons first others ih => exact (run_step (goes _ _ _ first) _).trans ih

theorem run_closes {σ α : Type} {feed : σ → Char → Except Json.Fault (Fed σ α)} {x : σ} {a : α}
    (enter : σ → Reading) (out : α → Except Fault Reading) (closes : Closes feed x s a)
    (goes : ∀ x c y, feed x c = .ok (.more y) → (enter x).step c = .ok (enter y))
    (ends : ∀ x c, feed x c = .ok (.last a) → (enter x).step c = out a)
    (t : List Char) : (enter x).run (s ++ t) = (out a).bind fun q => q.run t := by
  induction closes with
  | last first =>
    rw [List.singleton_append, run, ends _ _ first]
    cases out _ <;> rfl
  | cons first others ih => exact (run_step (goes _ _ _ first) _).trans (ih ends)

/-- Within a value that is passed over. -/
def passing (r : Reading) (frames : List Frame) (part : SkipPart) : Reading :=
  { r with due := .skip ⟨frames, part⟩ }

/-- Behind a value that was passed over. -/
def passed (r : Reading) : List Frame → Reading
  | [] => { r with due := .after none }
  | frames => r.passing frames .after

section Steps

variable {frames outer : List Frame} {part : SkipPart}

theorem step_passing (r : Reading) (frames : List Frame) (part : SkipPart) (c : Char) :
    (r.passing frames part).step c =
      (lift (Skip.step ⟨frames, part⟩ c)).bind fun
        | .more s => .ok { r with due := .skip s }
        | .last _ => .ok { r with due := .after none }
        | .past _ => (r.passing frames part).afterValue none c :=
  rfl

theorem step_passing_more {frames' : List Frame} {part' : SkipPart}
    (fed : Skip.step ⟨frames, part⟩ c = .ok (.more ⟨frames', part'⟩)) :
    (r.passing frames part).step c = .ok (r.passing frames' part') := by
  rw [step_passing, fed]
  rfl

theorem step_passing_close (fed : Skip.step ⟨frames, part⟩ c = .ok (Skip.close outer)) :
    (r.passing frames part).step c = .ok (r.passed outer) := by
  rw [step_passing, fed]
  cases outer <;> rfl

/-- What follows a value is judged by what the value stands in. -/
theorem step_passing_past (fed : Skip.step ⟨frames, part⟩ c = Skip.afterValue frames c) :
    (r.passing frames part).step c = (r.passed frames).step c := by
  cases frames with
  | nil =>
    rw [step_passing, fed]
    rfl
  | cons frame frames =>
    rw [step_passing, fed]
    rfl

theorem step_passing_value (solid : isSpace c = false) :
    Skip.step ⟨frames, .value⟩ c = Skip.openValue frames c := by
  simp [Skip.step, solid]

theorem step_passing_token (token : Token) : Skip.step ⟨frames, .token token⟩ c =
    (token.step c).bind fun
      | .more token => .ok (.more ⟨frames, .token token⟩)
      | .last _ => .ok (Skip.close frames)
      | .past _ => Skip.afterValue frames c :=
  rfl

theorem step_passing_keyText (q : Quote) : Skip.step ⟨frames, .keyText q⟩ c =
    (q.step c).bind fun
      | .more q => .ok (.more ⟨frames, .keyText q⟩)
      | .last _ | .past _ => .ok (.more ⟨frames, .colon⟩) :=
  rfl

theorem rests_passing (part_eq : part = .value ∨ part = .opened ∨ part = .key ∨ part = .colon) :
    (r.passing frames part).Rests := by
  intro c space
  apply step_passing_more
  rcases part_eq with rfl | rfl | rfl | rfl <;> simp [Skip.step, space]

theorem rests_passed : (r.passed frames).Rests := by
  cases frames with
  | nil => exact rests_between r (.after none) trivial
  | cons frame frames =>
    intro c space
    apply step_passing_more
    cases frame <;> simp [Skip.step, Skip.afterValue, space]

/-- Values that end with a character of their own. -/
theorem run_closed {token : Token} {a : Lexeme} (solid : isSpace c = false)
    (opens : Opening.of? .pass c = some (.token token)) (closes : Closes Token.step token s a)
    (t : List Char) :
    (r.passing frames .value).run (c :: (s ++ t)) = (r.passed frames).run t := by
  have first : (r.passing frames .value).step c = .ok (r.passing frames (.token token)) := by
    apply step_passing_more
    rw [step_passing_value solid, Skip.openValue, opens]
  rw [run_step first]
  refine run_closes (fun token => r.passing frames (.token token))
    (fun _ => .ok (r.passed frames)) closes ?_ ?_ t
  · intro x c y fed
    apply step_passing_more
    rw [step_passing_token, fed]
    rfl
  · intro x c fed
    apply step_passing_close
    rw [step_passing_token, fed]
    rfl

theorem solid_of_isDigit (digit : c.isDigit = true) : isSpace c = false := by
  cases space : isSpace c with
  | false => rfl
  | true => rcases eq_of_isSpace space with rfl | rfl | rfl | rfl <;> cases digit

/-- The first character of a number is the first character of nothing else. -/
theorem opening_number (purpose : Purpose) (first : c = '-' ∨ c.isDigit = true) {x : Numeric}
    (opens : Numeric.open? c = some x) : Opening.of? purpose c = some (.token (.number x)) := by
  have other (d : Char) (no_digit : d.isDigit = false) (no_sign : d ≠ '-') : c ≠ d := by
    rintro rfl
    rcases first with sign | digit
    · exact no_sign sign
    · rw [no_digit] at digit
      cases digit
  simp [Opening.of?, opens, other '[' rfl (by decide), other '\x7b' rfl (by decide),
    other '\"' rfl (by decide), other 'n' rfl (by decide), other 't' rfl (by decide),
    other 'f' rfl (by decide)]

theorem run_number (number : NumberText s) (delimiter : Delimiter c) (t : List Char) :
    (r.passing frames .value).run (s ++ c :: t) = (r.passed frames).run (c :: t) := by
  obtain ⟨d, s, rfl, first, x, y, opens, takes, complete⟩ := number.takes
  have solid : isSpace d = false := first.elim (fun sign => sign ▸ rfl) solid_of_isDigit
  have start : (r.passing frames .value).step d = .ok (r.passing frames (.token (.number x))) := by
    apply step_passing_more
    rw [step_passing_value solid, Skip.openValue, opening_number .pass first opens]
  rw [List.cons_append, run_step start]
  rw [run_takes (fun token => r.passing frames (.token token)) takes]
  · apply run_congr
    apply step_passing_past
    rw [step_passing_token, Token.step_delimiter complete delimiter]
    rfl
  · intro x c y fed
    apply step_passing_more
    rw [step_passing_token, fed]
    rfl

end Steps

/-- What the reader makes of the texts of each category when it passes over them. -/
def PassesOver (r : Reading) : Category → List Char → Prop
  | .value, s => ∀ frames c t, Delimiter c →
    (r.passing frames .value).run (s ++ c :: t) = (r.passed frames).run (c :: t)
  | .elements, s => ∀ frames t,
    (r.passing (.list :: frames) .value).run (s ++ ']' :: t) = (r.passed frames).run t
  | .members, s => ∀ frames t,
    (r.passing (.object :: frames) .key).run (s ++ '\x7d' :: t) = (r.passed frames).run t

section Nested

variable {frames : List Frame} {part : SkipPart}

theorem delimiter_of_spaces {w : List Char} (blank : Spaces w) (delimiter : Delimiter c)
    (t : List Char) : ∃ d u, w ++ c :: t = d :: u ∧ Delimiter d := by
  cases w with
  | nil => exact ⟨c, t, rfl, delimiter⟩
  | cons d w => exact ⟨d, w ++ c :: t, rfl, Or.inl (blank d List.mem_cons_self)⟩

theorem PassesOver.spaced (passes : PassesOver r .value s) {w : List Char} (blank : Spaces w)
    (delimiter : Delimiter c) (t : List Char) :
    (r.passing frames .value).run (s ++ (w ++ c :: t)) = (r.passed frames).run (c :: t) := by
  obtain ⟨d, u, split, first⟩ := delimiter_of_spaces blank delimiter t
  rw [← rests_passed.run blank, split]
  exact passes frames d u first

/-- A value does not start like the blanks in front of it, nor like the end of a list. -/
theorem begins (value : Written .value s) :
    ∃ c t, s = c :: t ∧ isSpace c = false ∧ c ≠ ']' := by
  cases value with
  | number number =>
    obtain ⟨c, t, rfl, first, _⟩ := number.takes
    refine ⟨c, t, rfl, first.elim (fun sign => sign ▸ rfl) solid_of_isDigit, ?_⟩
    rintro rfl
    rcases first with sign | digit
    · cases sign
    · cases digit
  | _ => exact ⟨_, _, rfl, rfl, by decide⟩

theorem run_opened (solid : isSpace c = false) (other : c ≠ ']') (t : List Char) :
    (r.passing (.list :: frames) .opened).run (c :: t) =
      (r.passing (.list :: frames) .value).run (c :: t) := by
  apply run_congr
  rw [step_passing, step_passing, step_passing_value solid]
  simp only [Skip.step, solid, other, if_false, Bool.false_eq_true]
  rfl

theorem begins_elements (elements : Written .elements s) :
    ∃ w c t, s = w ++ c :: t ∧ Spaces w ∧ isSpace c = false ∧ c ≠ ']' := by
  cases elements with
  | @lastElement w v w' before value behind =>
    obtain ⟨c, t, rfl, solid, other⟩ := begins value
    exact ⟨w, c, t ++ w', by simp, before, solid, other⟩
  | @element w v w' s before value behind more =>
    obtain ⟨c, t, rfl, solid, other⟩ := begins value
    exact ⟨w, c, t ++ w' ++ ',' :: s, by simp, before, solid, other⟩

theorem run_openList (elements : Written .elements s) (t : List Char) :
    (r.passing frames .value).run ('[' :: (s ++ t)) =
      (r.passing (.list :: frames) .value).run (s ++ t) := by
  obtain ⟨w, c, u, rfl, blank, solid, other⟩ := begins_elements elements
  have first : (r.passing frames .value).step '[' = .ok (r.passing (.list :: frames) .opened) :=
    step_passing_more rfl
  rw [run_step first, List.append_assoc, (rests_passing (Or.inr (Or.inl rfl))).run blank,
    (rests_passing (Or.inl rfl)).run blank]
  exact run_opened solid other (u ++ t)

/-- A member inside a value that is passed over, with what follows its value. -/
theorem run_passingMember {m : Member} (spaced : m.Spaced) (key : Quotable m.key)
    (passes : PassesOver r .value m.value) (delimiter : Delimiter c) (t : List Char) :
    (r.passing (.object :: frames) .key).run (m.text ++ c :: t) =
      (r.passed (.object :: frames)).run (c :: t) := by
  obtain ⟨content, closes⟩ := key.closes
  have quote : (r.passing (.object :: frames) .key).step '\"' =
      .ok (r.passing (.object :: frames) (.keyText { purpose := .pass })) := step_passing_more rfl
  have colon : (r.passing (.object :: frames) .colon).step ':' =
      .ok (r.passing (.object :: frames) .value) := step_passing_more rfl
  have named (u : List Char) : (r.passing (.object :: frames) (.keyText { purpose := .pass })).run
      (m.key ++ ['\"'] ++ u) = (r.passing (.object :: frames) .colon).run u := by
    refine run_closes (fun q => r.passing (.object :: frames) (.keyText q))
      (fun _ => .ok (r.passing (.object :: frames) .colon)) closes ?_ ?_ u
    · intro x c y fed
      apply step_passing_more
      rw [step_passing_keyText, fed]
      rfl
    · intro x c fed
      apply step_passing_more
      rw [step_passing_keyText, fed]
      rfl
  rw [m.text_append, (rests_passing (by simp)).run spaced.front, run_step quote, named,
    (rests_passing (by simp)).run spaced.beforeColon, run_step colon,
    (rests_passing (by simp)).run spaced.afterColon]
  exact passes.spaced spaced.back delimiter t

theorem run_openObject {m : Member} (spaced : m.Spaced) (t : List Char) :
    (r.passing frames .value).run ('\x7b' :: (m.text ++ t)) =
      (r.passing (.object :: frames) .key).run (m.text ++ t) := by
  have first : (r.passing frames .value).step '\x7b' =
      .ok (r.passing (.object :: frames) .opened) := step_passing_more rfl
  rw [run_step first, m.text_append, (rests_passing (by simp)).run spaced.front,
    (rests_passing (by simp)).run spaced.front]
  apply run_congr
  exact (step_passing_more rfl).trans (step_passing_more rfl).symm

theorem run_openMembers (members : Written .members s) (t : List Char) :
    (r.passing frames .value).run ('\x7b' :: (s ++ t)) =
      (r.passing (.object :: frames) .key).run (s ++ t) := by
  cases members with
  | lastMember spaced key value => exact run_openObject spaced t
  | member spaced key value more =>
    rw [List.append_assoc]
    exact run_openObject spaced _

end Nested

/-- Every well-formed value is passed over, by induction on how it is written. -/
theorem passesOver {category : Category} (written : Written category s) (r : Reading) :
    PassesOver r category s := by
  induction written with
  | null | yes | no =>
    intro frames c t _
    exact run_closed rfl rfl (Token.closes_word _ _ _) (c :: t)
  | number number =>
    intro frames c t delimiter
    exact run_number number delimiter t
  | text quotable =>
    intro frames c t _
    obtain ⟨_, closes⟩ := quotable.closes
    exact run_closed rfl rfl closes.quote (c :: t)
  | emptyList blank =>
    intro frames c t _
    rw [List.cons_append, List.append_assoc, run_step (step_passing_more rfl),
      (rests_passing (Or.inr (Or.inl rfl))).run blank]
    exact run_step (step_passing_close rfl) (c :: t)
  | list elements ih =>
    intro frames c t _
    rw [List.cons_append, List.append_assoc, run_openList elements]
    exact ih frames (c :: t)
  | emptyObject blank =>
    intro frames c t _
    rw [List.cons_append, List.append_assoc, run_step (step_passing_more rfl),
      (rests_passing (Or.inr (Or.inl rfl))).run blank]
    exact run_step (step_passing_close rfl) (c :: t)
  | object members ih =>
    intro frames c t _
    rw [List.cons_append, List.append_assoc, run_openMembers members]
    exact ih frames (c :: t)
  | lastElement before value behind ih =>
    intro frames t
    rw [List.append_assoc, List.append_assoc, (rests_passing (Or.inl rfl)).run before,
      ih.spaced behind delimiter_bracket]
    exact run_step (step_passing_close rfl) t
  | element before value behind more ih others =>
    intro frames t
    rw [List.append_assoc, List.append_assoc, List.append_assoc,
      (rests_passing (Or.inl rfl)).run before, List.cons_append, ih.spaced behind delimiter_comma]
    exact (run_step (step_passing_more rfl) _).trans (others frames t)
  | lastMember spaced key value ih =>
    intro frames t
    rw [run_passingMember spaced key ih delimiter_brace]
    exact run_step (step_passing_close rfl) t
  | member spaced key value more ih others =>
    intro frames t
    rw [List.append_assoc, List.cons_append, run_passingMember spaced key ih delimiter_comma]
    exact (run_step (step_passing_more rfl) _).trans (others frames t)

end EvmJumps.Config.Reading
