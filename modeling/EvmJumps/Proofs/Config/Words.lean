import Mathlib.Algebra.Group.Nat.Defs
import EvmJumps.Config.Reader
import EvmJumps.Proofs.Json.Naturals

namespace EvmJumps.Config

open Json

/-- The numbers of the configuration are words of 64 bits. -/
structure Fits (c : Config) : Prop where
  capacity : c.cacheCapacity < 2 ^ 64
  codeSize : c.maxCodeSize < 2 ^ 64

theorem number_of_outline {l : Lexeme} {n : Nat}
    (outline : Outline.ofLexeme l = .ok (.number (.natural n))) :
    ∃ x, l = .number x ∧ x.value? = some (.natural n) := by
  cases l with
  | number x =>
    cases read : x.value? with
    | none => simp [Outline.ofLexeme, read] at outline
    | some y =>
      simp only [Outline.ofLexeme, read, Except.ok.injEq, Outline.number.injEq] at outline
      exact ⟨x, rfl, outline ▸ read⟩
  | _ => cases outline

theorem lt_of_ofLexeme {l : Lexeme} {n : Nat}
    (outline : Outline.ofLexeme l = .ok (.number (.natural n))) : n < wordLimit := by
  obtain ⟨x, rfl, read⟩ := number_of_outline outline
  obtain ⟨_, _, _, small⟩ := Numeric.natural_of_value? read
  exact small

/-- The numbers that are given are words. -/
structure Draft.Fits (d : Draft) : Prop where
  capacity : ∀ n, d.cacheCapacity = some n → n < wordLimit
  codeSize : ∀ n, d.maxCodeSize = some n → n < wordLimit

theorem Draft.Fits.fill {d d' : Draft} (fits : d.Fits) {f : Field} {found : Outline}
    (word : ∀ n, found = .number (.natural n) → n < wordLimit) (fill : d.fill f found = .ok d') :
    d'.Fits := by
  obtain ⟨capacity, codeSize⟩ := fits
  unfold Draft.fill at fill
  split at fill <;> cases fill
  · exact ⟨fun n given => Option.some.inj given ▸ word _ rfl, codeSize⟩
  · exact ⟨capacity, fun n given => Option.some.inj given ▸ word _ rfl⟩
  · exact ⟨capacity, codeSize⟩

theorem Draft.Fits.config {d : Draft} (fits : d.Fits) : d.config.Fits := by
  obtain ⟨capacity, codeSize⟩ := fits
  refine ⟨?_, ?_⟩
  · cases given : d.cacheCapacity with
    | none => simp [Draft.config, given]
    | some n => simpa [Draft.config, given, wordLimit] using capacity n given
  · cases given : d.maxCodeSize with
    | none => simp [Draft.config, given, defaultMaxCodeSize]
    | some n => simpa [Draft.config, given, wordLimit] using codeSize n given

theorem exists_of_bind {ε α β : Type} {x : Except ε α} {f : α → Except ε β} {b : β}
    (ok : x.bind f = .ok b) : ∃ a, x = .ok a ∧ f a = .ok b := by
  cases x with
  | error e => cases ok
  | ok a => exact ⟨a, rfl, ok⟩

theorem ok_of_mapError {ε ε' α : Type} {x : Except ε α} {f : ε → ε'} {a : α}
    (ok : x.mapError f = .ok a) : x = .ok a := by
  cases x with
  | error e => cases ok
  | ok b =>
    cases ok
    rfl

namespace Reading

section Drafts

variable {r q : Reading} {c : Char}

theorem draft_openField {f : Field} (ok : r.openField f c = .ok q) : q.draft = r.draft := by
  unfold openField at ok
  split at ok <;> cases ok
  rfl

theorem draft_name {s : List Char} (ok : r.name s = .ok q) : q.draft = r.draft := by
  unfold name at ok
  split at ok
  · split at ok <;> cases ok
    rfl
  · cases ok
    rfl

theorem draft_afterObjectValue (ok : r.afterObjectValue c = .ok q) : q.draft = r.draft := by
  unfold afterObjectValue at ok
  grind [await, fault]

theorem draft_afterListValue {next : Option Field} (ok : r.afterListValue next c = .ok q) :
    q.draft = r.draft := by
  unfold afterListValue at ok
  cases next <;> grind [await, fault]

theorem draft_afterValue {f : Option Field} (ok : r.afterValue f c = .ok q) :
    q.draft = r.draft := by
  unfold afterValue at ok
  split at ok
  · exact draft_afterObjectValue (r := { r with due := .after f }) ok
  · exact draft_afterListValue (r := { r with due := .after f }) ok

theorem draft_take {f : Field} {l : Lexeme} (ok : r.take f l = .ok q) :
    ∃ found, Outline.ofLexeme l = .ok found ∧ r.draft.fill f found = .ok q.draft := by
  obtain ⟨found, outline, ok⟩ := exists_of_bind ok
  obtain ⟨draft, fill, ok⟩ := exists_of_bind ok
  cases ok
  exact ⟨found, ok_of_mapError outline, fill⟩

/-- The only steps that change the draft are those that end a value for a field. -/
theorem draft_step (ok : r.step c = .ok q) : q.draft = r.draft ∨ ∃ f t l found,
    r.due = .token f t ∧ (t.step c = .ok (.last l) ∨
      t.step c = .ok (.past l) ∧ ∃ p : Reading, p.afterValue (some f) c = .ok q) ∧
    Outline.ofLexeme l = .ok found ∧ r.draft.fill f found = .ok q.draft := by
  obtain ⟨draft, frame, due⟩ := r
  cases due with
  | token f t =>
    obtain ⟨fed, step, ok⟩ := exists_of_bind ok
    have step := ok_of_mapError step
    cases fed with
    | more t =>
      cases ok
      exact Or.inl rfl
    | last l =>
      obtain ⟨found, outline, fill⟩ := draft_take ok
      exact Or.inr ⟨f, t, l, found, rfl, Or.inl step, outline, fill⟩
    | past l =>
      -- A number ends only at the character behind it, which is then read as what follows a value.
      obtain ⟨p, took, ok⟩ := exists_of_bind ok
      obtain ⟨found, outline, fill⟩ := draft_take took
      rw [draft_afterValue ok]
      exact Or.inr ⟨f, t, l, found, rfl, Or.inr ⟨step, p, ok⟩, outline, fill⟩
  | refusal t =>
    obtain ⟨fed, _, ok⟩ := exists_of_bind ok
    cases fed with
    | more t =>
      cases ok
      exact Or.inl rfl
    | last l | past l =>
      obtain ⟨found, _, ok⟩ := exists_of_bind ok
      cases ok
  | keyText key =>
    obtain ⟨fed, _, ok⟩ := exists_of_bind ok
    cases fed with
    | more key =>
      cases ok
      exact Or.inl rfl
    | last s | past s => exact Or.inl (draft_name ok)
  | skip s =>
    obtain ⟨fed, _, ok⟩ := exists_of_bind ok
    cases fed with
    | more s | last s =>
      cases ok
      exact Or.inl rfl
    | past s => exact Or.inl (draft_afterValue ok)
  | after f => exact Or.inl (draft_afterValue ok)
  | _ =>
    left
    simp only [step] at ok
    grind [await, fault, openKey, → draft_openField]

theorem exists_of_run {s : List Char} (ok : r.run (c :: s) = .ok q) :
    ∃ p, r.step c = .ok p ∧ p.run s = .ok q := by
  rw [run] at ok
  cases next : r.step c with
  | error e =>
    rw [next] at ok
    cases ok
  | ok p =>
    rw [next] at ok
    exact ⟨p, rfl, ok⟩

/-- Every number that is read is a word, by induction on the text. -/
theorem fits_run {s : List Char} (fits : r.draft.Fits) (ok : r.run s = .ok q) : q.draft.Fits := by
  induction s generalizing r with
  | nil =>
    cases ok
    exact fits
  | cons c s ih =>
    obtain ⟨p, next, ok⟩ := exists_of_run ok
    refine ih ?_ ok
    rcases draft_step next with same | ⟨f, t, l, found, _, _, outline, fill⟩
    · rw [same]
      exact fits
    · refine fits.fill ?_ fill
      rintro n rfl
      exact lt_of_ofLexeme outline

theorem draft_finish {d : Draft} (ok : r.finish = .ok d) : d = r.draft := by
  obtain ⟨draft, frame, due⟩ := r
  have open_ended (frame : Frame) : unclosed frame ≠ .ok d := by
    cases frame <;> simp [unclosed, fault]
  cases due with
  | nothing =>
    cases ok
    rfl
  | token f t =>
    obtain ⟨_, _, ok⟩ := exists_of_bind ok
    obtain ⟨_, _, ok⟩ := exists_of_bind ok
    exact absurd ok (open_ended frame)
  | refusal t =>
    obtain ⟨_, _, ok⟩ := exists_of_bind ok
    obtain ⟨_, _, ok⟩ := exists_of_bind ok
    cases ok
  | skip s =>
    obtain ⟨_, _, ok⟩ := exists_of_bind ok
    exact absurd ok (open_ended frame)
  | opened | after f => exact absurd ok (open_ended frame)
  | _ => cases ok

end Drafts

end Reading

theorem fits_of_parse {s : List Char} {c : Config} (parsed : parse s = .ok c) : c.Fits := by
  obtain ⟨r, ran, parsed⟩ := exists_of_bind parsed
  obtain ⟨d, finished, parsed⟩ := exists_of_bind parsed
  cases parsed
  have empty : Draft.Fits {} := ⟨nofun, nofun⟩
  rw [Reading.draft_finish finished]
  exact (Reading.fits_run empty ran).config

/-- A configuration that was accepted has been judged usable. -/
theorem judged_of_ofJson {s : List Char} {c : Config} (accepted : ofJson s = .ok c) :
    parse s = .ok c ∧ c.validate = .ok () := by
  obtain ⟨d, parsed, accepted⟩ := exists_of_bind accepted
  obtain ⟨_, judged, accepted⟩ := exists_of_bind accepted
  cases accepted
  exact ⟨ok_of_mapError parsed, judged⟩

end EvmJumps.Config
