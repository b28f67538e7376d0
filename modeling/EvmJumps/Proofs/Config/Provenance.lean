import EvmJumps.Proofs.Config.Amounts

namespace EvmJumps.Config

open Json

/-- A number may begin behind the text. -/
def Apart (s : List Char) : Prop :=
  ∀ c ∈ s.getLast?, isNumeric c = false

/-- The number stands in the text as a whole. -/
def Stands (s : List Char) (n : Nat) : Prop :=
  ∃ before c behind, s = before ++ Text.decimal n ++ c :: behind ∧ Apart before ∧
    isNumeric c = false

/-- What a value without parts has kept of the text up to here. A word never means a number. -/
def TokenOf (s : List Char) : Token → Prop
  | .number x => ∃ before lit, s = before ++ lit ∧ Apart before ∧ x.Kept lit
  | .word _ meaning => ∀ x, meaning ≠ .number x
  | .quote _ => True

/-- A value of a field may begin here. -/
def Opens : Due → Prop
  | .opened | .value _ | .element _ => True
  | _ => False

/-- A value without parts has begun. -/
def Begun : Due → Prop
  | .token _ _ => True
  | _ => False

/-- What the reader has kept of the text up to here. -/
structure Traced (s : List Char) (r : Reading) : Prop where
  given : ∀ (a : Amount) n, a.given r.draft = some n → Stands s n
  token : ∀ f t, r.due = .token f t → TokenOf s t
  apart : Opens r.due → Apart s

section Tokens

variable {s : List Char} {c : Char} {t t' : Token} {l : Lexeme} {x : Numeric} {n : Nat}

theorem apart_snoc (other : isNumeric c = false) : Apart (s ++ [c]) := by
  intro d last
  rw [List.getLast?_concat] at last
  cases last
  exact other

theorem Stands.snoc (stands : Stands s n) (c : Char) : Stands (s ++ [c]) n := by
  obtain ⟨before, d, behind, rfl, apart, other⟩ := stands
  exact ⟨before, d, behind ++ [c], by simp, apart, other⟩

theorem tokenOf_opening (apart : Apart s) (opens : Opening.of? .use c = some (.token t)) :
    TokenOf (s ++ [c]) t := by
  unfold Opening.of? at opens
  cases t with
  | word left meaning =>
    rintro x rfl
    cases number : Numeric.open? c <;> grind
  | number x =>
    have number : Numeric.open? c = some x := by
      cases number : Numeric.open? c <;> grind
    exact ⟨s, [c], rfl, apart, Numeric.kept_open number⟩
  | quote q => trivial

theorem TokenOf.more (traced : TokenOf s t) (fed : t.step c = .ok (.more t')) :
    TokenOf (s ++ [c]) t' := by
  cases t with
  | word left meaning =>
    cases left with
    | nil => cases fed
    | cons d left =>
      cases left <;> simp only [Token.step] at fed <;> split at fed <;> cases fed
      exact traced
  | number x =>
    cases move : x.part.move c with
    | into p =>
      rw [Token.step_number move] at fed
      cases fed
      obtain ⟨before, lit, rfl, apart, kept⟩ := traced
      exact ⟨before, lit ++ [c], by rw [List.append_assoc], apart, kept.push move⟩
    | stop | refuse =>
      simp only [Token.step, move] at fed
      cases fed
  | quote q =>
    obtain ⟨part, _, fed⟩ := exists_of_bind fed
    cases part <;> cases fed
    trivial

/-- A number ends only before a character that does not belong to it. -/
theorem TokenOf.number (traced : TokenOf s t)
    (fed : t.step c = .ok (.last (.number x)) ∨ t.step c = .ok (.past (.number x))) :
    t = .number x ∧ t.step c = .ok (.past (.number x)) := by
  cases t with
  | word left meaning =>
    have other := traced x
    unfold Token.step at fed
    grind
  | number y =>
    cases move : y.part.move c with
    | stop =>
      simp only [Token.step, move] at fed ⊢
      rcases fed with fed | fed <;> cases fed
      exact ⟨rfl, rfl⟩
    | into | refuse =>
      simp only [Token.step, move] at fed
      rcases fed with fed | fed <;> cases fed
  | quote q =>
    rcases fed with fed | fed
    all_goals
      obtain ⟨part, _, fed⟩ := exists_of_bind fed
      cases part <;> cases fed

end Tokens

namespace Reading

/-- What is due behind a character: a value without parts goes on or begins, or else none has begun;
and where a value of a field may begin next, the character is none of those of numbers. -/
inductive Next (r : Reading) (c : Char) (q : Reading) : Prop
  | goes {f : Field} {t t' : Token} (before : r.due = .token f t)
    (fed : t.step c = .ok (.more t')) (due : q.due = .token f t')
  | begins {f : Field} {t : Token} (opens : Opens r.due)
    (opening : Opening.of? .use c = some (.token t)) (due : q.due = .token f t)
  | idle (none : ¬ Begun q.due) (apart : Opens q.due → isNumeric c = false)

section Steps

variable {r q : Reading} {c : Char} {s t : List Char}

theorem Next.of_closed (none : ¬ Begun q.due) (closed : ¬ Opens q.due) : Next r c q :=
  .idle none fun opens => absurd opens closed

theorem Next.of_space (space : isSpace c = true) (none : ¬ Begun q.due) : Next r c q :=
  .idle none fun _ => isNumeric_delimiter (Or.inl space)

theorem next_openField {f : Field} (opens : Opens r.due) (ok : r.openField f c = .ok q) :
    Next r c q := by
  unfold openField at ok
  split at ok
  · cases ok
  · cases ok
  · next t opening =>
    cases ok
    exact .begins opens opening rfl
  · cases ok

theorem next_name {p : Reading} {s : List Char} (ok : p.name s = .ok q) : Next r c q := by
  unfold name at ok
  split at ok
  · split at ok <;> cases ok
    exact .of_closed id id
  · cases ok
    exact .of_closed id id

theorem isNumeric_of_afterValue {p : Reading} {f : Option Field} (ok : p.afterValue f c = .ok q) :
    isNumeric c = false := by
  cases numeric : isNumeric c with
  | false => rfl
  | true =>
    obtain ⟨e, failed⟩ := afterValue_of_isNumeric numeric p f
    rw [failed] at ok
    cases ok

theorem next_afterValue {p : Reading} {f : Option Field} (ok : p.afterValue f c = .ok q) :
    Next r c q := by
  refine .idle ?_ fun _ => isNumeric_of_afterValue ok
  unfold afterValue afterObjectValue afterListValue at ok
  grind [await, fault, Begun]

/-- A bracket is none of the characters of numbers. -/
theorem isNumeric_of_opening {o : Opening} (opening : Opening.of? .use c = some o)
    (bracket : ∀ t, o ≠ .token t) : isNumeric c = false := by
  cases numeric : isNumeric c with
  | false => rfl
  | true =>
    rw [opening_numeric .use numeric] at opening
    obtain ⟨x, _, same⟩ := Option.map_eq_some_iff.mp opening
    exact absurd same.symm (bracket _)

/-- Where a value of a field may begin, one begins, or blanks keep the place, or none is to come. -/
theorem next_of_opens (opens : Opens r.due) (ok : r.step c = .ok q) : Next r c q := by
  obtain ⟨draft, frame, due⟩ := r
  cases due with
  | opened =>
    simp only [step] at ok
    split at ok
    · next space =>
      cases ok
      exact .of_space space id
    · cases frame with
      | list =>
        simp only at ok
        split at ok
        · cases ok
          exact .of_closed id id
        · exact next_openField trivial ok
      | object =>
        simp only at ok
        split at ok
        · cases ok
          exact .of_closed id id
        · split at ok <;> cases ok
          exact .of_closed id id
  | value f =>
    simp only [step] at ok
    split at ok
    · next space =>
      cases ok
      exact .of_space space id
    · exact next_openField trivial ok
  | element f =>
    simp only [step] at ok
    split at ok
    · next space =>
      cases ok
      exact .of_space space id
    · split at ok
      · cases ok
      · exact next_openField trivial ok
  | _ => cases opens

/-- The kinds of steps, by what was due. -/
theorem next_step (ok : r.step c = .ok q) : Next r c q := by
  obtain ⟨draft, frame, due⟩ := r
  cases due with
  | token f t =>
    obtain ⟨fed, step, ok⟩ := exists_of_bind ok
    have step := ok_of_mapError step
    cases fed with
    | more t' =>
      cases ok
      exact .goes rfl step rfl
    | last l =>
      obtain ⟨_, _, ok⟩ := exists_of_bind ok
      obtain ⟨_, _, ok⟩ := exists_of_bind ok
      cases ok
      exact .of_closed id id
    | past l =>
      obtain ⟨p, _, ok⟩ := exists_of_bind ok
      exact next_afterValue ok
  | refusal t =>
    obtain ⟨fed, _, ok⟩ := exists_of_bind ok
    cases fed with
    | more t =>
      cases ok
      exact .of_closed id id
    | last l | past l =>
      obtain ⟨found, _, ok⟩ := exists_of_bind ok
      cases ok
  | keyText key =>
    obtain ⟨fed, _, ok⟩ := exists_of_bind ok
    cases fed with
    | more key =>
      cases ok
      exact .of_closed id id
    | last s | past s => exact next_name ok
  | skip s =>
    obtain ⟨fed, _, ok⟩ := exists_of_bind ok
    cases fed with
    | more s | last s =>
      cases ok
      exact .of_closed id id
    | past s => exact next_afterValue ok
  | after f => exact next_afterValue ok
  | config =>
    simp only [step] at ok
    split at ok
    · cases ok
      exact .of_closed id id
    · split at ok
      · next list =>
        cases ok
        exact .idle id fun _ => isNumeric_of_opening list fun t same => by cases same
      · next object =>
        cases ok
        exact .idle id fun _ => isNumeric_of_opening object fun t same => by cases same
      · cases ok
        exact .of_closed id id
      · cases ok
  | opened | value | element => exact next_of_opens trivial ok
  | colon f =>
    refine .idle ?_ ?_ <;> simp only [step] at ok
    · grind [await, fault, Begun]
    · have colon : isNumeric ':' = false := rfl
      cases f <;> grind [await, fault, Opens]
  | key | surplus | nothing =>
    refine .idle ?_ ?_ <;> simp only [step] at ok
    · grind [await, fault, openKey, Begun]
    · grind [await, fault, openKey, Opens]

end Steps

end Reading

section Runs

variable {r q : Reading} {c : Char} {s t : List Char}

/-- One character keeps what is known of the numbers, by the kinds of steps there are: a number that
was complete is taken as its decimal, and one that goes on has kept one more character. -/
theorem Traced.step (traced : Traced s r) (ok : r.step c = .ok q) : Traced (s ++ [c]) q := by
  refine ⟨?_, ?_, ?_⟩
  · intro a n given
    rcases Reading.draft_step ok with same | ⟨f, t, l, found, due, ends, outline, fill⟩
    · rw [same] at given
      exact (traced.given a n given).snoc c
    · rcases Draft.given_fill fill given with before | rfl
      · exact (traced.given a n before).snoc c
      · obtain ⟨x, rfl, read⟩ := number_of_outline outline
        have token := traced.token f t due
        obtain ⟨rfl, past⟩ := token.number (ends.imp id And.left)
        obtain ⟨before, lit, rfl, apart, kept⟩ := token
        obtain ⟨rfl, _⟩ := kept.eq_decimal read
        rcases ends with last | ⟨_, p, ok⟩
        · rw [past] at last
          cases last
        · exact ⟨before, c, [], rfl, apart, Reading.isNumeric_of_afterValue ok⟩
  · intro f t due
    cases Reading.next_step ok with
    | goes before fed reached =>
      cases reached.symm.trans due
      exact (traced.token _ _ before).more fed
    | begins opens opening reached =>
      cases reached.symm.trans due
      exact tokenOf_opening (traced.apart opens) opening
    | idle none _ =>
      rw [due] at none
      exact absurd trivial none
  · intro opens
    cases Reading.next_step ok with
    | goes before fed reached =>
      rw [reached] at opens
      cases opens
    | begins opens' opening reached =>
      rw [reached] at opens
      cases opens
    | idle _ apart => exact apart_snoc (apart opens)

theorem traced_fresh : Traced [] {} := by
  refine ⟨?_, nofun, nofun⟩
  intro a n given
  cases a <;> cases given

theorem Traced.run (traced : Traced s r) (ok : r.run t = .ok q) : Traced (s ++ t) q := by
  induction t generalizing s r with
  | nil =>
    cases ok
    rw [List.append_nil]
    exact traced
  | cons c t ih =>
    obtain ⟨p, next, ok⟩ := Reading.exists_of_run ok
    have whole := ih (traced.step next) ok
    rwa [List.append_assoc, List.singleton_append] at whole

/-- Whatever the text is, a number of its configuration is a default or stands in the text. -/
theorem stands_of_parse {s : List Char} {c : Config} (parsed : parse s = .ok c) (a : Amount) :
    a.of c = a.of {} ∨ Stands s (a.of c) := by
  obtain ⟨r, ran, parsed⟩ := exists_of_bind parsed
  obtain ⟨d, finished, parsed⟩ := exists_of_bind parsed
  cases parsed
  rw [Reading.draft_finish finished]
  have traced := traced_fresh.run ran
  cases given : a.given r.draft with
  | none =>
    left
    cases a <;> simp_all [Amount.of, Amount.given, Draft.config]
  | some n =>
    right
    have same : a.of r.draft.config = n := by
      cases a <;> simp_all [Amount.of, Amount.given, Draft.config]
    rw [same]
    exact traced.given a n given

end Runs

end EvmJumps.Config
