import EvmJumps.Proofs.Json.Grammar

namespace EvmJumps.Json

section Machines

variable {σ α : Type} {step : σ → Char → Except Fault (Fed σ α)}

/-- Feeding a text goes on from one state to another. -/
inductive Takes (step : σ → Char → Except Fault (Fed σ α)) : σ → List Char → σ → Prop
  | nil (q : σ) : Takes step q [] q
  | cons {q q' q'' : σ} {c : Char} {s : List Char} (first : step q c = .ok (.more q'))
    (others : Takes step q' s q'') : Takes step q (c :: s) q''

/-- Feeding a text ends with its last character. -/
inductive Closes (step : σ → Char → Except Fault (Fed σ α)) : σ → List Char → α → Prop
  | last {q : σ} {c : Char} {a : α} (first : step q c = .ok (.last a)) : Closes step q [c] a
  | cons {q q' : σ} {c : Char} {s : List Char} {a : α} (first : step q c = .ok (.more q'))
    (others : Closes step q' s a) : Closes step q (c :: s) a

theorem Takes.single {q q' : σ} {c : Char} (first : step q c = .ok (.more q')) :
    Takes step q [c] q' :=
  .cons first (.nil q')

theorem Takes.append {q q' q'' : σ} {s t : List Char} (first : Takes step q s q')
    (others : Takes step q' t q'') : Takes step q (s ++ t) q'' := by
  induction first with
  | nil q => exact others
  | cons one more ih => exact .cons one (ih others)

theorem Takes.closes {q q' : σ} {s t : List Char} {a : α} (first : Takes step q s q')
    (others : Closes step q' t a) : Closes step q (s ++ t) a := by
  induction first with
  | nil q => exact others
  | cons one more ih => exact .cons one (ih others)

end Machines

section Quotes

variable {purpose : Purpose} {acc : List Char}

theorem ShortEscape.shortEscape? {x c : Char} (short : ShortEscape x c) :
    shortEscape? x = some c := by
  cases short <;> rfl

theorem ShortEscape.ne_u {x c : Char} (short : ShortEscape x c) : x ≠ 'u' := by
  cases short <;> decide

namespace Quote

theorem step_plain {c : Char} (plain : Plain c) :
    step ⟨purpose, .plain, acc⟩ c = .ok (.more ⟨purpose, .plain, c :: acc⟩) := by
  have high : ¬ c.toNat < 0x20 := Nat.not_lt.mpr plain.no_control
  simp [step, push, plain.no_quote, plain.no_backslash, high]

theorem step_backslash :
    step ⟨purpose, .plain, acc⟩ '\\' = .ok (.more ⟨purpose, .escape, acc⟩) :=
  rfl

theorem step_close (purpose : Purpose) (acc : List Char) :
    step ⟨purpose, .plain, acc⟩ '\"' = .ok (.last acc.reverse) :=
  rfl

theorem takes_short {x c : Char} (short : ShortEscape x c) :
    Takes step ⟨purpose, .plain, acc⟩ ['\\', x] ⟨purpose, .plain, c :: acc⟩ := by
  refine .cons step_backslash (.single ?_)
  simp [step, push, short.ne_u, short.shortEscape?]

theorem step_u :
    step ⟨purpose, .escape, acc⟩ 'u' = .ok (.more ⟨purpose, .unit none 0 (some 0), acc⟩) :=
  rfl

end Quote

section Unit

variable {lead : Option Nat} {width n d : Nat} {c : Char}

theorem Quote.step_digit (early : width + 1 < 4) (digit : Text.hexValue? c.toNat = some d) :
    step ⟨purpose, .unit lead width (some n), acc⟩ c =
      .ok (.more ⟨purpose, .unit lead (width + 1) (some (16 * n + d)), acc⟩) := by
  simp [step, Text.utf8Size_of_hexValue? digit, digit, early]

theorem Quote.step_lastDigit (digit : Text.hexValue? c.toNat = some d) :
    step ⟨purpose, .unit lead 3 (some n), acc⟩ c =
      (pushUnit ⟨purpose, .plain, acc⟩ lead (16 * n + d)).map .more := by
  simp only [step, Text.utf8Size_of_hexValue? digit, digit]
  rfl

/-- The digits of a unit come to what is done with the complete unit. -/
theorem FourDigits.takes {ds : List Char} (unit : FourDigits ds n) {q : Quote}
    (push : Quote.pushUnit ⟨purpose, .plain, acc⟩ lead n = .ok q) :
    Takes Quote.step ⟨purpose, .unit lead 0 (some 0), acc⟩ ds q := by
  obtain ⟨first, second, third, fourth⟩ := unit
  refine .cons (Quote.step_digit (by decide) first) ?_
  refine .cons (Quote.step_digit (by decide) second) ?_
  refine .cons (Quote.step_digit (by decide) third) (.single ?_)
  rw [Quote.step_lastDigit fourth, Nat.mul_zero, Nat.zero_add, push]
  rfl

theorem FourDigits.takes_escaped {ds : List Char} (unit : FourDigits ds n) {q : Quote}
    (push : Quote.pushUnit ⟨purpose, .plain, acc⟩ none n = .ok q) :
    Takes Quote.step ⟨purpose, .plain, acc⟩ ('\\' :: 'u' :: ds) q :=
  .cons Quote.step_backslash (.cons Quote.step_u (unit.takes push))

end Unit

theorem isLead_eq_false {n : Nat} (whole : n < 0xd800 ∨ 0xdbff < n) : isLead n = false := by
  simp only [isLead, Bool.and_eq_false_iff, decide_eq_false_iff_not]
  omega

theorem isTrail_eq_false {n : Nat} (whole : n < 0xdc00 ∨ 0xdfff < n) : isTrail n = false := by
  simp only [isTrail, Bool.and_eq_false_iff, decide_eq_false_iff_not]
  omega

theorem Quote.pushUnit_whole {n : Nat} (whole : n < 0xd800 ∨ 0xdfff < n) :
    pushUnit ⟨.use, .plain, acc⟩ none n = .ok ⟨.use, .plain, Char.ofNat n :: acc⟩ := by
  have lead := isLead_eq_false (n := n) (by omega)
  have trail := isTrail_eq_false (n := n) (by omega)
  simp [pushUnit, push, lead, trail]

/-- A pair of units makes up one character. -/
theorem FourDigits.takes_pair {ds ds' : List Char} {lead trail : Nat} (first : FourDigits ds lead)
    (leads : 0xd800 ≤ lead ∧ lead ≤ 0xdbff) (second : FourDigits ds' trail)
    (trails : 0xdc00 ≤ trail ∧ trail ≤ 0xdfff) :
    Takes Quote.step ⟨.use, .plain, acc⟩ ('\\' :: 'u' :: ds ++ '\\' :: 'u' :: ds')
      ⟨.use, .plain, ofPair lead trail :: acc⟩ := by
  have half : Quote.pushUnit ⟨.use, .plain, acc⟩ none lead =
      .ok ⟨.use, .pairSlash lead, acc⟩ := by
    have noTrail := isTrail_eq_false (n := lead) (by omega)
    simp [Quote.pushUnit, noTrail, isLead, leads]
  have full : Quote.pushUnit ⟨.use, .plain, acc⟩ (some lead) trail =
      .ok ⟨.use, .plain, ofPair lead trail :: acc⟩ := by
    simp [Quote.pushUnit, Quote.push, isTrail, trails]
  refine (first.takes_escaped half).append ?_
  have slash : Quote.step ⟨.use, .pairSlash lead, acc⟩ '\\' =
      .ok (.more ⟨.use, .pairLetter lead, acc⟩) := rfl
  have letter : Quote.step ⟨.use, .pairLetter lead, acc⟩ 'u' =
      .ok (.more ⟨.use, .unit (some lead) 0 (some 0), acc⟩) := rfl
  exact .cons slash (.cons letter (second.takes full))

variable {s t : List Char}

/-- A well-formed quoted text that is only passed over is taken up to its closing mark. -/
theorem Quotable.takes (quotable : Quotable s) (acc : List Char) :
    ∃ acc', Takes Quote.step ⟨.pass, .plain, acc⟩ s ⟨.pass, .plain, acc'⟩ := by
  induction quotable generalizing acc with
  | nil => exact ⟨acc, .nil _⟩
  | @plain c s plain more ih =>
    obtain ⟨acc', others⟩ := ih (c :: acc)
    exact ⟨acc', .cons (Quote.step_plain plain) others⟩
  | @short x c s short more ih =>
    obtain ⟨acc', others⟩ := ih (c :: acc)
    exact ⟨acc', (Quote.takes_short short).append others⟩
  | unit unit more ih =>
    obtain ⟨acc', others⟩ := ih acc
    exact ⟨acc', (unit.takes_escaped rfl).append others⟩

/-- A quoted text that is used is taken as the text that it spells. -/
theorem Spells.takes (spells : Spells s t) (acc : List Char) :
    Takes Quote.step ⟨.use, .plain, acc⟩ s ⟨.use, .plain, t.reverse ++ acc⟩ := by
  have pushed (c : Char) (t acc : List Char) : (c :: t).reverse ++ acc = t.reverse ++ c :: acc := by
    simp
  induction spells generalizing acc with
  | nil => exact .nil _
  | plain plain more ih =>
    rw [pushed]
    exact .cons (Quote.step_plain plain) (ih _)
  | short short more ih =>
    rw [pushed]
    exact (Quote.takes_short short).append (ih _)
  | unit unit whole more ih =>
    rw [pushed]
    exact (unit.takes_escaped (Quote.pushUnit_whole whole)).append (ih _)
  | pair first leads second trails more ih =>
    rw [pushed]
    exact (first.takes_pair leads second trails).append (ih _)

theorem Spells.closes (spells : Spells s t) :
    Closes Quote.step { purpose := .use } (s ++ ['\"']) t := by
  have close := Quote.step_close .use t.reverse
  rw [List.reverse_reverse] at close
  have takes := spells.takes []
  rw [List.append_nil] at takes
  exact takes.closes (.last close)

theorem Quotable.closes (quotable : Quotable s) :
    ∃ t, Closes Quote.step { purpose := .pass } (s ++ ['\"']) t := by
  obtain ⟨acc, takes⟩ := quotable.takes []
  exact ⟨acc.reverse, takes.closes (.last (Quote.step_close .pass acc))⟩

end Quotes

theorem Closes.quote {q : Quote} {s t : List Char} (closes : Closes Quote.step q s t) :
    Closes Token.step (.quote q) s (.text t) := by
  induction closes with
  | last first => exact .last (by rw [Token.step, first]; rfl)
  | cons first others ih => exact .cons (by rw [Token.step, first]; rfl) ih

theorem Token.closes_word (c : Char) (left : List Char) (meaning : Lexeme) :
    Closes Token.step (.word (c :: left) meaning) (c :: left) meaning := by
  induction left generalizing c with
  | nil => exact .last (if_pos rfl)
  | cons d left ih => exact .cons (if_pos rfl) (ih d)

section Numbers

variable {x : Numeric} {p : NumberPart} {c : Char} {s ds : List Char}

theorem Token.step_number (move : x.part.move c = .into p) :
    Token.step (.number x) c = .ok (.more (.number (x.push p c))) := by
  simp only [Token.step, move]

theorem Numeric.part_push (x : Numeric) (p : NumberPart) (c : Char) : (x.push p c).part = p := by
  cases p <;> rfl

/-- Takes in characters that all lead into the same part. -/
def Numeric.pushAll (x : Numeric) (p : NumberPart) (ds : List Char) : Numeric :=
  ds.foldl (fun x c => x.push p c) x

theorem Numeric.part_pushAll (part : x.part = p) (ds : List Char) : (x.pushAll p ds).part = p := by
  induction ds generalizing x with
  | nil => exact part
  | cons c ds ih => exact ih (x.part_push p c)

theorem Numeric.takes_pushAll (part : x.part = p)
    (loops : ∀ c, c.isDigit = true → p.move c = .into p) (digits : Digits ds) :
    Takes Token.step (.number x) ds (.number (x.pushAll p ds)) := by
  induction ds generalizing x with
  | nil => exact .nil _
  | cons c ds ih =>
    obtain ⟨first, others⟩ := List.forall_mem_cons.mp digits
    exact .cons (Token.step_number (part ▸ loops c first)) (ih (x.part_push p c) others)

theorem NumberPart.move_whole (digit : c.isDigit = true) :
    NumberPart.move .whole c = .into .whole := by
  simp [move, digit]

theorem NumberPart.move_fraction (digit : c.isDigit = true) :
    NumberPart.move .fraction c = .into .fraction := by
  simp [move, digit]

theorem NumberPart.move_exponent (digit : c.isDigit = true) :
    NumberPart.move .exponent c = .into .exponent := by
  simp [move, digit]

/-- How the integer part of a number is taken: its first digit leads to the part in which the others
stay, at the start of a text as behind a sign. -/
structure TakenWhole (c : Char) (ds : List Char) (p : NumberPart) : Prop where
  part : p = .zero ∨ p = .whole
  opens : NumberPart.opens? c = some p
  signed : NumberPart.sign.move c = .into p
  others : ∀ {x : Numeric}, x.part = p →
    Takes Token.step (.number x) ds (.number (x.pushAll p ds))

theorem WholeText.taken (whole : WholeText s) :
    ∃ c ds p, s = c :: ds ∧ c.isDigit = true ∧ TakenWhole c ds p := by
  cases whole with
  | zero => exact ⟨'0', [], .zero, rfl, rfl, Or.inl rfl, rfl, rfl, fun _ => .nil _⟩
  | @digits c ds first nonzero more =>
    have sign : c ≠ '-' := by
      rintro rfl
      cases first
    refine ⟨c, ds, .whole, rfl, first, Or.inr rfl, ?_, ?_, ?_⟩
    · simp [NumberPart.opens?, sign, nonzero, first]
    · simp [NumberPart.move, nonzero, first]
    · intro x part
      exact Numeric.takes_pushAll part (fun _ => NumberPart.move_whole) more

theorem ExponentText.takes (exponent : ExponentText s)
    (part : x.part = .zero ∨ x.part = .whole ∨ x.part = .fraction) :
    ∃ y : Numeric, Takes Token.step (.number x) s (.number y) ∧ y.part.complete = true := by
  have entered {mark : Char} (mark_eq : mark = 'e' ∨ mark = 'E') :
      x.part.move mark = .into .mark := by
    rcases part with part | part | part <;> rcases mark_eq with rfl | rfl <;> rw [part] <;> rfl
  have digits {y : Numeric} {ds : List Char} (part : y.part = .exponent) (more : Digits ds) :
      ∃ z : Numeric, Takes Token.step (.number y) ds (.number z) ∧ z.part.complete = true :=
    ⟨_, Numeric.takes_pushAll part (fun _ => NumberPart.move_exponent) more,
      by rw [Numeric.part_pushAll part]; rfl⟩
  cases exponent with
  | absent =>
    refine ⟨x, .nil _, ?_⟩
    rcases part with part | part | part <;> rw [part] <;> rfl
  | @plain mark c ds mark_eq first more =>
    have unsigned : ¬ (c = '+' ∨ c = '-') := by
      rintro (rfl | rfl) <;> cases first
    have second : (x.push .mark mark).part.move c = .into .exponent := by
      simp [Numeric.part_push, NumberPart.move, unsigned, first]
    obtain ⟨y, others, complete⟩ := digits (Numeric.part_push (x.push .mark mark) .exponent c) more
    exact ⟨y, .cons (Token.step_number (entered mark_eq)) (.cons (Token.step_number second) others),
      complete⟩
  | @signed mark sign c ds mark_eq sign_eq first more =>
    have second : (x.push .mark mark).part.move sign = .into .markSign := by
      simp [Numeric.part_push, NumberPart.move, sign_eq]
    have third : ((x.push .mark mark).push .markSign sign).part.move c = .into .exponent := by
      simp [Numeric.part_push, NumberPart.move, first]
    obtain ⟨y, others, complete⟩ :=
      digits (Numeric.part_push ((x.push .mark mark).push .markSign sign) .exponent c) more
    exact ⟨y, .cons (Token.step_number (entered mark_eq)) (.cons (Token.step_number second)
      (.cons (Token.step_number third) others)), complete⟩

theorem FractionText.takes {fraction exponent : List Char} (two : FractionText fraction)
    (three : ExponentText exponent) (part : x.part = .zero ∨ x.part = .whole) :
    ∃ y : Numeric, Takes Token.step (.number x) (fraction ++ exponent) (.number y) ∧
      y.part.complete = true := by
  cases two with
  | absent => exact three.takes (part.imp id Or.inl)
  | @digits c ds first more =>
    have point : x.part.move '.' = .into .point := by
      rcases part with part | part <;> rw [part] <;> rfl
    have second : (x.push .point '.').part.move c = .into .fraction := by
      simp [Numeric.part_push, NumberPart.move, first]
    have inside := Numeric.part_push (x.push .point '.') .fraction c
    have digits := Numeric.takes_pushAll inside (fun _ => NumberPart.move_fraction) more
    obtain ⟨y, others, complete⟩ :=
      three.takes (Or.inr (Or.inr (Numeric.part_pushAll inside ds)))
    exact ⟨y, .cons (Token.step_number point) (.cons (Token.step_number second)
      (digits.append others)), complete⟩

theorem TakenWhole.takes (taken : TakenWhole c ds p) {fraction exponent : List Char}
    (two : FractionText fraction) (three : ExponentText exponent) (part : x.part = p) :
    ∃ y : Numeric, Takes Token.step (.number x) (ds ++ fraction ++ exponent) (.number y) ∧
      y.part.complete = true := by
  have inside := Numeric.part_pushAll part ds
  obtain ⟨y, others, complete⟩ := two.takes three
    (taken.part.imp inside.trans inside.trans : (x.pushAll p ds).part = _ ∨ _)
  rw [List.append_assoc]
  exact ⟨y, (taken.others part).append others, complete⟩

/-- A number is taken up to its end, where it could be complete. -/
theorem NumberText.takes (number : NumberText s) : ∃ c t, s = c :: t ∧
    (c = '-' ∨ c.isDigit = true) ∧ ∃ x y : Numeric, Numeric.open? c = some x ∧
      Takes Token.step (.number x) t (.number y) ∧ y.part.complete = true := by
  cases number with
  | natural one two three =>
    obtain ⟨c, ds, p, rfl, digit, taken⟩ := one.taken
    obtain ⟨y, takes, complete⟩ := taken.takes two three
      (Numeric.part_push { part := p } p c)
    exact ⟨c, _, rfl, Or.inr digit, _, y, by rw [Numeric.open?, taken.opens]; rfl, takes, complete⟩
  | negative one two three =>
    obtain ⟨c, ds, p, rfl, _, taken⟩ := one.taken
    have signed : (Numeric.push { part := .sign } .sign '-').part.move c = .into p := taken.signed
    obtain ⟨y, takes, complete⟩ := taken.takes two three
      (Numeric.part_push (Numeric.push { part := .sign } .sign '-') p c)
    exact ⟨'-', _, rfl, Or.inl rfl, _, y, rfl, .cons (Token.step_number signed) takes, complete⟩

/-- A character that ends a number and belongs to what the number stands in. -/
def Delimiter (c : Char) : Prop :=
  isSpace c = true ∨ c = ',' ∨ c = ']' ∨ c = '\x7d'

theorem delimiter_comma : Delimiter ',' :=
  Or.inr (Or.inl rfl)

theorem delimiter_bracket : Delimiter ']' :=
  Or.inr (Or.inr (Or.inl rfl))

theorem delimiter_brace : Delimiter '\x7d' :=
  Or.inr (Or.inr (Or.inr rfl))

theorem eq_of_isSpace (space : isSpace c = true) : c = ' ' ∨ c = '\t' ∨ c = '\n' ∨ c = '\r' := by
  simpa [isSpace, or_assoc] using space

theorem NumberPart.move_delimiter (complete : p.complete = true) (delimiter : Delimiter c) :
    p.move c = .stop := by
  have known : c = ' ' ∨ c = '\t' ∨ c = '\n' ∨ c = '\r' ∨ c = ',' ∨ c = ']' ∨ c = '\x7d' := by
    rcases delimiter with space | other
    · rcases eq_of_isSpace space with rfl | rfl | rfl | rfl <;> simp
    · exact Or.inr (Or.inr (Or.inr (Or.inr other)))
  cases p <;> cases complete <;> rcases known with rfl | rfl | rfl | rfl | rfl | rfl | rfl <;> rfl

theorem Token.step_delimiter (complete : x.part.complete = true) (delimiter : Delimiter c) :
    Token.step (.number x) c = .ok (.past (.number x)) := by
  simp only [Token.step, NumberPart.move_delimiter complete delimiter]

end Numbers

end EvmJumps.Json
