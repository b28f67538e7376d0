import EvmJumps.Proofs.Config.Members
import EvmJumps.Proofs.Config.Words
import EvmJumps.Proofs.Json.Literals

namespace EvmJumps.Config

open Json

inductive Amount where
  | cacheCapacity
  | maxCodeSize
  deriving DecidableEq, Repr

namespace Amount

def field : Amount → Field
  | .cacheCapacity => .cacheCapacity
  | .maxCodeSize => .maxCodeSize

def of : Amount → Config → Nat
  | .cacheCapacity => Config.cacheCapacity
  | .maxCodeSize => Config.maxCodeSize

/-- What is wrong with a configuration in which the amount is zero. -/
def flaw : Amount → Flaw
  | .cacheCapacity => .zeroCapacity
  | .maxCodeSize => .zeroCodeSize

def setting : Amount → Nat → Setting
  | .cacheCapacity => .cacheCapacity
  | .maxCodeSize => .maxCodeSize

/-- What a setting says of the amount. -/
def said? : Amount → Setting → Option Nat
  | .cacheCapacity => Setting.cacheCapacity?
  | .maxCodeSize => Setting.maxCodeSize?

def put (c : Config) (n : Nat) : Amount → Config
  | .cacheCapacity => { c with cacheCapacity := n }
  | .maxCodeSize => { c with maxCodeSize := n }

/-- The amount as far as a draft has it. -/
def given (d : Draft) : Amount → Option Nat
  | .cacheCapacity => d.cacheCapacity
  | .maxCodeSize => d.maxCodeSize

end Amount

namespace Draft

variable {d d' : Draft} {f : Field} {found : Outline} {a : Amount} {n : Nat}

theorem natural_of_fill (fill : d.fill a.field found = .ok d') :
    ∃ n, found = .number (.natural n) := by
  cases found with
  | number x =>
    cases x with
    | natural n => exact ⟨n, rfl⟩
    | negative | float => cases a <;> cases fill
  | _ => cases a <;> cases fill

/-- An amount of a draft changes only to a natural number that was found. -/
theorem given_fill (fill : d.fill f found = .ok d') (given : a.given d' = some n) :
    a.given d = some n ∨ found = .number (.natural n) := by
  unfold Draft.fill at fill
  split at fill <;> cases fill <;> cases a <;> simp_all [Amount.given]

end Draft

namespace Reading

variable {r q : Reading} {a : Amount} {f : Field} {c : Char} {s lit : List Char} {x : Numeric}

theorem afterValue_of_isNumeric (numeric : isNumeric c = true) (r : Reading) (f : Option Field) :
    ∃ e, r.afterValue f c = .error e := by
  have other : ¬ Delimiter c := by
    intro delimiter
    rw [isNumeric_delimiter delimiter] at numeric
    cases numeric
  simp only [Delimiter, not_or] at other
  obtain ⟨space, comma, bracket, brace⟩ := other
  unfold afterValue
  cases r.frame with
  | object => exact ⟨_, by simp [afterObjectValue, space, comma, brace, fault]; rfl⟩
  | list =>
    cases f.bind Field.next? with
    | some g => exact ⟨_, by simp [afterListValue, space, comma, bracket, fault]; rfl⟩
    | none => exact ⟨_, by simp [afterListValue, space, comma, bracket, fault]; rfl⟩

/-- Only a natural number can be taken for an amount. -/
theorem natural_of_take (took : r.take a.field (.number x) = .ok q) :
    ∃ n, x.value? = some (.natural n) := by
  obtain ⟨found, outline, fill⟩ := draft_take took
  obtain ⟨n, rfl⟩ := Draft.natural_of_fill fill
  obtain ⟨y, same, read⟩ := number_of_outline outline
  cases same
  exact ⟨n, read⟩

/-- A character goes on with a number, or is refused, or ends the number and is read as what stands
behind a value. -/
theorem step_number (r : Reading) (f : Field) (x : Numeric) (c : Char) :
    (∃ p, x.part.move c = .into p ∧ { r with due := .token f (.number x) }.step c =
      .ok { r with due := .token f (.number (x.push p c)) }) ∨
    (∃ e, { r with due := .token f (.number x) }.step c = .error e) ∨
    ∃ q, r.take f (.number x) = .ok q ∧
      { r with due := .token f (.number x) }.step c = q.afterValue (some f) c := by
  cases move : x.part.move c with
  | into p => exact Or.inl ⟨p, rfl, step_token_more (Token.step_number move)⟩
  | refuse =>
    have fed : Token.step (.number x) c = .error .numberMalformed := by
      simp only [Token.step, move]
    refine Or.inr (Or.inl ⟨.json .numberMalformed, ?_⟩)
    rw [step_token, fed]
    rfl
  | stop =>
    have fed : Token.step (.number x) c = .ok (.past (.number x)) := by
      simp only [Token.step, move]
    have next : { r with due := .token f (.number x) }.step c =
        (r.take f (.number x)).bind fun q => q.afterValue (some f) c := by
      rw [step_token, fed]
      rfl
    cases took : r.take f (.number x) with
    | error e => exact Or.inr (Or.inl ⟨e, by rw [next, took]; rfl⟩)
    | ok q => exact Or.inr (Or.inr ⟨q, rfl, by rw [next, took]; rfl⟩)

theorem run_error {e : Fault} (failed : r.step c = .error e) (s : List Char) :
    r.run (c :: s) = .error e := by
  rw [run, failed]

/-- A number goes on with the characters that numbers are written with, and no others. -/
theorem isNumeric_of_move {p q : NumberPart} (move : p.move c = .into q) : isNumeric c = true := by
  have zero : c = '0' → c.isDigit = true := by
    rintro rfl
    rfl
  cases p <;> simp only [NumberPart.move, NumberPart.move.afterWhole,
    NumberPart.move.afterFraction] at move <;> grind [isNumeric]

/-- A number for an amount, by induction on the part of it that is still to be read: the whole is
the decimal of a word, or there is a fault before the text behind it is reached. -/
theorem run_restOfLiteral (kept : x.Kept s) (numeric : ∀ d ∈ lit, isNumeric d = true)
    (delimiter : Delimiter c) : (∃ n < wordLimit, s ++ lit = Text.decimal n) ∨
      ∀ t, ∃ e, { r with due := .token a.field (.number x) }.run (lit ++ c :: t) = .error e := by
  induction lit generalizing s x with
  | nil =>
    rcases step_number r a.field x c with ⟨p, move, _⟩ | ⟨e, failed⟩ | ⟨q, took, _⟩
    · have inside := isNumeric_of_move move
      rw [isNumeric_delimiter delimiter] at inside
      cases inside
    · exact Or.inr fun t => ⟨e, run_error failed t⟩
    · obtain ⟨n, read⟩ := natural_of_take took
      obtain ⟨text, small⟩ := kept.eq_decimal read
      exact Or.inl ⟨n, small, (List.append_nil s).trans text⟩
  | cons d lit ih =>
    obtain ⟨first, others⟩ := List.forall_mem_cons.mp numeric
    rcases step_number r a.field x d with ⟨p, move, next⟩ | ⟨e, failed⟩ | ⟨q, _, past⟩
    · rcases ih (kept.push move) others with whole | faulty
      · rw [List.append_assoc, List.singleton_append] at whole
        exact Or.inl whole
      · right
        intro t
        rw [List.cons_append, run_step next]
        exact faulty t
    · exact Or.inr fun t => ⟨e, run_error failed _⟩
    · obtain ⟨e, failed⟩ := afterValue_of_isNumeric first q (some a.field)
      exact Or.inr fun t => ⟨e, run_error (past.trans failed) _⟩

/-- What begins with a character of numbers is a number or nothing. -/
theorem opening_numeric (purpose : Purpose) (numeric : isNumeric c = true) :
    Opening.of? purpose c = (Numeric.open? c).map fun x => .token (.number x) := by
  have other (d : Char) (solid : isNumeric d = false) : c ≠ d := by
    rintro rfl
    rw [solid] at numeric
    cases numeric
  simp [Opening.of?, other '[' rfl, other '\x7b' rfl, other '\"' rfl, other 'n' rfl, other 't' rfl,
    other 'f' rfl]

/-- A text of the characters of numbers in the place of an amount is the decimal of a word, or it is
refused, whatever follows. -/
theorem run_literal (literal : Literal lit) (delimiter : Delimiter c) (r : Reading) (a : Amount) :
    (∃ n < wordLimit, lit = Text.decimal n) ∨
      ∀ t, ∃ e, { r with due := .value a.field }.run (lit ++ c :: t) = .error e := by
  obtain ⟨d, lit, rfl⟩ := List.exists_cons_of_ne_nil literal.nonempty
  obtain ⟨first, others⟩ := List.forall_mem_cons.mp literal.numeric
  have solid : isSpace d = false := by
    cases space : isSpace d with
    | false => rfl
    | true =>
      rw [isNumeric_delimiter (Or.inl space)] at first
      cases first
  have opening := opening_numeric .use first
  cases opens : Numeric.open? d with
  | none =>
    right
    intro t
    rw [opens] at opening
    have failed : { r with due := .value a.field }.step d = .error (.json .valueExpected) := by
      simp [step, solid, openField, opening, fault]
    exact ⟨_, run_error failed _⟩
  | some x =>
    rw [opens] at opening
    have start := step_value (r := r) (f := a.field) solid opening
    rcases run_restOfLiteral (r := r) (a := a) (Numeric.kept_open opens) others delimiter
      with whole | faulty
    · exact Or.inl whole
    · right
      intro t
      rw [List.cons_append, run_step start]
      exact faulty t

end Reading

end EvmJumps.Config
