import EvmJumps.Json.Token

namespace EvmJumps.Json

/-- Blanks that may stand between any two tokens. -/
def Spaces (w : List Char) : Prop :=
  ∀ c ∈ w, isSpace c = true

instance (w : List Char) : Decidable (Spaces w) :=
  List.decidableBAll (fun c => isSpace c = true) w

theorem spaces_nil : Spaces [] := by
  intro c member
  cases member

/-- Escapes by one letter, and the characters that they stand for. -/
inductive ShortEscape : Char → Char → Prop
  | quote : ShortEscape '\"' '\"'
  | backslash : ShortEscape '\\' '\\'
  | slash : ShortEscape '/' '/'
  | backspace : ShortEscape 'b' '\x08'
  | formFeed : ShortEscape 'f' '\x0c'
  | lineFeed : ShortEscape 'n' '\n'
  | carriageReturn : ShortEscape 'r' '\r'
  | tab : ShortEscape 't' '\t'

/-- Four hexadecimal digits of either case, and the unit that they spell. -/
inductive FourDigits : List Char → Nat → Prop
  | digits {a b c d : Char} {i j k l : Nat} (first : Text.hexValue? a.toNat = some i)
    (second : Text.hexValue? b.toNat = some j) (third : Text.hexValue? c.toNat = some k)
    (fourth : Text.hexValue? d.toNat = some l) :
    FourDigits [a, b, c, d] (16 * (16 * (16 * i + j) + k) + l)

/-- A character that stands for itself within a quoted text. -/
structure Plain (c : Char) : Prop where
  no_quote : c ≠ '\"'
  no_backslash : c ≠ '\\'
  no_control : 0x20 ≤ c.toNat

instance (c : Char) : Decidable (Plain c) :=
  decidable_of_iff (c ≠ '\"' ∧ c ≠ '\\' ∧ 0x20 ≤ c.toNat)
    ⟨fun ⟨one, two, three⟩ => ⟨one, two, three⟩, fun ⟨one, two, three⟩ => ⟨one, two, three⟩⟩

/-- A text that stands for itself between the marks. -/
def PlainText (s : List Char) : Prop :=
  ∀ c ∈ s, Plain c

instance (s : List Char) : Decidable (PlainText s) :=
  List.decidableBAll Plain s

/-- What may stand between the marks of a quoted text. -/
inductive Quotable : List Char → Prop
  | nil : Quotable []
  | plain {c : Char} {s : List Char} (plain : Plain c) (more : Quotable s) : Quotable (c :: s)
  | short {x c : Char} {s : List Char} (short : ShortEscape x c) (more : Quotable s) :
    Quotable ('\\' :: x :: s)
  | unit {ds s : List Char} {n : Nat} (unit : FourDigits ds n) (more : Quotable s) :
    Quotable ('\\' :: 'u' :: ds ++ s)

/-- What stands between the marks of a quoted text, and the text that it spells. Characters beyond
the units are spelled by a pair of them. -/
inductive Spells : List Char → List Char → Prop
  | nil : Spells [] []
  | plain {c : Char} {s t : List Char} (plain : Plain c) (more : Spells s t) :
    Spells (c :: s) (c :: t)
  | short {x c : Char} {s t : List Char} (short : ShortEscape x c) (more : Spells s t) :
    Spells ('\\' :: x :: s) (c :: t)
  | unit {ds s t : List Char} {n : Nat} (unit : FourDigits ds n) (whole : n < 0xd800 ∨ 0xdfff < n)
    (more : Spells s t) : Spells ('\\' :: 'u' :: ds ++ s) (Char.ofNat n :: t)
  | pair {ds ds' s t : List Char} {lead trail : Nat} (first : FourDigits ds lead)
    (leads : 0xd800 ≤ lead ∧ lead ≤ 0xdbff) (second : FourDigits ds' trail)
    (trails : 0xdc00 ≤ trail ∧ trail ≤ 0xdfff) (more : Spells s t) :
    Spells ('\\' :: 'u' :: ds ++ '\\' :: 'u' :: ds' ++ s)
      (Char.ofNat (0x10000 + (lead - 0xd800) * 0x400 + (trail - 0xdc00)) :: t)

theorem Spells.of_plain {s : List Char} (plain : PlainText s) : Spells s s := by
  induction s with
  | nil => exact .nil
  | cons c s ih =>
    obtain ⟨first, others⟩ := List.forall_mem_cons.mp plain
    exact .plain first (ih others)

theorem Spells.plain_append {s t u : List Char} (plain : PlainText s) (spells : Spells t u) :
    Spells (s ++ t) (s ++ u) := by
  induction s with
  | nil => exact spells
  | cons c s ih =>
    obtain ⟨first, others⟩ := List.forall_mem_cons.mp plain
    exact .plain first (ih others)

def Digits (ds : List Char) : Prop :=
  ∀ c ∈ ds, c.isDigit = true

/-- The part of a number in front of its point, without leading zeros. -/
inductive WholeText : List Char → Prop
  | zero : WholeText ['0']
  | digits {c : Char} {ds : List Char} (first : c.isDigit = true) (nonzero : c ≠ '0')
    (more : Digits ds) : WholeText (c :: ds)

inductive FractionText : List Char → Prop
  | absent : FractionText []
  | digits {c : Char} {ds : List Char} (first : c.isDigit = true) (more : Digits ds) :
    FractionText ('.' :: c :: ds)

inductive ExponentText : List Char → Prop
  | absent : ExponentText []
  | plain {mark c : Char} {ds : List Char} (mark_eq : mark = 'e' ∨ mark = 'E')
    (first : c.isDigit = true) (more : Digits ds) : ExponentText (mark :: c :: ds)
  | signed {mark sign c : Char} {ds : List Char} (mark_eq : mark = 'e' ∨ mark = 'E')
    (sign_eq : sign = '+' ∨ sign = '-') (first : c.isDigit = true) (more : Digits ds) :
    ExponentText (mark :: sign :: c :: ds)

inductive NumberText : List Char → Prop
  | natural {whole fraction exponent : List Char} (one : WholeText whole)
    (two : FractionText fraction) (three : ExponentText exponent) :
    NumberText (whole ++ fraction ++ exponent)
  | negative {whole fraction exponent : List Char} (one : WholeText whole)
    (two : FractionText fraction) (three : ExponentText exponent) :
    NumberText ('-' :: (whole ++ fraction ++ exponent))

/-- A member of an object as it stands in a text: what is between the marks of its key, its value,
and the blanks around them. -/
structure Member where
  front : List Char := []
  key : List Char
  beforeColon : List Char := []
  afterColon : List Char := []
  value : List Char
  back : List Char := []

def Member.text (m : Member) : List Char :=
  m.front ++ '\"' :: m.key ++ '\"' :: m.beforeColon ++ ':' :: m.afterColon ++ m.value ++ m.back

/-- The member up to its value. -/
def Member.lead (m : Member) : List Char :=
  m.front ++ '\"' :: (m.key ++ '\"' :: (m.beforeColon ++ ':' :: m.afterColon))

theorem Member.text_eq (m : Member) : m.text = m.lead ++ m.value ++ m.back := by
  simp [Member.text, Member.lead]

theorem Member.text_append (m : Member) (t : List Char) :
    m.text ++ t = m.front ++ '\"' :: (m.key ++ ['\"'] ++ (m.beforeColon ++
      ':' :: (m.afterColon ++ (m.value ++ (m.back ++ t))))) := by
  simp [Member.text]

structure Member.Spaced (m : Member) : Prop where
  front : Spaces m.front
  beforeColon : Spaces m.beforeColon
  afterColon : Spaces m.afterColon
  back : Spaces m.back

/-- A member without blanks. -/
theorem spaced_compact (key value : List Char) : Member.Spaced { key := key, value := value } :=
  ⟨spaces_nil, spaces_nil, spaces_nil, spaces_nil⟩

inductive Category where
  | value
  /-- The values of a list, with commas between them. -/
  | elements
  /-- The members of an object, with commas between them. -/
  | members

/-- Well-formed texts of each category, nested to any depth. -/
inductive Written : Category → List Char → Prop
  | null : Written .value ['n', 'u', 'l', 'l']
  | yes : Written .value ['t', 'r', 'u', 'e']
  | no : Written .value ['f', 'a', 'l', 's', 'e']
  | number {s : List Char} (number : NumberText s) : Written .value s
  | text {s : List Char} (quotable : Quotable s) : Written .value ('\"' :: (s ++ ['\"']))
  | emptyList {w : List Char} (blank : Spaces w) : Written .value ('[' :: (w ++ [']']))
  | list {s : List Char} (elements : Written .elements s) : Written .value ('[' :: (s ++ [']']))
  | emptyObject {w : List Char} (blank : Spaces w) : Written .value ('\x7b' :: (w ++ ['\x7d']))
  | object {s : List Char} (members : Written .members s) :
    Written .value ('\x7b' :: (s ++ ['\x7d']))
  | lastElement {w v w' : List Char} (before : Spaces w) (value : Written .value v)
    (behind : Spaces w') : Written .elements (w ++ v ++ w')
  | element {w v w' s : List Char} (before : Spaces w) (value : Written .value v)
    (behind : Spaces w') (more : Written .elements s) : Written .elements (w ++ v ++ w' ++ ',' :: s)
  | lastMember {m : Member} (spaced : m.Spaced) (key : Quotable m.key)
    (value : Written .value m.value) : Written .members m.text
  | member {m : Member} {s : List Char} (spaced : m.Spaced) (key : Quotable m.key)
    (value : Written .value m.value) (more : Written .members s) :
    Written .members (m.text ++ ',' :: s)

end EvmJumps.Json
