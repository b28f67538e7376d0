import EvmJumps.Bytecode

namespace EvmJumps.Hex

/-- The digits in the order of their values. -/
def lowerDigits : List Char := "0123456789abcdef".toList

def upperDigits : List Char := "0123456789ABCDEF".toList

/-- The character is the digit for a value, in lower or in upper case. -/
def Digit (c : Char) (value : Nat) : Prop :=
  lowerDigits[value]? = some c ∨ upperDigits[value]? = some c

instance (c : Char) (value : Nat) : Decidable (Digit c value) :=
  inferInstanceAs (Decidable (_ ∨ _))

/-- All characters are digits. -/
def Digits (text : List Char) : Prop :=
  ∀ c ∈ text, ∃ value, Digit c value

/-- Two digits for each byte, the higher one first. -/
inductive Spells : List Char → List UInt8 → Prop
  | nil : Spells [] []
  | byte {high low : Char} {b : UInt8} {text : List Char} {bs : List UInt8}
    (first : Digit high (b.toNat / 16)) (second : Digit low (b.toNat % 16))
    (others : Spells text bs) : Spells (high :: low :: text) (b :: bs)

def Marker (text : List Char) : Prop :=
  text = [] ∨ text = ['0', 'x'] ∨ text = ['0', 'X']

def Blanks (text : List Char) : Prop :=
  ∀ c ∈ text, Text.isBlank c = true

instance (text : List Char) : Decidable (Blanks text) :=
  decidable_of_iff (text.all Text.isBlank = true) List.all_eq_true

theorem blanks_nil : Blanks [] := by
  decide

/-- A text for bytes: one marker at most, and nothing but blanks around. -/
def Renders (s : List Char) (bs : List UInt8) : Prop :=
  ∃ before marker text after, s = before ++ (marker ++ text) ++ after ∧
    Blanks before ∧ Marker marker ∧ Spells text bs ∧ Blanks after

/-- The letter of a marker. -/
def isMark (c : Char) : Bool :=
  c == 'x' || c == 'X'

section Digit

variable {c : Char} {value : Nat}

theorem Digit.mem (digit : Digit c value) : c ∈ lowerDigits ++ upperDigits := by
  rcases digit with lower | upper
  · exact List.mem_append_left _ (List.mem_of_getElem? lower)
  · exact List.mem_append_right _ (List.mem_of_getElem? upper)

theorem Digit.lt (digit : Digit c value) : value < 16 := by
  rcases digit with lower | upper
  · exact (List.getElem?_eq_some_iff.mp lower).1
  · exact (List.getElem?_eq_some_iff.mp upper).1

/-- No digit is a blank, and none is the letter of a marker. -/
theorem Digit.solid (digit : Digit c value) : Text.isBlank c = false ∧ isMark c = false := by
  have all : ((lowerDigits ++ upperDigits).all fun d => !Text.isBlank d && !isMark d) = true := by
    decide
  simpa using List.all_eq_true.mp all c digit.mem

theorem digit_iff : Digit c value ↔ Text.hexValue? c.toNat = some value := by
  constructor
  · intro digit
    have all : ∀ v < 16, lowerDigits[v]?.bind (fun d => Text.hexValue? d.toNat) = some v ∧
        upperDigits[v]?.bind (fun d => Text.hexValue? d.toNat) = some v := by
      decide
    obtain ⟨lowerValue, upperValue⟩ := all value digit.lt
    rcases digit with lower | upper
    · rw [lower] at lowerValue
      exact lowerValue
    · rw [upper] at upperValue
      exact upperValue
  · intro found
    have all : ∀ n < 128, ∀ v ∈ Text.hexValue? n, Digit (Char.ofNat n) v := by decide
    rw [← Char.ofNat_toNat c]
    exact all c.toNat (Nat.lt_succ_of_le (Text.ascii_of_hexValue? found)) value found

end Digit

/-- The value of a character, for those that are digits. -/
def value (c : Char) : Nat :=
  (Text.hexValue? c.toNat).getD 0

theorem Digit.value_eq {c : Char} {v : Nat} (digit : Digit c v) : value c = v := by
  rw [value, digit_iff.mp digit, Option.getD_some]

section Utf8

variable {c : Char} {text : List Char}

/-- A digit is a single byte. -/
theorem Digit.utf8 {v : Nat} (digit : Digit c v) :
    ∃ b, String.utf8EncodeChar c = [b] ∧ digit? b = some v := by
  have found := digit_iff.mp digit
  have ascii : c.val.toNat ≤ 127 := Text.ascii_of_hexValue? found
  refine ⟨_, String.utf8EncodeChar_eq_singleton (Text.utf8Size_of_hexValue? found), ?_⟩
  have code : c.val.toUInt8.toNat = c.toNat := by
    rw [UInt32.toNat_toUInt8]
    exact Nat.mod_eq_of_lt (by omega)
  rw [digit?, code, found]

/-- The first byte of a character beyond ASCII is no digit. -/
theorem not_digit_of_lead {n : Nat} (low : 192 ≤ n) (high : n < 256) :
    digit? (UInt8.ofNat n) = none := by
  have code : (UInt8.ofNat n).toNat = n := UInt8.toNat_ofNat_of_lt' high
  cases found : digit? (UInt8.ofNat n) with
  | none => rfl
  | some v =>
    rw [digit?, code] at found
    have ascii := Text.ascii_of_hexValue? found
    omega

theorem digit_of_utf8 (all : ∀ b ∈ String.utf8EncodeChar c, (digit? b).isSome) :
    ∃ v, Digit c v := by
  have lead {n : Nat} {bytes : List UInt8} (low : 192 ≤ n) (high : n < 256)
      (eq : String.utf8EncodeChar c = UInt8.ofNat n :: bytes) : ∃ v, Digit c v := by
    have first := all (UInt8.ofNat n) (eq ▸ List.mem_cons_self)
    rw [not_digit_of_lead low high] at first
    cases first
  by_cases one : c.val.toNat ≤ 127
  · have bytes : String.utf8EncodeChar c = [UInt8.ofNat c.toNat] := if_pos one
    have first := all (UInt8.ofNat c.toNat) (bytes ▸ List.mem_cons_self)
    obtain ⟨v, found⟩ := Option.isSome_iff_exists.mp first
    have code : (UInt8.ofNat c.toNat).toNat = c.toNat :=
      UInt8.toNat_ofNat_of_lt' (show c.val.toNat < 256 by omega)
    rw [digit?, code] at found
    exact ⟨v, digit_iff.mpr found⟩
  · by_cases two : c.val.toNat ≤ 2047
    · exact lead (by omega) (by omega) ((if_neg one).trans (if_pos two))
    · by_cases three : c.val.toNat ≤ 65535
      · exact lead (by omega) (by omega) ((if_neg one).trans ((if_neg two).trans (if_pos three)))
      · exact lead (by omega) (by omega) ((if_neg one).trans ((if_neg two).trans (if_neg three)))

theorem digits_cons : Digits (c :: text) ↔ (∃ v, Digit c v) ∧ Digits text :=
  List.forall_mem_cons

theorem Digits.utf8 (digits : Digits text) :
    (encodeUtf8 text).map digit? = text.map (some ∘ value) := by
  induction text with
  | nil => rfl
  | cons c text ih =>
    obtain ⟨⟨v, digit⟩, others⟩ := digits_cons.mp digits
    obtain ⟨b, bytes, found⟩ := digit.utf8
    have head : digit? b = some (value c) := by rw [digit.value_eq, found]
    rw [encodeUtf8, List.flatMap_cons, bytes, List.map_append, ← encodeUtf8, ih others,
      List.map_singleton, head]
    rfl

theorem digits_of_utf8 (all : ∀ b ∈ encodeUtf8 text, (digit? b).isSome) : Digits text := by
  intro c member
  apply digit_of_utf8
  intro b inside
  exact all b (List.mem_flatMap.mpr ⟨c, member, inside⟩)

/-- The digits of a text are read if there is an even number of them. -/
theorem Digits.digits?_eq (digits : Digits text) : digits? (encodeUtf8 text) =
    if text.length % 2 = 1 then .error .oddLength else .ok (text.map value) := by
  have bytes := digits.utf8
  have size : (encodeUtf8 text).length = text.length := by
    simpa using congrArg List.length bytes
  have good : (encodeUtf8 text).findIdx? (fun b => (digit? b).isNone) = none := by
    rw [List.findIdx?_eq_none_iff]
    intro b member
    have found := List.mem_map_of_mem (f := digit?) member
    rw [bytes] at found
    obtain ⟨c, _, eq⟩ := List.mem_map.mp found
    rw [← eq]
    rfl
  have values : (encodeUtf8 text).map (fun b => (digit? b).getD 0) = text.map value := by
    have mapped := congrArg (List.map (Option.getD · 0)) bytes
    rw [List.map_map, List.map_map] at mapped
    exact mapped
  rw [digits?, size, good, values]

/-- Nothing but digits is read. -/
theorem digits_of_digits? {values : List Nat} (read : digits? (encodeUtf8 text) = .ok values) :
    Digits text := by
  apply digits_of_utf8
  intro b member
  rw [digits?] at read
  split at read
  · cases read
  · split at read
    · cases read
    · rename_i good
      rw [List.findIdx?_eq_none_iff] at good
      simpa using good b member

end Utf8

section Spells

variable {text : List Char} {bs : List UInt8}

theorem Spells.digits (spells : Spells text bs) : Digits text := by
  induction spells with
  | nil => exact fun c member => absurd member List.not_mem_nil
  | byte first second others ih =>
    exact digits_cons.mpr ⟨⟨_, first⟩, digits_cons.mpr ⟨⟨_, second⟩, ih⟩⟩

theorem Spells.length_eq (spells : Spells text bs) : text.length = 2 * bs.length := by
  induction spells with
  | nil => rfl
  | byte first second others ih =>
    simp only [List.length_cons, ih]
    omega

theorem Spells.spelled_eq (spells : Spells text bs) : spelled (text.map value) = bs := by
  induction spells with
  | nil => rfl
  | @byte high low b text bs first second others ih =>
    have whole : 16 * (b.toNat / 16) + b.toNat % 16 = b.toNat := Nat.div_add_mod _ _
    rw [List.map_cons, List.map_cons, spelled, first.value_eq, second.value_eq, whole,
      UInt8.ofNat_toNat, ih]

/-- Digits in pairs spell the bytes that are read from them. -/
theorem Digits.spells : ∀ {text : List Char}, Digits text → text.length % 2 = 0 →
    Spells text (spelled (text.map value))
  | [], _, _ => .nil
  | [_], _, even => absurd even (by simp)
  | high :: low :: text, digits, even => by
    obtain ⟨⟨h, first⟩, rest⟩ := digits_cons.mp digits
    obtain ⟨⟨l, second⟩, others⟩ := digits_cons.mp rest
    have small : 16 * h + l < 256 := by
      have := first.lt
      have := second.lt
      omega
    have byte : (UInt8.ofNat (16 * h + l)).toNat = 16 * h + l := UInt8.toNat_ofNat_of_lt' small
    have below := second.lt
    have higher : (16 * h + l) / 16 = h := by omega
    have lower : (16 * h + l) % 16 = l := by omega
    rw [List.map_cons, List.map_cons, spelled, first.value_eq, second.value_eq]
    refine .byte ?_ ?_ (others.spells ?_)
    · rw [byte, higher]
      exact first
    · rw [byte, lower]
      exact second
    · simp only [List.length_cons] at even
      omega

end Spells

section Render

variable {s before marker text after : List Char} {bs : List UInt8}

theorem exists_marker (s : List Char) : ∃ marker, Marker marker ∧ s = marker ++ unmarked s := by
  rw [unmarked.eq_def]
  split
  · exact ⟨['0', 'x'], Or.inr (Or.inl rfl), rfl⟩
  · exact ⟨['0', 'X'], Or.inr (Or.inr rfl), rfl⟩
  · exact ⟨[], Or.inl rfl, rfl⟩

/-- A marker cannot be taken for digits, nor digits for a marker. -/
theorem unmarked_marker (marks : Marker marker) (digits : Digits text) :
    unmarked (marker ++ text) = text := by
  have noMark {c : Char} (member : c ∈ text) : isMark c = false := by
    obtain ⟨v, digit⟩ := digits c member
    exact digit.solid.2
  rcases marks with rfl | rfl | rfl
  · rw [List.nil_append, unmarked.eq_def]
    split
    · exact absurd (noMark (c := 'x') (by simp)) (by decide)
    · exact absurd (noMark (c := 'X') (by simp)) (by decide)
    · rfl
  · rfl
  · rfl

theorem Marker.solid (marks : Marker marker) : ∀ c ∈ marker, Text.isBlank c = false := by
  have all : (marker.all fun c => !Text.isBlank c) = true := by
    rcases marks with rfl | rfl | rfl <;> rfl
  simpa using all

theorem Digits.solid (digits : Digits text) : ∀ c ∈ text, Text.isBlank c = false := by
  intro c member
  obtain ⟨v, digit⟩ := digits c member
  exact digit.solid.1

theorem solid_body (marks : Marker marker) (digits : Digits text) :
    ∀ c ∈ marker ++ text, Text.isBlank c = false :=
  List.forall_mem_append.mpr ⟨marks.solid, digits.solid⟩

theorem trim_body (left : Blanks before) (marks : Marker marker) (digits : Digits text)
    (right : Blanks after) : Text.trim (before ++ (marker ++ text) ++ after) = marker ++ text := by
  have solid := solid_body marks digits
  exact Text.trim_padded left right (fun c head => solid c (List.mem_of_mem_head? head))
    (fun c last => solid c (List.mem_of_mem_getLast? last))

theorem decode_eq (s : List Char) :
    decode s = (digits? (encodeUtf8 (unmarked (Text.trim s)))).map spelled := by
  rw [decode]
  cases digits? (encodeUtf8 (unmarked (Text.trim s))) with
  | error fault => rfl
  | ok values => exact congrArg Except.ok (toList_spell #[] values)

/-- Digits behind a marker, or behind none, are read in pairs. -/
theorem decode_body (left : Blanks before) (marks : Marker marker) (digits : Digits text)
    (right : Blanks after) : decode (before ++ (marker ++ text) ++ after) =
      if text.length % 2 = 1 then .error .oddLength else .ok (spelled (text.map value)) := by
  rw [decode_eq, trim_body left marks digits right, unmarked_marker marks digits,
    digits.digits?_eq]
  split <;> rfl

theorem Renders.decode_eq (renders : Renders s bs) : decode s = .ok bs := by
  obtain ⟨before, marker, text, after, rfl, left, marks, spells, right⟩ := renders
  have even : ¬ text.length % 2 = 1 := by
    rw [spells.length_eq]
    omega
  rw [decode_body left marks spells.digits right, if_neg even, spells.spelled_eq]

theorem renders_of_decode (read : decode s = .ok bs) : Renders s bs := by
  obtain ⟨before, after, left, right, padded⟩ := Text.exists_trim s
  obtain ⟨marker, marks, body⟩ := exists_marker (Text.trim s)
  rw [body] at padded
  have digits : Digits (unmarked (Text.trim s)) := by
    have accepted := read
    rw [Hex.decode_eq] at accepted
    cases found : digits? (encodeUtf8 (unmarked (Text.trim s))) with
    | error fault =>
      rw [found] at accepted
      cases accepted
    | ok values => exact digits_of_digits? found
  generalize unmarked (Text.trim s) = text at padded digits
  rw [padded, decode_body left marks digits right] at read
  split at read
  · cases read
  · rename_i even
    cases read
    exact ⟨before, marker, text, after, padded, left, marks, digits.spells (by omega), right⟩

/-- What no bytes are rendered as is refused. -/
theorem refused_of_not_renders (other : ∀ bs, ¬ Renders s bs) :
    ∃ fault, decode s = .error fault := by
  cases read : decode s with
  | error fault => exact ⟨fault, rfl⟩
  | ok bs => exact absurd (renders_of_decode read) (other bs)

theorem Blanks.no_mark {blanks : List Char} (blank : Blanks blanks) :
    blanks.countP isMark = 0 := by
  apply List.countP_eq_zero.mpr
  intro c member mark
  simp only [isMark, Bool.or_eq_true, beq_iff_eq] at mark
  rcases mark with rfl | rfl
  · exact absurd (blank _ member) (by decide)
  · exact absurd (blank _ member) (by decide)

theorem Digits.no_mark (digits : Digits text) : text.countP isMark = 0 := by
  apply List.countP_eq_zero.mpr
  intro c member mark
  obtain ⟨v, digit⟩ := digits c member
  rw [digit.solid.2] at mark
  cases mark

theorem Marker.mark_le (marks : Marker marker) : marker.countP isMark ≤ 1 := by
  rcases marks with rfl | rfl | rfl <;> decide

/-- The letter of a marker stands in a text once at most. -/
theorem Renders.mark_le (renders : Renders s bs) : s.countP isMark ≤ 1 := by
  obtain ⟨before, marker, text, after, rfl, left, marks, spells, right⟩ := renders
  rw [List.countP_append, List.countP_append, List.countP_append, left.no_mark,
    spells.digits.no_mark, right.no_mark, Nat.zero_add]
  exact marks.mark_le

/-- No blank stands between two other characters of a text. -/
theorem Renders.no_gap {a b : List Char} {c : Char} (renders : Renders (a ++ c :: b) bs)
    (blank : Text.isBlank c = true) : Blanks a ∨ Blanks b := by
  obtain ⟨before, marker, text, after, split, left, marks, spells, right⟩ := renders
  have solid := solid_body marks spells.digits
  generalize marker ++ text = body at split solid
  rcases List.append_eq_append_iff.mp split with ⟨m, inner, rest⟩ | ⟨m, _, rest⟩
  · cases m with
    | nil =>
      rw [List.nil_append] at rest
      exact Or.inr fun d member => right d (rest ▸ List.mem_cons_of_mem c member)
    | cons d m =>
      cases rest
      rcases List.append_eq_append_iff.mp inner with ⟨k, _, late⟩ | ⟨k, early, _⟩
      · have whole := solid c (late ▸ List.mem_append_right k List.mem_cons_self)
        rw [blank] at whole
        cases whole
      · exact Or.inl fun d member => left d (early ▸ List.mem_append_left k member)
  · exact Or.inr fun d member =>
      right d (rest ▸ List.mem_append_right m (List.mem_cons_of_mem c member))

theorem hexByte_digits (b : UInt8) : ∃ high low, Text.hexByte b = [high, low] ∧
    Digit high (b.toNat / 16) ∧ Digit low (b.toNat % 16) := by
  have byte := b.toNat_lt
  exact ⟨_, _, rfl, digit_iff.mpr (Text.hexValue?_digitChar _ (by omega)),
    digit_iff.mpr (Text.hexValue?_digitChar _ (by omega))⟩

theorem spells_hexBytes (bs : List UInt8) : Spells (Text.hexBytes bs) bs := by
  induction bs with
  | nil => exact .nil
  | cons b bs ih =>
    obtain ⟨high, low, pair, first, second⟩ := hexByte_digits b
    rw [Text.hexBytes, List.flatMap_cons, pair]
    exact .byte first second ih

theorem hexBytes_injective {bs bs' : List UInt8} (same : Text.hexBytes bs = Text.hexBytes bs') :
    bs = bs' := by
  rw [← (spells_hexBytes bs).spelled_eq, same, (spells_hexBytes bs').spelled_eq]

theorem hexByte_injective {b b' : UInt8} (same : Text.hexByte b = Text.hexByte b') : b = b' := by
  have alone : Text.hexBytes [b] = Text.hexBytes [b'] := by
    simp only [Text.hexBytes, List.flatMap_singleton, same]
  exact List.singleton_inj.mp (hexBytes_injective alone)

theorem renders_text (d : Digest) : Renders d.text d.toList :=
  ⟨[], ['0', 'x'], Text.hexBytes d.toList, [], (List.append_nil _).symm, blanks_nil,
    Or.inr (Or.inl rfl), spells_hexBytes _, blanks_nil⟩

theorem ofHex_eq_ok_iff : Bytecode.ofHex s = .ok (.ofBytes bs) ↔ decode s = .ok bs := by
  rw [Bytecode.ofHex]
  cases decode s with
  | error fault => exact iff_of_false (fun same => by cases same) (fun same => by cases same)
  | ok read =>
    constructor
    · intro same
      exact congrArg Except.ok (congrArg Bytecode.bytes (Except.ok.inj same))
    · intro same
      cases same
      rfl

end Render

/-- A text is read as bytes exactly if it renders them: blanks, a marker or none, two digits in
either case for each byte, and blanks. So a second marker is refused, and a blank between other
characters, and an odd number of digits. The text of a digest is read as its bytes, and what renders
the bytes of a code is read as that code. -/
theorem decode_eq_ok_iff_renders :
    (∀ s bs, decode s = .ok bs ↔ Renders s bs) ∧
    (∀ s, 1 < s.countP isMark → ∃ fault, decode s = .error fault) ∧
    (∀ a c b, Text.isBlank c = true → ¬ Blanks a → ¬ Blanks b →
      ∃ fault, decode (a ++ c :: b) = .error fault) ∧
    (∀ before marker text after, Blanks before → Marker marker → Digits text → Blanks after →
      text.length % 2 = 1 → decode (before ++ (marker ++ text) ++ after) = .error .oddLength) ∧
    (∀ d : Digest, decode d.text = .ok d.toList) ∧
    ∀ s bs, Bytecode.ofHex s = .ok (.ofBytes bs) ↔ Renders s bs := by
  have accepts (s : List Char) (bs : List UInt8) : decode s = .ok bs ↔ Renders s bs :=
    ⟨renders_of_decode, Renders.decode_eq⟩
  refine ⟨accepts, ?_, ?_, ?_, fun d => (renders_text d).decode_eq,
    fun s bs => ofHex_eq_ok_iff.trans (accepts s bs)⟩
  · intro s twice
    apply refused_of_not_renders
    intro bs renders
    exact absurd renders.mark_le (Nat.not_le.mpr twice)
  · intro a c b blank before behind
    apply refused_of_not_renders
    intro bs renders
    rcases renders.no_gap blank with blanks | blanks
    · exact before blanks
    · exact behind blanks
  · intro before marker text after left marks digits right odd
    rw [decode_body left marks digits right, if_pos odd]

/-- A text in mixed case with blanks around it; two markers; a blank between two bytes; and three
digits. -/
theorem decode_eq_ok_iff_renders_mixed :
    decode "\t0XaB5b\n".toList = .ok [0xab, 0x5b] ∧
    1 < "0x0x5b".toList.countP isMark ∧ (∃ fault, decode "0x0x5b".toList = .error fault) ∧
    Text.isBlank ' ' = true ∧ ¬ Blanks "0x5b".toList ∧ ¬ Blanks "60".toList ∧
      (∃ fault, decode ("0x5b".toList ++ ' ' :: "60".toList) = .error fault) ∧
    Blanks "\r".toList ∧ Marker "0x".toList ∧ Digits "5b6".toList ∧ Blanks "\n".toList ∧
      "5b6".toList.length % 2 = 1 ∧
      decode ("\r".toList ++ ("0x".toList ++ "5b6".toList) ++ "\n".toList) =
        .error .oddLength := by
  obtain ⟨accepts, marks, gaps, odd, _⟩ := decode_eq_ok_iff_renders
  have spells : Spells "aB5b".toList [0xab, 0x5b] :=
    .byte (by decide) (by decide) (.byte (by decide) (by decide) .nil)
  have renders : Renders "\t0XaB5b\n".toList [0xab, 0x5b] :=
    ⟨['\t'], ['0', 'X'], _, ['\n'], rfl, by decide, Or.inr (Or.inr rfl), spells, by decide⟩
  have twice : 1 < "0x0x5b".toList.countP isMark := by decide
  have blank : Text.isBlank ' ' = true := by decide
  have before : ¬ Blanks "0x5b".toList := by decide
  have behind : ¬ Blanks "60".toList := by decide
  have left : Blanks "\r".toList := by decide
  have marker : Marker "0x".toList := Or.inr (Or.inl rfl)
  have right : Blanks "\n".toList := by decide
  have three : "5b6".toList.length % 2 = 1 := by decide
  have digits : Digits "5b6".toList :=
    digits_cons.mpr ⟨⟨5, by decide⟩, digits_cons.mpr ⟨⟨11, by decide⟩,
      digits_cons.mpr ⟨⟨6, by decide⟩, fun c member => absurd member List.not_mem_nil⟩⟩⟩
  exact ⟨(accepts _ _).mpr renders, twice, marks _ twice, blank, before, behind,
    gaps _ _ _ blank before behind, left, marker, digits, right, three,
    odd _ _ _ _ left marker digits right three⟩

end EvmJumps.Hex
