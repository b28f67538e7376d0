import EvmJumps.Proofs.Hex.Spelling

namespace EvmJumps.Hex

/-- What is left of a text when one marker is taken off, if there is one. -/
inductive Unmarked : List Char → List Char → Prop
  | lower (text : List Char) : Unmarked ('0' :: 'x' :: text) text
  | upper (text : List Char) : Unmarked ('0' :: 'X' :: text) text
  | absent {text : List Char}
    (bare : ∀ marker rest, Marker marker → text = marker ++ rest → marker = []) :
    Unmarked text text

/-- The bytes in UTF-8 of what stands in a text between its blanks and behind its marker. -/
def Payload (s : List Char) (bytes : List UInt8) : Prop :=
  ∃ body text, Text.Trimmed s body ∧ Unmarked body text ∧
    bytes = (String.ofList text).toUTF8.data.toList

/-- The byte is the code of a digit. -/
def DigitByte (b : UInt8) : Prop :=
  ∃ value, Digit (Char.ofNat b.toNat) value

/-- A byte that is no digit stands in this place, and none stands before it. -/
structure FirstBad (bytes : List UInt8) (b : UInt8) (p : Nat) : Prop where
  found : bytes[p]? = some b
  bad : ¬ DigitByte b
  earlier : ∀ q c, q < p → bytes[q]? = some c → DigitByte c

section Payload

variable {s body text : List Char} {bytes : List UInt8}

theorem unmarked_iff : Unmarked body text ↔ text = unmarked body := by
  constructor
  · intro unmarks
    cases unmarks with
    | lower => rfl
    | upper => rfl
    | absent bare =>
      rw [unmarked.eq_def]
      split
      · next rest => cases bare ['0', 'x'] rest (Or.inr (Or.inl rfl)) rfl
      · next rest => cases bare ['0', 'X'] rest (Or.inr (Or.inr rfl)) rfl
      · rfl
  · rintro rfl
    rw [unmarked.eq_def]
    split
    · exact .lower _
    · exact .upper _
    · next lower upper =>
      refine .absent ?_
      rintro marker rest (rfl | rfl | rfl) split
      · rfl
      · exact absurd split (lower rest)
      · exact absurd split (upper rest)

theorem utf8_eq (text : List Char) :
    (String.ofList text).toUTF8.data.toList = encodeUtf8 text := by
  change ((text.flatMap String.utf8EncodeChar).toByteArray).data.toList = _
  rw [List.data_toByteArray]
  rfl

theorem payload_iff : Payload s bytes ↔ bytes = encodeUtf8 (unmarked (Text.trim s)) := by
  constructor
  · rintro ⟨body, text, trimmed, unmarks, rfl⟩
    rw [utf8_eq, unmarked_iff.mp unmarks, Text.trimmed_iff.mp trimmed]
  · rintro rfl
    exact ⟨_, _, Text.trimmed_iff.mpr rfl, unmarked_iff.mpr rfl, (utf8_eq _).symm⟩

end Payload

section Faults

variable {b c : UInt8} {bytes : List UInt8} {p : Nat}

theorem toNat_ofNat_byte (b : UInt8) : (Char.ofNat b.toNat).toNat = b.toNat := by
  have byte := b.toNat_lt
  have valid : b.toNat.isValidChar := Or.inl (by omega)
  rw [Char.ofNat, dif_pos valid]
  rfl

theorem digitByte_iff : DigitByte b ↔ (digit? b).isSome = true := by
  simp only [DigitByte, digit_iff, toNat_ofNat_byte, digit?, Option.isSome_iff_exists]

theorem isNone_iff : (digit? b).isNone = true ↔ ¬ DigitByte b := by
  rw [digitByte_iff, Option.isSome_iff_ne_none, Decidable.not_not, Option.isNone_iff_eq_none]

theorem findIdx?_bad : bytes.findIdx? (fun b => (digit? b).isNone) = some p ↔
    ∃ b, FirstBad bytes b p := by
  simp only [List.findIdx?_eq_some_iff_getElem, isNone_iff]
  constructor
  · rintro ⟨inside, bad, earlier⟩
    refine ⟨bytes[p], List.getElem?_eq_getElem inside, bad, ?_⟩
    intro q c before found
    obtain ⟨_, rfl⟩ := List.getElem?_eq_some_iff.mp found
    exact Classical.not_not.mp (earlier q before)
  · rintro ⟨b, found, bad, earlier⟩
    obtain ⟨inside, rfl⟩ := List.getElem?_eq_some_iff.mp found
    refine ⟨inside, bad, ?_⟩
    intro q before
    exact not_not_intro (earlier q _ before (List.getElem?_eq_getElem _))

theorem digits?_of_odd (odd : bytes.length % 2 = 1) : digits? bytes = .error .oddLength :=
  if_pos odd

theorem FirstBad.digits? (first : FirstBad bytes b p) (even : bytes.length % 2 = 0) :
    digits? bytes = .error (.badByte b p) := by
  have place := findIdx?_bad.mpr ⟨b, first⟩
  have byte : bytes.getD p 0 = b := by rw [List.getD, first.found, Option.getD_some]
  have not_odd : ¬ bytes.length % 2 = 1 := by omega
  rw [Hex.digits?, if_neg not_odd, place]
  change Except.error (Fault.badByte (bytes.getD p 0) p) = _
  rw [byte]

theorem exists_firstBad (bad : ∃ b ∈ bytes, ¬ DigitByte b) : ∃ b p, FirstBad bytes b p := by
  obtain ⟨b, member, bad⟩ := bad
  cases place : bytes.findIdx? (fun b => (digit? b).isNone) with
  | none =>
    have good := List.findIdx?_eq_none_iff.mp place b member
    rw [isNone_iff.mpr bad] at good
    cases good
  | some p =>
    obtain ⟨b, first⟩ := findIdx?_bad.mp place
    exact ⟨b, p, first⟩

/-- A fault has one of the two causes. -/
theorem cause_of_digits? {fault : Fault} (failed : digits? bytes = .error fault) :
    bytes.length % 2 = 1 ∨ ∃ b ∈ bytes, ¬ DigitByte b := by
  by_cases odd : bytes.length % 2 = 1
  · exact Or.inl odd
  · right
    rw [digits?, if_neg odd] at failed
    split at failed
    · next p place =>
      obtain ⟨b, first⟩ := findIdx?_bad.mp place
      exact ⟨b, List.mem_of_getElem? first.found, first.bad⟩
    · cases failed

end Faults

/-- The letters that stand for bytes which a message does not show as they are. -/
def escapeLetters : List (UInt8 × Char) :=
  [(0x00, '0'), (0x09, 't'), (0x0a, 'n'), (0x0d, 'r'), (0x27, '\''), (0x5c, '\\')]

/-- The character with the code of the byte, as a message shows it: some characters by a letter
behind a backslash, and others that would not show by their code in hexadecimal digits. -/
def shown (b : UInt8) : List Char :=
  match escapeLetters.lookup b with
  | some letter => ['\\', letter]
  | none =>
    if b.toNat < 0x20 ∨ (0x7f ≤ b.toNat ∧ b.toNat ≤ 0xa0) ∨ b.toNat = 0xad then
      ['\\', 'u', '\x7b'] ++ Nat.toDigits 16 b.toNat ++ ['\x7d']
    else [Char.ofNat b.toNat]

theorem quotedChar_eq (b : UInt8) :
    Text.quotedChar (Char.ofNat b.toNat) = '\'' :: shown b ++ ['\''] := by
  have all : ∀ n < 256, Text.quotedChar (Char.ofNat n) =
      '\'' :: shown (UInt8.ofNat n) ++ ['\''] := by
    decide +kernel
  have byte := all b.toNat b.toNat_lt
  rwa [UInt8.ofNat_toNat] at byte

section Decode

variable {s : List Char} {bytes : List UInt8}

theorem Payload.decode_eq (payload : Payload s bytes) :
    decode s = (digits? bytes).map spelled := by
  rw [Hex.decode_eq, payload_iff.mp payload]

theorem decode_eq_error_iff {fault : Fault} (payload : Payload s bytes) :
    decode s = .error fault ↔ digits? bytes = .error fault := by
  rw [payload.decode_eq]
  cases digits? bytes with
  | ok values => exact iff_of_false nofun nofun
  | error e => exact ⟨fun same => by cases same; rfl, fun same => by cases same; rfl⟩

theorem ofHex_eq_error_iff {e : Error} :
    Bytecode.ofHex s = .error e ↔ ∃ fault, e = .hex fault ∧ decode s = .error fault := by
  rw [Bytecode.ofHex]
  cases decode s with
  | ok bytes =>
    constructor
    · intro same
      cases same
    · rintro ⟨_, _, same⟩
      cases same
  | error fault =>
    constructor
    · intro same
      cases same
      exact ⟨fault, rfl, rfl⟩
    · rintro ⟨_, rfl, same⟩
      cases same
      rfl

end Decode

/-- The true first fault of a text is reported. Of the bytes between its blanks and behind one
marker, an odd number is refused as such, whatever they are; if their number is even, the first of
them that is no digit is named with its place, counted in bytes behind the marker, and shown as the
character with its code. No other text is refused, and reading a code refuses the same texts with
the same faults. -/
theorem first_fault_reported :
    (∀ s, ∃ bytes, Payload s bytes ∧ ∀ other, Payload s other → other = bytes) ∧
    (∀ s bytes, Payload s bytes →
      (bytes.length % 2 = 1 → decode s = .error .oddLength) ∧
      (bytes.length % 2 = 0 →
        ∀ b p, FirstBad bytes b p → decode s = .error (.badByte b p)) ∧
      ((∃ b ∈ bytes, ¬ DigitByte b) → ∃ b p, FirstBad bytes b p) ∧
      ∀ fault, decode s = .error fault → bytes.length % 2 = 1 ∨ ∃ b ∈ bytes, ¬ DigitByte b) ∧
    (∀ s e, Bytecode.ofHex s = .error e ↔ ∃ fault, e = .hex fault ∧ decode s = .error fault) ∧
    (∀ fault, (Error.hex fault).kind = .decoding) ∧
    (Error.hex .oddLength).message =
      "Erro de decodificação: hex inválido: Odd number of digits" ∧
    ∀ b p, (Error.hex (.badByte b p)).message =
      "Erro de decodificação: hex inválido: Invalid character " ++
        String.ofList ('\'' :: shown b ++ ['\'']) ++ " at position " ++
        String.ofList (Text.decimal p) := by
  refine ⟨?_, ?_, fun s e => ofHex_eq_error_iff, fun fault => rfl, by decide, ?_⟩
  · intro s
    exact ⟨_, payload_iff.mpr rfl, fun other => payload_iff.mp⟩
  · intro s bytes payload
    refine ⟨?_, ?_, exists_firstBad, ?_⟩
    · intro odd
      exact (decode_eq_error_iff payload).mpr (digits?_of_odd odd)
    · intro even b p first
      exact (decode_eq_error_iff payload).mpr (first.digits? even)
    · intro fault failed
      exact cause_of_digits? ((decode_eq_error_iff payload).mp failed)
  · intro b p
    have heading : "Erro de decodificação: hex inválido: Invalid character " =
        "Erro de decodificação: " ++ ("hex inválido: " ++ "Invalid character ") := by decide
    have message : (Error.hex (.badByte b p)).message = "Erro de decodificação: " ++
        ("hex inválido: " ++ ("Invalid character " ++ String.ofList ('\'' :: shown b ++ ['\'']) ++
          " at position " ++ String.ofList (Text.decimal p))) := by
      rw [← quotedChar_eq]
      rfl
    rw [message, heading]
    simp only [String.append_assoc]

/-- A letter of two bytes behind a marker, which is not counted: its first byte is the fault, and is
shown as the letter with that code. With one more byte the number is odd, and that is said. -/
theorem first_fault_reported_accent :
    Payload " 0X5\u00e90 ".toList [0x35, 0xc3, 0xa9, 0x30] ∧
    FirstBad [0x35, 0xc3, 0xa9, 0x30] 0xc3 1 ∧
    decode " 0X5\u00e90 ".toList = .error (.badByte 0xc3 1) ∧
    (Error.hex (.badByte 0xc3 1)).message =
      "Erro de decodificação: hex inválido: Invalid character '\u00c3' at position 1" ∧
    Payload "0x5\u00e900".toList [0x35, 0xc3, 0xa9, 0x30, 0x30] ∧
    decode "0x5\u00e900".toList = .error .oddLength := by
  obtain ⟨_, faults, _, _, _, message⟩ := first_fault_reported
  have even : Payload " 0X5\u00e90 ".toList [0x35, 0xc3, 0xa9, 0x30] :=
    payload_iff.mpr (by decide)
  have odd : Payload "0x5\u00e900".toList [0x35, 0xc3, 0xa9, 0x30, 0x30] :=
    payload_iff.mpr (by decide)
  have first : FirstBad [0x35, 0xc3, 0xa9, 0x30] 0xc3 1 := by
    refine ⟨rfl, fun digit => absurd (digitByte_iff.mp digit) (by decide), ?_⟩
    intro q c before found
    obtain rfl : q = 0 := by omega
    cases found
    exact digitByte_iff.mpr (by decide)
  exact ⟨even, first, (faults _ _ even).2.1 rfl _ _ first, message 0xc3 1, odd,
    (faults _ _ odd).1 rfl⟩

end EvmJumps.Hex
