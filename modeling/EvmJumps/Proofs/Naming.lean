import Mathlib.Data.List.Forall2
import EvmJumps.Proofs.Mnemonics

namespace EvmJumps.Opcode

/-- The same character, or the same ASCII letter in the other case. -/
def SameLetter (c d : Char) : Prop :=
  c = d ∨ (c.isUpper = true ∧ d.toNat = c.toNat + 32) ∨ d.isUpper = true ∧ c.toNat = d.toNat + 32

instance (c d : Char) : Decidable (SameLetter c d) :=
  inferInstanceAs (Decidable (_ ∨ _))

def SameUpToCase (s t : List Char) : Prop :=
  List.Forall₂ SameLetter s t

/-- The opcode has a name, and the text between the blanks is that name in letters of any case. -/
def Names (s : List Char) (o : Opcode) : Prop :=
  ∃ name body, o.mnemonic? = some name ∧ Text.Trimmed s body ∧ SameUpToCase body name.toList

section Letters

variable {c d : Char} {s t : List Char} {entry : String × UInt8} {o o' : Opcode}

/-- A range of characters is a range of their codes. -/
theorem between_iff (a b c : Char) :
    (a.val ≤ c.val ∧ c.val ≤ b.val) ↔ a.toNat ≤ c.toNat ∧ c.toNat ≤ b.toNat := by
  rw [UInt32.le_iff_toNat_le, UInt32.le_iff_toNat_le]
  rfl

theorem isUpper_iff : c.isUpper = true ↔ 65 ≤ c.toNat ∧ c.toNat ≤ 90 :=
  decide_eq_true_iff.trans (between_iff 'A' 'Z' c)

theorem and_between_iff (a b c : Char) :
    (decide (a.val ≤ c.val) && decide (c.val ≤ b.val)) = true ↔
      a.toNat ≤ c.toNat ∧ c.toNat ≤ b.toNat := by
  rw [Bool.and_eq_true, decide_eq_true_eq, decide_eq_true_eq, between_iff]

theorem toNat_toUpper (c : Char) : c.toUpper.toNat =
    if 97 ≤ c.toNat ∧ c.toNat ≤ 122 then c.toNat - 32 else c.toNat := by
  have lower : ('a'.val ≤ c.val ∧ c.val ≤ 'z'.val) ↔ 97 ≤ c.toNat ∧ c.toNat ≤ 122 :=
    between_iff 'a' 'z' c
  unfold Char.toUpper
  split
  · next small =>
    have range := lower.mp small
    rw [if_pos range]
    change (c.val + ('A'.val - 'a'.val)).toNat = c.toNat - 32
    rw [UInt32.toNat_add]
    change (c.toNat + 4294967264) % 2 ^ 32 = c.toNat - 32
    omega
  · next other => rw [if_neg (fun range => other (lower.mpr range))]

theorem sameLetter_iff : SameLetter c d ↔ c.toUpper = d.toUpper := by
  rw [← Char.toNat_inj, toNat_toUpper, toNat_toUpper, SameLetter, isUpper_iff, isUpper_iff,
    ← Char.toNat_inj]
  split <;> split <;> omega

theorem sameUpToCase_iff : SameUpToCase s t ↔ sameLetters s t = true := by
  rw [sameLetters, beq_iff_eq, ← List.forall₂_eq_eq_eq, List.forall₂_map_left_iff,
    List.forall₂_map_right_iff, SameUpToCase]
  simp only [← sameLetter_iff]

theorem sameUpToCase_comm : SameUpToCase s t ↔ sameLetters t s = true := by
  rw [sameUpToCase_iff, sameLetters, sameLetters, beq_iff_eq, beq_iff_eq, eq_comm]

end Letters

section Names

variable {s body : List Char} {entry : String × UInt8} {o o' : Opcode}

/-- A name is found under its opcode, as no two names have the same letters. -/
theorem find?_letters : (table.find? fun e => sameLetters e.1.toList body) = some entry ↔
    entry ∈ table ∧ SameUpToCase body entry.1.toList := by
  rw [sameUpToCase_comm]
  apply find?_table
  intro e one e' other letters letters'
  apply entry_eq_of_sameLetters one other
  rw [sameLetters, beq_iff_eq] at letters letters' ⊢
  exact letters.trans letters'.symm

theorem parse_eq (s : List Char) : parse s =
    match table.find? fun e => sameLetters e.1.toList (Text.trim s) with
    | some entry => .ok ⟨entry.2⟩
    | none => .error (.unknownMnemonic (Text.trim s)) :=
  rfl

theorem Names.parse_eq (named : Names s o) : parse s = .ok o := by
  obtain ⟨name, body, mnemonic, trimmed, letters⟩ := named
  have entry := mnemonic?_eq_some_iff.mp mnemonic
  rw [Text.trimmed_iff.mp trimmed] at letters
  rw [Opcode.parse_eq, find?_letters.mpr ⟨entry, letters⟩]

theorem names_of_parse (read : parse s = .ok o) : Names s o := by
  rw [parse_eq] at read
  split at read
  · next entry found =>
    cases read
    obtain ⟨member, letters⟩ := find?_letters.mp found
    exact ⟨_, _, mnemonic?_eq_some_iff.mpr member, Text.trimmed_iff.mpr rfl, letters⟩
  · cases read

theorem parse_of_not_names (other : ∀ o, ¬ Names s o) :
    parse s = .error (.unknownMnemonic (Text.trim s)) := by
  cases found : table.find? fun e => sameLetters e.1.toList (Text.trim s) with
  | some entry =>
    have read : parse s = .ok ⟨entry.2⟩ := by rw [parse_eq, found]
    exact absurd (names_of_parse read) (other _)
  | none => rw [parse_eq, found]

theorem Names.unique (one : Names s o) (other : Names s o') : o = o' := by
  have same := one.parse_eq.symm.trans other.parse_eq
  exact Except.ok.inj same

end Names

section Shown

variable {c d : Char} {s t body : List Char} {o : Opcode}

theorem range_of_isAlphanum (alphanum : c.isAlphanum = true) : 48 ≤ c.toNat ∧ c.toNat ≤ 122 := by
  have lower : c.isLower = true ↔ 97 ≤ c.toNat ∧ c.toNat ≤ 122 := and_between_iff 'a' 'z' c
  have digit : c.isDigit = true ↔ 48 ≤ c.toNat ∧ c.toNat ≤ 57 := and_between_iff '0' '9' c
  have kinds : c.isAlphanum = (c.isUpper || c.isLower || c.isDigit) := rfl
  rw [kinds, Bool.or_eq_true, Bool.or_eq_true, isUpper_iff, lower, digit] at alphanum
  omega

theorem isBlank_eq_false (low : 33 ≤ c.toNat) (high : c.toNat ≤ 126) : Text.isBlank c = false := by
  cases blank : Text.isBlank c with
  | false => rfl
  | true =>
    simp only [Text.isBlank, Bool.or_eq_true, Bool.and_eq_true, decide_eq_true_eq, beq_iff_eq]
      at blank
    omega

/-- Letters of the other case are no blanks either. -/
theorem SameLetter.solid (same : SameLetter c d) (alphanum : d.isAlphanum = true) :
    Text.isBlank c = false := by
  have range := range_of_isAlphanum alphanum
  rcases same with rfl | ⟨upper, code⟩ | ⟨upper, code⟩
  · exact isBlank_eq_false (by omega) (by omega)
  · have low := isUpper_iff.mp upper
    exact isBlank_eq_false (by omega) (by omega)
  · have low := isUpper_iff.mp upper
    exact isBlank_eq_false (by omega) (by omega)

theorem SameUpToCase.exists_of_mem (same : SameUpToCase s t) (member : c ∈ s) :
    ∃ d ∈ t, SameLetter c d := by
  induction same with
  | nil => cases member
  | cons letter others ih =>
    rcases List.mem_cons.mp member with rfl | later
    · exact ⟨_, List.mem_cons_self, letter⟩
    · obtain ⟨d, found, letter⟩ := ih later
      exact ⟨d, List.mem_cons_of_mem _ found, letter⟩

/-- What is shown for an opcode with a name is read as that opcode, in letters of any case and with
any blanks around it. -/
theorem parse_display (named : o.mnemonic?.isSome = true) {before after : List Char}
    (left : Hex.Blanks before) (right : Hex.Blanks after) (letters : SameUpToCase body o.display) :
    parse (before ++ body ++ after) = .ok o := by
  obtain ⟨name, mnemonic⟩ := Option.isSome_iff_exists.mp named
  have solid (c : Char) (member : c ∈ body) : Text.isBlank c = false := by
    obtain ⟨d, found, letter⟩ := letters.exists_of_mem member
    exact letter.solid (alphanum_of_named mnemonic d found)
  have trimmed : Text.Trimmed (before ++ body ++ after) body :=
    ⟨⟨before, after, left, right, rfl⟩, fun c head => solid c (List.mem_of_mem_head? head),
      fun c last => solid c (List.mem_of_mem_getLast? last)⟩
  rw [display_of_named mnemonic] at letters
  exact Names.parse_eq ⟨name, body, mnemonic, trimmed, letters⟩

theorem trimmed_display (unnamed : o.mnemonic? = none) : Text.Trimmed o.display o.display := by
  have blank : ∀ c ∈ ([] : List Char), Text.isBlank c := fun c member => by cases member
  refine ⟨⟨[], [], blank, blank, by simp⟩, ?_, ?_⟩
  · rw [display_of_unnamed unnamed]
    intro c head
    cases head
    decide
  · rw [display_of_unnamed unnamed, List.getLast?_append]
    intro c last
    cases last
    decide

/-- A bracket is no letter, so it stands in no name. -/
theorem not_names_display (unnamed : o.mnemonic? = none) (o' : Opcode) :
    ¬ Names o.display o' := by
  rintro ⟨name, body, mnemonic, trimmed, letters⟩
  have whole : body = o.display :=
    (Text.trimmed_iff.mp trimmed).trans (Text.trimmed_iff.mp (trimmed_display unnamed)).symm
  obtain ⟨d, member, letter⟩ :=
    letters.exists_of_mem (whole ▸ bracket_of_unnamed unnamed)
  rw [← display_of_named mnemonic] at member
  have alphanum := alphanum_of_named mnemonic d member
  have range := range_of_isAlphanum alphanum
  have code : '('.toNat = 40 := rfl
  rcases letter with rfl | ⟨upper, _⟩ | ⟨_, below⟩
  · omega
  · cases upper
  · omega

end Shown

/-- A text is read as an opcode exactly if, between blanks, it is the name of that opcode in letters
of any case; any other text is refused with what stands between its blanks. So reading undoes what
is shown for every opcode that has a name, no text stands for two opcodes or for one without a name,
and what is shown for an opcode without a name is not read. -/
theorem reads_names_only :
    (∀ s o, parse s = .ok o ↔ Names s o) ∧
    (∀ s, (∀ o, ¬ Names s o) →
      ∃ body, Text.Trimmed s body ∧ parse s = .error (.unknownMnemonic body)) ∧
    (∀ body, (Error.unknownMnemonic body).kind = .decoding ∧ (Error.unknownMnemonic body).message =
      "Erro de decodificação: mnemônico desconhecido: " ++ String.ofList body) ∧
    (∀ (o : Opcode) before body after, o.mnemonic?.isSome = true → Hex.Blanks before →
      Hex.Blanks after → SameUpToCase body o.display → parse (before ++ body ++ after) = .ok o) ∧
    (∀ s o o', Names s o → Names s o' → o = o') ∧
    (∀ s o, parse s = .ok o → o.mnemonic?.isSome = true) ∧
    ∀ o : Opcode, o.mnemonic? = none →
      o.display = "UNKNOWN(0x".toList ++ Text.hexByte o.byte ++ [')'] ∧
      parse o.display = .error (.unknownMnemonic o.display) := by
  refine ⟨fun s o => ⟨names_of_parse, Names.parse_eq⟩, ?_, ?_,
    fun o before body after named left right => parse_display named left right,
    fun s o o' => Names.unique, ?_, ?_⟩
  · intro s other
    exact ⟨Text.trim s, Text.trimmed_iff.mpr rfl, parse_of_not_names other⟩
  · intro body
    have heading : "Erro de decodificação: mnemônico desconhecido: " =
        "Erro de decodificação: " ++ "mnemônico desconhecido: " := by decide
    refine ⟨rfl, ?_⟩
    rw [heading, String.append_assoc]
    rfl
  · intro s o read
    obtain ⟨name, _, mnemonic, _⟩ := names_of_parse read
    rw [mnemonic]
    rfl
  · intro o unnamed
    refine ⟨display_of_unnamed unnamed, ?_⟩
    rw [parse_of_not_names (not_names_display unnamed),
      ← Text.trimmed_iff.mp (trimmed_display unnamed)]

/-- Mixed case between a tab and an ideographic space; the Kelvin sign, which is no ASCII letter
although its lower case is one; and a byte without a name. -/
theorem reads_names_only_mixed :
    Names "\tjUmPdEsT\u3000".toList jumpdest ∧ parse "\tjUmPdEsT\u3000".toList = .ok jumpdest ∧
    (∀ o, ¬ Names " BLOC\u212aHASH".toList o) ∧ (∃ body,
      Text.Trimmed " BLOC\u212aHASH".toList body ∧
      parse " BLOC\u212aHASH".toList = .error (.unknownMnemonic body)) ∧
    jumpdest.mnemonic?.isSome = true ∧ Hex.Blanks "\t".toList ∧ Hex.Blanks "\u3000".toList ∧
      SameUpToCase "jumpDEST".toList jumpdest.display ∧
      parse ("\t".toList ++ "jumpDEST".toList ++ "\u3000".toList) = .ok jumpdest ∧
    (⟨0x0c⟩ : Opcode).mnemonic? = none ∧
      parse (⟨0x0c⟩ : Opcode).display = .error (.unknownMnemonic (⟨0x0c⟩ : Opcode).display) := by
  obtain ⟨accepts, refuses, _, inverts, _, _, undefined⟩ := reads_names_only
  have mnemonic : jumpdest.mnemonic? = some "JUMPDEST" := by decide +kernel
  have letters : SameUpToCase "jUmPdEsT".toList "JUMPDEST".toList :=
    sameUpToCase_iff.mpr (by decide)
  have named : Names "\tjUmPdEsT\u3000".toList jumpdest :=
    ⟨_, _, mnemonic, Text.trimmed_iff.mpr (by decide), letters⟩
  have absent : (table.find? fun e =>
      sameLetters e.1.toList (Text.trim " BLOC\u212aHASH".toList)) = none := by decide +kernel
  have unread (o : Opcode) : ¬ Names " BLOC\u212aHASH".toList o := by
    intro named
    have read := (accepts _ _).mpr named
    rw [parse_eq, absent] at read
    cases read
  have isSome : jumpdest.mnemonic?.isSome = true := by rw [mnemonic]; rfl
  have shown : SameUpToCase "jumpDEST".toList jumpdest.display := by
    rw [display_of_named mnemonic]
    exact sameUpToCase_iff.mpr (by decide)
  have left : Hex.Blanks "\t".toList := by decide
  have right : Hex.Blanks "\u3000".toList := by decide
  have unnamed : (⟨0x0c⟩ : Opcode).mnemonic? = none := by decide +kernel
  exact ⟨named, (accepts _ _).mpr named, unread, refuses _ unread, isSome, left, right, shown,
    inverts _ _ _ _ isSome left right shown, unnamed, (undefined _ unnamed).2⟩

end EvmJumps.Opcode
