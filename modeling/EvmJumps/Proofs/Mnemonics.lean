import Mathlib.Data.List.Nodup
import EvmJumps.Opcode
import EvmJumps.Proofs.Hex.Spelling

namespace EvmJumps.Opcode

/-- The letters of a name as one number, whatever their case. -/
def letterCode (name : List Char) : Nat :=
  (name.map Char.toUpper).foldl (fun n c => 128 * n + c.toNat) 0

theorem table_letters_nodup : (table.map fun entry => letterCode entry.1.toList).Nodup := by
  decide +kernel

theorem table_alphanum : (table.all fun entry => entry.1.toList.all Char.isAlphanum) = true := by
  decide +kernel

section Entry

variable {entry entry' : String × UInt8} {name : String} {o : Opcode}

theorem entry_eq_of_sameLetters (one : entry ∈ table) (other : entry' ∈ table)
    (same : sameLetters entry.1.toList entry'.1.toList = true) : entry = entry' := by
  have letters : letterCode entry.1.toList = letterCode entry'.1.toList := by
    rw [letterCode, letterCode, beq_iff_eq.mp same]
  exact List.inj_on_of_nodup_map table_letters_nodup one other letters

theorem entry_eq_of_byte (one : entry ∈ table) (other : entry' ∈ table)
    (same : entry.2 = entry'.2) : entry = entry' :=
  List.inj_on_of_nodup_map table_bytes_nodup one other (congrArg UInt8.toNat same)

/-- What only one entry can answer is answered by that entry, wherever it stands in the table. -/
theorem find?_table {p : String × UInt8 → Bool}
    (unique : ∀ e ∈ table, ∀ e' ∈ table, p e = true → p e' = true → e = e') :
    table.find? p = some entry ↔ entry ∈ table ∧ p entry = true := by
  constructor
  · intro found
    exact ⟨List.mem_of_find?_eq_some found, List.find?_some found⟩
  · intro ⟨member, meets⟩
    obtain ⟨first, found⟩ : ∃ first, table.find? p = some first := by
      apply Option.isSome_iff_exists.mp
      exact List.find?_isSome.mpr ⟨entry, member, meets⟩
    rw [found, unique first (List.mem_of_find?_eq_some found) entry member
      (List.find?_some found) meets]

/-- The name of an opcode is the one that stands beside its byte. -/
theorem mnemonic?_eq_some_iff : o.mnemonic? = some name ↔ (name, o.byte) ∈ table := by
  have unique : ∀ e ∈ table, ∀ e' ∈ table, (e.2 == o.byte) = true → (e'.2 == o.byte) = true →
      e = e' := by
    intro e one e' other byte byte'
    exact entry_eq_of_byte one other ((beq_iff_eq.mp byte).trans (beq_iff_eq.mp byte').symm)
  rw [mnemonic?, Option.map_eq_some_iff]
  constructor
  · rintro ⟨⟨_, b⟩, found, rfl⟩
    obtain ⟨member, byte⟩ := (find?_table unique).mp found
    rw [← beq_iff_eq.mp byte]
    exact member
  · intro member
    exact ⟨_, (find?_table unique).mpr ⟨member, beq_self_eq_true _⟩, rfl⟩

end Entry

section Display

variable {o o' : Opcode}

theorem display_of_named {name : String} (named : o.mnemonic? = some name) :
    o.display = name.toList := by
  rw [display, named]

theorem display_of_unnamed (unnamed : o.mnemonic? = none) :
    o.display = "UNKNOWN(0x".toList ++ Text.hexByte o.byte ++ [')'] := by
  rw [display, unnamed]

theorem alphanum_of_named {name : String} (named : o.mnemonic? = some name) :
    ∀ c ∈ o.display, c.isAlphanum = true := by
  have all := List.all_eq_true.mp table_alphanum _ (mnemonic?_eq_some_iff.mp named)
  rw [display_of_named named]
  exact List.all_eq_true.mp all

/-- A bracket, which no name has. -/
theorem bracket_of_unnamed (unnamed : o.mnemonic? = none) : '(' ∈ o.display := by
  rw [display_of_unnamed unnamed]
  simp

theorem mem_display {c : Char} (member : c ∈ o.display) :
    c.isAlphanum = true ∨ c = '(' ∨ c = ')' := by
  cases named : o.mnemonic? with
  | some name => exact Or.inl (alphanum_of_named named c member)
  | none =>
    rw [display_of_unnamed named, List.mem_append, List.mem_append] at member
    rcases member with (word | digit) | close
    · have all : ("UNKNOWN(0x".toList.all fun d => d.isAlphanum || d == '(') = true := by decide
      have found := List.all_eq_true.mp all c word
      rw [Bool.or_eq_true, beq_iff_eq] at found
      exact found.imp_right Or.inl
    · exact Or.inl (Text.isAlphanum_of_mem_hexByte digit)
    · exact Or.inr (Or.inr (List.mem_singleton.mp close))

/-- An opcode is told by what is shown for it, with a name or without. -/
theorem display_injective (same : o.display = o'.display) : o = o' := by
  cases named : o.mnemonic? with
  | some name =>
    cases named' : o'.mnemonic? with
    | some name' =>
      rw [display_of_named named, display_of_named named', String.toList_inj] at same
      subst same
      have entry := entry_eq_of_sameLetters (mnemonic?_eq_some_iff.mp named)
        (mnemonic?_eq_some_iff.mp named') (beq_self_eq_true _)
      exact congrArg Opcode.mk (congrArg Prod.snd entry)
    | none =>
      have bracket := alphanum_of_named named '(' (same ▸ bracket_of_unnamed named')
      cases bracket
  | none =>
    cases named' : o'.mnemonic? with
    | some name =>
      have bracket := alphanum_of_named named' '(' (same ▸ bracket_of_unnamed named)
      cases bracket
    | none =>
      rw [display_of_unnamed named, display_of_unnamed named', List.append_left_inj,
        List.append_right_inj] at same
      exact congrArg Opcode.mk (Hex.hexByte_injective same)

end Display

end EvmJumps.Opcode
