import EvmJumps.Proofs.Cache.Transparency
import EvmJumps.Proofs.Destinations
import EvmJumps.Proofs.Mnemonics
import EvmJumps.Report

namespace EvmJumps

/-- A line feed within the text would break it into several lines. -/
def OneLine (l : List Char) : Prop :=
  '\n' ∉ l

instance (l : List Char) : Decidable (OneLine l) :=
  inferInstanceAs (Decidable ('\n' ∉ l))

namespace OneLine

variable {l l' : List Char} {c : Char}

theorem append (first : OneLine l) (second : OneLine l') : OneLine (l ++ l') := by
  intro breaks
  rcases List.mem_append.mp breaks with here | there
  · exact first here
  · exact second there

theorem cons (other : c ≠ '\n') (rest : OneLine l) : OneLine (c :: l) := by
  intro breaks
  rcases List.mem_cons.mp breaks with here | there
  · exact other here.symm
  · exact rest there

theorem of_alphanum (all : ∀ d ∈ l, d.isAlphanum = true) : OneLine l := by
  intro breaks
  cases all _ breaks

theorem toDigits {base : Nat} (many : 1 < base) (few : base ≤ 16) (n : Nat) :
    OneLine (Nat.toDigits base n) :=
  of_alphanum fun _ => Text.isAlphanum_of_mem_toDigits many few

theorem hexOffset (n : Nat) : OneLine (Text.hexOffset n) :=
  of_alphanum fun _ => Text.isAlphanum_of_mem_hexOffset

theorem hexBytes (bs : List UInt8) : OneLine (Text.hexBytes bs) := by
  intro breaks
  obtain ⟨b, _, inside⟩ := List.mem_flatMap.mp breaks
  cases Text.isAlphanum_of_mem_hexByte inside

theorem display (o : Opcode) : OneLine o.display := by
  intro breaks
  exact absurd (Opcode.mem_display breaks) (by decide)

theorem text (i : Instruction) : OneLine i.text := by
  have name : OneLine (':' :: ' ' :: i.opcode.display) :=
    cons (by decide) (cons (by decide) (display i.opcode))
  refine append (append (hexOffset i.pc) name) ?_
  split
  · exact List.not_mem_nil
  · exact cons (by decide) (cons (by decide) (cons (by decide) (hexBytes i.immediate)))

end OneLine

/-- A walk yields one instruction for each offset, so an offset is marked exactly if the instruction
there is a marker. -/
theorem isJumpdest_walk {code : List UInt8} {i : Instruction} (walked : i ∈ (walk code).toList) :
    (JumpTable.ofCode code).isJumpdest i.pc = true ↔ i.opcode = Opcode.jumpdest := by
  rw [JumpTable.isJumpdest, JumpTable.isSet_ofCode, mem_destinations]
  constructor
  · rintro ⟨j, other, marker, place⟩
    have apart := (reads_walk code).row.ascending.imp fun less => Nat.ne_of_lt less
    rw [← List.inj_on_of_nodup_map apart other walked place]
    exact marker
  · intro marker
    exact ⟨i, walked, marker, rfl⟩

namespace Report

/-- The line of an instruction, with a star if it is a marker. -/
def starredLine (i : Instruction) : List Char :=
  (if i.opcode = Opcode.jumpdest then '*' else ' ') :: ' ' :: i.text

/-- A heading with the number of destinations and a line for each, between lines of other kinds. -/
def page (cut : List (List Char)) (ds : List Nat) (shown : List (List Char)) : List (List Char) :=
  cut ++ ("JUMPDESTs válidos (".toList ++ Text.decimal ds.length ++ [')', ':']) ::
    ds.map (fun pc => ' ' :: ' ' :: Text.hexOffset pc) ++ shown

/-- What is printed for a code: where the walk is cut off, if it is; the destinations, which are
the offsets of the starred instructions; and the instructions, if they are asked for. -/
structure Lists (code : List UInt8) (asked : Prop) (stdout : String) (cut : List (List Char))
    (ds : List Nat) (shown : List (List Char)) : Prop where
  stdout_eq : stdout = lines (page cut ds shown)
  oneLine : ∀ l ∈ page cut ds shown, OneLine l
  uncut : (walk code).exhausted.truncatedAt = none → cut = []
  cut_at : ∀ pc, (walk code).exhausted.truncatedAt = some pc →
    cut = ["PUSH truncado em ".toList ++ Text.hexOffset pc ++
      "; bytes seguintes ignorados".toList]
  ascending : ds.Pairwise (· < ·)
  starred : ((disassemble code).toList.filter fun i => (starredLine i).head? = some '*').map
    Instruction.pc = ds
  shown_of_asked : asked → shown =
    [] :: "Instruções:".toList :: (disassemble code).toList.map starredLine
  hidden : ¬ asked → shown = []

theorem starred_iff (i : Instruction) :
    (starredLine i).head? = some '*' ↔ i.opcode = Opcode.jumpdest := by
  rw [starredLine, List.head?_cons, Option.some.injEq]
  split <;> simp_all

theorem oneLine_starredLine (i : Instruction) : OneLine (starredLine i) := by
  refine OneLine.cons ?_ (OneLine.cons (by decide) (OneLine.text i))
  split <;> decide

theorem instructionLine_eq {code : List UInt8} {i : Instruction} (walked : i ∈ (walk code).toList) :
    instructionLine (.ofCode code) i = starredLine i := by
  rw [instructionLine, starredLine]
  simp only [isJumpdest_walk walked]

theorem disassemblyLines_eq (code : List UInt8) : disassemblyLines (.ofCode code) code =
    [] :: "Instruções:".toList :: (disassemble code).toList.map starredLine := by
  have lines : (disassemble code).toList.map (instructionLine (.ofCode code)) =
      (disassemble code).toList.map starredLine := by
    rw [toList_disassemble]
    exact List.map_congr_left fun i walked => instructionLine_eq walked
  rw [disassemblyLines, lines]

theorem starred_eq_destinations (is : List Instruction) :
    (is.filter fun i => (starredLine i).head? = some '*').map Instruction.pc = destinations is := by
  simp only [destinations, starred_iff, Opcode.isJumpdest, beq_eq_decide]

theorem success_ofCode (code : List UInt8) (disasm : Bool) :
    (success (.ofCode code) code disasm).stdout = lines (page
      (truncationLines (JumpTable.ofCode code).outcome) (destinations (walk code).toList)
      (if disasm then disassemblyLines (.ofCode code) code else [])) := by
  have number : (JumpTable.ofCode code).outcome.jumpdests =
      (destinations (walk code).toList).length := by
    rw [JumpTable.outcome_ofCode]
  rw [page, ← number, ← JumpTable.jumpdests_ofCode]
  rfl

theorem oneLine_truncationLines (o : Outcome) : ∀ l ∈ truncationLines o, OneLine l := by
  rw [truncationLines]
  split
  · rename_i pc _
    have place : OneLine "PUSH truncado em ".toList := by decide
    have rest : OneLine "; bytes seguintes ignorados".toList := by decide
    intro l member
    rw [List.mem_singleton.mp member]
    exact (place.append (.hexOffset pc)).append rest
  · simp

theorem oneLine_disassemblyLines (code : List UInt8) :
    ∀ l ∈ disassemblyLines (.ofCode code) code, OneLine l := by
  intro l member
  rw [disassemblyLines_eq, List.mem_cons, List.mem_cons, List.mem_map] at member
  rcases member with rfl | rfl | ⟨i, _, rfl⟩
  · decide
  · decide
  · exact oneLine_starredLine i

theorem oneLine_page {cut shown : List (List Char)} (before : ∀ l ∈ cut, OneLine l)
    (ds : List Nat) (behind : ∀ l ∈ shown, OneLine l) : ∀ l ∈ page cut ds shown, OneLine l := by
  intro l member
  rw [page, List.mem_append, List.mem_append, List.mem_cons, List.mem_map] at member
  rcases member with (early | rfl | ⟨pc, _, rfl⟩) | late
  · exact before l early
  · have words : OneLine "JUMPDESTs válidos (".toList := by decide
    exact (words.append (.toDigits (by decide) (by decide) _)).append (by decide)
  · exact .cons (by decide) (.cons (by decide) (.hexOffset pc))
  · exact behind l late

theorem lists_success (code : List UInt8) (disasm : Bool) :
    ∃ cut ds shown, Lists code (disasm = true) (success (.ofCode code) code disasm).stdout
      cut ds shown := by
  have outcome := congrArg Outcome.truncatedAt (JumpTable.outcome_ofCode code)
  refine ⟨_, _, _, success_ofCode code disasm, ?_, ?_, ?_, ?_, ?_, ?_, ?_⟩
  · apply oneLine_page (oneLine_truncationLines _)
    split
    · exact oneLine_disassemblyLines code
    · simp
  · intro uncut
    rw [truncationLines, outcome, uncut]
  · intro pc cut
    rw [truncationLines, outcome, cut]
  · exact destinations_ascending (reads_walk code).row
  · rw [starred_eq_destinations, toList_disassemble]
  · rintro rfl
    rw [if_pos rfl, disassemblyLines_eq]
  · intro other
    rw [if_neg other]

/-- The cache of the command has room for every code up to the limit, and is new. -/
theorem getOrAnalyze_fresh (code : Bytecode) : ((Cache.fresh {}).getOrAnalyze code).1 =
    if 24576 < code.size then .error (.codeTooLong code.size 24576)
    else .ok (.ofCode code.bytes) := by
  have sound := Cache.sound_after {} []
  have serves := Cache.serves_call (.fresh {}) (.getOrAnalyze code)
  have answer := sound.answer serves fun _ presented =>
    (Cache.not_sinceClear_nil _ presented).elim
  exact Cache.Answer.table.inj answer

theorem events_fresh (code : Bytecode) : (Cache.fresh {}).events code =
    if 24576 < code.size then [Cache.refused code 24576] else Cache.analysisEvents code :=
  rfl

/-- What is logged of the first argument: nothing unless it is a code in hexadecimal; that it is too
long; or else its analysis, and that it was read. -/
def logged (text : String) : List Event :=
  match Hex.decode text.toList with
  | .error _ => []
  | .ok bytes =>
    let code := Bytecode.ofBytes bytes
    if 24576 < code.size then [Cache.refused code 24576]
    else Cache.analysisEvents code ++ [codeRead code]

/-- The report without what is logged. -/
def unlogged (program text : String) (options : List String) : Report :=
  match Hex.decode text.toList with
  | .error fault => failure "bytecode inválido" (.hex fault)
  | .ok code =>
    if 24576 < code.length
    then failure "falha ao analisar o código" (.codeTooLong code.length 24576)
    else success (.ofCode code) code ((program :: text :: options).contains "--disasm")

theorem after_empty (r : Report) : r.after "" = r := by
  rw [after, String.empty_append]

section FirstArgument

variable {text : String} {code : List UInt8} {logger : Logger}
  (program : String) (options : List String)

theorem ofArguments_eq :
    ofArguments program (text :: options) logger =
      (unlogged program text options).after (logger.text (logged text)) := by
  rw [ofArguments, Bytecode.ofHex, unlogged, logged]
  cases Hex.decode text.toList with
  | error fault => exact (after_empty _).symm
  | ok code =>
    have decoded : ((Except.ok code).mapError Error.hex).map Bytecode.ofBytes =
      .ok (.ofBytes code) := rfl
    have size : (Bytecode.ofBytes code).size = code.length := rfl
    simp only [decoded, getOrAnalyze_fresh, events_fresh, size]
    by_cases long : 24576 < code.length
    · simp only [long, if_true]
    · simp only [long, if_false]
      rfl

theorem ofArguments_of_silent (silent : logger.Silent) :
    ofArguments program (text :: options) logger = unlogged program text options := by
  rw [ofArguments_eq, silent.text_eq, after_empty]

theorem unlogged_of_fits (decoded : Hex.decode text.toList = .ok code)
    (fits : code.length ≤ 24576) : unlogged program text options =
      success (.ofCode code) code ((program :: text :: options).contains "--disasm") := by
  rw [unlogged, decoded]
  exact if_neg (Nat.not_lt.mpr fits)

theorem unlogged_of_unfit
    (unfit : ¬ ∃ code, Hex.decode text.toList = .ok code ∧ code.length ≤ 24576) :
    (unlogged program text options).exit = 1 ∧ (unlogged program text options).stdout = "" := by
  rw [unlogged]
  cases decoded : Hex.decode text.toList with
  | error fault => exact ⟨rfl, rfl⟩
  | ok code =>
    have long : 24576 < code.length := Nat.lt_of_not_le fun fits => unfit ⟨code, decoded, fits⟩
    simp only [long, if_true]
    exact ⟨rfl, rfl⟩

theorem exit_unlogged_iff : (unlogged program text options).exit = 0 ↔
    ∃ code, Hex.decode text.toList = .ok code ∧ code.length ≤ 24576 := by
  constructor
  · intro zero
    apply Classical.byContradiction
    intro unfit
    rw [(unlogged_of_unfit program options unfit).1] at zero
    cases zero
  · intro ⟨code, decoded, fits⟩
    exact congrArg exit (unlogged_of_fits program options decoded fits)

theorem lists_unlogged (decoded : Hex.decode text.toList = .ok code)
    (fits : code.length ≤ 24576) : ∃ cut ds shown,
      Lists code ("--disasm" ∈ program :: text :: options) (unlogged program text options).stdout
        cut ds shown := by
  have listed := lists_success code ((program :: text :: options).contains "--disasm")
  rw [List.contains_iff_mem, ← unlogged_of_fits program options decoded fits] at listed
  exact listed

/-- Of the other arguments no more is read than whether the option is among them. -/
theorem unlogged_congr {options options' : List String}
    (same : "--disasm" ∈ options' ↔ "--disasm" ∈ options) :
    unlogged program text options' = unlogged program text options := by
  have asked : (program :: text :: options').contains "--disasm" =
      (program :: text :: options).contains "--disasm" := by
    apply Bool.eq_iff_iff.mpr
    rw [List.contains_iff_mem, List.contains_iff_mem, List.mem_cons, List.mem_cons, List.mem_cons,
      List.mem_cons, same]
  rw [unlogged, unlogged, asked]

end FirstArgument

/-- Without an argument the command prints how it is used. With one it succeeds exactly if that is
a code in hexadecimal of at most 24576 bytes; else it prints nothing on the standard output. For a
code it prints where the walk is cut off, the number of destinations, the destinations in ascending
order and, asked with --disasm, the instructions, of which those with a star stand at the
destinations. No other option makes a difference. This is so when nothing is logged to the standard
output; a logger that writes there puts its text for the logged events in front, and changes nothing
else. -/
theorem command_lists_destinations (logger : Logger) (silent : logger.Silent) :
    (∀ other : Logger, ofArguments "jumpdests" [] other =
      { exit := 1, stdout := "", stderr := "Uso: jumpdests <BYTECODE_HEX> [--disasm]\n" }) ∧
    ∀ (text : String) (options : List String),
      let report := ofArguments "jumpdests" (text :: options) logger
      (report.exit = 0 ↔ ∃ code, Hex.decode text.toList = .ok code ∧ code.length ≤ 24576) ∧
      (report.exit ≠ 0 → report.exit = 1 ∧ report.stdout = "") ∧
      (∀ code, Hex.decode text.toList = .ok code → code.length ≤ 24576 →
        ∃ cut ds shown, Lists code ("--disasm" ∈ text :: options) report.stdout cut ds shown) ∧
      (∀ options', ("--disasm" ∈ options' ↔ "--disasm" ∈ options) →
        ofArguments "jumpdests" (text :: options') logger = report) ∧
      ∀ other : Logger, ofArguments "jumpdests" (text :: options) other =
        report.after (other.text (logged text)) := by
  have usage_eq : usage "jumpdests" =
      { exit := 1, stdout := "", stderr := "Uso: jumpdests <BYTECODE_HEX> [--disasm]\n" } := by
    decide
  refine ⟨fun _ => usage_eq, ?_⟩
  intro text options report
  have plain : report = unlogged "jumpdests" text options :=
    ofArguments_of_silent "jumpdests" options silent
  have succeeds : report.exit = 0 ↔
      ∃ code, Hex.decode text.toList = .ok code ∧ code.length ≤ 24576 := by
    rw [plain]
    exact exit_unlogged_iff "jumpdests" options
  refine ⟨succeeds, ?_, ?_, ?_, ?_⟩
  · intro failed
    rw [plain]
    exact unlogged_of_unfit "jumpdests" options (mt succeeds.mpr failed)
  · intro code decoded fits
    have asked : "--disasm" ∈ "jumpdests" :: text :: options ↔ "--disasm" ∈ text :: options := by
      rw [List.mem_cons, or_iff_right (by decide)]
    rw [plain, ← asked]
    exact lists_unlogged "jumpdests" options decoded fits
  · intro options' same
    rw [ofArguments_of_silent "jumpdests" options' silent, plain, unlogged_congr "jumpdests" same]
  · intro other
    rw [ofArguments_eq, plain]

/-- A marker behind a PUSH1 with a marker in its immediate, in front of a PUSH2 that is cut off;
and a text that is no code. -/
theorem command_lists_destinations_cut :
    Logger.Silent .off ∧
    (ofArguments "jumpdests" ["xyz"] .off).exit ≠ 0 ∧
      (ofArguments "jumpdests" ["xyz"] .off).stdout = "" ∧
    Hex.decode "0x605b5b61ff".toList = .ok [0x60, 0x5b, 0x5b, 0x61, 0xff] ∧
      (ofArguments "jumpdests" ["0x605b5b61ff", "--disasm"] .off).exit = 0 ∧
      (∃ cut shown, Lists [0x60, 0x5b, 0x5b, 0x61, 0xff] ("--disasm" ∈ ["0x605b5b61ff", "--disasm"])
        (ofArguments "jumpdests" ["0x605b5b61ff", "--disasm"] .off).stdout cut [2] shown) ∧
    ("--disasm" ∈ ["-v", "--disasm"] ↔ "--disasm" ∈ ["--disasm"]) ∧
      ofArguments "jumpdests" ["0x605b5b61ff", "-v", "--disasm"] .off =
        ofArguments "jumpdests" ["0x605b5b61ff", "--disasm"] .off := by
  have silent : Logger.Silent .off := fun _ _ => rfl
  have decoded : Hex.decode "0x605b5b61ff".toList = .ok [0x60, 0x5b, 0x5b, 0x61, 0xff] := by decide
  have failed : (ofArguments "jumpdests" ["xyz"] .off).exit ≠ 0 := by decide
  have same : "--disasm" ∈ ["-v", "--disasm"] ↔ "--disasm" ∈ ["--disasm"] := by decide
  obtain ⟨_, nothing, _⟩ := (command_lists_destinations .off silent).2 "xyz" []
  obtain ⟨succeeds, _, listed, others, _⟩ :=
    (command_lists_destinations .off silent).2 "0x605b5b61ff" ["--disasm"]
  obtain ⟨cut, ds, shown, lists⟩ := listed _ decoded (by decide)
  have left : Stub [0x61, 0xff] := show 1 < (Opcode.mk 0x61).immediateSize by decide
  have reads : Reads 0 [0x60, 0x5b, 0x5b, 0x61, 0xff]
      [⟨0, ⟨0x60⟩, [0x5b]⟩, ⟨2, ⟨0x5b⟩, []⟩] [0x61, 0xff] :=
    .instruction (i := ⟨0, ⟨0x60⟩, [0x5b]⟩) rfl
      (.instruction (i := ⟨2, ⟨0x5b⟩, []⟩) rfl (.stub left))
  have found : ds = [2] := by
    rw [← lists.starred, toList_disassemble, reads.toList_eq]
    rfl
  subst found
  exact ⟨silent, failed, (nothing failed).2, decoded, succeeds.mpr ⟨_, decoded, by decide⟩,
    ⟨cut, shown, lists⟩, same, others _ same⟩

end Report

end EvmJumps
