import EvmJumps.Cache

namespace EvmJumps

/-- What a run of the command leaves behind. -/
structure Report where
  exit : UInt32
  stdout : String := ""
  stderr : String := ""
  deriving DecidableEq, Repr

namespace Report

def lines (ls : List (List Char)) : String :=
  String.ofList (ls.flatMap fun l => l ++ ['\n'])

def usage (program : String) : Report where
  exit := 1
  stderr := "Uso: " ++ program ++ " <BYTECODE_HEX> [--disasm]\n"

/-- A failure names what was being done, and then its cause. -/
def failure (context : String) (cause : Error) : Report where
  exit := 1
  stderr := "Error: " ++ context ++ "\n\nCaused by:\n    " ++ cause.message ++ "\n"

def truncationLines (o : Outcome) : List (List Char) :=
  match o.truncatedAt with
  | some pc =>
    ["PUSH truncado em ".toList ++ Text.hexOffset pc ++ "; bytes seguintes ignorados".toList]
  | none => []

def header (o : Outcome) : List Char :=
  "JUMPDESTs válidos (".toList ++ Text.decimal o.jumpdests ++ [')', ':']

def destinationLine (pc : Nat) : List Char :=
  ' ' :: ' ' :: Text.hexOffset pc

/-- Destinations are starred. -/
def instructionLine (t : JumpTable) (i : Instruction) : List Char :=
  (if t.isJumpdest i.pc then '*' else ' ') :: ' ' :: i.text

def disassemblyLines (t : JumpTable) (code : List UInt8) : List (List Char) :=
  [] :: "Instruções:".toList :: (disassemble code).toList.map (instructionLine t)

def success (t : JumpTable) (code : List UInt8) (disasm : Bool) : Report where
  exit := 0
  stdout := lines (truncationLines t.outcome ++ header t.outcome ::
    t.jumpdests.map destinationLine ++ if disasm then disassemblyLines t code else [])

/-- What is logged when the table of the code was found. -/
def codeRead (code : Bytecode) : Event where
  level := .info
  message := String.ofList ("Código ".toList ++ Digest.text code.hash ++ " com ".toList ++
    Text.decimal code.size ++ " bytes".toList)

/-- The same report with a log in front of the standard output. -/
def after (r : Report) (log : String) : Report :=
  { r with stdout := log ++ r.stdout }

/-- The report on the arguments that follow the program's name: the jump destinations of a code in
hexadecimal, and its instructions on request. All that is logged comes before the first line that is
printed. -/
def ofArguments (program : String) (arguments : List String) (logger : Logger := .off) : Report :=
  match arguments with
  | [] => usage program
  | text :: options =>
    match Bytecode.ofHex text.toList with
    | .error e => failure "bytecode inválido" e
    | .ok code =>
      let cache := Cache.fresh {}
      let events := cache.events code
      match (cache.getOrAnalyze code).1 with
      | .error e => (failure "falha ao analisar o código" e).after (logger.text events)
      | .ok table =>
        (success table code.bytes ((program :: text :: options).contains "--disasm")).after
          (logger.text (events ++ [codeRead code]))

end Report

end EvmJumps
