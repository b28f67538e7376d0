import EvmJumps.Bitmap
import EvmJumps.Log
import EvmJumps.Walker

namespace EvmJumps

/-- What one pass over a code found: the bytes that it covered, the destinations among them, and the
PUSH that ended it early. -/
structure Outcome where
  scanned : Nat := 0
  jumpdests : Nat := 0
  truncatedAt : Option Nat := none
  deriving DecidableEq, Repr

namespace Outcome

def isTruncated (o : Outcome) : Bool :=
  o.truncatedAt.isSome

/-- What a pass over a code of the given size logs. -/
def events (o : Outcome) (codeSize : Nat) : List Event :=
  let done : Event :=
    { level := .trace
      message := "análise de código concluída"
      fields := [("code_len", Text.decimal codeSize), ("scanned", Text.decimal o.scanned),
        ("jumpdests", Text.decimal o.jumpdests)] }
  match o.truncatedAt with
  | some pc =>
    [{ level := .debug
       message := "PUSH truncado no fim do código; análise interrompida"
       fields := [("pc", Text.decimal pc), ("code_len", Text.decimal codeSize)] }, done]
  | none => [done]

end Outcome

/-- Records an instruction in the bitmap and in the counter. -/
def mark (found : Bitmap × Nat) (i : Instruction) : Bitmap × Nat :=
  if i.opcode.isJumpdest then (found.1.set i.pc, found.2 + 1) else found

/-- Replaces the contents of a bitmap by the destinations of a code: the offsets of the JUMPDESTs
that the walk yields. Bytes of an immediate are never destinations. -/
def scan (code : List UInt8) (b : Bitmap) : Bitmap × Outcome :=
  let ((bitmap, jumpdests), w) := (walk code).foldl mark (b.reset, 0)
  (bitmap, { scanned := w.position, jumpdests := jumpdests, truncatedAt := w.truncatedAt })

/-- A jump target as it stands on the stack. -/
abbrev Word := BitVec 256

/-- How many bits an offset has. -/
def Word.offsetBits : Nat := 64

/-- How many bits a word takes, without its leading zeros. -/
def Word.bits (target : Word) : Nat :=
  if target = 0 then 0 else target.toNat.log2 + 1

/-- The offset in the low bits of a word, unless it has more. -/
def Word.offset? (target : Word) : Option Nat :=
  if offsetBits < target.bits then none else some (target.setWidth offsetBits).toNat

structure JumpTable where
  bitmap : Bitmap
  codeSize : Nat
  outcome : Outcome
  deriving Repr, BEq

namespace JumpTable

def ofCode (code : List UInt8) : JumpTable :=
  let (bitmap, outcome) := scan code .empty
  { bitmap := bitmap.shrink, codeSize := code.length, outcome := outcome }

def isJumpdest (t : JumpTable) (o : Nat) : Bool :=
  t.bitmap.isSet o

def isValidJump (t : JumpTable) (target : Word) : Bool :=
  match target.offset? with
  | some o => o < t.codeSize && t.bitmap.isSet o
  | none => false

/-- The destinations in ascending order. -/
def jumpdests (t : JumpTable) : List Nat :=
  t.bitmap.offsets

end JumpTable

/-- Checks a jump against a bitmap, and against the code itself in case the bitmap is not that
code's. -/
def isValidJump (code : List UInt8) (b : Bitmap) (target : Word) : Bool :=
  match target.offset? with
  | some o => code[o]? == some Opcode.jumpdest.byte && b.isSet o
  | none => false

end EvmJumps
