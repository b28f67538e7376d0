import EvmJumps.JumpTable

namespace EvmJumps

/-- One bitmap that is used for code after code. -/
structure Analyzer where
  bitmap : Bitmap := .empty
  last : Outcome := {}
  deriving Repr, Inhabited

namespace Analyzer

def analyze (a : Analyzer) (code : List UInt8) : Analyzer :=
  let (bitmap, outcome) := scan code a.bitmap
  { bitmap := bitmap, last := outcome }

/-- Analyzes a code and copies the result, offset by offset, into a table of its own. -/
def freeze (a : Analyzer) (code : List UInt8) : JumpTable × Analyzer :=
  let a := a.analyze code
  let copy := (Bitmap.withCapacity a.bitmap.lenBits).setAll a.bitmap.offsets
  ({ bitmap := copy, codeSize := code.length, outcome := a.last }, a)

def reset (a : Analyzer) : Analyzer where
  bitmap := a.bitmap.reset
  last := {}

/-- What can be asked of an analyzer that changes it. -/
inductive Call where
  | analyze (code : List UInt8)
  | freeze (code : List UInt8)
  | reset
  deriving Repr

def call (a : Analyzer) : Call → Analyzer
  | .analyze code => a.analyze code
  | .freeze code => (a.freeze code).2
  | .reset => a.reset

/-- The analyzer after a history of calls. -/
def run (a : Analyzer) (calls : List Call) : Analyzer :=
  calls.foldl call a

end Analyzer

end EvmJumps
