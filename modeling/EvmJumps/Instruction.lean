import EvmJumps.Opcode

namespace EvmJumps

structure Instruction where
  pc : Nat
  opcode : Opcode
  immediate : List UInt8
  deriving DecidableEq, Repr

namespace Instruction

def size (i : Instruction) : Nat :=
  1 + i.immediate.length

/-- The offset behind the instruction. -/
def nextPc (i : Instruction) : Nat :=
  i.pc + i.size

def encode (i : Instruction) : List UInt8 :=
  i.opcode.byte :: i.immediate

theorem length_encode (i : Instruction) : i.encode.length = i.size := by
  simp only [encode, size, List.length_cons]
  omega

/-- One line of a disassembly. -/
def text (i : Instruction) : List Char :=
  let immediate := if i.immediate = [] then [] else ' ' :: '0' :: 'x' :: Text.hexBytes i.immediate
  Text.hexOffset i.pc ++ ':' :: ' ' :: i.opcode.display ++ immediate

end Instruction

end EvmJumps
