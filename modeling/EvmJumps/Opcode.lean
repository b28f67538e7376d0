import EvmJumps.Error

namespace EvmJumps

structure Opcode where
  byte : UInt8
  deriving DecidableEq, Repr, Inhabited

namespace Opcode

/-- The marker of a jump destination. -/
def jumpdest : Opcode := ⟨0x5b⟩

def isJumpdest (o : Opcode) : Bool :=
  o == jumpdest

/-- A PUSH that carries an immediate; PUSH0 carries none. -/
def isPush (o : Opcode) : Bool :=
  0x60 ≤ o.byte && o.byte ≤ 0x7f

/-- How many bytes follow the opcode. -/
def immediateSize (o : Opcode) : Nat :=
  if o.isPush then o.byte.toNat - 0x5f else 0

def maxImmediateSize : Nat := 32

theorem immediateSize_le (o : Opcode) : o.immediateSize ≤ maxImmediateSize := by
  unfold immediateSize isPush
  split
  · rename_i push
    simp only [Bool.and_eq_true, decide_eq_true_eq, UInt8.le_iff_toNat_le] at push
    obtain ⟨_, high⟩ := push
    change o.byte.toNat ≤ 0x7f at high
    simp only [maxImmediateSize]
    omega
  · exact Nat.zero_le _

/-- Opcodes with names of their own. -/
def singles : List (String × UInt8) :=
  [("STOP", 0x00), ("ADD", 0x01), ("MUL", 0x02), ("SUB", 0x03), ("DIV", 0x04), ("SDIV", 0x05),
    ("MOD", 0x06), ("SMOD", 0x07), ("ADDMOD", 0x08), ("MULMOD", 0x09), ("EXP", 0x0a),
    ("SIGNEXTEND", 0x0b), ("LT", 0x10), ("GT", 0x11), ("SLT", 0x12), ("SGT", 0x13), ("EQ", 0x14),
    ("ISZERO", 0x15), ("AND", 0x16), ("OR", 0x17), ("XOR", 0x18), ("NOT", 0x19), ("BYTE", 0x1a),
    ("SHL", 0x1b), ("SHR", 0x1c), ("SAR", 0x1d), ("SHA3", 0x20), ("ADDRESS", 0x30),
    ("BALANCE", 0x31), ("ORIGIN", 0x32), ("CALLER", 0x33), ("CALLVALUE", 0x34),
    ("CALLDATALOAD", 0x35), ("CALLDATASIZE", 0x36), ("CALLDATACOPY", 0x37), ("CODESIZE", 0x38),
    ("CODECOPY", 0x39), ("GASPRICE", 0x3a), ("EXTCODESIZE", 0x3b), ("EXTCODECOPY", 0x3c),
    ("RETURNDATASIZE", 0x3d), ("RETURNDATACOPY", 0x3e), ("EXTCODEHASH", 0x3f),
    ("BLOCKHASH", 0x40), ("COINBASE", 0x41), ("TIMESTAMP", 0x42), ("NUMBER", 0x43),
    ("DIFFICULTY", 0x44), ("GASLIMIT", 0x45), ("CHAINID", 0x46), ("SELFBALANCE", 0x47),
    ("BASEFEE", 0x48), ("POP", 0x50), ("MLOAD", 0x51), ("MSTORE", 0x52), ("MSTORE8", 0x53),
    ("SLOAD", 0x54), ("SSTORE", 0x55), ("JUMP", 0x56), ("JUMPI", 0x57), ("PC", 0x58),
    ("MSIZE", 0x59), ("GAS", 0x5a), ("JUMPDEST", 0x5b), ("PUSH0", 0x5f), ("CREATE", 0xf0),
    ("CALL", 0xf1), ("CALLCODE", 0xf2), ("RETURN", 0xf3), ("DELEGATECALL", 0xf4),
    ("CREATE2", 0xf5), ("STATICCALL", 0xfa), ("REVERT", 0xfd), ("INVALID", 0xfe),
    ("SELFDESTRUCT", 0xff)]

/-- Opcodes in a row whose names differ in a number only. -/
structure Family where
  stem : String
  first : Nat
  last : Nat
  base : UInt8

def Family.member (f : Family) (n : Nat) : String × UInt8 :=
  (f.stem ++ String.ofList (Text.decimal n), f.base + UInt8.ofNat (n - f.first))

def Family.members (f : Family) : List (String × UInt8) :=
  (List.range (f.last + 1 - f.first)).map fun k => f.member (f.first + k)

def families : List Family :=
  [⟨"PUSH", 1, 32, 0x60⟩, ⟨"DUP", 1, 16, 0x80⟩, ⟨"SWAP", 1, 16, 0x90⟩,
    ⟨"LOG", 0, 4, 0xa0⟩]

/-- Every defined opcode with its name. -/
def table : List (String × UInt8) :=
  singles ++ families.flatMap Family.members

theorem table_bytes_nodup : (table.map fun entry => entry.2.toNat).Nodup := by
  decide +kernel

/-- The names that stand for opcodes on their own: those of single opcodes and the ends of the
families. -/
def landmarks : List (String × UInt8) :=
  singles ++ families.flatMap fun f => [f.member f.first, f.member f.last]

def mnemonic? (o : Opcode) : Option String :=
  (table.find? fun entry => entry.2 == o.byte).map Prod.fst

def display (o : Opcode) : List Char :=
  match o.mnemonic? with
  | some name => name.toList
  | none => "UNKNOWN(0x".toList ++ Text.hexByte o.byte ++ [')']

/-- Equal up to the case of ASCII letters. -/
def sameLetters (s t : List Char) : Bool :=
  s.map Char.toUpper == t.map Char.toUpper

/-- Reads a name in any case, with blanks around it. -/
def parse (s : List Char) : Except Error Opcode :=
  let name := Text.trim s
  match table.find? fun entry => sameLetters entry.1.toList name with
  | some entry => .ok ⟨entry.2⟩
  | none => .error (.unknownMnemonic name)

end Opcode

end EvmJumps
