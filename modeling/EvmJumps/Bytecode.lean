import EvmJumps.Error
import EvmJumps.Keccak

namespace EvmJumps

structure Bytecode where
  bytes : List UInt8
  hash : Digest := keccak256 bytes
  hash_eq : hash = keccak256 bytes := by rfl
  deriving DecidableEq

namespace Bytecode

def ofBytes (bytes : List UInt8) : Bytecode where
  bytes := bytes

def ofHex (text : List Char) : Except Error Bytecode :=
  ((Hex.decode text).mapError .hex).map ofBytes

def size (c : Bytecode) : Nat :=
  c.bytes.length

end Bytecode

/-- All digits of a digest, behind the marker. -/
def Digest.text (d : Digest) : List Char :=
  '0' :: 'x' :: Text.hexBytes d.toList

/-- The size and the digest of a code in one line. -/
def Bytecode.summary (c : Bytecode) : List Char :=
  "Bytecode \x7b len: ".toList ++ Text.decimal c.size ++ ", hash: ".toList ++ Digest.text c.hash ++
    " \x7d".toList

end EvmJumps
