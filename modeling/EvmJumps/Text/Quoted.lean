import EvmJumps.Text.Printable
import EvmJumps.Text.Digits

namespace EvmJumps.Text

/-- One character between quotation marks of the given kind. -/
def escape (mark c : Char) : List Char :=
  if c = '\x00' then ['\\', '0']
  else if c = '\t' then ['\\', 't']
  else if c = '\r' then ['\\', 'r']
  else if c = '\n' then ['\\', 'n']
  else if c = '\\' ∨ c = mark then ['\\', c]
  else if isHidden c then ['\\', 'u', '\x7b'] ++ Nat.toDigits 16 c.toNat ++ ['\x7d']
  else [c]

def quotedChar (c : Char) : List Char :=
  '\'' :: escape '\'' c ++ ['\'']

def quotedText (s : List Char) : List Char :=
  '\"' :: s.flatMap (escape '\"') ++ ['\"']

end EvmJumps.Text
