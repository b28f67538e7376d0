import EvmJumps.Config
import EvmJumps.Text.Digits

namespace EvmJumps.Config

def boolText : Bool → List Char
  | true => ['t', 'r', 'u', 'e']
  | false => ['f', 'a', 'l', 's', 'e']

def valueText (c : Config) : Field → List Char
  | .cacheCapacity => Text.decimal c.cacheCapacity
  | .maxCodeSize => Text.decimal c.maxCodeSize
  | .enableCache => boolText c.enableCache

def memberText (c : Config) (f : Field) : List Char :=
  '\"' :: f.name.toList ++ '\"' :: ':' :: c.valueText f

/-- An object of all fields in their order. -/
def toJson (c : Config) : List Char :=
  '\x7b' :: [','].intercalate (Field.all.map c.memberText) ++ ['\x7d']

/-- The values of all fields in their order. -/
def toJsonList (c : Config) : List Char :=
  '[' :: [','].intercalate (Field.all.map c.valueText) ++ [']']

end EvmJumps.Config
