import EvmJumps.Json.Token
import EvmJumps.Text.Quoted

namespace EvmJumps.Json

inductive Outline where
  | null
  | bool (b : Bool)
  | number (x : Number)
  | text (s : List Char)
  | list
  | object
  deriving Repr

def Outline.ofLexeme : Lexeme → Except Fault Outline
  | .null => .ok .null
  | .bool b => .ok (.bool b)
  | .text s => .ok (.text s)
  | .number x =>
    match x.value? with
    | some n => .ok (.number n)
    | none => .error .numberOutOfRange

def marked (kind : String) (content : List Char) : String :=
  kind ++ " `" ++ String.ofList content ++ "`"

def Number.describe : Number → String
  | .natural n => marked "integer" (Text.decimal n)
  | .negative n => marked "integer" ('-' :: Text.decimal n)
  | .float x => marked "floating point" (Decimal.floatText x)

def Outline.describe : Outline → String
  | .null => "null"
  | .bool b => marked "boolean" (if b then ['t', 'r', 'u', 'e'] else ['f', 'a', 'l', 's', 'e'])
  | .number x => x.describe
  | .text s => "string " ++ String.ofList (Text.quotedText s)
  | .list => "sequence"
  | .object => "map"

end EvmJumps.Json
