import EvmJumps.Json.Number
import EvmJumps.Json.Quote

namespace EvmJumps.Json

/-- A complete value without parts, its number not yet evaluated. -/
inductive Lexeme where
  | null
  | bool (b : Bool)
  | number (x : Numeric)
  | text (s : List Char)
  deriving DecidableEq, Repr

/-- A value without parts as far as it was read. -/
inductive Token where
  | word (left : List Char) (meaning : Lexeme)
  | number (x : Numeric)
  | quote (q : Quote)
  deriving DecidableEq, Repr

/-- The first character of a value tells its kind. -/
inductive Opening where
  | list
  | object
  | token (t : Token)
  deriving DecidableEq, Repr

def Opening.of? (purpose : Purpose) (c : Char) : Option Opening :=
  if c = '[' then some .list
  else if c = '\x7b' then some .object
  else if c = '\"' then some (.token (.quote { purpose := purpose }))
  else if c = 'n' then some (.token (.word ['u', 'l', 'l'] .null))
  else if c = 't' then some (.token (.word ['r', 'u', 'e'] (.bool true)))
  else if c = 'f' then some (.token (.word ['a', 'l', 's', 'e'] (.bool false)))
  else (Numeric.open? c).map fun x => .token (.number x)

def Token.step (t : Token) (c : Char) : Except Fault (Fed Token Lexeme) :=
  match t with
  | .word [] meaning => .ok (.past meaning)
  | .word [d] meaning => if c = d then .ok (.last meaning) else .error .wordExpected
  | .word (d :: left) meaning =>
    if c = d then .ok (.more (.word left meaning)) else .error .wordExpected
  | .number x =>
    match x.part.move c with
    | .into p => .ok (.more (.number (x.push p c)))
    | .stop => .ok (.past (.number x))
    | .refuse => .error .numberMalformed
  | .quote q => do
    match ← q.step c with
    | .more q => .ok (.more (.quote q))
    | .last s => .ok (.last (.text s))
    | .past s => .ok (.past (.text s))

/-- The value when the text ends here. -/
def Token.finish (purpose : Purpose) : Token → Except Fault Lexeme
  | .word [] meaning => .ok meaning
  | .word _ _ => .error .endInValue
  | .number x =>
    if x.part.complete then .ok (.number x)
    else match purpose with
      | .use => .error .endInValue
      | .pass => .error .numberMalformed
  | .quote _ => .error .endInText

/-- Space, tab, line feed and carriage return may stand between any two tokens. -/
def isSpace (c : Char) : Bool :=
  c == ' ' || c == '\t' || c == '\n' || c == '\r'

end EvmJumps.Json
