import EvmJumps.Error
import EvmJumps.Json.Skip

namespace EvmJumps.Config

open Json (Token Quote Skip Frame Opening Lexeme Outline Fed isSpace)

/-- What is due next. -/
inductive Due where
  | config
  /-- A value that is no configuration is read to its end before it is refused. -/
  | refusal (t : Token)
  /-- Just after the opening bracket of the configuration. -/
  | opened
  | key
  | keyText (q : Quote)
  | colon (f : Option Field)
  | value (f : Field)
  | element (f : Field)
  | token (f : Field) (t : Token)
  | skip (s : Skip)
  | after (f : Option Field)
  /-- After a comma behind the last field of a list. -/
  | surplus
  | nothing
  deriving DecidableEq, Repr

/-- A configuration as far as its text was read, which is an object of fields or a list of their
values in order. The text is taken one character at a time, so its first fault is the one that is
reported. -/
structure Reading where
  draft : Draft := {}
  frame : Frame := .object
  due : Due := .config
  deriving DecidableEq, Repr

/-- A fault of the text itself. -/
def lift (r : Except Json.Fault α) : Except Fault α :=
  r.mapError .json

def fault (f : Json.Fault) : Except Fault α :=
  .error (.json f)

namespace Reading

def await (r : Reading) (due : Due) : Except Fault Reading :=
  .ok { r with due := due }

/-- A complete value in the place of the whole configuration. -/
def refuse (l : Lexeme) : Except Fault α := do
  let found ← lift (Outline.ofLexeme l)
  .error (.mismatch found .config)

/-- A complete value for a field. -/
def take (r : Reading) (f : Field) (l : Lexeme) : Except Fault Reading := do
  let found ← lift (Outline.ofLexeme l)
  let draft ← r.draft.fill f found
  await { r with draft := draft } (.after (some f))

/-- The first character of a field's value. -/
def openField (r : Reading) (f : Field) (c : Char) : Except Fault Reading :=
  match Opening.of? .use c with
  | some .list => .error (.mismatch .list f.wanted)
  | some .object => .error (.mismatch .object f.wanted)
  | some (.token t) => r.await (.token f t)
  | none => fault .valueExpected

/-- A key that names a field may stand once; all other keys are passed over with their values. -/
def name (r : Reading) (s : List Char) : Except Fault Reading :=
  match Field.ofName? s with
  | some f => if r.draft.has f then .error (.repeated f) else r.await (.colon (some f))
  | none => r.await (.colon none)

def afterObjectValue (r : Reading) (c : Char) : Except Fault Reading :=
  if isSpace c then .ok r
  else if c = ',' then r.await .key
  else if c = '\x7d' then r.await .nothing
  else fault .objectEndExpected

/-- Behind the last field only the closing bracket may follow. -/
def afterListValue (r : Reading) (next : Option Field) (c : Char) : Except Fault Reading :=
  if isSpace c then .ok r
  else if c = ']' then r.await .nothing
  else match next with
    | some f => if c = ',' then r.await (.element f) else fault .listEndExpected
    | none => if c = ',' then r.await .surplus else fault .trailingCharacters

def afterValue (r : Reading) (f : Option Field) (c : Char) : Except Fault Reading :=
  match r.frame with
  | .object => afterObjectValue { r with due := .after f } c
  | .list => afterListValue { r with due := .after f } (f.bind Field.next?) c

def openKey (r : Reading) : Except Fault Reading :=
  r.await (.keyText { purpose := .use })

def step (r : Reading) (c : Char) : Except Fault Reading :=
  match r.due with
  | .config =>
    if isSpace c then .ok r
    else match Opening.of? .use c with
      | some .list => .ok { r with frame := .list, due := .opened }
      | some .object => .ok { r with frame := .object, due := .opened }
      | some (.token t) => r.await (.refusal t)
      | none => fault .valueExpected
  | .refusal t => do
    match ← lift (t.step c) with
    | .more t => r.await (.refusal t)
    | .last l | .past l => refuse l
  | .opened =>
    if isSpace c then .ok r
    else match r.frame with
      | .list => if c = ']' then r.await .nothing else r.openField .cacheCapacity c
      | .object =>
        if c = '\"' then r.openKey else if c = '\x7d' then r.await .nothing else fault .keyExpected
  | .key =>
    if isSpace c then .ok r
    else if c = '\"' then r.openKey
    else if c = '\x7d' then fault .trailingComma
    else fault .keyExpected
  | .keyText q => do
    match ← lift (q.step c) with
    | .more q => r.await (.keyText q)
    | .last s | .past s => r.name s
  | .colon f =>
    if isSpace c then .ok r
    else if c = ':' then
      match f with
      | some f => r.await (.value f)
      | none => r.await (.skip {})
    else fault .colonExpected
  | .value f => if isSpace c then .ok r else r.openField f c
  | .element f =>
    if isSpace c then .ok r
    else if c = ']' then fault .trailingComma
    else r.openField f c
  | .token f t => do
    match ← lift (t.step c) with
    | .more t => r.await (.token f t)
    | .last l => r.take f l
    | .past l => (← r.take f l).afterValue (some f) c
  | .skip s => do
    match ← lift (s.step c) with
    | .more s => r.await (.skip s)
    | .last _ => r.await (.after none)
    | .past _ => r.afterValue none c
  | .after f => r.afterValue f c
  | .surplus =>
    if isSpace c then .ok r
    else if c = ']' then fault .trailingComma
    else fault .trailingCharacters
  | .nothing => if isSpace c then .ok r else fault .trailingCharacters

def run (r : Reading) : List Char → Except Fault Reading
  | [] => .ok r
  | c :: s =>
    match r.step c with
    | .ok r => run r s
    | .error e => .error e

/-- The text ends while the bracket of the configuration is open. -/
def unclosed : Frame → Except Fault α
  | .list => fault .endInList
  | .object => fault .endInObject

/-- The verdict when the text ends here. -/
def finish (r : Reading) : Except Fault Draft :=
  match r.due with
  | .config | .key | .value _ | .element _ => fault .endInValue
  | .refusal t => do refuse (← lift (t.finish .use))
  | .opened | .after _ => unclosed r.frame
  | .keyText _ => fault .endInText
  | .colon _ => fault .endInObject
  | .token f t => do
    let _ ← r.take f (← lift (t.finish .use))
    unclosed r.frame
  | .skip s => do
    lift s.finish
    unclosed r.frame
  | .surplus => fault .trailingCharacters
  | .nothing => .ok r.draft

end Reading

/-- The configuration that a text gives, whether or not it can be used. -/
def parse (s : List Char) : Except Fault Config := do
  let r ← Reading.run {} s
  return (← r.finish).config

def validate (c : Config) : Except Error Unit :=
  match c.flaw? with
  | some flaw => .error (.config flaw)
  | none => .ok ()

/-- A usable configuration; faults of the text are reported before flaws of the configuration. -/
def ofJson (s : List Char) : Except Error Config := do
  let c ← (parse s).mapError .configText
  c.validate
  return c

end EvmJumps.Config
