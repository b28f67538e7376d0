import EvmJumps.Json.Token

namespace EvmJumps.Json

inductive Frame where
  | list
  | object
  deriving DecidableEq, Repr

/-- What is due next inside the value. -/
inductive SkipPart where
  | value
  /-- Just after an opening bracket, where the matching one may follow. -/
  | opened
  | key
  | keyText (q : Quote)
  | colon
  | token (t : Token)
  | after
  deriving DecidableEq, Repr

/-- A value that is being passed over, with the innermost open bracket first. -/
structure Skip where
  frames : List Frame := []
  part : SkipPart := .value
  deriving DecidableEq, Repr

/-- A value inside has just ended. -/
def Skip.close : List Frame → Fed Skip Unit
  | [] => .last ()
  | frames => .more ⟨frames, .after⟩

def Skip.openValue (frames : List Frame) (c : Char) : Except Fault (Fed Skip Unit) :=
  match Opening.of? .pass c with
  | some .list => .ok (.more ⟨.list :: frames, .opened⟩)
  | some .object => .ok (.more ⟨.object :: frames, .opened⟩)
  | some (.token t) => .ok (.more ⟨frames, .token t⟩)
  | none => .error .valueExpected

def Skip.openKey (frames : List Frame) (c : Char) : Except Fault (Fed Skip Unit) :=
  if c = '\"' then .ok (.more ⟨frames, .keyText { purpose := .pass }⟩)
  else .error .keyExpected

def Skip.afterValue (frames : List Frame) (c : Char) : Except Fault (Fed Skip Unit) :=
  match frames with
  | [] => .ok (.past ())
  | .list :: outer =>
    if isSpace c then .ok (.more ⟨frames, .after⟩)
    else if c = ',' then .ok (.more ⟨frames, .value⟩)
    else if c = ']' then .ok (Skip.close outer)
    else .error .listEndExpected
  | .object :: outer =>
    if isSpace c then .ok (.more ⟨frames, .after⟩)
    else if c = ',' then .ok (.more ⟨frames, .key⟩)
    else if c = '\x7d' then .ok (Skip.close outer)
    else .error .objectEndExpected

def Skip.step (s : Skip) (c : Char) : Except Fault (Fed Skip Unit) :=
  match s.part with
  | .value => if isSpace c then .ok (.more s) else Skip.openValue s.frames c
  | .opened =>
    if isSpace c then .ok (.more s)
    else match s.frames with
      | .object :: outer =>
        if c = '\x7d' then .ok (Skip.close outer) else Skip.openKey s.frames c
      | frames => if c = ']' then .ok (Skip.close frames.tail) else Skip.openValue frames c
  | .key => if isSpace c then .ok (.more s) else Skip.openKey s.frames c
  | .keyText q => do
    match ← q.step c with
    | .more q => .ok (.more { s with part := .keyText q })
    | .last _ | .past _ => .ok (.more { s with part := .colon })
  | .colon =>
    if isSpace c then .ok (.more s)
    else if c = ':' then .ok (.more { s with part := .value })
    else .error .colonExpected
  | .token t => do
    match ← t.step c with
    | .more t => .ok (.more { s with part := .token t })
    | .last _ => .ok (Skip.close s.frames)
    | .past _ => Skip.afterValue s.frames c
  | .after => Skip.afterValue s.frames c

def Skip.endAfterValue : List Frame → Except Fault Unit
  | [] => .ok ()
  | .list :: _ => .error .endInList
  | .object :: _ => .error .endInObject

/-- The verdict when the text ends here. -/
def Skip.finish (s : Skip) : Except Fault Unit :=
  match s.part with
  | .value => .error .endInValue
  | .key | .colon => .error .endInObject
  | .keyText _ => .error .endInText
  | .token t => do
    let _ ← t.finish .pass
    Skip.endAfterValue s.frames
  | .opened | .after => Skip.endAfterValue s.frames

end EvmJumps.Json
