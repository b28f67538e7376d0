import EvmJumps.Json.Fault
import EvmJumps.Text.Digits

namespace EvmJumps.Json

/-- Whether what is read will be used, or only passed over. A text that is passed over is held to
the same spelling, but not to surrogate pairs. -/
inductive Purpose where
  | use
  | pass
  deriving DecidableEq, Repr

/-- What one character does to an unfinished piece of text: it goes on, it ends with the character,
or it had ended before the character. -/
inductive Fed (σ α : Type) where
  | more (s : σ)
  | last (a : α)
  | past (a : α)

inductive QuotePart where
  | plain
  | escape
  /-- Within the four bytes after an escaped u, with the value of their digits unless one is no
  digit. -/
  | unit (lead : Option Nat) (width : Nat) (value : Option Nat)
  | pairSlash (lead : Nat)
  | pairLetter (lead : Nat)
  deriving DecidableEq, Repr

/-- A quoted text after its opening mark; its characters stand with the latest first. -/
structure Quote where
  purpose : Purpose
  part : QuotePart := .plain
  content : List Char := []
  deriving DecidableEq, Repr

def shortEscape? (c : Char) : Option Char :=
  if c = '\"' ∨ c = '\\' ∨ c = '/' then some c
  else if c = 'b' then some '\x08'
  else if c = 'f' then some '\x0c'
  else if c = 'n' then some '\n'
  else if c = 'r' then some '\r'
  else if c = 't' then some '\t'
  else none

def isLead (n : Nat) : Bool := 0xd800 ≤ n && n ≤ 0xdbff

def isTrail (n : Nat) : Bool := 0xdc00 ≤ n && n ≤ 0xdfff

def ofPair (lead trail : Nat) : Char :=
  Char.ofNat (0x10000 + (lead - 0xd800) * 0x400 + (trail - 0xdc00))

def Quote.push (q : Quote) (c : Char) : Quote :=
  { q with part := .plain, content := c :: q.content }

/-- A complete escaped unit, after the lead of a pair or on its own. -/
def Quote.pushUnit (q : Quote) (lead : Option Nat) (n : Nat) : Except Fault Quote :=
  match q.purpose, lead with
  | .pass, _ => .ok { q with part := .plain }
  | .use, some l => if isTrail n then .ok (q.push (ofPair l n)) else .error .surrogateAlone
  | .use, none =>
    if isTrail n then .error .surrogateAlone
    else if isLead n then .ok { q with part := .pairSlash n }
    else .ok (q.push (Char.ofNat n))

def Quote.step (q : Quote) (c : Char) : Except Fault (Fed Quote (List Char)) :=
  match q.part with
  | .plain =>
    if c = '\"' then .ok (.last q.content.reverse)
    else if c = '\\' then .ok (.more { q with part := .escape })
    else if c.toNat < 0x20 then .error .controlCharacter
    else .ok (.more (q.push c))
  | .escape =>
    if c = 'u' then .ok (.more { q with part := .unit none 0 (some 0) })
    else match shortEscape? c with
      | some d => .ok (.more (q.push d))
      | none => .error .escapeMalformed
  | .unit lead width value =>
    let width := width + c.utf8Size
    let value := value.bind fun n => (Text.hexValue? c.toNat).map (16 * n + ·)
    if width < 4 then .ok (.more { q with part := .unit lead width value })
    else match value with
      | some n => (q.pushUnit lead n).map .more
      | none => .error .escapeMalformed
  | .pairSlash lead =>
    if c = '\\' then .ok (.more { q with part := .pairLetter lead })
    else .error .surrogatePairBroken
  | .pairLetter lead =>
    if c = 'u' then .ok (.more { q with part := .unit (some lead) 0 (some 0) })
    else .error .surrogatePairBroken

end EvmJumps.Json
