import EvmJumps.Decimal.Shortest

namespace EvmJumps.Json

/-- The part of a number that was read last. -/
inductive NumberPart where
  | sign
  | zero
  | whole
  | point
  | fraction
  | mark
  | markSign
  | exponent
  deriving DecidableEq, Repr

/-- What a character means to an unfinished number. -/
inductive NumberMove where
  | into (p : NumberPart)
  | stop
  | refuse
  deriving DecidableEq, Repr

def NumberPart.complete : NumberPart → Bool
  | .zero | .whole | .fraction | .exponent => true
  | .sign | .point | .mark | .markSign => false

def NumberPart.opens? (c : Char) : Option NumberPart :=
  if c = '-' then some .sign
  else if c = '0' then some .zero
  else if c.isDigit then some .whole
  else none

/-- A zero in front is the whole integer part, and every other mark needs a digit after it. -/
def NumberPart.move (p : NumberPart) (c : Char) : NumberMove :=
  match p with
  | .sign => if c = '0' then .into .zero else if c.isDigit then .into .whole else .refuse
  | .zero => if c.isDigit then .refuse else afterWhole
  | .whole => if c.isDigit then .into .whole else afterWhole
  | .point => if c.isDigit then .into .fraction else .refuse
  | .fraction => if c.isDigit then .into .fraction else afterFraction
  | .mark =>
    if c = '+' ∨ c = '-' then .into .markSign else if c.isDigit then .into .exponent else .refuse
  | .markSign => if c.isDigit then .into .exponent else .refuse
  | .exponent => if c.isDigit then .into .exponent else .stop
where
  afterFraction : NumberMove := if c = 'e' ∨ c = 'E' then .into .mark else .stop
  afterWhole : NumberMove := if c = '.' then .into .point else afterFraction

/-- A number as far as it was read; digits stand with the latest first. It is complete as soon as a
character does not continue it, and that character is judged by whatever the number stands in. -/
structure Numeric where
  part : NumberPart
  negative : Bool := false
  whole : List Nat := []
  fraction : List Nat := []
  exponentNegative : Bool := false
  exponent : List Nat := []
  deriving DecidableEq, Repr

def digitValue (c : Char) : Nat :=
  c.toNat - 48

/-- Takes in the character that leads into the given part. -/
def Numeric.push (x : Numeric) (p : NumberPart) (c : Char) : Numeric :=
  match p with
  | .sign => { x with part := p, negative := true }
  | .zero | .whole => { x with part := p, whole := digitValue c :: x.whole }
  | .fraction => { x with part := p, fraction := digitValue c :: x.fraction }
  | .exponent => { x with part := p, exponent := digitValue c :: x.exponent }
  | .markSign => { x with part := p, exponentNegative := c == '-' }
  | .point | .mark => { x with part := p }

def Numeric.open? (c : Char) : Option Numeric :=
  (NumberPart.opens? c).map fun p => Numeric.push { part := p } p c

def ofDigits (ds : List Nat) : Nat :=
  ds.foldl (fun n d => 10 * n + d) 0

/-- The least number that 64 bits do not hold. -/
def wordLimit : Nat := 0x10000000000000000

/-- The greatest magnitude of a negative integer. -/
def negativeLimit : Nat := 0x8000000000000000

/-- Takes digits into a 64-bit word while they fit, and returns the digits that are left. -/
def takeWord (n : Nat) : List Nat → Nat × List Nat
  | [] => (n, [])
  | d :: ds => if 10 * n + d < wordLimit then takeWord (10 * n + d) ds else (n, d :: ds)

/-- The double nearest to 10^n, for n up to 308. -/
def tenPower (n : Nat) : Float :=
  Float.ofScientific 1 false n

/-- The quotient x / 10^n, in steps of at most 10^308. -/
def scaleDown (x : Float) (n : Nat) : Float :=
  if n ≤ 308 then x / tenPower n
  else if x == 0 then x
  else scaleDown (x / tenPower 308) (n - 308)
termination_by n
decreasing_by omega

/-- The product x · 10^n, unless it is beyond every double. -/
def scale? (x : Float) (n : Int) : Option Float :=
  if n < 0 then some (scaleDown x n.natAbs)
  else if n ≤ 308 then
    let y := x * tenPower n.toNat
    if y.isInf then none else some y
  else if x == 0 then some x
  else none

/-- Integer digits beyond a word count as powers of ten; fraction digits beyond it do not count. -/
def Numeric.float? (x : Numeric) : Option Float :=
  let (high, dropped) := takeWord 0 x.whole.reverse
  let (word, ignored) := takeWord high x.fraction.reverse
  let shift : Int := dropped.length + ignored.length - x.fraction.length
  let written : Int := ofDigits x.exponent.reverse
  let exponent := if x.exponentNegative then shift - written else shift + written
  (scale? word.toUInt64.toFloat exponent).map fun y => if x.negative then -y else y

inductive Number where
  | natural (n : Nat)
  | negative (n : Nat)
  | float (x : Float)
  deriving Repr

def Numeric.integral (x : Numeric) : Bool :=
  x.part == .zero || x.part == .whole

/-- Integers from -2^63 up to below 2^64 are exact, the negative zero apart; all else is a double.
Nothing is returned for a number beyond every double. -/
def Numeric.value? (x : Numeric) : Option Number :=
  let n := ofDigits x.whole.reverse
  if x.integral && !x.negative && n < wordLimit then some (.natural n)
  else if x.integral && x.negative && 0 < n && n ≤ negativeLimit then some (.negative n)
  else x.float?.map .float

end EvmJumps.Json
