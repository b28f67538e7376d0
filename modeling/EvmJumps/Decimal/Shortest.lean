namespace EvmJumps.Decimal

/-- The value mantissa · 2^exponent. At a binade the spacing below is half of the spacing above. -/
structure Binary where
  mantissa : Nat
  exponent : Int
  binade : Bool
  deriving DecidableEq, Repr

/-- The leading bit that a normal double does not store. -/
def implicitBit : Nat := 0x10000000000000

/-- The magnitude of a finite double. -/
def Binary.ofFloat (x : Float) : Binary :=
  let bits := x.toBits.toNat
  let field := bits >>> 52 &&& 0x7ff
  let fraction := bits % implicitBit
  if field = 0 then ⟨fraction, -1074, false⟩
  else ⟨implicitBit + fraction, (field : Int) - 1075, fraction == 0 && field != 1⟩

/-- Whether the sign bit is set, which it is for the negative zero too. -/
def isNegative (x : Float) : Bool :=
  x.toBits.toNat >>> 63 == 1

/-- The value digits · 10^exponent. -/
structure Numeral where
  digits : Nat
  exponent : Int
  deriving DecidableEq, Repr

/-- Whole factors a and b with 2^(q-2) / 10^k = a / b. -/
def ratio (q k : Int) : Nat × Nat :=
  (Nat.pow 2 (q - 2).toNat * Nat.pow 10 (-k).toNat, Nat.pow 10 k.toNat * Nat.pow 2 (2 - q).toNat)

/-- The multiple of 10^k nearest to the value, if some multiple reads back as it. Ends of the
interval read back when the mantissa is even, and a tie goes to the even multiple. -/
def Binary.onGrid? (x : Binary) (k : Int) : Option Numeral :=
  let (a, b) := ratio x.exponent k
  let value := 4 * x.mantissa * a
  let low := (4 * x.mantissa - if x.binade then 1 else 2) * a
  let high := (4 * x.mantissa + 2) * a
  let readsBack (n : Nat) : Bool :=
    if x.mantissa % 2 = 0 then low ≤ n * b && n * b ≤ high else low < n * b && n * b < high
  let below := value / b
  let above := below + 1
  match readsBack below, readsBack above with
  | false, false => none
  | true, false => some ⟨below, k⟩
  | false, true => some ⟨above, k⟩
  | true, true =>
    if 2 * value < (below + above) * b ∨ 2 * value = (below + above) * b ∧ below % 2 = 0
    then some ⟨below, k⟩
    else some ⟨above, k⟩

/-- The least e with value < 10^e, for values from 10^-400 on. -/
def Binary.magnitude (x : Binary) : Int :=
  let (a, b) := ratio x.exponent (-400)
  (Nat.toDigits 10 (4 * x.mantissa * a / b)).length - 400

/-- A value is read back from every number in an interval around it. Grids of growing fineness are
searched until one has a point there; seventeen digits always suffice for a double. -/
def Binary.shortest (x : Binary) : Numeral :=
  let found := (List.range 17).findSome? fun (n : Nat) => x.onGrid? (x.magnitude - (n + 1))
  found.getD ⟨0, 0⟩

/-- Digits without trailing zeros, and where the point stands relative to their start. -/
def Numeral.layout (d : Numeral) : List Char × Int :=
  let written := Nat.toDigits 10 d.digits
  let kept := (written.reverse.dropWhile (· == '0')).reverse
  (kept, written.length + d.exponent)

/-- The point stands among the digits from 0.00001 up to below 10^16, with a digit on both sides;
outside, one digit stands before it, if more follow, and a signed power of ten after them. -/
def Numeral.text (d : Numeral) : List Char :=
  let (digits, point) := d.layout
  if digits = [] then ['0', '.', '0']
  else if point ≤ -5 ∨ 16 < point then
    let fraction := if digits.tail = [] then [] else '.' :: digits.tail
    let sign := if point ≤ 0 then '-' else '+'
    digits.take 1 ++ fraction ++ 'e' :: sign :: Nat.toDigits 10 (point - 1).natAbs
  else if point ≤ 0 then
    '0' :: '.' :: List.replicate (-point).toNat '0' ++ digits
  else if point < digits.length then
    digits.take point.toNat ++ '.' :: digits.drop point.toNat
  else
    digits ++ List.replicate (point.toNat - digits.length) '0' ++ ['.', '0']

/-- The text of a finite double. -/
def floatText (x : Float) : List Char :=
  let magnitude := Binary.ofFloat x
  let digits := if magnitude.mantissa = 0 then ⟨0, 0⟩ else magnitude.shortest
  if isNegative x then '-' :: digits.text else digits.text

end EvmJumps.Decimal
