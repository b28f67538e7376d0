import EvmJumps.Text.Blank
import EvmJumps.Text.Quoted

namespace EvmJumps.Hex

inductive Fault where
  | oddLength
  /-- The first byte of the text that is no digit, counted after the marker. -/
  | badByte (byte : UInt8) (position : Nat)
  deriving DecidableEq, Repr

def Fault.message : Fault → String
  | .oddLength => "Odd number of digits"
  | .badByte byte position =>
    "Invalid character " ++ String.ofList (Text.quotedChar (Char.ofNat byte.toNat)) ++
      " at position " ++ String.ofList (Text.decimal position)

/-- Removes one marker. -/
def unmarked : List Char → List Char
  | '0' :: 'x' :: rest => rest
  | '0' :: 'X' :: rest => rest
  | s => s

def digit? (b : UInt8) : Option Nat :=
  Text.hexValue? b.toNat

/-- The bytes that digits spell in pairs. -/
def spelled : List Nat → List UInt8
  | high :: low :: rest => UInt8.ofNat (16 * high + low) :: spelled rest
  | _ => []

/-- Appends the bytes that digits spell to those that came before. -/
def spell (done : Array UInt8) : List Nat → Array UInt8
  | high :: low :: rest => spell (done.push (UInt8.ofNat (16 * high + low))) rest
  | _ => done

theorem toList_spell (done : Array UInt8) (ds : List Nat) :
    (spell done ds).toList = done.toList ++ spelled ds := by
  fun_induction spell done ds with
  | case1 done high low rest ih => rw [ih, spelled]; simp
  | case2 done ds short => rw [spelled.eq_def]; split <;> simp_all

/-- The text itself as bytes must hold an even number of digits and nothing else. -/
def digits? (text : List UInt8) : Except Fault (List Nat) :=
  if text.length % 2 = 1 then .error .oddLength
  else match text.findIdx? (fun b => (digit? b).isNone) with
    | some p => .error (.badByte (text.getD p 0) p)
    | none => .ok (text.map fun b => (digit? b).getD 0)

def encodeUtf8 (s : List Char) : List UInt8 :=
  s.flatMap String.utf8EncodeChar

/-- Blanks around the text and one marker are passed over. -/
def decode (s : List Char) : Except Fault (List UInt8) := do
  let digits ← digits? (encodeUtf8 (unmarked (Text.trim s)))
  return (spell #[] digits).toList

end EvmJumps.Hex
