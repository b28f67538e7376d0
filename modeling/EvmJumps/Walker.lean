import EvmJumps.Instruction

namespace EvmJumps

/-- The code from the cursor on, the cursor, and the offset of the PUSH that ended the walk. -/
structure Walker where
  rest : List UInt8
  position : Nat := 0
  truncatedAt : Option Nat := none
  deriving DecidableEq, Repr

namespace Walker

/-- The first instruction of some code and what follows it, if the code holds all of the
instruction. -/
def split? (pc : Nat) : List UInt8 → Option (Instruction × List UInt8)
  | [] => none
  | b :: tail =>
    let n := (Opcode.mk b).immediateSize
    let immediate := tail.take n
    if immediate.length < n then none else some (⟨pc, ⟨b⟩, immediate⟩, tail.drop n)

/-- The walk ends at the end of the code, or at a PUSH whose immediate runs beyond it; such a PUSH
is reported and not yielded. -/
def next (w : Walker) : Option Instruction × Walker :=
  match w.truncatedAt with
  | some _ => (none, w)
  | none =>
    match split? w.position w.rest with
    | some (i, rest) => (some i, { w with rest := rest, position := i.nextPc })
    | none =>
      match w.rest with
      | [] => (none, w)
      | _ :: _ => (none, { w with truncatedAt := some w.position })

theorem rest_of_split? {pc : Nat} {code rest : List UInt8} {i : Instruction}
    (found : split? pc code = some (i, rest)) : code = i.encode ++ rest := by
  cases code with
  | nil => simp [split?] at found
  | cons b tail =>
    simp only [split?] at found
    split at found
    · cases found
    · simp only [Option.some.injEq, Prod.mk.injEq] at found
      obtain ⟨rfl, rfl⟩ := found
      simp [Instruction.encode]

theorem split?_encode {i : Instruction} (fits : i.immediate.length = i.opcode.immediateSize)
    (rest : List UInt8) : split? i.pc (i.encode ++ rest) = some (i, rest) := by
  obtain ⟨pc, ⟨b⟩, immediate⟩ := i
  simp only at fits
  simp [split?, Instruction.encode, ← fits]

theorem rest_of_next_some {w w' : Walker} {i : Instruction} (step : w.next = (some i, w')) :
    w.rest = i.encode ++ w'.rest := by
  unfold next at step
  split at step
  · cases step
  · split at step
    · rename_i found
      cases step
      exact rest_of_split? found
    · split at step <;> cases step

theorem next_shorter {w w' : Walker} {i : Instruction} (step : w.next = (some i, w')) :
    w'.rest.length < w.rest.length := by
  rw [rest_of_next_some step]
  simp only [Instruction.encode, List.length_append, List.length_cons]
  omega

/-- Consumes all instructions that are left, and returns the walker behind them too. -/
def foldl (f : β → Instruction → β) (b : β) (w : Walker) : β × Walker :=
  match step : w.next with
  | (some i, w') =>
    have := next_shorter step
    foldl f (f b i) w'
  | (none, w') => (b, w')
termination_by w.rest.length

/-- The instructions that are left. -/
def toList (w : Walker) : List Instruction :=
  match step : w.next with
  | (some i, w') =>
    have := next_shorter step
    i :: toList w'
  | (none, _) => []
termination_by w.rest.length

/-- The walker behind all instructions. -/
def exhausted (w : Walker) : Walker :=
  (w.foldl (fun _ _ => ()) ()).2

theorem foldl_some {w w' : Walker} {i : Instruction} (step : w.next = (some i, w'))
    (f : β → Instruction → β) (b : β) : w.foldl f b = w'.foldl f (f b i) := by
  rw [foldl]
  split <;> simp_all

theorem foldl_none {w w' : Walker} (step : w.next = (none, w'))
    (f : β → Instruction → β) (b : β) : w.foldl f b = (b, w') := by
  rw [foldl]
  split <;> simp_all

theorem toList_some {w w' : Walker} {i : Instruction} (step : w.next = (some i, w')) :
    w.toList = i :: w'.toList := by
  rw [toList]
  split <;> simp_all

theorem toList_none {w w' : Walker} (step : w.next = (none, w')) : w.toList = [] := by
  rw [toList]
  split <;> simp_all

theorem exhausted_some {w w' : Walker} {i : Instruction} (step : w.next = (some i, w')) :
    w.exhausted = w'.exhausted := by
  rw [exhausted, exhausted, foldl_some step]

theorem exhausted_none {w w' : Walker} (step : w.next = (none, w')) : w.exhausted = w' := by
  rw [exhausted, foldl_none step]

theorem foldl_eq (f : β → Instruction → β) (b : β) (w : Walker) :
    w.foldl f b = (w.toList.foldl f b, w.exhausted) := by
  rcases step : w.next with ⟨found, w'⟩
  cases found with
  | none => rw [foldl_none step, toList_none step, exhausted_none step, List.foldl_nil]
  | some i =>
    have := next_shorter step
    rw [foldl_some step, toList_some step, exhausted_some step, List.foldl_cons]
    exact foldl_eq f (f b i) w'
termination_by w.rest.length

def collect (w : Walker) : Array Instruction × Walker :=
  w.foldl Array.push #[]

theorem collect_eq (w : Walker) : w.collect = (w.toList.toArray, w.exhausted) := by
  rw [collect, foldl_eq]
  congr 1
  simp

end Walker

/-- The walker before the first instruction of a code. -/
def walk (code : List UInt8) : Walker where
  rest := code

/-- The instructions of a code, up to the first that the code does not hold whole. -/
def disassemble (code : List UInt8) : Array Instruction :=
  (walk code).collect.1

end EvmJumps
