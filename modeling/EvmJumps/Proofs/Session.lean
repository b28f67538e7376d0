import Mathlib.Logic.Function.Iterate
import EvmJumps.Proofs.Grammar

namespace EvmJumps

namespace Walker

/-- All that a walker can give when it is asked, and the walker that it is then. -/
inductive Gives (w : Walker) : Option Instruction → Walker → Prop
  | stopped {p : Nat} (cut : w.truncatedAt = some p) : Gives w none w
  | found {i : Instruction} {rest : List UInt8} (uncut : w.truncatedAt = none)
    (bytes : w.rest = i.encode ++ rest) (place : i.pc = w.position) (whole : i.Whole) :
    Gives w (some i) ⟨rest, i.nextPc, none⟩
  | ended (uncut : w.truncatedAt = none) (nothing : w.rest = []) : Gives w none w
  | cut (uncut : w.truncatedAt = none) (more : w.rest ≠ []) (stub : Stub w.rest) :
    Gives w none { w with truncatedAt := some w.position }

theorem gives_next (w : Walker) : w.Gives w.next.1 w.next.2 := by
  obtain ⟨bytes, position, truncatedAt⟩ := w
  cases truncatedAt with
  | some p => exact .stopped rfl
  | none =>
    cases found : split? position bytes with
    | some pair =>
      obtain ⟨i, rest⟩ := pair
      obtain ⟨place, whole⟩ := whole_of_split? found
      simp only [next, found]
      exact .found rfl (rest_of_split? found) place whole
    | none =>
      simp only [next, found]
      cases bytes with
      | nil => exact .ended rfl rfl
      | cons b tail => exact .cut rfl (List.cons_ne_nil b tail) (stub_of_split?_eq_none found)

namespace Gives

variable {w w' : Walker} {i : Instruction} {code : List UInt8}

theorem place (gives : w.Gives (some i) w') : i.pc = w.position := by
  cases gives with
  | found _ _ place _ => exact place

theorem uncut (gives : w.Gives (some i) w') : w'.truncatedAt = none := by
  cases gives
  rfl

/-- A walker that finds nothing does not move. -/
theorem position_eq (gives : w.Gives none w') : w'.position = w.position := by
  cases gives <;> rfl

/-- Being asked keeps the walker over its code. -/
theorem stays {found : Option Instruction} (gives : w.Gives found w')
    (rest : w.rest = code.drop w.position) (within : w.position ≤ code.length) :
    w'.rest = code.drop w'.position ∧ w'.position ≤ code.length := by
  cases gives with
  | stopped cut => exact ⟨rest, within⟩
  | @found i left uncut bytes place whole =>
    rw [bytes, ← place] at rest
    constructor
    · rw [Instruction.nextPc_eq, ← List.drop_drop, ← rest, List.drop_left]
    · have size := congrArg List.length rest
      rw [List.length_append, List.length_drop] at size
      have inside : i.pc ≤ code.length := place ▸ within
      show i.nextPc ≤ code.length
      rw [Instruction.nextPc_eq]
      omega
  | ended uncut nothing => exact ⟨rest, within⟩
  | cut uncut more stub => exact ⟨rest, within⟩

/-- The immediate that is cut out of the code lies in it. -/
theorem slice (gives : w.Gives (some i) w') (rest : w.rest = code.drop w.position) :
    code[i.pc]? = some i.opcode.byte ∧ i.pc + 1 + i.opcode.immediateSize ≤ code.length ∧
      i.immediate = code.extract (i.pc + 1) (i.pc + 1 + i.opcode.immediateSize) := by
  cases gives with
  | @found _ left uncut bytes place whole =>
    rw [bytes, ← place, Instruction.encode, List.cons_append] at rest
    have behind : i.immediate ++ left = code.drop (i.pc + 1) := by
      rw [← List.drop_drop, ← rest]
      rfl
    have size := congrArg List.length rest
    rw [List.length_cons, List.length_append, List.length_drop, whole] at size
    refine ⟨?_, by omega, ?_⟩
    · rw [← List.head?_drop, ← rest, List.head?_cons]
    · rw [List.extract_eq_take_drop, Nat.add_sub_cancel_left, ← behind, ← whole, List.take_left]

end Gives

variable {w w' : Walker}

/-- A walker that found nothing finds nothing when it is asked again, and stays as it is. -/
theorem next_again (step : w.next = (none, w')) : w'.next = (none, w') := by
  have gives := gives_next w
  rw [step] at gives
  cases gives with
  | stopped _ => exact step
  | ended _ _ => exact step
  | cut _ _ _ => rfl

theorem head?_toList (w : Walker) : w.toList.head? = w.next.1 := by
  rcases step : w.next with ⟨found, w'⟩
  cases found with
  | none => rw [toList_none step, List.head?_nil]
  | some i => rw [toList_some step, List.head?_cons]

theorem toList_next (w : Walker) : w.next.2.toList = w.toList.tail := by
  rcases step : w.next with ⟨found, w'⟩
  cases found with
  | none => rw [toList_none step, toList_none (next_again step), List.tail_nil]
  | some i => rw [toList_some step, List.tail_cons]

theorem exhausted_next (w : Walker) : w.next.2.exhausted = w.exhausted := by
  rcases step : w.next with ⟨found, w'⟩
  cases found with
  | none => rw [exhausted_none step, exhausted_none (next_again step)]
  | some i => rw [exhausted_some step]

theorem truncatedAt_exhausted (code : List UInt8) :
    (walk code).exhausted.truncatedAt =
      if (walk code).exhausted.position < code.length then some (walk code).exhausted.position
      else none := by
  have parsed := parsed_walk code
  split
  · rename_i before
    exact parsed.cut_iff.mpr before
  · rename_i reached
    exact parsed.uncut_iff.mpr (Nat.le_antisymm parsed.within (Nat.le_of_not_lt reached))

/-- A walker over a code that was asked `k` times. -/
structure Asked (code : List UInt8) (k : Nat) (w : Walker) : Prop where
  left : w.toList = (walk code).toList.drop k
  ends : w.exhausted = (walk code).exhausted
  uncut : k ≤ (walk code).toList.length → w.truncatedAt = none
  stopped : (walk code).toList.length < k → w = (walk code).exhausted
  rest : w.rest = code.drop w.position
  within : w.position ≤ code.length

theorem asked_walk (code : List UInt8) : (walk code).Asked code 0 where
  left := rfl
  ends := rfl
  uncut _ := rfl
  stopped late := absurd late (Nat.not_lt_zero _)
  rest := rfl
  within := Nat.zero_le _

namespace Asked

variable {code : List UInt8} {k : Nat}

theorem answer (asked : w.Asked code k) : w.next.1 = (walk code).toList[k]? := by
  rw [← head?_toList, asked.left, List.head?_drop]

/-- The question that finds nothing is the one after which the walker stands at the end. -/
theorem next_eq_exhausted (asked : w.Asked code k) (nothing : (walk code).toList[k]? = none) :
    w.next.2 = (walk code).exhausted := by
  have step : w.next = (none, w.next.2) := Prod.ext (asked.answer.trans nothing) rfl
  exact (exhausted_none step).symm.trans asked.ends

theorem next (asked : w.Asked code k) : w.next.2.Asked code (k + 1) := by
  have gives := gives_next w
  obtain ⟨rest, within⟩ := gives.stays asked.rest asked.within
  refine ⟨?_, ?_, ?_, ?_, rest, within⟩
  · rw [toList_next, asked.left, List.tail_drop]
  · rw [exhausted_next, asked.ends]
  · intro early
    rw [asked.answer, List.getElem?_eq_getElem early] at gives
    exact gives.uncut
  · intro late
    exact asked.next_eq_exhausted (List.getElem?_eq_none (Nat.le_of_lt_succ late))

theorem position_eq (asked : w.Asked code k) : w.position =
    (walk code).toList[k]?.elim (walk code).exhausted.position Instruction.pc := by
  have gives := gives_next w
  rw [asked.answer] at gives
  cases found : (walk code).toList[k]? with
  | some i =>
    rw [found] at gives
    exact gives.place.symm
  | none =>
    rw [found, asked.next_eq_exhausted found] at gives
    exact gives.position_eq.symm

theorem truncatedAt_eq (asked : w.Asked code k) : w.truncatedAt =
    if (walk code).toList.length < k ∧ w.position < code.length then some w.position
    else none := by
  by_cases late : (walk code).toList.length < k
  · simp only [late, true_and]
    rw [asked.stopped late]
    exact truncatedAt_exhausted code
  · simp only [late, false_and, if_false]
    exact asked.uncut (Nat.le_of_not_lt late)

end Asked

end Walker

/-- A walker in use, with what it answered each time that it was asked, and what copies of it found
until nothing was left, each with the walker that it was in the end. -/
structure Session where
  walker : Walker
  answers : List (Option Instruction) := []
  copies : List (Array Instruction × Walker) := []

namespace Session

/-- What can be done next: the walker is asked once, or until it finds nothing, or a copy of it is
asked until it finds nothing. -/
inductive Step where
  | next
  | rest
  | copy
  deriving DecidableEq, Repr

def start (code : List UInt8) : Session where
  walker := walk code

def next (s : Session) : Session :=
  { s with
    walker := s.walker.next.2
    answers := s.answers ++ [s.walker.next.1] }

def step (s : Session) : Step → Session
  | .next => s.next
  | .rest =>
    let (found, w) := s.walker.collect
    -- the question that finds nothing ends the asking and is one more
    { s with
      walker := w
      answers := s.answers ++ (found.toList.map some ++ [none]) }
  | .copy => { s with copies := s.copies ++ [s.walker.collect] }

def run (s : Session) (steps : List Step) : Session :=
  steps.foldl step s

/-- The walker itself and its answers, without the copies. -/
def original (s : Session) : Walker × List (Option Instruction) :=
  (s.walker, s.answers)

/-- Asking until nothing is found is asking once for each instruction that is left, and once
more. -/
theorem step_rest (s : Session) : s.step .rest = next^[s.walker.toList.length + 1] s := by
  rcases asked : s.walker.next with ⟨found, w⟩
  cases found with
  | none =>
    have list := Walker.toList_none asked
    simp [step, next, Walker.collect_eq, list, Walker.exhausted_none asked, asked]
  | some i =>
    have shorter := Walker.next_shorter asked
    have list : s.walker.toList = i :: s.next.walker.toList := by
      rw [Walker.toList_some asked, next, asked]
    have ends : s.walker.exhausted = s.next.walker.exhausted := by
      rw [Walker.exhausted_some asked, next, asked]
    rw [list, List.length_cons, Function.iterate_succ_apply, ← step_rest s.next]
    simp [step, Walker.collect_eq, list, ends, next, asked]
termination_by s.walker.rest.length
decreasing_by simpa [next, asked] using shorter

theorem original_next {s t : Session} (same : s.original = t.original) :
    s.next.original = t.next.original := by
  obtain ⟨walker, answers⟩ := Prod.mk.inj same
  simp only [original, next, walker, answers]

theorem original_iterate_next {s t : Session} (same : s.original = t.original) (k : Nat) :
    (next^[k] s).original = (next^[k] t).original := by
  induction k with
  | zero => exact same
  | succ k ih =>
    rw [Function.iterate_succ_apply', Function.iterate_succ_apply']
    exact original_next ih

theorem length_answers_next (s : Session) : s.next.answers.length = s.answers.length + 1 := by
  rw [next, List.length_append, List.length_singleton]

theorem length_answers_iterate_next (s : Session) (k : Nat) :
    (next^[k] s).answers.length = s.answers.length + k := by
  induction k with
  | zero => rfl
  | succ k ih => rw [Function.iterate_succ_apply', length_answers_next, ih, Nat.add_assoc]

theorem original_step (s : Session) (a : Step) :
    ∃ k, (s.step a).original = (next^[k] s).original := by
  cases a with
  | next => exact ⟨1, rfl⟩
  | rest => exact ⟨_, congrArg original s.step_rest⟩
  | copy => exact ⟨0, rfl⟩

theorem original_run (s : Session) (steps : List Step) :
    ∃ k, (s.run steps).original = (next^[k] s).original := by
  induction steps generalizing s with
  | nil => exact ⟨0, rfl⟩
  | cons a steps ih =>
    obtain ⟨k, one⟩ := s.original_step a
    obtain ⟨m, others⟩ := ih (s.step a)
    refine ⟨m + k, ?_⟩
    rw [Function.iterate_add_apply, ← original_iterate_next one]
    exact others

/-- The walker was asked as often as it answered, and its answers are the instructions of the code
in their order and then nothing. -/
structure InOrder (code : List UInt8) (s : Session) : Prop where
  asked : s.walker.Asked code s.answers.length
  answers : ∀ k < s.answers.length, s.answers[k]? = some (walk code).toList[k]?

namespace InOrder

variable {code : List UInt8} {s t : Session}

theorem of_original (inOrder : t.InOrder code) (same : s.original = t.original) :
    s.InOrder code := by
  obtain ⟨walker, answers⟩ := Prod.mk.inj same
  constructor
  · rw [walker, answers]
    exact inOrder.asked
  · rw [answers]
    exact inOrder.answers

theorem next (inOrder : s.InOrder code) : s.next.InOrder code := by
  constructor
  · rw [length_answers_next]
    exact inOrder.asked.next
  · intro k early
    rw [length_answers_next] at early
    rcases Nat.lt_or_eq_of_le (Nat.le_of_lt_succ early) with before | rfl
    · rw [Session.next, List.getElem?_append_left before]
      exact inOrder.answers k before
    · rw [Session.next, List.getElem?_concat_length, inOrder.asked.answer]

/-- Nothing is found exactly by those questions that come after all instructions. -/
theorem none_mem_iff (inOrder : s.InOrder code) :
    none ∈ s.answers ↔ (walk code).toList.length < s.answers.length := by
  rw [List.mem_iff_getElem?]
  constructor
  · intro ⟨k, found⟩
    obtain ⟨early, _⟩ := List.getElem?_eq_some_iff.mp found
    rw [inOrder.answers k early, Option.some.injEq, List.getElem?_eq_none_iff] at found
    exact Nat.lt_of_le_of_lt found early
  · intro late
    refine ⟨_, (inOrder.answers _ late).trans ?_⟩
    rw [List.getElem?_eq_none (Nat.le_refl _)]

/-- Asked until nothing is left, the walker finds what it has not given yet. -/
theorem collect_eq (inOrder : s.InOrder code) : s.walker.collect =
    (((disassemble code).toList.drop s.answers.length).toArray, (walk code).exhausted) := by
  rw [Walker.collect_eq, inOrder.asked.left, inOrder.asked.ends, toList_disassemble]

end InOrder

theorem inOrder_start (code : List UInt8) : (start code).InOrder code :=
  ⟨Walker.asked_walk code, fun _ early => absurd early (Nat.not_lt_zero _)⟩

theorem inOrder_iterate_next (code : List UInt8) (k : Nat) :
    (next^[k] (start code)).InOrder code := by
  induction k with
  | zero => exact inOrder_start code
  | succ k ih =>
    rw [Function.iterate_succ_apply']
    exact ih.next

/-- The original of a session is where one question after the other would have left it. -/
theorem original_run_start (code : List UInt8) (steps : List Step) :
    ((start code).run steps).original =
      (next^[((start code).run steps).answers.length] (start code)).original := by
  obtain ⟨k, same⟩ := original_run (start code) steps
  have number : ((start code).run steps).answers.length = k := by
    rw [(Prod.mk.inj same).2, length_answers_iterate_next]
    exact Nat.zero_add k
  rw [number, same]

theorem inOrder_run (code : List UInt8) (steps : List Step) :
    ((start code).run steps).InOrder code :=
  (inOrder_iterate_next code _).of_original (original_run_start code steps)

theorem mem_answers_step {s : Session} {answer : Option Instruction} (given : answer ∈ s.answers)
    (a : Step) : answer ∈ (s.step a).answers := by
  cases a with
  | next => exact List.mem_append_left _ given
  | rest => exact List.mem_append_left _ given
  | copy => exact given

theorem mem_answers_run {s : Session} {answer : Option Instruction} (given : answer ∈ s.answers)
    (steps : List Step) : answer ∈ (s.run steps).answers := by
  induction steps generalizing s with
  | nil => exact given
  | cons a steps ih => exact ih (mem_answers_step given a)

/-- A walker that once found nothing does not change any more. -/
theorem walker_run_of_none_mem {code : List UInt8} {steps : List Step}
    (nothing : none ∈ ((start code).run steps).answers) (more : List Step) :
    (((start code).run steps).run more).walker = ((start code).run steps).walker := by
  have inOrder := inOrder_run code steps
  have later := inOrder_run code (steps ++ more)
  rw [run, List.foldl_append, ← run, ← run] at later
  rw [inOrder.asked.stopped (inOrder.none_mem_iff.mp nothing),
    later.asked.stopped (later.none_mem_iff.mp (mem_answers_run nothing more))]

/-- What holds of a session at any time. -/
structure Regular (code : List UInt8) (s : Session) : Prop where
  /-- Its walker stands where one question after the other would have left it, and has answered the
  same; no copy shows. -/
  singly : s.original = (next^[s.answers.length] (start code)).original
  answers : ∀ k < s.answers.length, s.answers[k]? = some (disassemble code).toList[k]?
  position : s.walker.position =
    (disassemble code).toList[s.answers.length]?.elim (walk code).exhausted.position Instruction.pc
  within : s.walker.position ≤ code.length
  truncatedAt : s.walker.truncatedAt =
    if none ∈ s.answers ∧ s.walker.position < code.length then some s.walker.position else none
  still : none ∈ s.answers → ∀ more, (s.run more).walker = s.walker
  rest : s.step .rest = { s with
    walker := (walk code).exhausted
    answers := s.answers ++
      (((disassemble code).toList.drop s.answers.length).map some ++ [none]) }
  /-- A copy finds what is left and ends like a walk through the whole code. -/
  copy : s.step .copy = { s with
    copies := s.copies ++
      [(((disassemble code).toList.drop s.answers.length).toArray, (walk code).exhausted)] }
  /-- The immediate of the next instruction is a piece of the code. -/
  slice : ∀ i, s.walker.next.1 = some i → i.pc = s.walker.position ∧
    code[i.pc]? = some i.opcode.byte ∧ i.pc + 1 + i.opcode.immediateSize ≤ code.length ∧
    i.immediate = code.extract (i.pc + 1) (i.pc + 1 + i.opcode.immediateSize)

/-- However a walker is used, its answers are the instructions of the code in their order and then
nothing, for ever. Before the first answer that is nothing it stands at the next instruction and
reports no PUSH that is cut off; from then on it stays where the walk ends, and reports the PUSH
there exactly if that is not the end of the code. A copy made at any time finds the instructions
that were not given yet, and the walker that was copied does not notice. -/
theorem regular_in_any_use (code : List UInt8) (steps : List Step) :
    ((start code).run steps).Regular code := by
  have inOrder := inOrder_run code steps
  refine ⟨original_run_start code steps, ?_, ?_, inOrder.asked.within, ?_, walker_run_of_none_mem,
    ?_, ?_, ?_⟩
  · rw [toList_disassemble]
    exact inOrder.answers
  · rw [toList_disassemble]
    exact inOrder.asked.position_eq
  · simp only [inOrder.none_mem_iff]
    exact inOrder.asked.truncatedAt_eq
  · simp only [step, inOrder.collect_eq]
  · simp only [step, inOrder.collect_eq]
  · intro i found
    have gives := Walker.gives_next ((start code).run steps).walker
    rw [found] at gives
    exact ⟨gives.place, gives.slice inOrder.asked.rest⟩

/-- A marker in front of a PUSH3 with two bytes: asked for the marker and then for the rest, the
walker reports the PUSH3, and does so still when it is copied and asked again. -/
theorem regular_in_any_use_cut :
    none ∈ ((start [0x5b, 0x62, 0x01, 0x5b]).run [.next, .copy, .rest]).answers ∧
    ((start [0x5b, 0x62, 0x01, 0x5b]).run [.next, .copy, .rest]).walker.truncatedAt = some 1 ∧
    (((start [0x5b, 0x62, 0x01, 0x5b]).run [.next, .copy, .rest]).run [.copy, .next]).walker =
      ((start [0x5b, 0x62, 0x01, 0x5b]).run [.next, .copy, .rest]).walker := by
  have regular := regular_in_any_use [0x5b, 0x62, 0x01, 0x5b] [.next, .copy, .rest]
  have nothing : none ∈
      ((start [0x5b, 0x62, 0x01, 0x5b]).run [.next, .copy, .rest]).answers := by
    simp [run, step]
  have stub : Stub [0x62, 0x01, 0x5b] :=
    Stub.of_pushes rfl (o := ⟨0x62⟩) (n := 3) ⟨by decide, by decide, rfl⟩ (by decide)
  have reads : Reads 0 [0x5b, 0x62, 0x01, 0x5b] [⟨0, .jumpdest, []⟩] [0x62, 0x01, 0x5b] :=
    .instruction (i := ⟨0, .jumpdest, []⟩) rfl (.stub stub)
  have ends : ((start [0x5b, 0x62, 0x01, 0x5b]).run [.next, .copy, .rest]).walker =
      Walker.behind 0 [⟨0, .jumpdest, []⟩] [0x62, 0x01, 0x5b] :=
    (congrArg walker (regular_in_any_use _ [.next, .copy]).rest).trans reads.exhausted_eq
  exact ⟨nothing, congrArg Walker.truncatedAt ends, regular.still nothing [.copy, .next]⟩

end Session

end EvmJumps
