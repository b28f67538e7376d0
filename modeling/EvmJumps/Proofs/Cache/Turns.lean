import Mathlib.Data.List.Induction
import EvmJumps.Proofs.Cache.Steps

namespace EvmJumps.Cache.Shared

/-- A call gets a cell for the table of its code. The call is given by its thread and by the number
of calls that the thread finished before. -/
structure LookUp where
  thread : Nat
  call : Nat
  code : Bytecode
  cell : Nat

/-- The look-up that the next step of a thread makes. -/
def lookUp? (s : Shared) (i : Nat) (t : Thread) : Option LookUp :=
  match t.stage, t.calls with
  | .idle, .getOrAnalyze code :: _ =>
    if code.size ≤ s.config.maxCodeSize && s.config.enableCache then
      some ⟨i, t.answers.length, code, (s.lookUp code.hash).1⟩
    else none
  | _, _ => none

/-- The cell for which the next step of a thread analyzes a code. -/
def analysis? (t : Thread) : Option Nat :=
  match t.stage with
  | .analyzing _ cell => some cell
  | .idle | .holding _ _ | .publishing _ _ => none

/-- The turns of a schedule, each with the machine that it comes to. -/
def moments (s : Shared) : List Nat → List (Shared × Nat)
  | [] => []
  | i :: schedule => (s, i) :: moments ((s.step i).getD s) schedule

/-- All look-ups that are made in the course of a schedule. -/
def lookUps (s : Shared) (schedule : List Nat) : List LookUp :=
  (s.moments schedule).filterMap fun (s, i) => s.threads[i]?.bind (s.lookUp? i)

/-- The cells for which codes are analyzed in the course of a schedule. -/
def analyses (s : Shared) (schedule : List Nat) : List Nat :=
  (s.moments schedule).filterMap fun (s, i) => s.threads[i]?.bind analysis?

/-- The answer that a thread got to one of its calls, if it has finished it. -/
def answer? (s : Shared) (thread call : Nat) : Option Answer :=
  s.threads[thread]?.bind fun t => t.answers.reverse[call]?

theorem follow_snoc (s : Shared) (schedule : List Nat) (i : Nat) :
    s.follow (schedule ++ [i]) = ((s.follow schedule).step i).getD (s.follow schedule) := by
  rw [follow, List.foldl_append]
  rfl

theorem moments_snoc (s : Shared) (schedule : List Nat) (i : Nat) :
    s.moments (schedule ++ [i]) = s.moments schedule ++ [(s.follow schedule, i)] := by
  induction schedule generalizing s with
  | nil => rfl
  | cons first schedule ih =>
    rw [List.cons_append, moments, ih]
    rfl

theorem lookUps_snoc (s : Shared) (schedule : List Nat) (i : Nat) :
    s.lookUps (schedule ++ [i]) = s.lookUps schedule ++
      ((s.follow schedule).threads[i]?.bind ((s.follow schedule).lookUp? i)).toList := by
  rw [lookUps, moments_snoc, List.filterMap_append]
  cases made : (s.follow schedule).threads[i]?.bind ((s.follow schedule).lookUp? i) <;>
    simp [lookUps, made]

theorem analyses_snoc (s : Shared) (schedule : List Nat) (i : Nat) :
    s.analyses (schedule ++ [i]) = s.analyses schedule ++
      ((s.follow schedule).threads[i]?.bind analysis?).toList := by
  rw [analyses, moments_snoc, List.filterMap_append]
  cases made : (s.follow schedule).threads[i]?.bind analysis? <;> simp [analyses, made]

variable {s s' : Shared} {t t' : Thread} {i : Nat}

/-- A thread that lets its turn pass neither looks anything up nor analyzes. -/
theorem nothing_of_stuck (stuck : s.stepThread t = none) :
    s.lookUp? i t = none ∧ analysis? t = none := by
  obtain ⟨calls, stage, answers⟩ := t
  cases stage with
  | idle =>
    cases calls with
    | nil => exact ⟨rfl, rfl⟩
    | cons call calls => cases stuck
  | holding code c => exact ⟨rfl, rfl⟩
  | analyzing code c => cases stuck
  | publishing c table => cases stuck

/-- Follows a schedule from its start, step by step, and what was looked up and analyzed with it. -/
theorem follow_induction {P : List LookUp → List Nat → Shared → Prop} (start : P [] [] s)
    (next : ∀ looks cells s i t t' s', P looks cells s → s.threads[i]? = some t →
      Moves s t t' s' →
      P (looks ++ (s.lookUp? i t).toList) (cells ++ (analysis? t).toList) (s'.setThread i t'))
    (schedule : List Nat) : P (s.lookUps schedule) (s.analyses schedule) (s.follow schedule) := by
  induction schedule using List.reverseRecOn with
  | nil => exact start
  | append_singleton schedule i ih =>
    rw [lookUps_snoc, analyses_snoc, follow_snoc]
    cases place : (s.follow schedule).threads[i]? with
    | none => simpa [step, place] using ih
    | some t =>
      cases move : (s.follow schedule).stepThread t with
      | none =>
        obtain ⟨noLookUp, noAnalysis⟩ := nothing_of_stuck (i := i) move
        simpa [step, place, move, noLookUp, noAnalysis] using ih
      | some pair =>
        have moves := moves_of_stepThread move
        simpa [step, place, move] using next _ _ _ i t _ _ ih place moves

/-- How many threads are in a stage of some kind. -/
def tally (s : Shared) (p : Stage → Bool) : Nat :=
  s.threads.countP fun t => p t.stage

theorem tally_pos (place : s.threads[i]? = some t) {p : Stage → Bool} (here : p t.stage = true) :
    0 < s.tally p :=
  List.countP_pos_iff.mpr ⟨t, List.mem_of_getElem? place, here⟩

theorem exists_of_tally_pos {p : Stage → Bool} (positive : 0 < s.tally p) :
    ∃ (i : Nat) (t : Thread), s.threads[i]? = some t ∧ p t.stage = true := by
  obtain ⟨t, member, here⟩ := List.countP_pos_iff.mp positive
  obtain ⟨i, place⟩ := List.getElem?_of_mem member
  exact ⟨i, t, place, here⟩

/-- A step takes its thread out of the stage where it was and puts it into another. -/
theorem Moves.tally (moves : Moves s t t' s') (place : s.threads[i]? = some t)
    (p : Stage → Bool) :
    (s'.setThread i t').tally p + (p t.stage).toNat = s.tally p + (p t'.stage).toNat := by
  obtain ⟨inside, rfl⟩ := List.getElem?_eq_some_iff.mp place
  have here (q : p s.threads[i].stage = true) : 0 < s.tally p := tally_pos place q
  have count : (s'.setThread i t').tally p =
      s.tally p - (if p s.threads[i].stage then 1 else 0) + if p t'.stage then 1 else 0 := by
    rw [Shared.tally, setThread, moves.fixed.1, List.countP_set inside]
    rfl
  rw [count]
  cases old : p s.threads[i].stage with
  | false => cases p t'.stage <;> simp
  | true =>
    have positive := here old
    cases p t'.stage <;> simp <;> omega

end EvmJumps.Cache.Shared
