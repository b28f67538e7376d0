import EvmJumps.Cache

namespace EvmJumps.Cache

inductive Cell where
  | vacant
  | busy
  | filled (table : JumpTable)

/-- Where a thread stands within a call that asks for a table. -/
inductive Stage where
  | idle
  | holding (code : Bytecode) (cell : Nat)
  | analyzing (code : Bytecode) (cell : Nat)
  | publishing (cell : Nat) (table : JumpTable)

structure Thread where
  calls : List Call
  stage : Stage := .idle
  /-- The answers so far, the latest first. -/
  answers : List Answer := []

def Thread.reply (t : Thread) (a : Answer) : Thread :=
  { t with stage := .idle, answers := a :: t.answers }

/-- A cache and the threads that share it. An entry leads to a cell. A call that asks for a table
first looks its entry up, or inserts one with a new cell; then, in steps of its own, it fills the
cell, waits for the thread that is filling it, or reads it. A cell that was displaced stays with the
calls that hold it. -/
structure Shared where
  config : Config
  recent : Recency Digest Nat
  /-- All cells that were ever made. -/
  cells : Array Cell := #[]
  stats : Stats := {}
  threads : List Thread := []

namespace Shared

def cell (s : Shared) (i : Nat) : Cell :=
  s.cells.getD i .vacant

def table? (s : Shared) (i : Nat) : Option JumpTable :=
  match s.cell i with
  | .filled table => some table
  | .vacant | .busy => none

def setCell (s : Shared) (i : Nat) (c : Cell) : Shared :=
  { s with cells := s.cells.setIfInBounds i c }

def setThread (s : Shared) (i : Nat) (t : Thread) : Shared :=
  { s with threads := s.threads.set i t }

/-- Takes the entry of a code, or makes one with a new cell. -/
def lookUp (s : Shared) (hash : Digest) : Nat × Shared :=
  match s.recent.find? hash with
  | some i => (i, { s with recent := s.recent.touch hash, stats := s.stats.hit })
  | none =>
    let i := s.cells.size
    (i, { s with
      recent := s.recent.push hash i
      cells := s.cells.push .vacant
      stats := s.stats.miss s.recent.isFull })

/-- The first step of a call. -/
def start (s : Shared) (t : Thread) : Call → Thread × Shared
  | .getOrAnalyze code =>
    if s.config.maxCodeSize < code.size then
      (t.reply (.table (.error (.codeTooLong code.size s.config.maxCodeSize))), s)
    else if !s.config.enableCache then
      (t.reply (.table (.ok (.ofCode code.bytes))), { s with stats := s.stats.analyzed })
    else
      let (i, s) := s.lookUp code.hash
      ({ t with stage := .holding code i }, s)
  | .get hash =>
    (t.reply (.found ((s.recent.find? hash).bind s.table?)),
      { s with recent := s.recent.touch hash })
  | .contains hash => (t.reply (.held (s.recent.contains hash)), s)
  | .clear => (t.reply .cleared, { s with recent := s.recent.clear })

/-- One atomic step of a thread; a thread that has to wait, or has no call left, takes none. -/
def stepThread (s : Shared) (t : Thread) : Option (Thread × Shared) :=
  match t.stage with
  | .idle =>
    match t.calls with
    | [] => none
    | first :: rest => some (s.start { t with calls := rest } first)
  | .holding code i =>
    match s.cell i with
    | .vacant => some ({ t with stage := .analyzing code i }, s.setCell i .busy)
    | .busy => none
    | .filled table => some (t.reply (.table (.ok table)), s)
  | .analyzing code i =>
    some ({ t with stage := .publishing i (.ofCode code.bytes) },
      { s with stats := s.stats.analyzed })
  | .publishing i table =>
    some (t.reply (.table (.ok table)), s.setCell i (.filled table))

/-- One atomic step of the thread with the given number. -/
def step (s : Shared) (i : Nat) : Option Shared :=
  match s.threads[i]? with
  | none => none
  | some t => (s.stepThread t).map fun (t, s) => s.setThread i t

/-- Follows a schedule; a thread whose turn comes when it cannot move lets it pass. -/
def follow (s : Shared) (schedule : List Nat) : Shared :=
  schedule.foldl (fun s i => (s.step i).getD s) s

end Shared

/-- Every entry of the cache with a filled cell of its own. -/
def share (c : Cache) (threads : List (List Call)) : Shared where
  config := c.config
  recent := ⟨c.recent.capacity, c.recent.entries.zipIdx.map fun ((hash, _), i) => (hash, i)⟩
  cells := (c.recent.entries.map fun entry => Cell.filled entry.2).toArray
  stats := c.stats
  threads := threads.map fun calls => { calls := calls }

/-- The cache that the threads leave; an entry whose cell was not filled is lost. -/
def Shared.join (s : Shared) : Cache where
  config := s.config
  recent := ⟨s.recent.capacity,
    s.recent.entries.filterMap fun (hash, i) => (s.table? i).map fun table => (hash, table)⟩
  stats := s.stats

/-- A number of threads ask for the table of one code at once, in turns. A call takes four steps at
most. -/
def race (c : Cache) (code : Bytecode) (threads : Nat) : List (Except Error JumpTable) × Cache :=
  let turns := (List.replicate 4 (List.range threads)).flatten
  let s := (c.share (List.replicate threads [.getOrAnalyze code])).follow turns
  let results := s.threads.flatMap fun t => t.answers.filterMap fun
    | .table result => some result
    | _ => none
  (results, s.join)

end EvmJumps.Cache
