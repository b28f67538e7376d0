import EvmJumps.Bytecode
import EvmJumps.JumpTable
import EvmJumps.Recency

namespace EvmJumps

/-- Counters over the whole life of a cache. -/
structure Stats where
  hits : Nat := 0
  misses : Nat := 0
  inserts : Nat := 0
  evictions : Nat := 0
  analyses : Nat := 0
  deriving DecidableEq, Repr

namespace Stats

def hit (s : Stats) : Stats :=
  { s with hits := s.hits + 1 }

/-- A look-up that found nothing inserts an entry, and displaces one from a full cache. -/
def miss (s : Stats) (full : Bool) : Stats :=
  { s with
    misses := s.misses + 1
    inserts := s.inserts + 1
    evictions := if full then s.evictions + 1 else s.evictions }

def analyzed (s : Stats) : Stats :=
  { s with analyses := s.analyses + 1 }

theorem evictions_miss (s : Stats) (full : Bool) :
    (s.miss full).evictions = s.evictions + full.toNat := by
  cases full <;> rfl

end Stats

/-- Jump tables by the digest of their code. -/
structure Cache where
  config : Config
  recent : Recency Digest JumpTable
  stats : Stats := {}

namespace Cache

/-- An empty cache for a configuration that can be used. -/
def fresh (config : Config) : Cache where
  config := config
  recent := { capacity := config.cacheCapacity }

def ofConfig (config : Config) : Except Error Cache :=
  match config.flaw? with
  | some flaw => .error (.config flaw)
  | none => .ok (fresh config)

/-- The table of a code, analyzed unless it is at hand. Codes beyond the size limit are refused
before anything else; a disabled cache analyzes each code that it is given and keeps nothing. -/
def getOrAnalyze (c : Cache) (code : Bytecode) : Except Error JumpTable × Cache :=
  if c.config.maxCodeSize < code.size then
    (.error (.codeTooLong code.size c.config.maxCodeSize), c)
  else if !c.config.enableCache then
    (.ok (.ofCode code.bytes), { c with stats := c.stats.analyzed })
  else match c.recent.find? code.hash with
    | some table => (.ok table, { c with recent := c.recent.touch code.hash, stats := c.stats.hit })
    | none =>
      let table := JumpTable.ofCode code.bytes
      (.ok table, { c with
        recent := c.recent.push code.hash table
        stats := (c.stats.miss c.recent.isFull).analyzed })

/-- What is logged when a code is refused. -/
def refused (code : Bytecode) (limit : Nat) : Event where
  level := .warn
  message := "código excede o tamanho máximo"
  fields := [("hash", Digest.text code.hash), ("len", Text.decimal code.size),
    ("max", Text.decimal limit)]

/-- What is logged when a table was built. -/
def built (code : Bytecode) (table : JumpTable) : Event where
  level := .debug
  message := "tabela de saltos construída"
  fields := [("hash", Digest.text code.hash), ("len", Text.decimal code.size),
    ("jumpdests", Text.decimal table.outcome.jumpdests),
    ("truncated", (toString table.outcome.isTruncated).toList)]

/-- What an analysis logs: the pass over the code, and then the table. -/
def analysisEvents (code : Bytecode) : List Event :=
  let table := JumpTable.ofCode code.bytes
  table.outcome.events code.size ++ [built code table]

/-- What is logged when the table of a code is asked for; a table at hand is handed out without a
word. -/
def events (c : Cache) (code : Bytecode) : List Event :=
  if c.config.maxCodeSize < code.size then [refused code c.config.maxCodeSize]
  else if !c.config.enableCache then analysisEvents code
  else match c.recent.find? code.hash with
    | some _ => []
    | none => analysisEvents code

/-- The table at hand for a digest; asking for it counts as a use. -/
def get (c : Cache) (hash : Digest) : Option JumpTable × Cache :=
  (c.recent.find? hash, { c with recent := c.recent.touch hash })

/-- Looking without using. -/
def contains (c : Cache) (hash : Digest) : Bool :=
  c.recent.contains hash

def size (c : Cache) : Nat :=
  c.recent.size

/-- Drops all entries; the counters go on. -/
def clear (c : Cache) : Cache :=
  { c with recent := c.recent.clear }

inductive Call where
  | getOrAnalyze (code : Bytecode)
  | get (hash : Digest)
  | contains (hash : Digest)
  | clear

inductive Answer where
  | table (result : Except Error JumpTable)
  | found (table : Option JumpTable)
  | held (yes : Bool)
  | cleared

def call (c : Cache) : Call → Answer × Cache
  | .getOrAnalyze code =>
    let (result, c) := c.getOrAnalyze code
    (.table result, c)
  | .get hash =>
    let (table, c) := c.get hash
    (.found table, c)
  | .contains hash => (.held (c.contains hash), c)
  | .clear => (.cleared, c.clear)

/-- The answers to a history of calls, and the cache after it. -/
def run (c : Cache) : List Call → List Answer × Cache
  | [] => ([], c)
  | first :: rest =>
    let (answer, c) := c.call first
    let (answers, c) := run c rest
    (answer :: answers, c)

end Cache

end EvmJumps
