namespace EvmJumps

/-- The largest code that may be deployed, in bytes. -/
def defaultMaxCodeSize : Nat := 24576

structure Config where
  cacheCapacity : Nat := 1024
  maxCodeSize : Nat := defaultMaxCodeSize
  enableCache : Bool := true
  deriving DecidableEq, Repr, Inhabited

namespace Config

/-- Why a configuration cannot be used. -/
inductive Flaw where
  | zeroCapacity
  | zeroCodeSize
  deriving DecidableEq, Repr

def Flaw.message : Flaw → String
  | .zeroCapacity => "cache_capacity deve ser maior que zero"
  | .zeroCodeSize => "max_code_size deve ser maior que zero"

def flaw? (c : Config) : Option Flaw :=
  if c.cacheCapacity = 0 then some .zeroCapacity
  else if c.maxCodeSize = 0 then some .zeroCodeSize
  else none

theorem flaw?_eq_none_iff {c : Config} :
    c.flaw? = none ↔ 0 < c.cacheCapacity ∧ 0 < c.maxCodeSize := by
  unfold flaw?
  split
  · simp_all
  · split
    · simp_all
    · simp only [true_iff]
      omega

inductive Field where
  | cacheCapacity
  | maxCodeSize
  | enableCache
  deriving DecidableEq, Repr

namespace Field

def name : Field → String
  | .cacheCapacity => "cache_capacity"
  | .maxCodeSize => "max_code_size"
  | .enableCache => "enable_cache"

def all : List Field := [.cacheCapacity, .maxCodeSize, .enableCache]

def ofName? (s : List Char) : Option Field :=
  all.find? fun f => f.name.toList == s

/-- The field after this one, in the order of a list. -/
def next? : Field → Option Field
  | .cacheCapacity => some .maxCodeSize
  | .maxCodeSize => some .enableCache
  | .enableCache => none

theorem ofName?_eq_some_iff {s : List Char} {f : Field} :
    ofName? s = some f ↔ s = f.name.toList := by
  constructor
  · intro found
    have := List.find?_some found
    exact (beq_iff_eq.mp this).symm
  · rintro rfl
    cases f <;> decide

end Field

end Config

end EvmJumps
