import EvmJumps.Config
import EvmJumps.Json.Outline

namespace EvmJumps.Config

/-- What a place in the text must hold. -/
inductive Wanted where
  | number
  | bool
  | config
  deriving DecidableEq, Repr

def Wanted.describe : Wanted → String
  | .number => "usize"
  | .bool => "a boolean"
  | .config => "struct CodeAnalysisConfig"

inductive Fault where
  | json (f : Json.Fault)
  | repeated (f : Field)
  | negative (n : Nat)
  | mismatch (found : Json.Outline) (wanted : Wanted)
  deriving Repr

def Fault.message : Fault → String
  | .json f => f.message
  | .repeated f => "duplicate field `" ++ f.name ++ "`"
  | .negative n => "invalid value: " ++ (Json.Number.negative n).describe ++ ", expected usize"
  | .mismatch found wanted =>
    "invalid type: " ++ found.describe ++ ", expected " ++ wanted.describe

def Field.wanted : Field → Wanted
  | .cacheCapacity | .maxCodeSize => .number
  | .enableCache => .bool

structure Draft where
  cacheCapacity : Option Nat := none
  maxCodeSize : Option Nat := none
  enableCache : Option Bool := none
  deriving DecidableEq, Repr

namespace Draft

def has (d : Draft) : Field → Bool
  | .cacheCapacity => d.cacheCapacity.isSome
  | .maxCodeSize => d.maxCodeSize.isSome
  | .enableCache => d.enableCache.isSome

def fill (d : Draft) : Field → Json.Outline → Except Fault Draft
  | .cacheCapacity, .number (.natural n) => .ok { d with cacheCapacity := some n }
  | .maxCodeSize, .number (.natural n) => .ok { d with maxCodeSize := some n }
  | .enableCache, .bool b => .ok { d with enableCache := some b }
  | .cacheCapacity, .number (.negative n) | .maxCodeSize, .number (.negative n) =>
    .error (.negative n)
  | f, found => .error (.mismatch found f.wanted)

/-- A field that was not given keeps its default. -/
def config (d : Draft) : Config where
  cacheCapacity := d.cacheCapacity.getD ({} : Config).cacheCapacity
  maxCodeSize := d.maxCodeSize.getD ({} : Config).maxCodeSize
  enableCache := d.enableCache.getD ({} : Config).enableCache

end Draft

end EvmJumps.Config
