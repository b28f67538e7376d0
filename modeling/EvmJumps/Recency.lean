namespace EvmJumps

/-- A bounded map whose entries are ordered by use, the latest first. A new entry in a full map
displaces the entry that was not used for longest. -/
structure Recency (κ α : Type) where
  capacity : Nat
  entries : List (κ × α) := []
  deriving DecidableEq, Repr

namespace Recency

def size (r : Recency κ α) : Nat :=
  r.entries.length

def isFull (r : Recency κ α) : Bool :=
  r.capacity ≤ r.size

/-- The keys in the order of their use. -/
def keys (r : Recency κ α) : List κ :=
  r.entries.map Prod.fst

/-- Puts an entry for a new key in front. -/
def push (r : Recency κ α) (k : κ) (v : α) : Recency κ α :=
  { r with entries := (k, v) :: r.entries.take (r.capacity - 1) }

def clear (r : Recency κ α) : Recency κ α :=
  { r with entries := [] }

theorem keys_push (r : Recency κ α) (k : κ) (v : α) :
    (r.push k v).keys = k :: r.keys.take (r.capacity - 1) := by
  simp [keys, push]

theorem size_push (r : Recency κ α) (k : κ) (v : α) :
    (r.push k v).size = min (r.capacity - 1) r.size + 1 := by
  simp [size, push]

variable [BEq κ]

def find? (r : Recency κ α) (k : κ) : Option α :=
  r.entries.lookup k

def contains (r : Recency κ α) (k : κ) : Bool :=
  (r.find? k).isSome

/-- Moves an entry to the front, if the key has one. -/
def touch (r : Recency κ α) (k : κ) : Recency κ α :=
  match r.find? k with
  | some v => { r with entries := (k, v) :: r.entries.filter fun entry => entry.1 != k }
  | none => r

variable [LawfulBEq κ]

theorem contains_iff {r : Recency κ α} {k : κ} : r.contains k ↔ k ∈ r.keys := by
  simp [contains, find?, keys, List.lookup_isSome_iff]

theorem touch_of_not_mem {r : Recency κ α} {k : κ} (absent : k ∉ r.keys) : r.touch k = r := by
  have missing : r.find? k = none := by
    cases found : r.find? k with
    | none => rfl
    | some v => exact absurd (contains_iff.mp (by simp [contains, found])) absent
  simp [touch, missing]

theorem keys_touch {r : Recency κ α} {k : κ} (held : k ∈ r.keys) :
    (r.touch k).keys = k :: r.keys.filter (· != k) := by
  obtain ⟨v, found⟩ := Option.isSome_iff_exists.mp (contains_iff.mpr held)
  simp [touch, found, keys, List.filter_map, Function.comp_def]

theorem find?_touch_self (r : Recency κ α) (k : κ) : (r.touch k).find? k = r.find? k := by
  cases found : r.find? k with
  | none => rw [touch, found, found]
  | some v =>
    rw [touch, found]
    simp [find?]

theorem find?_push_self (r : Recency κ α) (k : κ) (v : α) : (r.push k v).find? k = some v := by
  simp [push, find?]

end Recency

end EvmJumps
